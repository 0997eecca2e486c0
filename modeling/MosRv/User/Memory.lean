import MosRv.PageTransfer
import MosRv.User.Mappings

/-!
# User memory, page by page

Loads and stores of bytes that stay in one mapped page.  `Kernel.withPage` is the state with another
page in a frame; a store leads to such a state, and as the frame is no page table, no entry is
another one there.  `storeBytes_run` is the loop that stores bytes one after the other,
`storeTrapframe_run` and `loadTrapframe_run` are its two uses by the kernel, and `copyPage_run` is
`memcpy` of a page.
-/

namespace MosRv

open Prog

/-- Byte `x` of a page. -/
def pageByte (g : ℕ → Word) (x : ℕ) : BitVec 8 := Bits.byte (g (x / 4)) (x % 4)

/-- The page `f` holds `g`. -/
def Kernel.withPage (k : Kernel) (f : ℕ) (g : ℕ → Word) : Kernel :=
  { k with pm := { k.pm with mem := Function.update k.pm.mem f g } }

/-- `*(u_int *)va = w`, byte by byte. -/
def storeWord (va w : Word) : KernelM Unit :=
  Prog.forRange (fun i => storeByte (va + BitVec.ofNat 32 i) (Bits.byte w i)) 0 4

/-- `memcpy(dst, src, BY2PG)`, for the addresses of two pages: both are aligned, so it goes by
words. -/
def copyPage (dst src : Word) : KernelM Unit :=
  Prog.forRange (fun i => do
    let w ← loadWord (src + BitVec.ofNat 32 (4 * i))
    storeWord (dst + BitVec.ofNat 32 (4 * i)) w) 0 1024

/-- The page holds the trap frame at the offset `off`. -/
def HoldsFrame (g : ℕ → Word) (off : ℕ) (tf : Trapframe) : Prop :=
  ∀ i < TF_SIZE, pageByte g (off + i) = Bits.byte (tf.word (i / 4)) (i % 4)

section

variable {T : Template} {k : Kernel} {p f f' x i n : ℕ} {g g' : ℕ → Word}
    {va y w : Word} {b : BitVec 8}

/-! ## Words -/

/-- A word is its bytes. -/
lemma word_ext {a b : Word} (h : ∀ i < 4, Bits.byte a i = Bits.byte b i) : a = b := by
  rw [← Bits.bytes_append a, ← Bits.bytes_append b, h 0 (by decide), h 1 (by decide),
    h 2 (by decide),
    h 3 (by decide)]

/-- Loads of words that all succeed. -/
lemma loadWords_run {z : ℕ → Word} : ∀ (n i : ℕ) {c : ℕ → Word},
    (∀ j, i ≤ j → j < i + n → loadWord (va + BitVec.ofNat 32 (4 * j)) k = .ok (z j) k) →
    loadWords va n i c k = .ok (fun j => if i ≤ j ∧ j < i + n then z j else c j) k
  | 0, i, c, _ => by
      have hc : (fun j => if i ≤ j ∧ j < i + 0 then z j else c j) = c := by
        funext j
        rw [if_neg (by omega)]
      rw [hc]
      rfl
  | n + 1, i, c, h => by
      have hwp : wp (loadWords va (n + 1) i c) k (fun a k' =>
          a = (fun j => if i ≤ j ∧ j < i + (n + 1) then z j else c j) ∧ k' = k) (fun _ _ => False)
          fun _ => False := by
        rw [loadWords, wp_bind, wp_of_ok (h i le_rfl (by omega)),
          wp_of_ok (loadWords_run n (i + 1) fun j hj hlt => h j (by omega) (by omega))]
        refine ⟨?_, rfl⟩
        funext j
        by_cases hji : j = i
        · rw [hji, if_neg (by omega), if_pos (by omega), Function.update_self]
        · have hiff : i + 1 ≤ j ∧ j < i + 1 + n ↔ i ≤ j ∧ j < i + (n + 1) := by omega
          rw [Function.update_of_ne hji]
          simp only [hiff]
      obtain ⟨a, k', hrun, rfl, rfl⟩ := hwp.exists_ok
      exact hrun

lemma ofWords_word (tf : Trapframe) :
    Trapframe.ofWords (fun j => if 0 ≤ j ∧ j < 0 + TF_SIZE / 4 then tf.word j else 0#32) = tf := by
  have hsize : TF_SIZE / 4 = 36 := rfl
  have hreg : ∀ r : Fin 32, (if 0 ≤ r.val ∧ r.val < 0 + TF_SIZE / 4 then tf.word r.val else 0#32) =
      tf.regs r := by
    intro r
    have hr := r.isLt
    rw [if_pos (by omega), Trapframe.word, dif_pos hr]
  rw [Trapframe.ofWords]
  simp only [hreg]
  rfl

/-! ## The state with another page -/

@[simp] lemma withPage_mem_self : (k.withPage f g).pm.mem f = g := by simp [Kernel.withPage]

lemma withPage_mem_of_ne (h : f' ≠ f) : (k.withPage f g).pm.mem f' = k.pm.mem f' := by
  simp [Kernel.withPage, h]

@[simp] lemma withPage_withPage : (k.withPage f g).withPage f g' = k.withPage f g' := by
  rw [Kernel.withPage, Kernel.withPage, Kernel.withPage]
  simp

lemma withPage_self : k.withPage f (k.pm.mem f) = k := by
  rw [Kernel.withPage, Function.update_eq_self]

/-- A store of a byte is another page. -/
lemma setByte_eq_withPage (k : Kernel) (f x : ℕ) (b : BitVec 8) :
    ({ k with pm := k.pm.setByte f x b } : Kernel) =
      k.withPage f ((k.pm.setByte f x b).mem f) := by
  have hupdate : (k.pm.setByte f x b).mem =
      Function.update k.pm.mem f ((k.pm.setByte f x b).mem f) := by
    funext f'
    by_cases hf : f' = f
    · rw [hf, Function.update_self]
    · rw [Function.update_of_ne hf]
      exact Pmap.write_mem_of_ne _ _ _ hf
  rw [Kernel.withPage, ← hupdate]
  rfl

section

variable (hgap : T.gap = true) (hf : ¬ k.IsTable f)
include hgap hf

lemma slotWord_withPage :
    slotWord T.own (k.withPage f g).dirs (k.withPage f g).pm = slotWord T.own k.dirs k.pm := by
  refine slotWord_congr fun f' htable => withPage_mem_of_ne ?_
  rintro rfl
  rw [Kernel.IsTable, ← Template.own_eq hgap] at hf
  exact hf htable

/-- Every entry is the same. -/
lemma entry_withPage {e : ℕ} (he : k.Live e) (hy : IsOwnVa y) :
    (k.withPage f g).entry e y = k.entry e y := by
  have he' : (k.withPage f g).dirs e = some (k.envs e).envPgdir := he.dirs
  rw [Kernel.entry, Kernel.entry, entryAt_eq_slotWord (hy.own hgap) he.dirs,
    ← slotWord_withPage hgap hf, ← entryAt_eq_slotWord (hy.own hgap) he']
  rfl

lemma isTable_withPage : (k.withPage f g).IsTable f' ↔ k.IsTable f' := by
  rw [Kernel.IsTable, Kernel.IsTable, ← Template.own_eq hgap]
  refine exists_congr fun s => and_congr_right fun _ => ?_
  rw [target_congr (slotWord_withPage hgap hf)]
  rfl

end

lemma KInv.withPage (hk : KInv T k) (hgap : T.gap = true) (hf : k.Maps f) :
    KInv T (k.withPage f g) := by
  refine hk.setPm (hk.pages.scribble rfl rfl rfl fun f' hne => ?_)
  obtain rfl : f' = f := by
    by_contra hff
    exact hne (withPage_mem_of_ne hff)
  refine ⟨hf.mem_pool hk hgap, ?_⟩
  have hnot := hf.not_isTable hk hgap
  rwa [Kernel.IsTable, ← Template.own_eq hgap] at hnot

/-! ## Bytes -/

/-- A few bytes on, in the same page. -/
lemma page_add (va : Word) (i : ℕ) (h : va.toNat % 4096 + i < 4096) :
    VPN (va + BitVec.ofNat 32 i) = VPN va ∧
      (va + BitVec.ofNat 32 i).toNat % 4096 = va.toNat % 4096 + i := by
  have hnat : (va + BitVec.ofNat 32 i).toNat = va.toNat + i := by
    rw [BitVec.toNat_add, BitVec.toNat_ofNat]
    omega
  rw [← BitVec.toNat_inj, VPN_toNat, VPN_toNat, hnat]
  omega

lemma entry_of_VPN {e : ℕ} (h : VPN va = VPN y) : k.entry e va = k.entry e y := entryAt_of_VPN h

lemma isOwnVa_of_VPN (h : VPN va = VPN y) (hy : IsOwnVa y) : IsOwnVa va := by
  rw [IsOwnVa, ((VPN_eq_iff va y).mp h).1]
  exact hy

lemma userByte_entry (hw : k.entry p va = some w) :
    k.pm.userByte (k.envs p).envPgdir va =
      some (pageByte (k.pm.mem (pteFrame w)) (va.toNat % 4096)) := by
  have hw' : k.pm.entryAt (k.envs p).envPgdir va = some w := hw
  rw [Pmap.userByte, hw', Option.map_some, pageByte,
    show va.toNat % 4096 % 4 = va.toNat % 4 by omega]

section

variable (hk : KInv T k) (hcur : k.curenv = some p)
include hk hcur

/-- A load of a word from a mapped page. -/
lemma loadWord_run (hw : k.entry p va = some w) (hroom : va.toNat % 4096 + 4 ≤ 4096) {z : Word}
    (hz : ∀ i < 4, pageByte (k.pm.mem (pteFrame w)) (va.toNat % 4096 + i) = Bits.byte z i) :
    loadWord va k = .ok z k := by
  refine run_loadWord (Kernel.curPgdir_of_cur hk hcur) fun i hi => ?_
  obtain ⟨hvpn, hoff⟩ := page_add va i (by omega)
  rw [userByte_entry ((entry_of_VPN hvpn).trans hw), hoff, hz i hi]

/-- A store to a page that is mapped for writing. -/
lemma storeByte_run (hw : k.entry p va = some w) (hW : HasFlag w PTE_W) (b : BitVec 8) :
    ∃ g, storeByte va b k = .ok () (k.withPage (pteFrame w) g) ∧
      (va < ULIM → HasFlag w PTE_U → Step k (.store va b) (k.withPage (pteFrame w) g)) ∧
      ∀ x, pageByte g x =
        if x = va.toNat % 4096 then b else pageByte (k.pm.mem (pteFrame w)) x := by
  have hdir := Kernel.curPgdir_of_cur hk hcur
  have hw' : k.pm.entryAt (k.envs p).envPgdir va = some w := hw
  have hmem := setByte_eq_withPage k (pteFrame w) (va.toNat % 4096) b
  have hwp : wp (storeByte va b) k (fun _ k' =>
      k' = { k with pm := k.pm.setByte (pteFrame w) (va.toNat % 4096) b }) (fun _ _ => False)
      fun _ => False := by
    rw [storeByte, wp_bind, wp_getCurPgdir]
    refine ⟨fun d hd => ?_, fun hno => absurd (hdir.symm.trans hno) (by simp)⟩
    obtain rfl := Option.some.inj (hdir.symm.trans hd)
    rw [wp_bind, faultIn, wp_bind, wp_get, if_neg (by simp [hw']), wp_pure, storeMapped,
      wp_bind, wp_get,
      hw']
    dsimp only
    rw [if_pos hW, wp_liftPm, wp_modify]
  obtain ⟨u, k', hrun, rfl⟩ := hwp.exists_ok
  refine ⟨_, hmem ▸ hrun, fun hva hU => ⟨⟨by simp [hcur], hva, _, w, hdir, hw', hW, hU⟩, .inl ?_⟩,
    fun x => frameByte_setByte k.pm (pteFrame w) (va.toNat % 4096) x b⟩
  have hprog : wp (Event.store va b).prog k (fun _ k' =>
      k' = { k with pm := k.pm.setByte (pteFrame w) (va.toNat % 4096) b }) (fun _ _ => False)
      fun _ => False := by
    rw [Event.prog, wp_bind, wp_getCurPgdir]
    refine ⟨fun d hd => ?_, fun hno => absurd (hdir.symm.trans hno) (by simp)⟩
    obtain rfl := Option.some.inj (hdir.symm.trans hd)
    rw [wp_bind, wp_get, hw']
    dsimp only
    rw [wp_liftPm, wp_modify]
  obtain ⟨u, k', hstore, rfl⟩ := hprog.exists_ok
  rw [hstore, hmem]

/-- **Bytes are stored one after the other.** -/
lemma storeBytes_run (hgap : T.gap = true) (hva : IsOwnVa va) (hw : k.entry p va = some w)
    (hW : HasFlag w PTE_W) (b : ℕ → BitVec 8) (hroom : va.toNat % 4096 + n ≤ 4096) :
    ∃ g, Prog.forRange (fun i => storeByte (va + BitVec.ofNat 32 i) (b i)) 0 n k =
        .ok () (k.withPage (pteFrame w) g) ∧
      (va < UTOP → HasFlag w PTE_U → k.Leads (k.withPage (pteFrame w) g)) ∧ ∀ x, pageByte g x =
        if va.toNat % 4096 ≤ x ∧ x < va.toNat % 4096 + n then b (x - va.toNat % 4096)
        else pageByte (k.pm.mem (pteFrame w)) x := by
  have hlive := Kernel.live_of_cur hk hcur
  have hmaps : k.Maps (pteFrame w) := ⟨p, va, w, hlive, hva, hw, rfl⟩
  have hnot := hmaps.not_isTable hk hgap
  have hloop : wp (Prog.forRange (fun i => storeByte (va + BitVec.ofNat 32 i) (b i)) 0 n) k _
      (fun _ _ => False) fun _ => False := wp_forRange
    (fun i k' => ∃ g, k' = k.withPage (pteFrame w) g ∧
      (va < UTOP → HasFlag w PTE_U → k.Leads (k.withPage (pteFrame w) g)) ∧ ∀ x, pageByte g x =
        if va.toNat % 4096 ≤ x ∧ x < va.toNat % 4096 + i then b (x - va.toNat % 4096)
        else pageByte (k.pm.mem (pteFrame w)) x) n 0 ?_ ?_
  · obtain ⟨u, k', hrun, g, rfl, hleads, hg⟩ := hloop.exists_ok
    rw [Nat.zero_add] at hg
    exact ⟨g, hrun, hleads, hg⟩
  · refine ⟨_, withPage_self.symm, fun _ _ => ?_, fun x => (if_neg (by omega)).symm⟩
    rw [withPage_self]
    exact .refl
  · rintro i - - hi ⟨g, rfl, hleads, hg⟩
    rw [Nat.zero_add] at hi
    obtain ⟨hvpn, hoff⟩ := page_add va i (by omega)
    have hw' : (k.withPage (pteFrame w) g).entry p (va + BitVec.ofNat 32 i) = some w := by
      rw [entry_withPage hgap hnot hlive (isOwnVa_of_VPN hvpn hva), entry_of_VPN hvpn, hw]
    obtain ⟨g', hrun, hstep, hg'⟩ := storeByte_run (hk.withPage hgap hmaps) hcur hw' hW (b i)
    rw [wp_of_ok hrun]
    refine ⟨g', withPage_withPage, fun hlt hU => ?_, fun x => ?_⟩
    · have hlt' : va + BitVec.ofNat 32 i < ULIM := by
        have hT : UTOP.toNat = 0x7f400000 := by decide
        rw [← BitVec.toNat_inj, VPN_toNat, VPN_toNat] at hvpn
        rw [BitVec.lt_def, hT] at hlt
        rw [BitVec.lt_def, ULIM_toNat]
        omega
      rw [← withPage_withPage (g := g)]
      exact (hleads hlt hU).trans (.of_step (.store _ (b i)) trivial (hstep hlt' hU))
    rw [hg' x, withPage_mem_self, hg x, hoff]
    by_cases hx : x = va.toNat % 4096 + i
    · rw [if_pos hx, if_pos (by omega), hx, Nat.add_sub_cancel_left]
    · have hiff : va.toNat % 4096 ≤ x ∧ x < va.toNat % 4096 + (i + 1) ↔
          va.toNat % 4096 ≤ x ∧ x < va.toNat % 4096 + i := by omega
      rw [if_neg hx]
      simp only [hiff]

/-! ## Trap frames -/

lemma storeTrapframe_run (hgap : T.gap = true) (hva : IsOwnVa va) (hw : k.entry p va = some w)
    (hW : HasFlag w PTE_W) (tf : Trapframe) (hroom : va.toNat % 4096 + TF_SIZE ≤ 4096) :
    ∃ g, storeTrapframe va tf k = .ok () (k.withPage (pteFrame w) g) ∧
      HoldsFrame g (va.toNat % 4096) tf := by
  obtain ⟨g, hrun, -, hg⟩ := storeBytes_run hk hcur hgap hva hw hW
    (fun i => Bits.byte (tf.word (i / 4)) (i % 4)) hroom
  refine ⟨g, hrun, fun i hi => ?_⟩
  rw [hg, if_pos (by omega), Nat.add_sub_cancel_left]

/-- The frame that is there is loaded. -/
lemma loadTrapframe_run (hw : k.entry p va = some w) {tf : Trapframe}
    (hroom : va.toNat % 4096 + TF_SIZE ≤ 4096)
    (hframe : HoldsFrame (k.pm.mem (pteFrame w)) (va.toNat % 4096) tf) :
    loadTrapframe va k = .ok tf k := by
  have hsize : TF_SIZE = 144 := rfl
  have hword : ∀ j, 0 ≤ j → j < 0 + TF_SIZE / 4 →
      loadWord (va + BitVec.ofNat 32 (4 * j)) k = .ok (tf.word j) k := by
    intro j _ hj
    obtain ⟨hvpn, hoff⟩ := page_add va (4 * j) (by omega)
    refine loadWord_run hk hcur ((entry_of_VPN hvpn).trans hw) (by omega) fun i hi => ?_
    rw [hoff, Nat.add_assoc, hframe (4 * j + i) (by omega), show (4 * j + i) / 4 = j by omega,
      show (4 * j + i) % 4 = i by omega]
  have hwp : wp (loadTrapframe va) k (fun a k' => a = tf ∧ k' = k) (fun _ _ => False)
      fun _ => False := by
    rw [loadTrapframe, wp_bind, wp_of_ok (loadWords_run _ _ hword)]
    exact ⟨ofWords_word tf, rfl⟩
  obtain ⟨a, k', hrun, rfl, rfl⟩ := hwp.exists_ok
  exact hrun

/-! ## Copying a page -/

/-- **`memcpy` of a page** into another one. -/
lemma copyPage_run (hgap : T.gap = true) {dst src wd ws : Word} (hlt : dst < UTOP)
    (hsrc : IsOwnVa src) (hd0 : dst.toNat % 4096 = 0) (hs0 : src.toNat % 4096 = 0)
    (hwd : k.entry p dst = some wd) (hws : k.entry p src = some ws) (hW : HasFlag wd PTE_W)
    (hU : HasFlag wd PTE_U) (hne : pteFrame ws ≠ pteFrame wd) :
    ∃ g, copyPage dst src k = .ok () (k.withPage (pteFrame wd) g) ∧
      k.Leads (k.withPage (pteFrame wd) g) ∧ ∀ i < 1024, g i = k.pm.mem (pteFrame ws) i := by
  have hlive := Kernel.live_of_cur hk hcur
  have hdst := isOwnVa_of_lt hlt
  have hmaps : k.Maps (pteFrame wd) := ⟨p, dst, wd, hlive, hdst, hwd, rfl⟩
  have hnot := hmaps.not_isTable hk hgap
  have hloop : wp (copyPage dst src) k _ (fun _ _ => False) fun _ => False := wp_forRange
    (fun i k' => ∃ g, k' = k.withPage (pteFrame wd) g ∧ k.Leads (k.withPage (pteFrame wd) g) ∧
      ∀ j < i, g j = k.pm.mem (pteFrame ws) j) 1024 0 ⟨_, withPage_self.symm, ?_, by simp⟩ ?_
  · obtain ⟨u, k', hrun, g, rfl, hleads, hg⟩ := hloop.exists_ok
    exact ⟨g, hrun, hleads, hg⟩
  · rw [withPage_self]
    exact .refl
  · rintro i - - hi ⟨g, rfl, hleads, hg⟩
    have hk' := hk.withPage (g := g) hgap hmaps
    obtain ⟨hvs, hos⟩ := page_add src (4 * i) (by omega)
    obtain ⟨hvd, hod⟩ := page_add dst (4 * i) (by omega)
    have hentry : ∀ {y z : Word}, IsOwnVa y → VPN z = VPN y →
        (k.withPage (pteFrame wd) g).entry p z = k.entry p y := by
      intro y z hy hz
      rw [entry_withPage hgap hnot hlive (isOwnVa_of_VPN hz hy), entry_of_VPN hz]
    have hload : loadWord (src + BitVec.ofNat 32 (4 * i)) (k.withPage (pteFrame wd) g) =
        .ok (k.pm.mem (pteFrame ws) i) (k.withPage (pteFrame wd) g) := by
      refine loadWord_run hk' hcur ((hentry hsrc hvs).trans hws) (by omega) fun j hj => ?_
      rw [withPage_mem_of_ne hne, hos, pageByte,
        show (src.toNat % 4096 + 4 * i + j) / 4 = i by omega,
        show (src.toNat % 4096 + 4 * i + j) % 4 = j by omega]
    obtain ⟨g', hrun, hleads', hg'⟩ :=
      storeBytes_run (n := 4) hk' hcur hgap (isOwnVa_of_VPN hvd hdst)
      ((hentry hdst hvd).trans hwd) hW (Bits.byte (k.pm.mem (pteFrame ws) i)) (by omega)
    have hlt' : dst + BitVec.ofNat 32 (4 * i) < UTOP := by
      have hT : UTOP.toNat = 0x7f400000 := by decide
      rw [← BitVec.toNat_inj, VPN_toNat, VPN_toNat] at hvd
      rw [BitVec.lt_def, hT] at hlt ⊢
      omega
    have hleads'' := hleads.trans (hleads' hlt' hU)
    rw [withPage_withPage] at hleads''
    rw [wp_bind, wp_of_ok hload, storeWord, wp_of_ok hrun]
    refine ⟨g', withPage_withPage, hleads'', fun j hj => word_ext fun b hb => ?_⟩
    have hbyte := hg' (4 * j + b)
    rw [withPage_mem_self, hod] at hbyte
    simp only [pageByte, show (4 * j + b) / 4 = j by omega,
      show (4 * j + b) % 4 = b by omega] at hbyte
    rw [hbyte]
    by_cases hji : j = i
    · rw [if_pos (by omega), hji]
      congr 1
      omega
    · rw [if_neg (by omega), hg j (by omega)]

end

end

end MosRv
