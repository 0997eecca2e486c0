import MosRv.Failures

/-!
# The page-table window (`query_vpt`, `vpt`, `vpd`, `pageref`)

A user program reads its page tables through `vpt` and `vpd`, at `UVPT`.  Nothing is mapped there:
the load faults, and `query_vpt` finds the entry and emulates the load.  `Kernel.Loads` says what
the program gets to see, whichever way its load goes; `window_agrees` compares it with the page
tables.

The emulation is right for every entry.  It is not reached where a page has been mapped in the
window (a store that faults there does that): the load then reads that page.

The test for a mapping that user code makes, and `pageref`, load through the two windows as well, so
a page in the window can mislead them (`Pmap.Misleads`, `Pmap.Miscounts`).
-/

namespace MosRv

open Prog Reach RefGraph

/-! ## Loads -/

/-- The word that a load of the running program finds in memory, where a page is mapped for it. -/
def Pmap.readable (m : Pmap) (d : ℕ) (va : Word) : Option Word :=
  (m.entryAt d va).bind fun e =>
    if HasFlag e PTE_U ∧ HasFlag e PTE_R then some (m.mem (pteFrame e) (va.toNat % 4096 / 4))
    else none

/-- `lw rd, …` at the address `va`, by the program whose registers are `tf`: it reads memory, or it
traps and the handler comes back.  Register 0 is a word of the frame like the others; that `x0`
drops what is put into it comes after. -/
def Kernel.userLoad (k : Kernel) (tf : Trapframe) (rd : Fin 32) (va : Word) :
    Option (Kernel × Trapframe) :=
  match k.curPgdir.bind fun d => k.pm.readable d va with
  | some w => some (k, { tf.setReg rd w with epc := tf.epc + 4#32 })
  | none =>
      match trap { tf with cause := CAUSE_FAULT_LOAD, badvaddr := va } k with
      | .ok () k' => some (k', k'.ktf)
      | _ => none

/-- **The load puts `w` into `rd`**, the program goes on with the next instruction, and nothing else
has changed. -/
def Kernel.Loads (k : Kernel) (tf : Trapframe) (rd : Fin 32) (va w : Word) : Prop :=
  ∃ k' f, k.userLoad tf rd va = some (k', f) ∧ f.regs = (tf.setReg rd w).regs ∧
    f.epc = tf.epc + 4#32 ∧ f.status = tf.status ∧ k' = { k with ktf := k'.ktf }

/-- The instruction at `epc` is `lw rd, …`. -/
structure Kernel.AtLw (k : Kernel) (d : ℕ) (tf : Trapframe) (rd : Fin 32)
    (instr : Word) : Prop where
  fetch : ∀ i < 4, k.pm.userByte d (tf.epc + BitVec.ofNat 32 i) = some (Bits.byte instr i)
  opcode : instr &&& 0b1111111#32 = 0b0000011#32
  funct3 : (instr >>> 12) &&& 0b111#32 = 0b010#32
  rd_eq : rd = Fin.ofNat 32 (instr >>> 7).toNat

/-- `&vpt[vpn]`. -/
def vpt (vpn : Word) : Word := UVPT + 4#32 * vpn

/-- `&vpd[i]`. -/
def vpd (i : Word) : Word := UVPT + (BitVec.ofNat 32 (PDX UVPT) <<< 12) + 4#32 * i

/-- The entry that `pgdir_walk` points to, or 0. -/
def Pmap.pteAt (m : Pmap) (d : ℕ) (va : Word) : Word := m.at? (m.walk d va)

section

variable {k : Kernel} {d : ℕ} {tf : Trapframe} {rd : Fin 32} {instr va w vpn : Word} {m : Pmap}

/-- A fetch from a mapped page. -/
lemma run_loadWord (hd : k.curPgdir = some d)
    (h : ∀ i < 4, k.pm.userByte d (va + BitVec.ofNat 32 i) = some (Bits.byte w i)) :
    loadWord va k = .ok w k := by
  have hbyte : ∀ i < 4, loadByte (va + BitVec.ofNat 32 i) k = .ok (Bits.byte w i) k := by
    intro i hi
    have hwp : wp (loadByte (va + BitVec.ofNat 32 i)) k
        (fun b k' => b = Bits.byte w i ∧ k' = k) (fun _ _ => False) fun _ => False := by
      rw [loadByte, wp_bind, wp_getCurPgdir]
      refine ⟨fun d' hd' => ?_, fun hno => absurd (hd.symm.trans hno) (by simp)⟩
      obtain rfl := Option.some.inj (hd.symm.trans hd')
      rw [wp_bind, wp_get, h i hi]
      exact ⟨rfl, rfl⟩
    obtain ⟨b, k', hrun, rfl, rfl⟩ := hwp.exists_ok
    exact hrun
  have hwp : wp (loadWord va) k (fun x k' => x = w ∧ k' = k) (fun _ _ => False)
      fun _ => False := by
    have hwp_byte : ∀ (i : ℕ) {Q : BitVec 8 → Kernel → Prop}, i < 4 → Q (Bits.byte w i) k →
        wp (loadByte (va + BitVec.ofNat 32 i)) k Q (fun _ _ => False) fun _ => False := by
      intro i Q hi hQ
      rw [wp, hbyte i hi]
      exact hQ
    have hwp_first : ∀ {Q : BitVec 8 → Kernel → Prop}, Q (Bits.byte w 0) k →
        wp (loadByte va) k Q (fun _ _ => False) fun _ => False := fun hQ => by
      simpa using hwp_byte 0 (by decide) hQ
    rw [loadWord, wp_bind]
    refine hwp_first ?_
    rw [wp_bind]
    refine hwp_byte 1 (by decide) ?_
    rw [wp_bind]
    refine hwp_byte 2 (by decide) ?_
    rw [wp_bind]
    refine hwp_byte 3 (by decide) ?_
    exact ⟨Bits.bytes_append w, rfl⟩
  obtain ⟨x, k', hrun, rfl, rfl⟩ := hwp.exists_ok
  exact hrun

/-! ## The two windows -/

lemma vptVa_vpt (h : vpn < VPN UVPT) : vptVa (vpt vpn) = vpn <<< 12 := by
  have hvpn : vpn.toNat < 0x7fc00 := h
  have hU : UVPT.toNat = 0x7fc00000 := by decide
  apply BitVec.eq_of_toNat_eq
  simp only [vptVa, vpt, BitVec.toNat_shiftLeft, BitVec.toNat_add, BitVec.toNat_mul, hU,
    Nat.shiftLeft_eq, BitVec.toNat_ofNat]
  omega

lemma vpt_inWindow (h : vpn < VPN UVPT) : UVPT ≤ vpt vpn ∧ vpt vpn < ULIM := by
  have hvpn : vpn.toNat < 0x7fc00 := h
  have hU : UVPT.toNat = 0x7fc00000 := by decide
  rw [BitVec.le_def, BitVec.lt_def, ULIM_toNat, vpt, BitVec.toNat_add, BitVec.toNat_mul, hU,
    BitVec.toNat_ofNat]
  omega

lemma vpt_va_lt (h : vpn < VPN UVPT) : vpn <<< 12 < UVPT := by
  have hvpn : vpn.toNat < 0x7fc00 := h
  have hU : UVPT.toNat = 0x7fc00000 := by decide
  rw [BitVec.lt_def, hU, BitVec.toNat_shiftLeft, Nat.shiftLeft_eq]
  omega

lemma vpd_toNat {i : ℕ} (h : i < 1024) : (vpd (BitVec.ofNat 32 i)).toNat = 0x7fdff000 + 4 * i := by
  have hbase : UVPT + (BitVec.ofNat 32 (PDX UVPT) <<< 12) = 0x7fdff000#32 := by decide
  rw [vpd, hbase, BitVec.toNat_add, BitVec.toNat_mul, BitVec.toNat_ofNat, BitVec.toNat_ofNat,
    BitVec.toNat_ofNat]
  omega

lemma vpd_inWindow {i : ℕ} (h : i < 1024) :
    UVPT ≤ vpd (BitVec.ofNat 32 i) ∧ vpd (BitVec.ofNat 32 i) < ULIM := by
  have hU : UVPT.toNat = 0x7fc00000 := by decide
  rw [BitVec.le_def, BitVec.lt_def, ULIM_toNat, vpd_toNat h, hU]
  omega

lemma vptVa_vpd {i : ℕ} (h : i < 1024) :
    (vptVa (vpd (BitVec.ofNat 32 i))).toNat = 0x7fc00000 + 4096 * i := by
  rw [vptVa, BitVec.toNat_shiftLeft, Nat.shiftLeft_eq, vpd_toNat h]
  omega

/-- **`query_vpt` emulates the load** of a `lw`, in any state. -/
lemma run_queryVpt (hd : k.curPgdir = some d) (hlw : k.AtLw d tf rd instr)
    (hcause : tf.cause = CAUSE_FAULT_LOAD) (hwindow : UVPT ≤ tf.badvaddr ∧ tf.badvaddr < ULIM)
    {pos : Option (ℕ × ℕ)}
    (hpos : ∀ k₁ : Kernel, k₁.pm = k.pm → vptEntry d (vptVa tf.badvaddr) k₁ = .ok pos k₁) :
    trap tf k = .ok () { k with ktf :=
      { tf.setReg rd (k.pm.at? pos) with epc := tf.epc + 4#32 } } := by
  have hfetch : loadWord tf.epc { k with ktf := tf } = .ok instr { k with ktf := tf } :=
    run_loadWord (d := d) hd hlw.fetch
  have hwp : wp (trap tf) k (fun _ k' => k' = { k with ktf :=
      { tf.setReg rd (k.pm.at? pos) with epc := tf.epc + 4#32 } }) (fun _ _ => False)
      fun _ => False := by
    have hlow : ¬ (0x80000000#32 ≤ tf.cause) := by
      rw [hcause]
      decide
    rw [trap, wp_bind, wp_modify, trapsDispatch, wp_bind, wp_get, if_neg hlow, exceptionHandler,
      wp_bind, wp_get]
    simp only [hcause]
    rw [if_neg (by decide), if_neg (by decide), if_pos trivial, if_pos hwindow, queryVpt, wp_bind,
      wp_get, wp_bind, wp_of_ok hfetch, if_neg (not_not.mpr hlw.opcode),
      if_neg (not_not.mpr hlw.funct3), wp_bind, wp_get]
    split
    · rename_i hno
      exact absurd (hd.symm.trans hno) (by simp)
    · rename_i d' hd'
      obtain rfl := Option.some.inj (hd.symm.trans hd')
      rw [wp_bind, wp_of_ok (hpos { k with ktf := tf } rfl), wp_modify, hlw.rd_eq]
  obtain ⟨_, k', hrun, rfl⟩ := hwp.exists_ok
  exact hrun

lemma vptEntry_of_lt (h : va < UVPT) (k₁ : Kernel) :
    vptEntry d va k₁ = .ok (k₁.pm.walk d va) k₁ := by
  have hwp : wp (vptEntry d va) k₁ (fun r k' => r = k₁.pm.walk d va ∧ k' = k₁) (fun _ _ => False)
      fun _ => False := by
    rw [vptEntry, if_neg fun hc => absurd h (BitVec.not_lt.mpr hc.1), if_pos h, wp_liftPm,
      wp_pgdirWalk_false]
    exact ⟨rfl, rfl⟩
  obtain ⟨r, k', hrun, rfl, rfl⟩ := hwp.exists_ok
  exact hrun

lemma vptEntry_of_window (h : UVPT ≤ va ∧ va < ULIM) (k₁ : Kernel) :
    vptEntry d va k₁ = .ok (some (d, PTX va)) k₁ := by
  rw [vptEntry, if_pos h]
  rfl

/-- What is mapped at `va` in the window itself, if anything, is not `w`. -/
def Pmap.Hides (m : Pmap) (d : ℕ) (va w : Word) : Prop := ∃ w', m.readable d va = some w' ∧ w' ≠ w

/-- What a load at the address `va` of the window finds: a page that is mapped there, or else the
entry at `pos`, which `query_vpt` looks up. -/
def Kernel.windowWord (k : Kernel) (d : ℕ) (va : Word) (pos : Option (ℕ × ℕ)) : Word :=
  (k.pm.readable d va).getD (k.pm.at? pos)

/-- `vpd[i]`. -/
def Kernel.vpdWord (k : Kernel) (d i : ℕ) : Word :=
  k.windowWord d (vpd (BitVec.ofNat 32 i)) (some (d, i))

/-- `vpt[vpn]`. -/
def Kernel.vptWord (k : Kernel) (d vpn : ℕ) : Word :=
  k.windowWord d (vpt (BitVec.ofNat 32 vpn)) (k.pm.walk d (BitVec.ofNat 32 vpn <<< 12))

lemma windowWord_eq_iff {pos : Option (ℕ × ℕ)} :
    k.windowWord d va pos = k.pm.at? pos ↔ ¬ k.pm.Hides d va (k.pm.at? pos) := by
  rw [Kernel.windowWord]
  cases hr : k.pm.readable d va with
  | none => exact iff_of_true rfl fun ⟨w', hw', _⟩ => absurd (hr.symm.trans hw') nofun
  | some w' =>
      refine ⟨fun h hhides => ?_, fun h => ?_⟩
      · obtain ⟨w'', hw'', hne⟩ := hhides
        obtain rfl := Option.some.inj (hr.symm.trans hw'')
        exact hne h
      · by_contra hne
        exact h ⟨w', hr, hne⟩

/-- A load from a page that hides the entry. -/
lemma not_loads_of_hides (hd : k.curPgdir = some d) (h : k.pm.Hides d va w) :
    ¬ k.Loads tf rd va w := by
  obtain ⟨w', hr, hne⟩ := h
  have hload : k.userLoad tf rd va = some (k, { tf.setReg rd w' with epc := tf.epc + 4#32 }) := by
    have hbind : (k.curPgdir.bind fun d => k.pm.readable d va) = k.pm.readable d va := by
      rw [hd]
      rfl
    rw [Kernel.userLoad, hbind, hr]
  rintro ⟨k', f, hrun, hregs, -⟩
  cases hload.symm.trans hrun
  have hreg := congrFun hregs rd
  simp only [Trapframe.setReg, Function.update_self] at hreg
  exact hne hreg

/-- A load puts one word into its register. -/
lemma Kernel.Loads.unique {w' : Word} (h : k.Loads tf rd va w) (h' : k.Loads tf rd va w') :
    w = w' := by
  obtain ⟨k₁, f, hrun, hregs, -⟩ := h
  obtain ⟨k₂, f', hrun', hregs', -⟩ := h'
  cases hrun.symm.trans hrun'
  have hreg := congrFun (hregs.symm.trans hregs') rd
  simpa only [Trapframe.setReg, Function.update_self] using hreg

/-- **What a load in the window yields**, by any `lw`. -/
lemma loads_windowWord (hd : k.curPgdir = some d) (hlw : k.AtLw d tf rd instr)
    (hwindow : UVPT ≤ va ∧ va < ULIM) {pos : Option (ℕ × ℕ)}
    (hpos : ∀ k₁ : Kernel, k₁.pm = k.pm → vptEntry d (vptVa va) k₁ = .ok pos k₁) :
    k.Loads tf rd va (k.windowWord d va pos) := by
  have hbind : (k.curPgdir.bind fun d => k.pm.readable d va) = k.pm.readable d va := by
    rw [hd]
    rfl
  rw [Kernel.windowWord]
  cases hr : k.pm.readable d va with
  | none =>
      have hlw' : k.AtLw d { tf with cause := CAUSE_FAULT_LOAD, badvaddr := va } rd instr :=
        ⟨hlw.fetch, hlw.opcode, hlw.funct3, hlw.rd_eq⟩
      have hrun := run_queryVpt hd hlw' rfl hwindow hpos
      have hload : ∃ f, k.userLoad tf rd va = some ({ k with ktf := f }, f) ∧
          f = { { tf with cause := CAUSE_FAULT_LOAD, badvaddr := va }.setReg rd (k.pm.at? pos) with
            epc := tf.epc + 4#32 } := by
        refine ⟨_, ?_, rfl⟩
        rw [Kernel.userLoad, hbind, hr]
        simp only [hrun]
      obtain ⟨f, hload, rfl⟩ := hload
      exact ⟨_, _, hload, rfl, rfl, rfl, rfl⟩
  | some w' =>
      have hload : k.userLoad tf rd va = some
          (k, { tf.setReg rd w' with epc := tf.epc + 4#32 }) := by
        rw [Kernel.userLoad, hbind, hr]
      exact ⟨k, _, hload, rfl, rfl, rfl, rfl⟩

lemma loads_vpd (hd : k.curPgdir = some d) (hlw : k.AtLw d tf rd instr) {i : ℕ} (hi : i < 1024) :
    k.Loads tf rd (vpd (BitVec.ofNat 32 i)) (k.vpdWord d i) := by
  have hva := vptVa_vpd hi
  have hwindow : UVPT ≤ vptVa (vpd (BitVec.ofNat 32 i)) ∧
      vptVa (vpd (BitVec.ofNat 32 i)) < ULIM := by
    have hU : UVPT.toNat = 0x7fc00000 := by decide
    rw [BitVec.le_def, BitVec.lt_def, ULIM_toNat, hva, hU]
    omega
  have hptx : PTX (vptVa (vpd (BitVec.ofNat 32 i))) = i := by
    rw [PTX_eq, hva]
    omega
  refine loads_windowWord hd hlw (vpd_inWindow hi) fun k₁ _ => ?_
  rw [vptEntry_of_window hwindow, hptx]

lemma vptWord_toNat (vpn : Word) :
    k.vptWord d vpn.toNat = k.windowWord d (vpt vpn) (k.pm.walk d (vpn <<< 12)) := by
  rw [Kernel.vptWord, BitVec.ofNat_toNat, BitVec.setWidth_eq]

lemma loads_vpt (hd : k.curPgdir = some d) (hlw : k.AtLw d tf rd instr) (hvpn : vpn < VPN UVPT) :
    k.Loads tf rd (vpt vpn) (k.vptWord d vpn.toNat) := by
  rw [vptWord_toNat]
  refine loads_windowWord hd hlw (vpt_inWindow hvpn) fun k₁ hpm => ?_
  rw [vptVa_vpt hvpn, vptEntry_of_lt (vpt_va_lt hvpn), hpm]

/-- A load in the window yields an entry unless something else is mapped there. -/
lemma Kernel.Loads.iff_not_hides {pos : Option (ℕ × ℕ)}
    (h : k.Loads tf rd va (k.windowWord d va pos)) :
    k.Loads tf rd va (k.pm.at? pos) ↔ ¬ k.pm.Hides d va (k.pm.at? pos) := by
  rw [← windowWord_eq_iff]
  exact ⟨fun hw => h.unique hw, fun hw => hw ▸ h⟩

/-! ## What user code makes of it -/

/-- `(vpd[PDX(va)] & PTE_V) && (vpt[VPN(va)] & PTE_V)`. -/
def Kernel.userTest (k : Kernel) (d : ℕ) (va : Word) : Bool :=
  decide (HasFlag (k.vpdWord d (PDX va)) PTE_V) && decide
    (HasFlag (k.vptWord d (VPN va).toNat) PTE_V)

/-- `pageref` (`user/lib/pageref.c`); `pages` is read at `UPAGES`.  An index behind the end of
`pages` has no result. -/
def Kernel.pageref (k : Kernel) (d : ℕ) (va : Word) : Option ℕ :=
  if ¬ HasFlag (k.vpdWord d (PDX va)) PTE_V then some 0
  else
    let pte := k.vptWord d (VPN va).toNat
    if ¬ HasFlag pte PTE_V then some 0
    else
      let i := (PPN (pte2paddr pte) - PPNOFFSET).toNat
      if i < k.pm.npage then some (k.pm.ppRef i).toNat else none

/-- A page that is mapped at `&vpd[PDX(va)]` or `&vpt[VPN(va)]` shows an entry without `PTE_V`. -/
def Pmap.Blanks (m : Pmap) (d : ℕ) (va : Word) : Prop :=
  ∃ w, (m.readable d (vpd (BitVec.ofNat 32 (PDX va))) = some w ∨
    m.readable d (vpt (VPN va)) = some w) ∧
    ¬ HasFlag w PTE_V

/-- A page that is mapped at `&vpt[VPN(va)]` shows one with `PTE_V`, and the entry of the directory
has it, or a page that is mapped over it shows it so. -/
def Pmap.Feigns (m : Pmap) (d : ℕ) (va : Word) : Prop :=
  (∃ w, m.readable d (vpt (VPN va)) = some w ∧ HasFlag w PTE_V) ∧
    ((∃ w, m.readable d (vpd (BitVec.ofNat 32 (PDX va))) = some w ∧ HasFlag w PTE_V) ∨
      m.readable d (vpd (BitVec.ofNat 32 (PDX va))) = none ∧ HasFlag (m.mem d (PDX va)) PTE_V)

/-- Pages in the window hide a mapping, or show one that is not there. -/
def Pmap.Misleads (m : Pmap) (d : ℕ) (va : Word) : Prop :=
  m.entryAt d va ≠ none ∧ m.Blanks d va ∨ m.entryAt d va = none ∧ m.Feigns d va

/-- Pages in the window hide the mapping of page `pp`, or show the entry of a page with another
count. -/
def Pmap.Miscounts (m : Pmap) (d : ℕ) (va : Word) (pp : ℕ) : Prop :=
  m.Blanks d va ∧ m.ppRef pp ≠ 0#16 ∨ ¬ m.Blanks d va ∧ ∃ w, m.readable d (vpt (VPN va)) = some w ∧
    (m.npage ≤ pteFrame w ∨ m.ppRef (pteFrame w) ≠ m.ppRef pp)

lemma walk_VPN (m : Pmap) (d : ℕ) (va : Word) : m.walk d (VPN va <<< 12) = m.walk d va := by
  have hva := va.isLt
  have hnat : (VPN va <<< 12).toNat = va.toNat / 4096 * 4096 := by
    rw [BitVec.toNat_shiftLeft, VPN_toNat, Nat.shiftLeft_eq]
    omega
  have hpdx : PDX (VPN va <<< 12) = PDX va := by
    rw [PDX_eq, PDX_eq, hnat]
    omega
  have hptx : PTX (VPN va <<< 12) = PTX va := by
    rw [PTX_eq, PTX_eq, hnat]
    omega
  rw [Pmap.walk, Pmap.walk, Pmap.pde, Pmap.pde, hpdx, hptx]

/-- A page table has an entry with `PTE_V` where there is a mapping. -/
lemma pteAt_valid_iff (m : Pmap) (d : ℕ) (va : Word) :
    HasFlag (m.pteAt d (VPN va <<< 12)) PTE_V ↔ m.entryAt d va ≠ none := by
  rw [Pmap.pteAt, walk_VPN, Pmap.entryAt]
  by_cases hv : HasFlag (m.pde d va) PTE_V
  · rw [Pmap.walk_of_valid hv]
    change HasFlag _ _ ↔ validWord _ ≠ none
    by_cases hp : HasFlag (m.mem (pteFrame (m.pde d va)) (PTX va)) PTE_V
    · rw [validWord_of_valid hp]
      exact iff_of_true hp (by simp)
    · rw [validWord_of_not_valid hp]
      exact iff_of_false hp fun h => h rfl
  · rw [Pmap.walk_of_not_valid hv]
    exact iff_of_false (not_hasFlag_zero _) fun h => h rfl

lemma pde_valid_of_entryAt (h : m.entryAt d va ≠ none) : HasFlag (m.mem d (PDX va)) PTE_V := by
  by_contra hno
  rw [Pmap.entryAt, Pmap.walk_of_not_valid hno] at h
  exact h rfl

lemma pteAt_of_entryAt (h : m.entryAt d va = some w) : m.pteAt d (VPN va <<< 12) = w := by
  have hv : HasFlag (m.pde d va) PTE_V := pde_valid_of_entryAt (by rw [h]; nofun)
  rw [Pmap.entryAt, Pmap.walk_of_valid hv] at h
  rw [Pmap.pteAt, walk_VPN, Pmap.walk_of_valid hv]
  exact (validWord_eq_some.mp h).2

/-- Where nothing in the window shows an entry without `PTE_V`, a mapping is seen. -/
lemma shown_of_not_blanks (h : k.pm.entryAt d va ≠ none) (hb : ¬ k.pm.Blanks d va) :
    HasFlag (k.vpdWord d (PDX va)) PTE_V ∧ HasFlag (k.vptWord d (VPN va).toNat) PTE_V := by
  rw [Kernel.vpdWord, vptWord_toNat, Kernel.windowWord, Kernel.windowWord]
  constructor
  · cases hr : k.pm.readable d (vpd (BitVec.ofNat 32 (PDX va))) with
    | none => exact pde_valid_of_entryAt h
    | some w => exact not_not.mp fun hw => hb ⟨w, .inl hr, hw⟩
  · cases hr : k.pm.readable d (vpt (VPN va)) with
    | none => exact (pteAt_valid_iff k.pm d va).mpr h
    | some w => exact not_not.mp fun hw => hb ⟨w, .inr hr, hw⟩

/-- Where something does, no mapping is seen. -/
lemma not_shown_of_blanks (hb : k.pm.Blanks d va) :
    ¬ (HasFlag (k.vpdWord d (PDX va)) PTE_V ∧ HasFlag (k.vptWord d (VPN va).toNat) PTE_V) := by
  obtain ⟨w, hr | hr, hw⟩ := hb
  · rw [Kernel.vpdWord, Kernel.windowWord, hr]
    exact fun h => hw h.1
  · rw [vptWord_toNat, Kernel.windowWord, hr]
    exact fun h => hw h.2

/-- Without a mapping, one is seen if the window feigns it. -/
lemma shown_iff_feigns (h : k.pm.entryAt d va = none) :
    HasFlag (k.vpdWord d (PDX va)) PTE_V ∧ HasFlag (k.vptWord d (VPN va).toNat) PTE_V ↔
      k.pm.Feigns d va := by
  have hpte : ¬ HasFlag (k.pm.pteAt d (VPN va <<< 12)) PTE_V :=
    fun hv => (pteAt_valid_iff k.pm d va).mp hv h
  rw [Kernel.vpdWord, vptWord_toNat, Kernel.windowWord, Kernel.windowWord, Pmap.Feigns, and_comm]
  refine and_congr ?_ ?_
  · cases k.pm.readable d (vpt (VPN va)) with
    | none => exact iff_of_false hpte nofun
    | some w => simp
  · cases k.pm.readable d (vpd (BitVec.ofNat 32 (PDX va))) with
    | none => simp [Pmap.at?]
    | some w => simp

/-- The test is whether there is an entry, exactly where the window does not mislead it. -/
lemma userTest_iff (k : Kernel) (d : ℕ) (va : Word) :
    (k.userTest d va = true ↔ k.pm.entryAt d va ≠ none) ↔ ¬ k.pm.Misleads d va := by
  rw [Kernel.userTest, Bool.and_eq_true, decide_eq_true_iff, decide_eq_true_iff, Pmap.Misleads]
  by_cases hent : k.pm.entryAt d va = none
  · rw [shown_iff_feigns hent]
    simp [hent]
  · by_cases hb : k.pm.Blanks d va
    · simp [hent, hb, not_shown_of_blanks hb]
    · simp [hent, hb, shown_of_not_blanks hent hb]

lemma pageLookup_eq_none_iff (m : Pmap) (d : ℕ) (va : Word) :
    (∃ m', pageLookup d va m = .ok none m') ↔ m.entryAt d va = none := by
  constructor
  · rintro ⟨m', hrun⟩
    by_contra hsome
    have hwp : wp (pageLookup d va) m (fun r _ => r ≠ none) (fun _ _ => True) fun _ => True :=
      wp_pageLookup_entry (fun h => absurd h hsome) (fun _ _ _ _ _ => nofun) fun _ _ _ => trivial
    exact hwp.of_ok hrun rfl
  · intro hnone
    have hwp : wp (pageLookup d va) m (fun r _ => r = none) (fun _ _ => False) fun _ => False :=
      wp_pageLookup_entry (fun _ => rfl) (fun _ _ _ h => absurd (hnone.symm.trans h) nofun)
        fun _ h => absurd (hnone.symm.trans h) nofun
    obtain ⟨r, m', hrun, rfl⟩ := hwp.exists_ok
    exact ⟨m', hrun⟩

/-- `pageref` is the count of the page that `page_lookup` finds, exactly where the window does not
make it count otherwise. -/
lemma pageref_iff {pp : ℕ} {tj : ℕ × ℕ} {m' : Pmap}
    (h : pageLookup d va k.pm = .ok (some (pp, tj)) m') :
    k.pageref d va = some (k.pm.ppRef pp).toNat ↔ ¬ k.pm.Miscounts d va pp := by
  have hwp : wp (pageLookup d va) k.pm (fun r _ => ∀ x, r = some x → ∃ w,
      k.pm.entryAt d va = some w ∧ pteFrame w = x.1 ∧ pteFrame w < k.pm.npage) (fun _ _ => True)
      fun _ => True := by
    refine wp_pageLookup_entry (fun _ => nofun) (fun w t j hw hlt => ?_) fun _ _ _ => trivial
    rintro x ⟨⟩
    exact ⟨w, hw, rfl, hlt⟩
  obtain ⟨w, hw, hpp, hlt⟩ := hwp.of_ok h _ rfl
  have hent : k.pm.entryAt d va ≠ none := by
    rw [hw]
    nofun
  rw [Kernel.pageref, Pmap.Miscounts]
  by_cases hb : k.pm.Blanks d va
  · have hzero : k.pm.ppRef pp = 0#16 ↔ 0 = (k.pm.ppRef pp).toNat := by
      rw [← BitVec.toNat_inj]
      exact eq_comm
    rw [or_iff_left fun hc => hc.1 hb, and_iff_right hb, not_not, hzero]
    by_cases hdir : HasFlag (k.vpdWord d (PDX va)) PTE_V
    · have hpte : ¬ HasFlag (k.vptWord d (VPN va).toNat) PTE_V :=
        fun hv => not_shown_of_blanks hb ⟨hdir, hv⟩
      rw [if_neg (not_not.mpr hdir), if_pos hpte, Option.some_inj]
    · rw [if_pos hdir, Option.some_inj]
  · obtain ⟨hdir, hpte⟩ := shown_of_not_blanks hent hb
    rw [if_neg (not_not.mpr hdir), if_neg (not_not.mpr hpte), or_iff_right fun hc => hb hc.1,
      and_iff_right hb]
    change (if pteFrame (k.vptWord d (VPN va).toNat) < k.pm.npage then
      some (k.pm.ppRef (pteFrame (k.vptWord d (VPN va).toNat))).toNat else none) = _ ↔ _
    cases hr : k.pm.readable d (vpt (VPN va)) with
    | none =>
        have hword : k.vptWord d (VPN va).toNat = w := by
          rw [vptWord_toNat, Kernel.windowWord, hr]
          exact pteAt_of_entryAt hw
        rw [hword, if_pos hlt, hpp]
        exact iff_of_true rfl nofun
    | some w' =>
        have hword : k.vptWord d (VPN va).toNat = w' := by
          rw [vptWord_toNat, Kernel.windowWord, hr]
          rfl
        rw [hword]
        by_cases hin : pteFrame w' < k.pm.npage
        · rw [if_pos hin, Option.some_inj, BitVec.toNat_inj]
          simp [hin]
        · rw [if_neg hin]
          refine iff_of_false nofun fun hno => hno ⟨w', rfl, .inl (Nat.le_of_not_lt hin)⟩

/-- **The window agrees with the page tables**: a load from it, by any `lw`, shows the entry,
exactly where no page is mapped at that very place of the window that shows something else.  And
what user code makes of what it loads is what the kernel makes of the page tables, exactly where the
pages in the window do not mislead it. -/
theorem window_agrees (hd : k.curPgdir = some d) (hlw : k.AtLw d tf rd instr) :
    (∀ vpn < VPN UVPT, k.Loads tf rd (vpt vpn) (k.vptWord d vpn.toNat) ∧
      (k.Loads tf rd (vpt vpn) (k.pm.pteAt d (vpn <<< 12)) ↔
        ¬ k.pm.Hides d (vpt vpn) (k.pm.pteAt d (vpn <<< 12)))) ∧
    (∀ i < 1024, k.Loads tf rd (vpd (BitVec.ofNat 32 i)) (k.vpdWord d i) ∧
      (k.Loads tf rd (vpd (BitVec.ofNat 32 i)) (k.pm.mem d i) ↔
        ¬ k.pm.Hides d (vpd (BitVec.ofNat 32 i)) (k.pm.mem d i))) ∧
    ∀ va < UVPT, ((k.userTest d va = true ↔ ∀ m, pageLookup d va k.pm ≠ .ok none m) ↔
        ¬ k.pm.Misleads d va) ∧
      ∀ pp tj m, pageLookup d va k.pm = .ok (some (pp, tj)) m →
        (k.pageref d va = some (k.pm.ppRef pp).toNat ↔ ¬ k.pm.Miscounts d va pp) := by
  refine ⟨fun vpn h => ?_, fun i h => ?_, fun va _ => ⟨?_, fun pp tj m => pageref_iff⟩⟩
  · have hload := loads_vpt hd hlw h
    refine ⟨hload, ?_⟩
    rw [vptWord_toNat] at hload
    exact hload.iff_not_hides
  · have hload := loads_vpd hd hlw h
    exact ⟨hload, hload.iff_not_hides⟩
  · rw [← userTest_iff, ne_eq, ← pageLookup_eq_none_iff, not_exists]

/-! ## A page in the window -/

lemma hasFlag_insertedWord {old : Option Word} {pp : ℕ} {perm flag : Word}
    (h : HasFlag (entryFlags perm) flag) : HasFlag (insertedWord old pp perm) flag := by
  unfold insertedWord
  split
  · split_ifs
    · exact (hasFlag_or _ _ _).mpr (.inr h)
    · exact (hasFlag_or _ _ _).mpr (.inr h)
  · exact (hasFlag_or _ _ _).mpr (.inr h)

lemma byte_pte_ne (x y : Word) (h : Bits.byte x 0 = ~~~Bits.byte y 0) : x ≠ y := by
  rintro rfl
  have := congrArg (fun b : BitVec 8 => b.getLsbD 0) h
  simp at this

section

variable {e x : ℕ} {b : BitVec 8} {T : Template}

/-- A page that is mapped in the window is no page table, so that a store to it leaves them. -/
lemma setByte_window (hk : KInv T k) (hgap : T.gap = true) (hdir : k.dirs e = some d)
    (hw : k.pm.entryAt d UVPT = some w) {f : ℕ} (hf : IsTableFrame T.own k.dirs k.pm f) :
    (k.pm.setByte (pteFrame w) x b).mem f = k.pm.mem f := by
  have ho : T.own (PDX UVPT) = true := by
    rw [Template.own, hgap]
    rfl
  have htgt : target T.own k.dirs k.pm (.pte e (PDX UVPT) (PTX UVPT)) = some (pteFrame w) := by
    rw [target, ← entryAt_eq_slotWord ho hdir, hw, Option.map_some]
  exact Pmap.write_mem_of_ne _ _ _ fun hc => hk.pages.not_tableFrame htgt (hc ▸ hf)

lemma entryAt_setByte_window (hk : KInv T k) (hgap : T.gap = true) (hdir : k.dirs e = some d)
    (hw : k.pm.entryAt d UVPT = some w) :
    (k.pm.setByte (pteFrame w) x b).entryAt d UVPT = some w := by
  have ho : T.own (PDX UVPT) = true := by
    rw [Template.own, hgap]
    rfl
  rw [entryAt_eq_slotWord ho hdir, slotWord_congr fun f hf => setByte_window hk hgap hdir hw hf,
    ← entryAt_eq_slotWord ho hdir, hw]

lemma pteAt_setByte_window (hk : KInv T k) (hgap : T.gap = true) (hdir : k.dirs e = some d)
    (hw : k.pm.entryAt d UVPT = some w) (hva : va < UTOP) :
    (k.pm.setByte (pteFrame w) x b).pteAt d va = k.pm.pteAt d va := by
  have hmem : (k.pm.setByte (pteFrame w) x b).mem d = k.pm.mem d :=
    setByte_window hk hgap hdir hw ⟨.dir e, trivial, hdir⟩
  rw [Pmap.pteAt, Pmap.pteAt, Pmap.walk, Pmap.walk, Pmap.pde, Pmap.pde, hmem]
  split_ifs with hv
  · refine congrFun (setByte_window hk hgap hdir hw ⟨.pde e (PDX va), trivial, ?_⟩) _
    exact target_eq_some_pde.mpr ⟨own_of_lt_UTOP hva, _, hdir, hv, rfl⟩
  · rfl

end

/-- A store of env 0 to `vpt[0]` faults, and a page is mapped there. -/
lemma exists_windowMapped : ∃ T k d w, Reaches (smallMachine false)
    (fun k ev => ev.Admissible k) k ∧
    KInv T k ∧ T.gap = true ∧ k.curenv = some 0 ∧ k.curPgdir = some d ∧
    k.pm.entryAt d UVPT = some w ∧ HasFlag w PTE_U ∧ HasFlag w PTE_R ∧ HasFlag w PTE_W := by
  have hnocall : ∀ {tf : Trapframe}, tf.cause ≠ CAUSE_USER_ECALL →
      ∀ k, (Event.trap tf).Admissible k := fun hne k call hcall => absurd hcall.1 hne
  obtain ⟨k₀, T₀, k, hk₀, hfrom, hgap₀, hcur, hpop⟩ := exists_started false
    (C := fun k ev => ev.Admissible k) (fun _ _ => trivial) (fun k => hnocall (by decide) k)
    (show 0 < NASID by decide)
  have hk := hfrom.reaches hk₀
  obtain ⟨T, -, -, hgap, hinv⟩ := hk.kInv fun _ _ hc => hc
  have hlive : (k.envs 0).envStatus ≠ .free := by
    rw [(hpop.born 0 (by decide)).1]
    decide
  have hdir := dirs_of_ne_free hlive
  have hz : ¬ HasFlag (k.pm.pde (k.envs 0).envPgdir UVPT) PTE_V := by
    have := (hpop.kInv.aboveUtop hpop.kInv hgap₀ 0 hlive).1 (PDX UVPT) (by decide) (by decide)
    rw [if_pos rfl] at this
    rw [Pmap.pde, this]
    exact not_hasFlag_zero _
  have hroom : 2 ≤ k.pm.pageFreeList.length := by
    have hfix := smallMachine_room false (c := 2) (by decide)
    have hlen := hpop.room
    omega
  obtain ⟨_, k₁, hrun, m, pp, rest, hf, hcase, rfl⟩ := (hinv.wp_windowFault hcur hz hroom).exists_ok
  have hstep : Step k (.trap windowFrame) { k with ktf := windowFrame, pm := m } :=
    ⟨.inl (by simp [hcur]), .inl hrun⟩
  have hadm : (Event.trap windowFrame).Admissible k := hnocall (by decide) k
  have ho : T.own (PDX UVPT) = true := by
    rw [Template.own, hgap]
    rfl
  have htake := hinv.pages.take hf
  have hat := hcase.entryAt htake.wellFormed htake.freeUnused hdir ho hdir ho
  rw [if_pos ⟨rfl, rfl⟩] at hat
  have hcurdir : k.curPgdir = some (k.envs 0).envPgdir := by
    obtain ⟨d, hd, hcd⟩ := hinv.cur 0 hcur
    rw [hcd, (dirs_eq_some.mp hd).2]
  exact ⟨T, _, _, _, hk.step ⟨hadm, hstep⟩,
    hstep.kInv hinv hadm (Event.serves_of_gap hgap k _), hgap,
    hcur, hcurdir, hat, hasFlag_insertedWord (by decide), hasFlag_insertedWord (by decide),
    hasFlag_insertedWord (by decide)⟩

/-- **A store to the window hides the page tables**: env 0 stores to `vpt[0]`, which maps a page
there, and then reads back what it stored. -/
theorem window_hidden : ∃ k d, Reaches (smallMachine false) (fun k ev => ev.Admissible k) k ∧
    k.curenv = some 0 ∧ k.curPgdir = some d ∧
    ∀ tf rd, ¬ k.Loads tf rd (vpt 0) (k.pm.pteAt d ((0 : Word) <<< 12)) := by
  obtain ⟨T, k, d, w, hk, hinv, hgap, hcur, hcurdir, hw, hU, hR, hW⟩ := exists_windowMapped
  have hdir := hinv.curPgdir hcurdir hcur
  -- the store goes through
  set b : BitVec 8 := ~~~Bits.byte (k.pm.pteAt d 0) 0 with hb
  have hstep : Step k (.store UVPT b) { k with pm := k.pm.setByte (pteFrame w) 0 b } := by
    refine ⟨⟨by simp [hcur], by decide, d, w, hcurdir, hw, hW, hU⟩, .inl ?_⟩
    have hwp : wp (Event.store UVPT b).prog k
        (fun _ k' => k' = { k with pm := k.pm.setByte (pteFrame w) 0 b })
        (fun _ _ => False) fun _ => False := by
      rw [Event.prog, wp_bind, wp_getCurPgdir]
      refine ⟨fun d' hd' => ?_, fun hno => absurd (hcurdir.symm.trans hno) (by simp)⟩
      obtain rfl := Option.some.inj (hcurdir.symm.trans hd')
      rw [wp_bind, wp_get, hw, wp_liftPm, wp_modify]
      rfl
    obtain ⟨_, k', hrun, rfl⟩ := hwp.exists_ok
    exact hrun
  have hread : (k.pm.setByte (pteFrame w) 0 b).readable d (vpt 0) =
      some ((k.pm.setByte (pteFrame w) 0 b).mem (pteFrame w) 0) := by
    rw [show vpt 0 = UVPT by decide, Pmap.readable, entryAt_setByte_window hinv hgap hdir hw,
      Option.bind_some, if_pos ⟨hU, hR⟩]
    rfl
  have hne : Bits.byte ((k.pm.setByte (pteFrame w) 0 b).mem (pteFrame w) 0) 0 =
      ~~~Bits.byte ((k.pm.setByte (pteFrame w) 0 b).pteAt d ((0 : Word) <<< 12)) 0 := by
    rw [show ((0 : Word) <<< 12) = 0 by decide, pteAt_setByte_window hinv hgap hdir hw (by decide),
      Pmap.setByte, Pmap.write_mem_self, Bits.byte_setByte _ _ (by decide) (by decide), if_pos rfl]
  have hadm : (Event.store UVPT b).Admissible k := trivial
  refine ⟨_, d, hk.step ⟨hadm, hstep⟩, hcur, hcurdir, fun tf rd => ?_⟩
  exact not_loads_of_hides hcurdir ⟨_, hread, byte_pte_ne _ _ hne⟩

/-- An address space of one page, at 0, with `lw a0, 0(a0)` at its beginning. -/
def lwKernel : Kernel :=
  { (smallMachine false).initial quietDevices with
    curPgdir := some 1
    pm := {
      npage := 8
      ppRef := fun _ => 1#16
      pageFreeList := []
      mem := fun f i =>
        if f = 1 ∧ i = 0 then pteOf 2 ||| PTE_V
        else if f = 2 ∧ i = 0 then pteOf 3 ||| PTE_V ||| PTE_R ||| PTE_X ||| PTE_U
        else if f = 3 ∧ i = 0 then 0x00052503#32
        else 0#32 } }

lemma lwKernel_atLw : lwKernel.AtLw 1 zeroTf 10 0x00052503#32 :=
  ⟨by decide, by decide, by decide, by decide⟩

/-- There, `vpt[0]` and `vpd[0]` show the entries of the page, and the test and `pageref` find it.
-/
theorem window_agrees_small : lwKernel.Loads zeroTf 10 (vpt 0) (lwKernel.pm.pteAt 1 (0 <<< 12)) ∧
    lwKernel.Loads zeroTf 10 (vpd (BitVec.ofNat 32 0)) (lwKernel.pm.mem 1 0) ∧
    (lwKernel.userTest 1 0 = true ↔ ∀ m, pageLookup 1 0 lwKernel.pm ≠ .ok none m) ∧
    lwKernel.pageref 1 0 = some 1 := by
  have hvpt : lwKernel.pm.readable 1 (vpt 0) = none := by decide
  have hvpd : lwKernel.pm.readable 1 (vpd (BitVec.ofNat 32 0)) = none := by decide
  have hblanks : ¬ lwKernel.pm.Blanks 1 0 := by
    rintro ⟨w, hw | hw, -⟩
    · exact absurd (hvpd.symm.trans hw) nofun
    · exact absurd (hvpt.symm.trans hw) nofun
  obtain ⟨hloads, hdir, hcode⟩ := window_agrees (d := 1) rfl lwKernel_atLw
  obtain ⟨htest, hcount⟩ := hcode 0 (by decide)
  refine ⟨(hloads 0 (by decide)).2.mpr fun ⟨w, hw, _⟩ => absurd (hvpt.symm.trans hw) nofun,
    (hdir 0 (by decide)).2.mpr fun ⟨w, hw, _⟩ => absurd (hvpd.symm.trans hw) nofun,
    htest.mpr ?_, (hcount 3 (2, 0) lwKernel.pm rfl).mpr ?_⟩
  · rintro (⟨-, hb⟩ | ⟨-, ⟨w, hw, -⟩, -⟩)
    · exact hblanks hb
    · exact absurd (hvpt.symm.trans hw) nofun
  · rintro (⟨hb, -⟩ | ⟨-, w, hw, -⟩)
    · exact hblanks hb
    · exact absurd (hvpt.symm.trans hw) nofun

end

end MosRv
