import MosRv.User.Fd

/-!
# What `close` unmaps (`close`, `file_close`, `cons_close`, `pipe_close`)

`close` unmaps the `struct Fd` page; the window is left to the device.  Of a file, the pages are
unmapped as far as its size goes, if the server does not refuse to close it; of a pipe, the first
page of the window; of the console, nothing.  If the device is not known, `close` does nothing at
all (`Process.Closes`).

The size is taken from the `struct Filefd`.  With one of more than 4 MiB the loop goes on behind the
window until it comes to `UTOP`, and with one above `0xFFFFF000` its counter wraps around before it
gets there.
-/

namespace MosRv.Fd

open Prog

/-! ## Losing pages -/

/-- `t` is `s` without the mappings of the pages in `C`. -/
structure Without (C : ℕ → Prop) (s t : Process) : Prop where
  env : t.env = s.env
  mem : t.mem = s.mem
  grants : t.grants = s.grants
  tables : t.tables = s.tables
  gone : ∀ p, C p → t.entry p = none
  kept : ∀ p, ¬ C p → t.entry p = s.entry p

namespace Without

variable {s t u : Process} {C D : ℕ → Prop}

lemma refl (s : Process) : Without (fun _ => False) s s :=
  ⟨rfl, rfl, rfl, rfl, fun _ => False.elim, fun _ _ => rfl⟩

lemma congr (h : Without C s t) (hiff : ∀ p, C p ↔ D p) : Without D s t where
  env := h.env
  mem := h.mem
  grants := h.grants
  tables := h.tables
  gone p hp := h.gone p ((hiff p).mpr hp)
  kept p hp := h.kept p fun hc => hp ((hiff p).mp hc)

lemma trans (h : Without C s t) (h' : Without D t u) : Without (fun p => C p ∨ D p) s u where
  env := h'.env.trans h.env
  mem := h'.mem.trans h.mem
  grants := h'.grants.trans h.grants
  tables := h'.tables.trans h.tables
  gone p hp := by
    by_cases hd : D p
    · exact h'.gone p hd
    · rw [h'.kept p hd]
      exact h.gone p (hp.resolve_right hd)
  kept p hp := by
    rw [not_or] at hp
    rw [h'.kept p hp.2, h.kept p hp.1]

/-- Nothing has been lost, and nothing else has changed. -/
lemma of_spaces (henv : t.env = s.env) (hspaces : t.spaces = s.spaces) (hmem : t.mem = s.mem)
    (hgrants : t.grants = s.grants) (htables : t.tables = s.tables) :
    Without (fun _ => False) s t := by
  refine ⟨henv, hmem, hgrants, htables, fun _ => False.elim, fun p _ => ?_⟩
  rw [Process.entry, Process.entry, henv, hspaces]

lemma setEntry (s : Process) (p : ℕ) : Without (· = p) s (s.setEntry p none) where
  env := rfl
  mem := rfl
  grants := rfl
  tables := Process.tables_setEntry_none
  gone := by
    intro q hq
    rw [hq, Process.entry_setEntry_self]
  kept _ hq := Process.entry_setEntry_of_ne hq

end Without

section

variable {s : Process} {C : ℕ → Prop} {E : Word → Process → Prop} {P : Stop → Prop}

/-- Unmapping a page, whatever the address is. -/
lemma wp_unmap (va : Word) (s : Process) :
    wp (attempt (syscallMemUnmap va)) s
      (fun _ t => Without (fun p => isIllegalVa va = false ∧ p = pn va) s t) E P := by
  by_cases hva : isIllegalVa va = true
  · rw [wp_attempt, syscallMemUnmap, if_pos hva]
    exact (Without.refl s).congr fun p => by simp [hva]
  · rw [Bool.not_eq_true] at hva
    rw [wp_syscallMemUnmap hva]
    exact (Without.setEntry s (pn va)).congr fun p => by simp [hva]

/-- A request without a page changes no mapping. -/
lemma wp_fsipc (r : Request) (s : Process) :
    wp (fsipc r 0#32) s
      (fun a t => a.1 = (s.replies 0).value ∧ (s.replies 0).value.msb = false ∧
        Without (fun _ => False) s t ∧ ∀ n, t.replies n = s.replies (n + 1))
      (fun e t => e = (s.replies 0).value ∧ (s.replies 0).value.msb = true ∧
        Without (fun _ => False) s t ∧ ∀ n, t.replies n = s.replies (n + 1))
      P := by
  have hw : Without (fun _ => False) s
      { s with replies := fun n => s.replies (n + 1), sent := s.sent ++ [r] } :=
    Without.of_spaces rfl rfl rfl rfl rfl
  rw [fsipc, if_neg (by simp), wp_bind, wp_get, wp_bind, wp_set, if_neg (by simp)]
  change wp (if (s.replies 0).value.msb = true then _ else _) _ _ _ _
  rw [wp_ite]
  refine ⟨fun hneg => ⟨rfl, hneg, hw, fun _ => rfl⟩, fun hpos => ⟨rfl, ?_, hw, fun _ => rfl⟩⟩
  rwa [Bool.not_eq_true] at hpos

end

/-! ## What `close` unmaps -/

namespace Process

variable (s : Process) (d : ℕ)

/-- `fd_dev_id` of a descriptor that is open. -/
def devId : Option Word := (s.entry (fdPage d)).map fun m => s.mem m.page 0

/-- `f_size`. -/
def fileSize : ℕ := ((s.entry (fdPage d)).map fun m => (s.mem m.page 36).toNat).getD 0

/-- The answer to `fsipc_close`, which comes after one for each page. -/
def closeAnswer : Word := (s.replies ((s.fileSize d + 4095) / 4096)).value

/-- The pages that `file_close` unmaps in and behind the window, until it comes to `UTOP`. -/
def FilePages (p : ℕ) : Prop :=
  (s.closeAnswer d).msb = false ∧ ∃ j, 4096 * j < s.fileSize d ∧ p = dataPage d + j ∧ p < 0x7F400

/-- The pages that `close` unmaps. -/
def Closes (p : ℕ) : Prop :=
  s.devId d = some 102#32 ∧ (p = fdPage d ∨ s.FilePages d p) ∨
    s.devId d = some 99#32 ∧ p = fdPage d ∨
    s.devId d = some 112#32 ∧ (p = fdPage d ∨ p = dataPage d)

/-- The loops of `file_close` come to an end. -/
def Ends : Prop := s.devId d = some 102#32 → s.fileSize d ≤ 0xFFFFF000

end Process

section

variable {s : Process} {d : ℕ} {m : Mapping}

lemma data_toNat {k : ℕ} (hd : d < 32) (hk : dataPage d + k ≤ 0x7F400) :
    (fd2data (index2fd (BitVec.ofNat 32 d)) + BitVec.ofNat 32 (4096 * k)).toNat =
      4096 * (dataPage d + k) := by
  unfold dataPage at hk ⊢
  rw [BitVec.toNat_add, fd2data_toNat (fd_lt hd), toNat_fd hd, BitVec.toNat_ofNat]
  omega

/-- `i += BY2PG`. -/
lemma next_page (k : ℕ) :
    BitVec.ofNat 32 (4096 * k) + BY2PG = BitVec.ofNat 32 (4096 * (k + 1)) := by
  rw [Nat.mul_succ, BitVec.ofNat_add]
  rfl

/-- The loop that tells the server which pages are dirty. -/
lemma wp_dirtyLoop (fileid size : Word) (hsize : size.toNat ≤ 0xFFFFF000) (s : Process) :
    wp (whileDo .outOfFuel (fun i => i < size) (fun i => do
        let _ ← attempt (fsipcDirty fileid i)
        pure (i + BY2PG)) rounds 0#32) s
      (fun _ t => Without (fun _ => False) s t ∧
        ∀ n, t.replies n = s.replies (n + (size.toNat + 4095) / 4096))
      (fun _ _ => False) fun _ => False := by
  apply (wp_whileDo (fun (i : Word) t => ∃ k ≤ (size.toNat + 4095) / 4096,
    i = BitVec.ofNat 32 (4096 * k) ∧
      Without (fun _ => False) s t ∧ ∀ n, t.replies n = s.replies (n + k))
    (fun i => (size.toNat + 4095) / 4096 - i.toNat / 4096) _
    ⟨0, Nat.zero_le _, rfl, Without.refl s, fun _ => rfl⟩ _).imp
  · intro i t h
    obtain ⟨⟨k, hk, rfl, hw, hreplies⟩, hdone⟩ := h
    rw [BitVec.not_lt, BitVec.le_def, BitVec.toNat_ofNat] at hdone
    obtain rfl : k = (size.toNat + 4095) / 4096 := by omega
    exact ⟨hw, hreplies⟩
  · intro i t h hlt
    obtain ⟨k, hk, rfl, hw, hreplies⟩ := h
    rw [BitVec.lt_def, BitVec.toNat_ofNat] at hlt
    have hnext := next_page k
    have hround : ∀ u, Without (fun _ => False) t u → (∀ n, u.replies n = t.replies (n + 1)) →
        (∃ k' ≤ (size.toNat + 4095) / 4096, BitVec.ofNat 32 (4096 * k) + BY2PG =
          BitVec.ofNat 32 (4096 * k') ∧ Without (fun _ => False) s u ∧
          ∀ n, u.replies n = s.replies (n + k')) ∧
        (size.toNat + 4095) / 4096 - (BitVec.ofNat 32 (4096 * k) + BY2PG).toNat / 4096 <
          (size.toNat + 4095) / 4096 - (BitVec.ofNat 32 (4096 * k)).toNat / 4096 := by
      intro u hu hr
      refine ⟨⟨k + 1, by omega, hnext, (hw.trans hu).congr fun p => or_self_iff, fun n => ?_⟩, ?_⟩
      · rw [hr, hreplies, Nat.add_assoc, Nat.add_comm 1]
      · rw [hnext, BitVec.toNat_ofNat, BitVec.toNat_ofNat]
        omega
    rw [wp_bind, wp_attempt, fsipcDirty, wp_bind]
    exact (wp_fsipc _ t).mono (fun a u h => hround u h.2.2.1 h.2.2.2)
      (fun e u h => hround u h.2.2.1 h.2.2.2) fun _ hp => hp
  · unfold rounds
    omega

/-- With a size that large, `i + BY2PG` wraps around before it gets there. -/
lemma wp_dirtyLoop_endless (fileid size : Word) (hsize : 0xFFFFF000 < size.toNat) (s : Process) :
    wp (whileDo .outOfFuel (fun i => i < size) (fun i => do
        let _ ← attempt (fsipcDirty fileid i)
        pure (i + BY2PG)) rounds 0#32) s
      (fun _ _ => False) (fun _ _ => False) (· = Stop.outOfFuel) := by
  apply wp_whileDo_endless (fun (i : Word) _ => i.toNat % 4096 = 0)
  · intro i t h
    have hi := i.isLt
    rw [BitVec.lt_def]
    omega
  · intro i t h
    have hround : (i + BY2PG).toNat % 4096 = 0 := by
      rw [BitVec.toNat_add, show BY2PG.toNat = 4096 by decide]
      omega
    rw [wp_bind, wp_attempt, fsipcDirty, wp_bind]
    exact (wp_fsipc _ t).mono (fun _ _ _ => hround) (fun _ _ _ => hround) fun _ hp => hp
  · rfl

/-- The pages that are unmapped when the loop ends, after `k` rounds. -/
lemma unmapped_iff {k size : ℕ} (hk : k ≤ (size + 4095) / 4096) (htop : dataPage d + k ≤ 0x7F400)
    (hend : size ≤ 4096 * k ∨ dataPage d + k = 0x7F400) (p : ℕ) :
    (∃ j < k, p = dataPage d + j) ↔ ∃ j, 4096 * j < size ∧ p = dataPage d + j ∧ p < 0x7F400 := by
  constructor
  · intro h
    obtain ⟨j, hj, rfl⟩ := h
    exact ⟨j, by omega, rfl, by omega⟩
  · intro h
    obtain ⟨j, hj, rfl, hp⟩ := h
    exact ⟨j, by omega, rfl⟩

/-- The loop that unmaps the pages of the file ends at its size, or at `UTOP`. -/
lemma wp_unmapLoop (hd : d < 32) (size : Word) (hsize : size.toNat ≤ 0xFFFFF000) (s : Process) :
    wp (whileDo .outOfFuel (fun i => i < size) (fun i => do
        syscallMemUnmap (fd2data (index2fd (BitVec.ofNat 32 d)) + i)
        pure (i + BY2PG)) rounds 0#32) s
      (fun _ t => Without (fun p => ∃ j, 4096 * j < size.toNat ∧ p = dataPage d + j ∧
        p < 0x7F400) s t)
      (fun _ t => Without (fun p => ∃ j, 4096 * j < size.toNat ∧ p = dataPage d + j ∧
        p < 0x7F400) s t)
      fun _ => False := by
  apply (wp_whileDo (fun (i : Word) t => ∃ k ≤ (size.toNat + 4095) / 4096,
    i = BitVec.ofNat 32 (4096 * k) ∧
      dataPage d + k ≤ 0x7F400 ∧ Without (fun p => ∃ j < k, p = dataPage d + j) s t)
    (fun i => (size.toNat + 4095) / 4096 - i.toNat / 4096) _
    ⟨0, Nat.zero_le _, rfl, by unfold dataPage; omega,
      (Without.refl s).congr fun p => by simp⟩ _).imp
  · intro i t h
    obtain ⟨⟨k, hk, rfl, htop, hw⟩, hdone⟩ := h
    rw [BitVec.not_lt, BitVec.le_def, BitVec.toNat_ofNat] at hdone
    exact hw.congr (unmapped_iff (by omega) htop (.inl (by omega)))
  · intro i t h hlt
    obtain ⟨k, hk, rfl, htop, hw⟩ := h
    have hva := data_toNat hd htop
    rw [BitVec.lt_def, BitVec.toNat_ofNat] at hlt
    by_cases hend : dataPage d + k = 0x7F400
    · -- the address is `UTOP`
      have hillegal : isIllegalVa
          (fd2data (index2fd (BitVec.ofNat 32 d)) + BitVec.ofNat 32 (4096 * k)) = true := by
        rw [isIllegalVa, decide_eq_true_iff]
        right
        rw [BitVec.le_def, hva, hend]
        decide
      rw [wp_bind, syscallMemUnmap, if_pos hillegal, wp_exit]
      exact hw.congr (unmapped_iff hk htop (.inr hend))
    · have hlegal : isIllegalVa
          (fd2data (index2fd (BitVec.ofNat 32 d)) + BitVec.ofNat 32 (4096 * k)) = false := by
        unfold dataPage at hva hend htop
        exact not_illegal (by omega) (by omega)
      have hpn : pn (fd2data (index2fd (BitVec.ofNat 32 d)) + BitVec.ofNat 32 (4096 * k)) =
          dataPage d + k := by
        rw [pn_eq, hva, Nat.mul_div_cancel_left _ (by decide)]
      have hnext := next_page k
      rw [wp_bind, syscallMemUnmap, hlegal, if_neg Bool.false_ne_true, wp_modify, wp_pure, hpn]
      refine ⟨⟨k + 1, by omega, hnext, by omega, ?_⟩, ?_⟩
      · refine (hw.trans (Without.setEntry t (dataPage d + k))).congr fun p => ?_
        constructor
        · intro h
          obtain ⟨j, hj, rfl⟩ | rfl := h
          · exact ⟨j, by omega, rfl⟩
          · exact ⟨k, by omega, rfl⟩
        · intro h
          obtain ⟨j, hj, rfl⟩ := h
          obtain hj | rfl := Nat.lt_succ_iff_lt_or_eq.mp hj
          · exact .inl ⟨j, hj, rfl⟩
          · exact .inr rfl
      · rw [hnext, BitVec.toNat_ofNat, BitVec.toNat_ofNat]
        omega
  · unfold rounds
    omega

lemma fileSize_eq (hm : s.entry (fdPage d) = some m) : s.fileSize d = (s.mem m.page 36).toNat := by
  rw [Process.fileSize, hm]
  rfl

lemma wp_fileClose (hd : d < 32) (hm : s.entry (fdPage d) = some m)
    (hsize : s.fileSize d ≤ 0xFFFFF000) :
    wp (fileClose (index2fd (BitVec.ofNat 32 d))) s (fun _ t => Without (s.FilePages d) s t)
      (fun _ t => Without (s.FilePages d) s t) fun _ => False := by
  have hsz := fileSize_eq hm
  rw [hsz] at hsize
  rw [fileClose, wp_bind, fFileid, wp_loadField hd (by decide) hm, wp_bind, fSize,
    wp_loadField hd (by decide) hm, show 144 / 4 = 36 by rfl, wp_bind]
  apply (wp_dirtyLoop _ _ hsize s).mono _ (fun _ _ he => he.elim) fun _ hp => hp
  intro _ t h
  obtain ⟨ht, hreplies⟩ := h
  have hanswer : (t.replies 0).value = s.closeAnswer d := by
    rw [hreplies, Process.closeAnswer, hsz, Nat.zero_add]
  rw [wp_bind, fsipcClose, wp_bind]
  apply (wp_fsipc _ t).mono _ _ fun _ hp => hp
  · intro a u h
    obtain ⟨-, hpos, hu, -⟩ := h
    rw [hanswer] at hpos
    rw [wp_pure, wp_ite]
    constructor
    · intro hzero
      refine (ht.trans hu).congr fun p => ⟨fun hf => hf.elim False.elim False.elim, fun hf => ?_⟩
      obtain ⟨-, j, hj, -⟩ := hf
      change s.mem m.page 36 = 0#32 at hzero
      rw [hsz, hzero] at hj
      exact absurd hj (Nat.not_lt_zero _)
    · intro _
      have hfile : ∀ v, Without (fun p => ∃ j, 4096 * j < (s.mem m.page 36).toNat ∧
        p = dataPage d + j ∧
          p < 0x7F400) u v → Without (s.FilePages d) s v := by
        intro v hv
        refine ((ht.trans hu).trans hv).congr fun p => ?_
        rw [Process.FilePages, hsz]
        simp [hpos]
      rw [wp_bind]
      exact (wp_unmapLoop hd _ hsize u).mono (fun _ v hv => hfile v hv) (fun _ v hv => hfile v hv)
        fun _ hp => hp
  · intro e u h
    obtain ⟨-, hneg, hu, -⟩ := h
    rw [hanswer] at hneg
    refine (ht.trans hu).congr fun p => ⟨fun hf => hf.elim False.elim False.elim, fun hf => ?_⟩
    rw [Process.FilePages, hneg] at hf
    exact absurd hf.1 nofun

/-- `close` unmaps what `Closes` says, and does nothing else to the mappings, whatever it returns.
-/
lemma wp_close (io : Io) (hd : d < 32) (hends : s.Ends d) :
    wp (close io (BitVec.ofNat 32 d)) s (fun _ t => Without (s.Closes d) s t)
      (fun _ t => Without (s.Closes d) s t) fun _ => False := by
  rw [close, wp_bind, wp_fdLookup hd]
  constructor
  · intro hsome
    obtain ⟨m, hm⟩ := Option.isSome_iff_exists.mp hsome
    have hdev : s.devId d = some (s.mem m.page 0) := by
      rw [Process.devId, hm]
      rfl
    -- what is left of `close` after `dev_close`
    have hrest : ∀ (C : ℕ → Prop) (r : Except Word Word) (t : Process), Without C s t →
        (∀ p, C p ∨ p = fdPage d ↔ s.Closes d p) →
        wp (do fdClose (index2fd (BitVec.ofNat 32 d)); giveBack r) t
          (fun _ t => Without (s.Closes d) s t) (fun _ t => Without (s.Closes d) s t)
          fun _ => False := by
      intro C r t ht hC
      rw [wp_bind, fdClose, wp_bind, wp_syscallMemUnmap (fd_legal hd), pn_fd hd, wp_pure]
      have hw := (ht.trans (Without.setEntry t (fdPage d))).congr hC
      cases r with
      | ok r => exact hw
      | error e => exact hw
    rw [wp_bind, wp_loadDevId hd hm, wp_bind, wp_devLookup]
    refine ⟨fun hid => ?_, fun hid => ?_, fun hid => ?_, fun hf hc hp => ?_⟩
    · rw [hid] at hdev
      rw [wp_bind, wp_attempt]
      have hC : ∀ p, s.FilePages d p ∨ p = fdPage d ↔ s.Closes d p := by
        intro p
        simp [Process.Closes, hdev, or_comm]
      exact (wp_fileClose hd hm (hends hdev)).mono (fun _ t ht => hrest _ _ t ht hC)
        (fun _ t ht => hrest _ _ t ht hC) fun _ hp => hp
    · rw [hid] at hdev
      rw [wp_bind, wp_attempt]
      exact hrest _ _ s (Without.refl s) fun p => by simp [Process.Closes, hdev]
    · rw [hid] at hdev
      rw [wp_bind, wp_attempt]
      change wp (pipeClose _) s _ _ _
      rw [pipeClose, wp_bind, wp_syscallMemUnmap (fd_legal hd), pn_fd hd, wp_bind,
        wp_syscallMemUnmap (data_legal hd), pn_data hd, wp_pure]
      refine hrest _ _ _ ((Without.setEntry s _).trans (Without.setEntry _ _)) fun p => ?_
      simp only [Process.Closes, hdev]
      simp
      tauto
    · refine (Without.refl s).congr fun p => ?_
      simp [Process.Closes, hdev, hf, hc, hp]
  · intro hnone
    refine (Without.refl s).congr fun p => ?_
    simp [Process.Closes, Process.devId, hnone]

/-- With a file of such a size, `close` does not come back. -/
lemma wp_close_endless (io : Io) (hd : d < 32) (hends : ¬ s.Ends d) :
    wp (close io (BitVec.ofNat 32 d)) s (fun _ _ => False) (fun _ _ => False)
    (· = Stop.outOfFuel) := by
  rw [Process.Ends, Classical.not_imp, not_le] at hends
  obtain ⟨hdev, hsize⟩ := hends
  obtain ⟨m, hm, hid⟩ := Option.map_eq_some_iff.mp hdev
  rw [fileSize_eq hm] at hsize
  rw [close, wp_bind, wp_fdLookup hd]
  refine ⟨fun _ => ?_, fun hnone => absurd (hm.symm.trans hnone) nofun⟩
  rw [wp_bind, wp_loadDevId hd hm, wp_bind, wp_devLookup, hid]
  refine ⟨fun _ => ?_, fun h => absurd h (by decide), fun h => absurd h (by decide),
    fun h => absurd rfl h⟩
  rw [wp_bind, wp_attempt]
  change wp (fileClose _) s _ _ _
  rw [fileClose, wp_bind, fFileid, wp_loadField hd (by decide) hm, wp_bind, fSize,
    wp_loadField hd (by decide) hm, show 144 / 4 = 36 by rfl, wp_bind]
  exact (wp_dirtyLoop_endless _ _ hsize s).mono (fun _ _ h => h.elim)
    (fun _ _ h => h.elim) fun _ h => h

end

end MosRv.Fd
