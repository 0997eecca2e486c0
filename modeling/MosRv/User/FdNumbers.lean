import MosRv.User.Dup

/-!
# Which numbers are descriptors (`fd_lookup`, `fd_alloc`)

A descriptor number is an `int`, and `INDEX2FD` makes an address of it by arithmetic that wraps
around: there is a number for every page of the address space.  `fd_lookup` refuses those from
`MAXFD` on and those whose page is not mapped.  The others that are negative are taken for
descriptors wherever their pages are, also where the entry that the window shows is one of the
directory; above `ULIM` the kernel panics.  `dup` does not look at its second number, and maps pages
wherever it leads.  `fd_alloc` never comes to the last number.

`numbers_iff` says for which numbers this makes no difference.
-/

namespace MosRv.Fd

open Prog

/-- A number that there is a descriptor for. -/
def InRange (fdnum : Word) : Prop := 0 ≤ fdnum.toInt ∧ fdnum.toInt < MAXFD

/-- `fd_lookup` returns 0. -/
def Found (s : Process) (fdnum : Word) : Prop := ∃ fd t, fdLookup fdnum s = .ok fd t

/-- The calls that take a number, with what else they take. -/
inductive Call
  | close
  | read (buf n : Word)
  | write (buf n : Word)
  | seek (offset : Word)
  | fstat (stat : Word)
  | ftruncate (size : Word)
  /-- The number is the old one of `dup`. -/
  | dupFrom (newfdnum : Word)
  /-- The number is the new one of `dup`, and the old one is in range. -/
  | dupTo (oldfdnum : ℕ) (h : oldfdnum < MAXFD)

def Call.run (io : Io) (fdnum : Word) : Call → ProcM Word
  | .close => Fd.close io fdnum
  | .read buf n => Fd.read io fdnum buf n
  | .write buf n => Fd.write io fdnum buf n
  | .seek offset => Fd.seek fdnum offset
  | .fstat stat => Fd.fstat io fdnum stat
  | .ftruncate size => Fd.ftruncate fdnum size
  | .dupFrom newfdnum => Fd.dup io fdnum newfdnum
  | .dupTo oldfdnum _ => Fd.dup io (BitVec.ofNat 32 oldfdnum) fdnum

/-- The process with other answers to come. -/
def Process.withAnswers (s : Process) (grants : ℕ → Option ℕ) (replies : ℕ → Reply) : Process :=
  { s with grants := grants, replies := replies }

/-- A call comes back with a negative number, and no mapping and no memory has changed. -/
def Refused (x : ProcM Word) (s : Process) : Prop :=
  wp x s (fun r t => r.msb = true ∧ s.Same t) (fun r t => r.msb = true ∧ s.Same t) fun _ => False

/-- **What is to hold of a number**, in a process. -/
structure Validated (io : Io) (s : Process) (fdnum : Word) : Prop where
  lookup : Found s fdnum ↔ InRange fdnum ∧ (s.entry (pn (index2fd fdnum))).isSome
  refused : ¬ InRange fdnum → ∀ (c : Call) grants replies,
    Refused (c.run io fdnum) (s.withAnswers grants replies)
  alloc : wp fdAlloc s
    (fun va t => s.Same t ∧ ∃ d < MAXFD, va = index2fd (BitVec.ofNat 32 d) ∧ s.FirstFree d)
    (fun e t => s.Same t ∧ e = -E_MAX_OPEN ∧ ∀ j < MAXFD,
      (s.entry (fdPage j)).isSome) fun _ => False

/-- `fd_lookup` refuses a number. -/
def Hidden (s : Process) (fdnum : Word) : Prop :=
  (MAXFD : ℤ) ≤ fdnum.toInt ∨ s.window (VPN (index2fd fdnum)) = some none

/-- `dup` cannot get anywhere with the new number, and there is nothing to be unmapped on the way
back. -/
structure NoWay (s : Process) (o : ℕ) (newfd : Word) : Prop where
  blocked : Blocked s o newfd
  empty : ∀ q, Target newfd q → s.entry q = none

/-- **When a number is dealt with as it should be.** -/
structure Fits (s : Process) (fdnum : Word) : Prop where
  number : InRange fdnum ∨ Hidden s fdnum ∧
    ∀ o < MAXFD, (s.entry (fdPage o)).isSome → NoWay s o (index2fd fdnum)
  alloc : (∃ d < MAXFD - 1, s.entry (fdPage d) = none) ∨ (s.entry (fdPage (MAXFD - 1))).isSome

/-! ## `fd_lookup` -/

section

variable {s : Process} {fdnum : Word} {Q E : Word → Process → Prop} {P : Stop → Prop}

lemma wp_fdLookup_hidden (h : Hidden s fdnum) : wp (fdLookup fdnum) s Q E P ↔ E (-E_INVAL) s := by
  unfold fdLookup
  by_cases hge : (MAXFD : ℤ) ≤ fdnum.toInt
  · rw [if_pos hge, wp_exit]
  · rw [if_neg hge, wp_bind, wp_readVpt (h.resolve_left hge)]
    exact Iff.rfl

lemma found_of_window {flags : Word} (hlt : ¬ (MAXFD : ℤ) ≤ fdnum.toInt)
    (hw : s.window (VPN (index2fd fdnum)) = some (some flags)) : Found s fdnum := by
  have hrun : wp (fdLookup fdnum) s (fun _ _ => True) (fun _ _ => False) fun _ => False := by
    rw [fdLookup, if_neg hlt, wp_bind, wp_readVpt hw]
    trivial
  obtain ⟨fd, t, hok, -⟩ := hrun.exists_ok
  exact ⟨fd, t, hok⟩

/-- A number that `fd_lookup` does not refuse is found, or the machine stops. -/
lemma not_hidden (h : ¬ Hidden s fdnum) :
    Found s fdnum ∨ fdLookup fdnum s = .panic .vptKernelSpace := by
  rw [Hidden, not_or] at h
  obtain ⟨hlt, hwindow⟩ := h
  cases hw : s.window (VPN (index2fd fdnum)) with
  | none =>
      right
      have hrun : wp (fdLookup fdnum) s (fun _ _ => False) (fun _ _ => False)
          (· = Stop.vptKernelSpace) := by
        rw [fdLookup, if_neg hlt, wp_bind, readVpt, wp_bind, wp_get, hw]
        exact rfl
      obtain ⟨p, hp, rfl⟩ := hrun.exists_panic
      exact hp
  | some flags =>
      cases flags with
      | none => exact absurd hw hwindow
      | some w => exact .inl (found_of_window hlt hw)

lemma not_found_of_hidden (h : Hidden s fdnum) : ¬ Found s fdnum := by
  intro hfound
  obtain ⟨fd, t, hok⟩ := hfound
  have hrun : wp (fdLookup fdnum) s (fun _ _ => False) (fun _ _ => True) fun _ => False :=
    (wp_fdLookup_hidden h).mpr trivial
  exact hrun.of_ok hok

/-- A number in range is the number of a descriptor. -/
lemma inRange_iff : InRange fdnum ↔ ∃ d < 32, fdnum = BitVec.ofNat 32 d := by
  constructor
  · intro h
    obtain ⟨hnonneg, hlt⟩ := h
    rw [BitVec.toInt_eq_toNat_cond] at hnonneg hlt
    rw [MAXFD] at hlt
    have hw := fdnum.isLt
    refine ⟨fdnum.toNat, ?_, by rw [BitVec.ofNat_toNat, BitVec.setWidth_eq]⟩
    split_ifs at hnonneg hlt <;> omega
  · intro h
    obtain ⟨d, hd, rfl⟩ := h
    rw [InRange, toInt_fd hd]
    simp only [MAXFD]
    omega

lemma found_iff (hr : InRange fdnum) : Found s fdnum ↔ (s.entry (pn (index2fd fdnum))).isSome := by
  obtain ⟨d, hd, rfl⟩ := inRange_iff.mp hr
  rw [pn_fd hd]
  constructor
  · intro hf
    obtain ⟨fd, t, hok⟩ := hf
    by_contra hnone
    rw [Bool.not_eq_true, Option.isSome_eq_false_iff, Option.isNone_iff_eq_none] at hnone
    have hrun : wp (fdLookup (BitVec.ofNat 32 d)) s (fun _ _ => False) (fun _ _ => True)
        fun _ => False := by
      rw [wp_fdLookup hd, hnone]
      exact ⟨fun h => absurd h (by simp), fun _ => trivial⟩
    exact hrun.of_ok hok
  · intro h
    have hrun : wp (fdLookup (BitVec.ofNat 32 d)) s (fun _ _ => True) (fun _ _ => False)
        fun _ => False := by
      rw [wp_fdLookup hd]
      exact ⟨fun _ => trivial, fun hnone => absurd (hnone ▸ h) (by simp)⟩
    obtain ⟨fd, t, hok, -⟩ := hrun.exists_ok
    exact ⟨fd, t, hok⟩

/-! ## `fd_alloc` -/

/-- `fd_alloc` is right unless the last number is the only one that is left. -/
lemma alloc_iff (s : Process) :
    wp fdAlloc s
      (fun va t => s.Same t ∧ ∃ d < MAXFD, va = index2fd (BitVec.ofNat 32 d) ∧ s.FirstFree d)
      (fun e t => s.Same t ∧ e = -E_MAX_OPEN ∧ ∀ j < MAXFD, (s.entry (fdPage j)).isSome)
      (fun _ => False) ↔
    (∃ d < MAXFD - 1, s.entry (fdPage d) = none) ∨ (s.entry (fdPage (MAXFD - 1))).isSome := by
  constructor
  · intro h
    apply ((wp_fdAlloc s).and h).elim _ _ fun _ hp => hp.1.elim
    · intro va t h
      obtain ⟨⟨-, d, hd, -, hfree⟩, -⟩ := h
      exact .inl ⟨d, hd, hfree.1⟩
    · intro e t h
      obtain ⟨-, -, -, hall⟩ := h
      exact .inr (hall (MAXFD - 1) (by decide))
  · intro h
    apply (wp_fdAlloc s).mono _ _ fun _ hp => hp
    · intro va t h
      obtain ⟨rfl, d, hd, rfl, hfree⟩ := h
      exact ⟨Process.Same.refl t, d, by rw [MAXFD]; omega, rfl, hfree⟩
    · intro e t h'
      obtain ⟨rfl, rfl, hall⟩ := h'
      refine ⟨Process.Same.refl t, rfl, fun j hj => ?_⟩
      rw [MAXFD] at hj
      by_cases hlt : j < 31
      · exact hall j hlt
      · obtain rfl : j = 31 := by omega
        obtain ⟨d, hd, hnone⟩ | hlast := h
        · have hsome := hall d hd
          rw [hnone] at hsome
          exact absurd hsome (by simp)
        · exact hlast

end

/-! ## `dup` onto a number that is not one -/

section

variable {s : Process} {o : ℕ}

/-- `dup` of an open descriptor to a number that `fd_lookup` refuses. -/
lemma wp_dup_hidden (io : Io) {fdnum : Word} (ho : o < 32) (hopen : (s.entry (fdPage o)).isSome)
    (hhidden : Hidden s fdnum) :
    wp (dup io (BitVec.ofNat 32 o) fdnum) s
      (fun r t => r = fdnum ∧ ¬ Blocked s o (index2fd fdnum) ∧
        isIllegalVa (index2fd fdnum) = false ∧
        (t.entry (pn (index2fd fdnum))).isSome)
      (fun r t => r.msb = true ∧ Failed o (index2fd fdnum) s t ∧
        ∀ q, Target (index2fd fdnum) q → t.entry q = none) fun _ => False := by
  rw [dup, wp_bind, wp_fdLookup ho]
  refine ⟨fun _ => ?_, fun hnone => absurd (hnone ▸ hopen) (by simp)⟩
  rw [wp_bind, wp_attempt, close, wp_bind, wp_fdLookup_hidden hhidden, wp_bind, wp_onError]
  apply (wp_dupPages ho (index2fd fdnum) s).mono _ _ fun _ hp => hp
  · intro _ t h
    refine ⟨rfl, h.not_blocked, ?_⟩
    obtain ⟨u, m, -, hlegal, -, ht⟩ := h
    exact ⟨hlegal, by rw [ht, Process.entry_setEntry_self]; rfl⟩
  · intro r t h
    obtain ⟨hneg, hfailed⟩ := h
    apply (wp_dupUndo (index2fd fdnum) t).imp
    intro _ u hu
    refine ⟨hneg, ⟨hfailed.blocked, hu.env.trans hfailed.env, hu.mem.trans hfailed.mem,
      fun q hq => ?_⟩,
      hu.gone⟩
    rw [hu.kept q hq, hfailed.kept q hq]

end

/-! ## All calls -/

section

variable {io : Io} {s : Process} {fdnum : Word}

/-- What begins with a `fd_lookup` that refuses, fails and leaves everything as it is. -/
lemma refused_of_hidden (h : Hidden s fdnum) : ∀ c : Call, (∀ o ho, c ≠ .dupTo o ho) →
    Refused (c.run io fdnum) s := by
  have hfail : (-E_INVAL).msb = true ∧ s.Same s := ⟨by decide, Process.Same.refl s⟩
  intro c hc
  unfold Refused
  cases c with
  | close => rwa [Call.run, close, wp_bind, wp_fdLookup_hidden h]
  | read buf n => rwa [Call.run, read, wp_bind, wp_fdLookup_hidden h]
  | write buf n => rwa [Call.run, write, wp_bind, wp_fdLookup_hidden h]
  | seek offset => rwa [Call.run, seek, wp_bind, wp_fdLookup_hidden h]
  | fstat stat => rwa [Call.run, fstat, wp_bind, wp_fdLookup_hidden h]
  | ftruncate size =>
      rw [Call.run, ftruncate, wp_ite, wp_bind, wp_fdLookup_hidden h]
      exact ⟨fun _ => ⟨by decide, Process.Same.refl s⟩, fun _ => hfail⟩
  | dupFrom newfdnum => rwa [Call.run, dup, wp_bind, wp_fdLookup_hidden h]
  | dupTo o ho => exact absurd rfl (hc o ho)

/-- `dup` fails and leaves everything as it is, if there is no way. -/
lemma refused_dupTo {o : ℕ} (ho : o < MAXFD) (h : Hidden s fdnum)
    (hno : (s.entry (fdPage o)).isSome → NoWay s o (index2fd fdnum)) :
    Refused (Call.run io fdnum (.dupTo o ho)) s := by
  unfold Refused
  by_cases hopen : (s.entry (fdPage o)).isSome
  · obtain ⟨hblocked, hempty⟩ := hno hopen
    apply (wp_dup_hidden io ho hopen h).mono _ _ fun _ hp => hp
    · intro r t hok
      exact absurd hblocked hok.2.1
    · intro r t hfail
      obtain ⟨hneg, hfailed, hgone⟩ := hfail
      refine ⟨hneg, fun q => ?_, hfailed.mem⟩
      by_cases hq : Target (index2fd fdnum) q
      · rw [hgone q hq, hempty q hq]
      · exact hfailed.kept q hq
  · rw [Bool.not_eq_true, Option.isSome_eq_false_iff, Option.isNone_iff_eq_none] at hopen
    rw [Call.run, dup, wp_bind, wp_fdLookup ho, hopen]
    exact ⟨fun h => absurd h (by simp), fun _ => ⟨by decide, Process.Same.refl s⟩⟩

/-- A negative number that is refused and has a legal address leads to a page that is not mapped. -/
lemma entry_of_hidden (h : Hidden s fdnum) (hneg : fdnum.msb = true)
    (hlegal : isIllegalVa (index2fd fdnum) = false) : s.entry (pn (index2fd fdnum)) = none := by
  have hlt : ¬ (MAXFD : ℤ) ≤ fdnum.toInt := by
    have hnum := BitVec.toInt_neg_of_msb_true hneg
    rw [MAXFD]
    omega
  have htop : (index2fd fdnum).toNat < 0x7FC00000 := by
    rw [isIllegalVa, decide_eq_false_iff_not, not_or, BitVec.not_le, BitVec.lt_def (y := UTOP),
      show UTOP.toNat = 0x7F400000 by decide] at hlegal
    omega
  have hwindow := h.resolve_left hlt
  rw [window_of_lt htop] at hwindow
  exact Option.map_eq_none_iff.mp (Option.some.inj hwindow)

/-- If `dup` is refused whatever `page_alloc` answers, there is no way. -/
lemma noWay_of_refused {o : ℕ} (ho : o < MAXFD) (hopen : (s.entry (fdPage o)).isSome)
    (h : Hidden s fdnum)
    (hrefused : Refused (Call.run io fdnum (.dupTo o ho)) (s.withAnswers some s.replies)) :
    NoWay s o (index2fd fdnum) := by
  have hboth := (wp_dup_hidden io (s := s.withAnswers some s.replies) ho hopen h).and hrefused
  -- `dup` cannot have succeeded
  have hnot : ∀ r t, (r = fdnum ∧ ¬ Blocked (s.withAnswers some s.replies) o (index2fd fdnum) ∧
      isIllegalVa (index2fd fdnum) = false ∧ (t.entry (pn (index2fd fdnum))).isSome) ∧
      r.msb = true ∧ (s.withAnswers some s.replies).Same t → False := by
    intro r t hok
    obtain ⟨⟨rfl, -, hlegal, hsome⟩, hneg, hsame⟩ := hok
    rw [hsame.entry] at hsome
    have hnone : (s.withAnswers some s.replies).entry (pn (index2fd r)) = none :=
      entry_of_hidden h hneg hlegal
    rw [hnone] at hsome
    exact absurd hsome (by simp)
  constructor
  · apply hboth.elim (fun r t hok => (hnot r t hok).elim) _ fun _ hp => hp.1.elim
    intro r t hfail
    obtain hblocked | hnone := hfail.1.2.1.blocked (.inl fun n => Option.some_ne_none n)
    · exact hblocked
    · have hnone : s.entry (fdPage o) = none := hnone
      rw [hnone] at hopen
      exact absurd hopen (by simp)
  · intro q hq
    apply hboth.elim (fun r t hok => (hnot r t hok).elim) _ fun _ hp => hp.1.elim
    intro r t hfail
    obtain ⟨⟨-, -, hgone⟩, -, hsame⟩ := hfail
    exact (hsame.entry q).symm.trans (hgone q hq)

/-- **Numbers are validated if and only if** the number is in range, or `fd_lookup` refuses it and
there is no way for `dup` to it from any descriptor that is open; and not all descriptors but the
last are in use. -/
theorem numbers_iff (io : Io) (s : Process) (fdnum : Word) :
    Validated io s fdnum ↔ Fits s fdnum := by
  constructor
  · intro h
    refine ⟨?_, (alloc_iff s).mp h.alloc⟩
    by_cases hr : InRange fdnum
    · exact .inl hr
    · have hhidden : Hidden s fdnum := by
        by_contra hnot
        obtain hfound | hpanic := not_hidden hnot
        · exact hr (h.lookup.mp hfound).1
        · have hclose : wp (close io fdnum) s (fun _ _ => False)
              (fun _ _ => False) fun _ => True := by
            rw [close, wp_bind, wp, hpanic]
            trivial
          have hrefused : Refused (close io fdnum) s := h.refused hr .close s.grants s.replies
          exact (hclose.and hrefused).elim (fun _ _ h => h.1) (fun _ _ h => h.1) fun _ h => h.2
      exact .inr ⟨hhidden, fun o ho hopen =>
        noWay_of_refused ho hopen hhidden (h.refused hr (.dupTo o ho) some s.replies)⟩
  · intro h
    refine ⟨?_, fun hr c grants replies => ?_, (alloc_iff s).mpr h.alloc⟩
    · by_cases hr : InRange fdnum
      · rw [found_iff hr]
        exact ⟨fun hsome => ⟨hr, hsome⟩, fun hsome => hsome.2⟩
      · have hhidden := (h.number.resolve_left hr).1
        exact ⟨fun hfound => absurd hfound (not_found_of_hidden hhidden),
          fun hboth => absurd hboth.1 hr⟩
    · obtain ⟨hhidden, hnoway⟩ := h.number.resolve_left hr
      by_cases hc : ∃ o ho, c = .dupTo o ho
      · obtain ⟨o, ho, rfl⟩ := hc
        exact refused_dupTo ho hhidden fun hopen =>
          ⟨(hnoway o ho hopen).blocked, (hnoway o ho hopen).empty⟩
      · exact refused_of_hidden (s := s.withAnswers grants replies) hhidden c
          fun o ho heq => hc ⟨o, ho, heq⟩

/-- A process with a page of its program, at `UTEXT`. -/
def programLoaded : Process :=
  (Process.empty fun n => some (100 + n)).setEntry 0x400 (some ⟨10, givenFlags 0#32⟩)

/-- `INDEX2FD(-391168)` is `UTEXT`, and `fd_lookup(-391168)` returns 0. -/
theorem not_validated_text : ¬ Validated quietIo programLoaded (BitVec.ofInt 32 (-391168)) := by
  intro h
  have hwindow : programLoaded.window (VPN (index2fd (BitVec.ofInt 32 (-391168)))) =
      some (some (givenFlags 0#32)) := by
    rw [window_of_lt (by decide), show pn (index2fd (BitVec.ofInt 32 (-391168))) = 0x400 by decide,
      programLoaded, Process.entry_setEntry_self]
    rfl
  have hfound : Found programLoaded (BitVec.ofInt 32 (-391168)) :=
    found_of_window (by decide) hwindow
  exact absurd (h.lookup.mp hfound).1 (by unfold InRange; decide)

end

end MosRv.Fd
