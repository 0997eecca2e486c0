import MosRv.LibString
import MosRv.Lib.Traced

/-!
# Reading a line (`user/sh.c`)

`readline` reads byte after byte into a buffer.  A deletion has been stored when it is seen to be
one, so the index goes back by two, and the loop adds one.  After that the code looks at the byte at
the index, for what it prints and for the end of the line.

If at most one byte is left, the index is -1 by then, and the byte in front of the buffer is looked
at. It may even end the line, and is overwritten then.  `readline_iff` says that this is the only
thing that can go wrong: the accesses are inside the buffer, and a line that fits is read as it was
edited, unless a deletion is read when at most one byte is left.

The buffer is a memory whose places are counted from its start; a buffer has less than 2^31 bytes,
so that an `int` holds every index.  What the function prints is left out.
-/

namespace MosRv.Readline

open Prog

/-- The memory around the buffer, and what is still to be typed. -/
structure Tty where
  line : Traced ℤ (BitVec 8)
  input : List (BitVec 8)

/-- `exit()`. -/
inductive Quit
  | exited

abbrev TtyM := Prog Quit OutOfFuel Tty

/-- `buf[i]`. -/
def load (i : ℤ) : TtyM (BitVec 8) := do
  let s ← get
  set { s with line := s.line.touch i }
  pure (s.line.mem i)

/-- `buf[i] = c`. -/
def store (i : ℤ) (c : BitVec 8) : TtyM Unit :=
  modify fun s => { s with line := s.line.store i c }

/-- `read(0, buf + i, 1)`. -/
def read (i : ℤ) : TtyM ℤ := do
  let s ← get
  match s.input with
  | [] => pure 0
  | c :: rest => do
      set { s with input := rest }
      store i c
      pure 1

def IsDeletion (c : BitVec 8) : Prop := c = 8#8 ∨ c = 0x7f#8

def IsLineEnd (c : BitVec 8) : Prop := c = 13#8 ∨ c = 10#8

instance : DecidablePred IsDeletion := fun _ => inferInstanceAs (Decidable (_ ∨ _))

instance : DecidablePred IsLineEnd := fun _ => inferInstanceAs (Decidable (_ ∨ _))

/-- The body of the loop; `return` is the second result. -/
def round (i : ℤ) : TtyM (ℤ ⊕ Unit) := do
  let r ← read i
  if r ≠ 1 then exit .exited
  else do
    let c ← load i
    let i ←
      if IsDeletion c then do
        let i := if 0 < i then i - 2 else -1
        -- `if (buf[i] != '\b') printf("\b");`
        let _ ← load i
        pure i
      else pure i
    let c ← load i
    if IsLineEnd c then do
      store i 0#8
      pure (.inr ())
    else pure (.inl (i + 1))

/-- The rest of a line that is too long. -/
def skip (fuel : ℕ) : TtyM Unit :=
  iter .outOfFuel (fun _ => do
    let r ← read 0
    if r = 1 then do
      let c ← load 0
      if IsLineEnd c then pure (.inr ()) else pure (.inl ())
    else pure (.inr ())) fuel ()

def readline (fuel n : ℕ) : TtyM Unit := do
  let returned ← iter .outOfFuel (fun (i : ℤ) => do
    if i < n then do
      let r ← round i
      pure (r.elim Sum.inl fun _ => .inr true)
    else pure (.inr false)) fuel 0
  if returned then pure ()
  else do
    skip fuel
    store 0 0#8

/-! ## What is to be read -/

/-- What a byte does to the line. -/
def edit (line : List (BitVec 8)) (c : BitVec 8) : List (BitVec 8) :=
  if IsDeletion c then line.dropLast else line ++ [c]

/-- The line that is left of what has been typed. -/
def edited (typed : List (BitVec 8)) : List (BitVec 8) := typed.foldl edit []

/-- What is typed before the end of the line. -/
def typed (input : List (BitVec 8)) : List (BitVec 8) := input.takeWhile fun c => ¬ IsLineEnd c

/-- The line never gets longer than the buffer can hold with the byte 0 at its end. -/
def Fits (n : ℕ) (input : List (BitVec 8)) : Prop :=
  ∀ p, p <+: typed input → (edited p).length ≤ n - 1

/-- The first `n` bytes of the buffer. -/
def contents (m : ℤ → BitVec 8) (n : ℕ) : List (BitVec 8) := (List.range n).map fun i : ℕ => m i

/-- The buffer holds a string and the byte 0 behind it. -/
def Holds (m : ℤ → BitVec 8) (s : List (BitVec 8)) : Prop :=
  contents m s.length = s ∧ m s.length = 0#8

/-- The places of the buffer. -/
def Buffer (n : ℕ) : Set ℤ := {i | 0 ≤ i ∧ i < n}

/-- The accesses are inside the buffer, and a line that fits is read as it was edited. -/
def ReadsLine (fuel n : ℕ) (m : ℤ → BitVec 8) (input : List (BitVec 8)) : Prop :=
  ∃ s, readline fuel n ⟨⟨m, []⟩, input⟩ = .ok () s ∧ s.line.Within (Buffer n) ∧
    (Fits n input → Holds s.line.mem (edited (typed input)))

/-- A deletion is read, before the line ends or gets too long, when at most one byte is left. -/
def DeletesEarly (n : ℕ) (input : List (BitVec 8)) : Prop :=
  ∃ p d, p ++ [d] <+: typed input ∧ IsDeletion d ∧ (∀ q, q <+: p → (edited q).length < n) ∧
    (edited p).length ≤ 1

section

variable {fuel n : ℕ} {m : ℤ → BitVec 8} {input p q : List (BitVec 8)} {c d : BitVec 8} {s : Tty}
  {i : ℤ}

/-! ## The edited line -/

lemma edited_concat (p : List (BitVec 8)) (c : BitVec 8) :
    edited (p ++ [c]) = edit (edited p) c := by
  unfold edited
  rw [List.foldl_append]
  rfl

/-- What is left of the line has been typed. -/
lemma mem_edited (h : c ∈ edited p) : c ∈ p := by
  induction p using List.reverseRecOn with
  | nil => exact h
  | append_singleton p d ih =>
      rw [edited_concat] at h
      unfold edit at h
      split_ifs at h
      · exact List.mem_append_left _ (ih (List.mem_of_mem_dropLast h))
      · rw [List.mem_append] at h ⊢
        exact h.imp ih id

lemma contents_succ (m : ℤ → BitVec 8) (n : ℕ) : contents m (n + 1) = contents m n ++ [m n] := by
  simp [contents, List.range_succ]

/-- The bytes in front of a place that is written stay. -/
lemma contents_update (m : ℤ → BitVec 8) (n k : ℕ) (hk : k ≤ n) (c : BitVec 8) :
    contents (Function.update m n c) k = contents m k := by
  apply List.map_congr_left
  intro j hj
  rw [List.mem_range] at hj
  apply Function.update_of_ne
  omega

lemma contents_pred (m : ℤ → BitVec 8) (n : ℕ) : contents m (n - 1) = (contents m n).dropLast := by
  cases n with
  | zero => rfl
  | succ n => rw [contents_succ, List.dropLast_concat, Nat.add_sub_cancel]

lemma not_isLineEnd (h : IsDeletion c) : ¬ IsLineEnd c := by
  unfold IsLineEnd
  obtain rfl | rfl := h <;> decide

/-- A byte of the buffer is one of the line. -/
lemma mem_of_contents {t : List (BitVec 8)} (h : contents m t.length = t) {k : ℕ}
    (hk : k < t.length) :
    m k ∈ t := by
  rw [← h]
  exact List.mem_map.mpr ⟨k, List.mem_range.mpr hk, rfl⟩

/-- The line ends behind what has been typed before its end. -/
lemma typed_append (hp : ∀ c ∈ p, ¬ IsLineEnd c) (hc : IsLineEnd c) (rest : List (BitVec 8)) :
    typed (p ++ c :: rest) = p := by
  unfold typed
  rw [List.takeWhile_append_of_pos (by simpa using hp),
    List.takeWhile_cons_of_neg (by simpa using hc),
    List.append_nil]

lemma prefix_typed (hp : ∀ c ∈ p, ¬ IsLineEnd c) (rest : List (BitVec 8)) :
    p <+: typed (p ++ rest) := by
  unfold typed
  rw [List.takeWhile_append_of_pos (by simpa using hp)]
  exact List.prefix_append _ _

/-! ## One round -/

/-- One round of the loop, when `c` is typed. -/
lemma wp_round {rest : List (BitVec 8)} (hinput : s.input = c :: rest)
    {Q : ℤ ⊕ Unit → Tty → Prop} {E : Quit → Tty → Prop} {P : OutOfFuel → Prop}
    (hdel : IsDeletion c → ∀ j, j = (if 0 < i then i - 2 else -1) →
      (IsLineEnd (Function.update s.line.mem i c j) →
        Q (.inr ()) ⟨((((s.line.store i c).touch i).touch j).touch j).store j 0#8, rest⟩) ∧
      (¬ IsLineEnd (Function.update s.line.mem i c j) →
        Q (.inl (j + 1)) ⟨(((s.line.store i c).touch i).touch j).touch j, rest⟩))
    (hend : ¬ IsDeletion c → IsLineEnd c →
      Q (.inr ()) ⟨(((s.line.store i c).touch i).touch i).store i 0#8, rest⟩)
    (hchar : ¬ IsDeletion c → ¬ IsLineEnd c →
      Q (.inl (i + 1)) ⟨((s.line.store i c).touch i).touch i, rest⟩) :
    wp (round i) s Q E P := by
  unfold round read load store
  simp only [ne_eq, wp_bind, wp_get, hinput, wp_set, wp_modify, wp_pure, wp_ite,
    not_true_eq_false, not_false_eq_true, false_imp_iff, true_imp_iff, true_and, Traced.touch_mem,
      Traced.store_mem, Function.update_self]
  exact ⟨fun hd => hdel hd _ rfl, fun hd => ⟨hend hd, hchar hd⟩⟩

/-- Up to here all is well: `p` has been typed, and its edited line is in the buffer. -/
structure Good (n : ℕ) (input p : List (BitVec 8)) (i : ℤ) (s : Tty) : Prop where
  split : input = p ++ s.input
  noEnd : ∀ c ∈ p, ¬ IsLineEnd c
  short : ∀ q c, q ++ [c] <+: p → (edited q).length < n
  onTime : ∀ q d, q ++ [d] <+: p → IsDeletion d → 1 < (edited q).length
  index : i = (edited p).length
  held : contents s.line.mem (edited p).length = edited p
  within : s.line.Within (Buffer n)

/-- The damage is done. -/
structure Bad (n : ℕ) (input : List (BitVec 8)) (s : Tty) : Prop where
  early : DeletesEarly n input
  outside : (-1 : ℤ) ∈ s.line.touched

/-- A line that is typed without an early deletion has none. -/
lemma Good.not_deletesEarly (h : Good n input p i s)
    (hall : typed input = p ∨ n ≤ (edited p).length) : ¬ DeletesEarly n input := by
  intro hearly
  obtain ⟨q, d, hq, hd, hshort, hle⟩ := hearly
  have hqp : q ++ [d] <+: p := by
    obtain hall | hlong := hall
    · rwa [hall] at hq
    have hp : p <+: typed input := by
      rw [h.split]
      exact prefix_typed h.noEnd s.input
    obtain hp | hp := List.prefix_or_prefix_of_prefix hq hp
    · exact hp
    -- `p` is too long to be typed before the deletion
    · obtain hp | hp := List.prefix_concat_iff.mp hp
      · rw [hp]
      · exact absurd (hshort p hp) (Nat.not_lt.mpr hlong)
  exact Nat.not_lt.mpr hle (h.onTime q d hqp hd)

lemma last_or_before (h : q ++ [d] <+: p ++ [c]) : q = p ∧ d = c ∨ q ++ [d] <+: p := by
  apply (List.prefix_concat_iff.mp h).imp_left
  intro heq
  obtain ⟨hq, hd⟩ := List.append_inj' heq rfl
  exact ⟨hq, List.singleton_inj.mp hd⟩

/-- Typing goes on, with a byte that does no damage. -/
lemma Good.concat (h : Good n input p i s) (hi : i < n) (hc : ¬ IsLineEnd c)
    (hd : IsDeletion c → 1 < (edited p).length) {s' : Tty} (hsplit : s.input = c :: s'.input)
    (hwithin : s'.line.Within (Buffer n))
    (hheld : contents s'.line.mem (edit (edited p) c).length = edit (edited p) c) :
    Good n input (p ++ [c]) (edit (edited p) c).length s' where
  split := by
    rw [h.split, hsplit, List.append_assoc]
    rfl
  noEnd := by
    intro e he
    rw [List.mem_append, List.mem_singleton] at he
    obtain he | rfl := he
    · exact h.noEnd e he
    · exact hc
  short := by
    intro q d hq
    obtain ⟨rfl, -⟩ | hq := last_or_before hq
    · have hindex := h.index
      omega
    · exact h.short q d hq
  onTime := by
    intro q d hq hdel
    obtain ⟨rfl, rfl⟩ | hq := last_or_before hq
    · exact hd hdel
    · exact h.onTime q d hq hdel
  index := by rw [edited_concat]
  held := by rw [edited_concat, hheld]
  within := hwithin

lemma Good.short_all (h : Good n input p i s) (hi : i < n) :
    ∀ q, q <+: p → (edited q).length < n := by
  intro q hq
  have hindex := h.index
  obtain ⟨t, rfl⟩ := hq
  cases t with
  | nil =>
      rw [List.append_nil] at hindex
      omega
  | cons e t =>
      apply h.short q e
      refine ⟨t, ?_⟩
      rw [List.append_assoc]
      rfl

/-- Something is still to be typed before the end of the line. -/
lemma Good.exists_cons (h : Good n input p i s) (hend : ∃ c ∈ input, IsLineEnd c) :
    ∃ c rest, s.input = c :: rest := by
  obtain ⟨e, he, heend⟩ := hend
  rw [h.split, List.mem_append] at he
  cases hs : s.input with
  | nil =>
      rw [hs] at he
      exact absurd heend (h.noEnd e (he.resolve_right List.not_mem_nil))
  | cons c rest => exact ⟨c, rest, rfl⟩

/-- A deletion that is read when at most one byte is left is an early one. -/
lemma Good.bad (h : Good n input p i s) (hi : i < n) {rest : List (BitVec 8)}
    (hinput : s.input = c :: rest) (hd : IsDeletion c) (hlen : ¬ 1 < (edited p).length) {s' : Tty}
    (hfront : -1 ∈ s'.line.touched) : Bad n input s' := by
  refine ⟨⟨p, c, ?_, hd, h.short_all hi, Nat.not_lt.mp hlen⟩, hfront⟩
  have hsplit : input = p ++ [c] ++ rest := by
    rw [h.split, hinput, List.append_assoc]
    rfl
  rw [hsplit]
  apply prefix_typed
  intro e he
  rw [List.mem_append, List.mem_singleton] at he
  obtain he | rfl := he
  · exact h.noEnd e he
  · exact not_isLineEnd hd

/-- **What a round does to a good line.** -/
lemma Good.wp_round (h : Good n input p i s) (hi : i < n) (hend : ∃ c ∈ input, IsLineEnd c)
    {E : Quit → Tty → Prop} {P : OutOfFuel → Prop} :
    wp (round i) s (fun r s' => s'.input.length < s.input.length ∧
      (Bad n input s' ∨ r.elim (fun i' => ∃ c, Good n input (p ++ [c]) i' s') fun _ =>
        typed input = p ∧ s'.line.Within (Buffer n) ∧ Holds s'.line.mem (edited p))) E P := by
  obtain ⟨c, rest, hinput⟩ := h.exists_cons hend
  have hindex := h.index
  have hin : i ∈ Buffer n := ⟨by omega, hi⟩
  have hshorter : rest.length < s.input.length := by
    rw [hinput]
    exact Nat.lt_succ_self _
  have hstored : contents (Function.update s.line.mem i c) (edited p).length = edited p := by
    rw [hindex, contents_update _ _ _ le_rfl, h.held]
  have hheld := h.held
  apply Readline.wp_round hinput
  · intro hd j hj
    by_cases hlen : 1 < (edited p).length
    · -- the byte before the one that is deleted has been typed too
      have hj' : j = ((edited p).length - 2 : ℕ) := by
        rw [hj, if_pos (by omega)]
        omega
      have hkept : ¬ IsLineEnd (Function.update s.line.mem i c j) := by
        rw [hj']
        exact h.noEnd _ (mem_edited (mem_of_contents hstored (by omega)))
      have hedit : edit (edited p) c = (edited p).dropLast := if_pos hd
      have hlength : (edit (edited p) c).length = (edited p).length - 1 := by
        rw [hedit, List.length_dropLast]
      have hnext : j + 1 = (edit (edited p) c).length := by omega
      refine ⟨fun hc => absurd hc hkept, fun _ => ⟨hshorter, .inr ⟨c, ?_⟩⟩⟩
      rw [hnext]
      apply h.concat hi (not_isLineEnd hd) (fun _ => hlen) hinput
      · have hjin : j ∈ Buffer n := ⟨by omega, by omega⟩
        simp [hin, hjin, h.within]
      · change contents (Function.update s.line.mem i c) _ = _
        rw [hlength, contents_pred, hstored, hedit]
    · -- the index gets in front of the buffer
      have hj' : j = -1 := by
        rw [hj]
        split_ifs <;> omega
      refine ⟨fun _ => ⟨hshorter, .inl (h.bad hi hinput hd hlen ?_)⟩,
        fun _ => ⟨hshorter, .inl (h.bad hi hinput hd hlen ?_)⟩⟩
      · simp [hj']
      · simp [hj']
  · intro hd hend
    refine ⟨hshorter, .inr ⟨?_, ?_, ?_⟩⟩
    · rw [h.split, hinput]
      exact typed_append h.noEnd hend rest
    · simp [hin, h.within]
    · refine ⟨?_, ?_⟩
      · simp only [Traced.store_mem, Traced.touch_mem]
        rw [hindex, contents_update _ _ _ le_rfl, ← hindex, hstored]
      · rw [← hindex]
        simp
  · intro hd hend
    have hedit : edit (edited p) c = edited p ++ [c] := if_neg hd
    have hlength : (edit (edited p) c).length = (edited p).length + 1 := by
      rw [hedit, List.length_append, List.length_singleton]
    have hnext : i + 1 = (edit (edited p) c).length := by omega
    refine ⟨hshorter, .inr ⟨c, ?_⟩⟩
    rw [hnext]
    apply h.concat hi hend (fun hc => absurd hc hd) hinput
    · simp [hin, h.within]
    · change contents (Function.update s.line.mem i c) _ = _
      rw [hlength, contents_succ, hstored, ← hindex, Function.update_self, hedit]

/-- After the damage a round may do what it likes. -/
lemma Bad.wp_round {E : Quit → Tty → Prop} {P : OutOfFuel → Prop} (h : Bad n input s)
    (hE : ∀ s', E .exited s') :
    wp (round i) s (fun _ s' => s'.input.length < s.input.length ∧ Bad n input s') E P := by
  have hbad : ∀ s' : Tty, s.line.Grew Set.univ s'.line → Bad n input s' :=
    fun s' hs' => ⟨h.early, hs'.kept _ h.outside⟩
  cases hinput : s.input with
  | nil =>
      unfold round read
      simp [hinput, hE]
  | cons c rest =>
      have hshorter : rest.length < (c :: rest).length := Nat.lt_succ_self _
      have hread := ((Traced.Grew.refl Set.univ s.line).store (Set.mem_univ i) c).touch
        (Set.mem_univ i)
      apply Readline.wp_round hinput
      · intro _ j _
        have hlook := (hread.touch (Set.mem_univ j)).touch (Set.mem_univ j)
        exact ⟨fun _ => ⟨hshorter, hbad _ (hlook.store (Set.mem_univ j) 0#8)⟩,
          fun _ => ⟨hshorter, hbad _ hlook⟩⟩
      · exact fun _ _ =>
          ⟨hshorter, hbad _ ((hread.touch (Set.mem_univ i)).store (Set.mem_univ i) 0#8)⟩
      · exact fun _ _ => ⟨hshorter, hbad _ (hread.touch (Set.mem_univ i))⟩

/-- The rest of a line that is too long goes to the first byte of the buffer. -/
lemma wp_skip (hfuel : s.input.length < fuel) {E : Quit → Tty → Prop} {P : OutOfFuel → Prop} :
    wp (skip fuel) s (fun _ s' => s.line.Grew {0} s'.line) E P := by
  unfold skip
  apply wp_iter (fun _ s' => s.line.Grew {0} s'.line) (fun _ s' => s'.input.length)
  · intro _ t ht
    unfold read load store
    cases hinput : t.input with
    | nil => simpa [hinput] using ht
    | cons c rest =>
        have hread := (ht.store (Set.mem_singleton 0) c).touch (Set.mem_singleton 0)
        simp only [wp_bind, wp_get, hinput, wp_set, wp_modify, wp_pure, wp_ite]
        exact ⟨fun _ => ⟨fun _ => hread, fun _ => ⟨hread, Nat.lt_succ_self _⟩⟩,
          fun h => absurd trivial h⟩
  · exact .refl {0} s.line
  · exact hfuel

/-- The loop of `readline`, which the `return` leaves or the end of the buffer. -/
lemma wp_loop (hn : 1 ≤ n) (hend : ∃ c ∈ input, IsLineEnd c) {i : ℤ}
    (h : Bad n input s ∨ ∃ p, Good n input p i s) {P : OutOfFuel → Prop} :
    wp (do
      if i < n then do
        let r ← round i
        pure (r.elim Sum.inl fun _ => .inr true)
      else pure (.inr false) : TtyM (ℤ ⊕ Bool)) s
      (fun r s' => r.elim
        (fun i' => s'.input.length < s.input.length ∧ (Bad n input s' ∨ ∃ p, Good n input p i' s'))
        fun returned => s'.input.length ≤ s.input.length ∧ (Bad n input s' ∨
          ¬ DeletesEarly n input ∧ s'.line.Within (Buffer n) ∧
            if returned then Holds s'.line.mem (edited (typed input)) else ¬ Fits n input))
      (fun _ _ => DeletesEarly n input) P := by
  rw [wp_ite]
  constructor
  · intro hi
    rw [wp_bind]
    obtain h | ⟨p, h⟩ := h
    · apply (h.wp_round (i := i) fun _ => h.early).imp
      intro r s' hr
      cases r with
      | inl i' => exact ⟨hr.1, .inl hr.2⟩
      | inr _ => exact ⟨hr.1.le, .inl hr.2⟩
    · apply (h.wp_round hi hend).imp
      intro r s' hr
      cases r with
      | inl i' => exact ⟨hr.1, hr.2.imp_right fun ⟨c, hgood⟩ => ⟨p ++ [c], hgood⟩⟩
      | inr _ =>
          refine ⟨hr.1.le, hr.2.imp_right fun hread => ?_⟩
          obtain ⟨htyped, hwithin, hholds⟩ := hread
          refine ⟨h.not_deletesEarly (.inl htyped), hwithin, ?_⟩
          rw [htyped]
          exact hholds
  · intro hi
    refine ⟨le_rfl, h.imp_right fun ⟨p, h⟩ => ?_⟩
    have hindex := h.index
    refine ⟨h.not_deletesEarly (.inr (by omega)), h.within, fun hfits => ?_⟩
    have hp : p <+: typed input := by
      rw [h.split]
      exact prefix_typed h.noEnd s.input
    have hle := hfits p hp
    omega

/-- What `readline` leaves behind. -/
lemma wp_readline (hn : 1 ≤ n) (hend : ∃ c ∈ input, IsLineEnd c) (hfuel : input.length < fuel)
    (m : ℤ → BitVec 8) :
    wp (readline fuel n) ⟨⟨m, []⟩, input⟩ (fun _ s => Bad n input s ∨
        ¬ DeletesEarly n input ∧ s.line.Within (Buffer n) ∧
          (Fits n input → Holds s.line.mem (edited (typed input))))
      (fun _ _ => DeletesEarly n input) (fun _ => False) := by
  unfold readline
  rw [wp_bind]
  apply wp.imp (Q := fun returned s => s.input.length ≤ input.length ∧ (Bad n input s ∨
    ¬ DeletesEarly n input ∧ s.line.Within (Buffer n) ∧
      if returned then Holds s.line.mem (edited (typed input)) else ¬ Fits n input))
  · apply wp_iter (fun i s => s.input.length ≤ input.length ∧
      (Bad n input s ∨ ∃ p, Good n input p i s))
      (fun _ s => s.input.length)
    · intro i s h
      apply (wp_loop hn hend h.2).imp
      intro r s' hr
      cases r with
      | inl i' => exact ⟨⟨hr.1.le.trans h.1, hr.2⟩, hr.1⟩
      | inr returned => exact ⟨hr.1.trans h.1, hr.2⟩
    · refine ⟨le_rfl, .inr ⟨[], rfl, ?_, ?_, ?_, rfl, rfl, ?_⟩⟩
      all_goals simp [Traced.Within]
    · exact hfuel
  · intro returned s h
    obtain ⟨hle, h⟩ := h
    cases returned with
    | true => exact h.imp_right fun h => ⟨h.1, h.2.1, fun _ => h.2.2⟩
    | false =>
        have hzero : ({0} : Set ℤ) ⊆ Buffer n := by
          intro j hj
          rw [Set.mem_singleton_iff.mp hj]
          exact ⟨le_rfl, by omega⟩
        simp only [Bool.false_eq_true, if_false, wp_bind]
        apply (wp_skip (hle.trans_lt hfuel)).imp
        intro _ s' hskip
        have hstore := hskip.store (Set.mem_singleton 0) 0#8
        obtain h | h := h
        · exact .inl ⟨h.early, hstore.kept _ h.outside⟩
        · exact .inr ⟨h.1, hstore.within hzero h.2.1, fun hfits => absurd hfits h.2.2⟩

/-- **Reading a line.**  All is well, unless a deletion is read when at most one byte is left. -/
theorem readline_iff (hn : 1 ≤ n) (hend : ∃ c ∈ input, IsLineEnd c) (hfuel : input.length < fuel)
    (m : ℤ → BitVec 8) : ReadsLine fuel n m input ↔ ¬ DeletesEarly n input := by
  have hrun := wp_readline hn hend hfuel m
  unfold ReadsLine
  constructor
  · intro h
    obtain ⟨s, hs, hwithin, -⟩ := h
    obtain hbad | hgood := hrun.of_ok hs
    · exact absurd (hwithin _ hbad.outside).1 (by decide)
    · exact hgood.1
  · intro h
    obtain ⟨_, s, hs, hs'⟩ :=
      (hrun.mono (fun _ _ h => h) (fun _ _ he => h he) fun _ hp => hp).exists_ok
    obtain hbad | hgood := hs'
    · exact absurd hbad.early h
    · exact ⟨s, hs, hgood.2⟩

end

/-- Of two letters one is deleted. -/
theorem readline_iff_two_letters : ReadsLine 5 1024 (fun _ => 0#8) [97#8, 98#8, 8#8, 10#8] ↔
    ¬ DeletesEarly 1024 [97#8, 98#8, 8#8, 10#8] :=
  readline_iff (by decide) ⟨10#8, by decide, by decide⟩ (by decide) _

/-- A letter is typed and deleted again: the byte in front of the buffer is read. -/
theorem not_readsLine_one_letter : ¬ ReadsLine 4 1024 (fun _ => 0#8) [97#8, 8#8, 10#8] := by
  intro h
  obtain ⟨s, hs, hwithin, -⟩ := h
  cases hs
  have hbefore : (-1 : ℤ) ∈ Buffer 1024 := hwithin (-1) (by decide)
  exact absurd hbefore.1 (by decide)

end MosRv.Readline
