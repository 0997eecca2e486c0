import Mathlib.Tactic

/-!
# Weighted round robin

A scheduler with a queue of members, a current member and a countdown.  When the countdown is zero,
the current member goes to the end of the queue and the head is picked, for as many ticks as its
weight says; a *yield* does so at once.

From a tick at which the countdown is zero, the members get their turns in the order of the queue,
the current member last, each for as many ticks in a row as its weight, over and over
(`Run.cur_eq`).
-/

namespace RoundRobin

variable {α : Type}

structure State (α : Type) where
  queue : List α
  cur : Option α
  left : ℕ

/-- The members as they get their turns. -/
def turns (weight : α → ℕ) (order : List α) : List α :=
  order.flatMap fun a => List.replicate (weight a) a

section

variable {weight : α → ℕ} {order before rest : List α} {a : α}

lemma turns_append (before rest : List α) :
    turns weight (before ++ rest) = turns weight before ++ turns weight rest :=
  List.flatMap_append

lemma turns_cons (a : α) (rest : List α) :
    turns weight (a :: rest) = List.replicate (weight a) a ++ turns weight rest :=
  List.flatMap_cons

lemma length_turns (order : List α) : (turns weight order).length = (order.map weight).sum := by
  rw [turns, List.length_flatMap]
  simp only [List.length_replicate]

/-- The turn of a member. -/
lemma turns_getElem? {i : ℕ} (hi : i < weight a) :
    (turns weight (before ++ a :: rest))[(turns weight before).length + i]? = some a := by
  rw [turns_append, turns_cons, List.getElem?_append_right (Nat.le_add_right _ _),
    Nat.add_sub_cancel_left, List.getElem?_append_left (by simpa using hi),
    List.getElem?_replicate_of_lt hi]

end

variable [DecidableEq α]

/-- The queue, with the current member moved to the end. -/
def requeue (queue : List α) (cur : Option α) : List α :=
  match cur with
  | some a => if a ∈ queue then queue.erase a ++ [a] else queue
  | none => queue

/-- The current member has no turn to go on with. -/
def State.Over (s : State α) : Prop := s.left = 0 ∨ ∀ a, s.cur = some a → a ∉ s.queue

/-- What a tick, or a yield, does to the scheduler. -/
inductive State.Next (weight : α → ℕ) (yield : Bool) (s : State α) : State α → Prop
  | stay {a : α} (hyield : yield = false) (hleft : s.left ≠ 0) (hcur : s.cur = some a)
      (hmem : a ∈ s.queue) : s.Next weight yield { s with left := s.left - 1 }
  | pick {a : α} {rest : List α} (h : yield = true ∨ s.Over)
      (hqueue : requeue s.queue s.cur = a :: rest) :
      s.Next weight yield ⟨a :: rest, some a, weight a - 1⟩

section

variable {weight : α → ℕ} {yield : Bool} {s s' : State α} {a : α} {queue : List α}

lemma mem_requeue {b : α} (cur : Option α) : b ∈ requeue queue cur ↔ b ∈ queue := by
  cases cur with
  | none => rfl
  | some a =>
      rw [requeue]
      split_ifs with ha
      · by_cases hba : b = a
        · simp [hba, ha]
        · simp [hba, List.mem_erase_of_ne hba]
      · rfl

lemma nodup_requeue (h : queue.Nodup) (cur : Option α) : (requeue queue cur).Nodup := by
  cases cur with
  | none => exact h
  | some a =>
      rw [requeue]
      split_ifs with ha
      · exact (h.erase a).append (List.nodup_singleton a) (by simp [h.not_mem_erase])
      · exact h

/-- The members stay the same. -/
lemma State.Next.mem (h : s.Next weight yield s') {b : α} : b ∈ s'.queue ↔ b ∈ s.queue := by
  cases h with
  | stay => rfl
  | pick _ hqueue => rw [← hqueue, mem_requeue]

/-- A member is picked. -/
lemma State.Next.cur_mem (h : s.Next weight yield s') : ∃ a, s'.cur = some a ∧ a ∈ s'.queue := by
  cases h with
  | stay _ _ hcur hmem => exact ⟨_, hcur, hmem⟩
  | pick => exact ⟨_, rfl, List.mem_cons_self⟩

/-- A yield picks another member, if there is one. -/
lemma State.Next.cur_of_yield (h : s.Next weight true s') (hnd : s.queue.Nodup)
    (hcur : s.cur = some a) (hcur' : s'.cur = some a) : s.queue = [a] := by
  cases h with
  | stay hyield => exact absurd hyield (by decide)
  | @pick b rest _ hqueue =>
      obtain rfl := Option.some.inj hcur'
      have hmem : b ∈ s.queue := (mem_requeue s.cur).mp (hqueue ▸ List.mem_cons_self)
      rw [hcur, requeue, if_pos hmem] at hqueue
      cases herase : s.queue.erase b with
      | nil =>
          obtain ⟨xs, ys, -, heq, hxy⟩ := List.exists_erase_eq hmem
          rw [herase, eq_comm, List.append_eq_nil_iff] at hxy
          rw [heq, hxy.1, hxy.2, List.nil_append]
      | cons c cs =>
          rw [herase, List.cons_append] at hqueue
          obtain ⟨rfl, -⟩ := List.cons.inj hqueue
          have : c ∈ s.queue.erase c := herase ▸ List.mem_cons_self
          exact absurd this hnd.not_mem_erase

end

/-! ## Runs of ticks -/

section

variable {weight : α → ℕ} {s : ℕ → State α} {order : List α}

/-- Where the scheduler is after a number of ticks: `before` have had their turns in this round, and
the current member has had `i + 1` ticks. -/
structure Position (weight : α → ℕ) (order : List α) (n : ℕ) (s : State α) : Prop where
  pos : ∃ before a rest i, order = before ++ a :: rest ∧ s.queue = a :: rest ++ before ∧
    s.cur = some a ∧ i < weight a ∧ s.left = weight a - 1 - i ∧
    n % (turns weight order).length = (turns weight before).length + i

omit [DecidableEq α] in
lemma Position.cur_eq {n : ℕ} {s : State α} (h : Position weight order n s) :
    s.cur = (turns weight order)[n % (turns weight order).length]? := by
  obtain ⟨before, a, rest, i, rfl, -, hcur, hi, -, hn⟩ := h.pos
  rw [hcur, hn, turns_getElem? hi]

/-- The first tick. -/
lemma State.Next.position_first {s s' : State α} (h : s.Next weight false s') (hleft : s.left = 0)
    (hpos : ∀ a ∈ s.queue, 0 < weight a) :
    Position weight (requeue s.queue s.cur) 0 s' := by
  cases h with
  | stay _ hne => exact absurd hleft hne
  | @pick a rest _ hqueue =>
      rw [hqueue]
      have ha : 0 < weight a := hpos a ((mem_requeue s.cur).mp (hqueue ▸ List.mem_cons_self))
      exact ⟨[], a, rest, 0, rfl, by simp, rfl, ha, rfl, by simp [turns]⟩

/-- The ticks after it. -/
lemma State.Next.position {n : ℕ} {s s' : State α} (h : s.Next weight false s')
    (hnd : order.Nodup) (hpos : ∀ a ∈ order, 0 < weight a) (hp : Position weight order n s) :
    Position weight order (n + 1) s' := by
  obtain ⟨before, a, rest, i, rfl, hqueue, hcur, hi, hleft, hn⟩ := hp.pos
  have hlen : (turns weight (before ++ a :: rest)).length =
      (turns weight before).length + (weight a + (turns weight rest).length) := by
    rw [turns_append, turns_cons]
    simp
  have hmem : a ∈ s.queue := by
    rw [hqueue]
    exact List.mem_append_left _ List.mem_cons_self
  cases h with
  | stay _ hne hcur' _ =>
      refine ⟨before, a, rest, i + 1, rfl, hqueue, hcur, ?_, ?_, ?_⟩
      · omega
      · change s.left - 1 = _
        omega
      · have hlt : (turns weight before).length + i + 1 <
            (turns weight (before ++ a :: rest)).length := by
          omega
        rw [← Nat.mod_add_mod, hn, Nat.mod_eq_of_lt hlt]
        rfl
  | @pick b tail hover hqueue' =>
      have hzero : s.left = 0 := by
        rcases hover with hf | hz | hno
        · exact absurd hf (by decide)
        · exact hz
        · exact absurd hmem (hno a hcur)
      have hiw : i + 1 = weight a := by omega
      have hnot : a ∉ rest ++ before := by
        have := List.nodup_middle.mp hnd
        rw [List.nodup_cons, List.mem_append] at this
        rw [List.mem_append]
        exact fun hc => this.1 hc.symm
      rw [hcur, requeue, if_pos hmem, hqueue, List.cons_append, List.erase_cons_head] at hqueue'
      -- the next one of the round, or the first one of the next round
      cases rest with
      | cons c rest =>
          obtain ⟨rfl, rfl⟩ := List.cons.inj hqueue'
          refine ⟨before ++ [a], c, rest, 0, by simp, by simp, rfl, ?_, rfl, ?_⟩
          · exact hpos c (by simp)
          · have hc : 0 < weight c := hpos c (by simp)
            have hlt : (turns weight before).length + i + 1 <
                (turns weight (before ++ a :: c :: rest)).length := by
              rw [hlen, turns_cons, List.length_append, List.length_replicate]
              omega
            rw [← Nat.mod_add_mod, hn, Nat.mod_eq_of_lt hlt, turns_append, turns_cons]
            simp [turns]
            omega
      | nil =>
          rw [List.nil_append] at hqueue'
          rw [hqueue']
          refine ⟨[], b, tail, 0, rfl, by simp, rfl, ?_, rfl, ?_⟩
          · exact hpos b (hqueue' ▸ List.mem_cons_self)
          · have heq : (turns weight before).length + i + 1 =
                (turns weight (before ++ [a])).length := by
              rw [hlen]
              simp [turns]
              omega
            rw [← hqueue', ← Nat.mod_add_mod, hn, heq, Nat.mod_self]
            simp [turns]

/-- A run of ticks. -/
def Run (weight : α → ℕ) (s : ℕ → State α) : Prop := ∀ n, (s n).Next weight false (s (n + 1))

/-- **Weighted round robin.** -/
theorem Run.cur_eq (h : Run weight s) (hnd : (s 0).queue.Nodup) (hleft : (s 0).left = 0)
    (hpos : ∀ a ∈ (s 0).queue, 0 < weight a) (n : ℕ) :
    (s (n + 1)).cur = (turns weight (requeue (s 0).queue (s 0).cur))[
      n % (turns weight (requeue (s 0).queue (s 0).cur)).length]? := by
  refine Position.cur_eq ?_
  induction n with
  | zero => exact (h 0).position_first hleft hpos
  | succ n ih =>
      refine (h (n + 1)).position (nodup_requeue hnd _) (fun a ha => ?_) ih
      exact hpos a ((mem_requeue _).mp ha)

end

end RoundRobin
