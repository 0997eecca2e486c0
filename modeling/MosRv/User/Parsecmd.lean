import MosRv.User.Gettoken
import MosRv.User.Readline

/-!
# The arguments of a command (`user/sh.c`)

`parsecmd` puts the words of a command into `argv`.  At a pipe it forks: the parent is done, and the
child calls `parsecmd` again, for the right-hand side, with no arguments yet.  So every stage of a
pipeline is parsed by a process of its own, whose past is that of its parents up to the forks.

`parsecmd` refuses a word when there are already `MAXARGS` of them, and `runcmd` puts a null pointer
behind the last one.  With exactly `MAXARGS` arguments that pointer is stored behind the end of the
array. `argv_iff` says that this is the only thing that can go wrong.

The system calls succeed, as far as there are any; what they do concerns the descriptors only, which
are left out.
-/

namespace MosRv.Parsecmd

open Prog Gettoken
open Readline (Quit)

def MAXARGS : ℕ := 128

/-- A process of the shell.  Of the forks to come it is the child of the first `forked` ones. -/
structure Shell where
  scan : Scanner
  argv : Traced ℕ (Option ℕ)
  forked : ℕ

abbrev ShellM := Prog Quit OutOfFuel Shell

/-- `argv[i] = t`. -/
def storeArg (i : ℕ) (t : Option ℕ) : ShellM Unit :=
  modify fun s => { s with argv := s.argv.store i t }

/-- `gettoken(s, &t)`. -/
def token (fuel : ℕ) (s : Option ℕ) : ShellM (BitVec 8 × Option ℕ) :=
  zoom Shell.scan (fun scan s => { s with scan := scan }) (gettoken fuel s none)

/-- `fork() == 0`. -/
def fork : ShellM Bool := do
  let s ← get
  match s.forked with
  | 0 => pure false
  | forked + 1 => do
      set { s with forked := forked }
      pure true

/-- A redirection: the file is opened, and its descriptor becomes 0 or 1. -/
def redirect (fuel argc : ℕ) : ShellM (ℕ ⊕ ℕ) := do
  let (c, _) ← token fuel none
  if c ≠ ch 'w' then exit .exited
  else pure (.inl argc)

/-- The `switch` on a token; `return` is the second result. -/
def switch (fuel argc : ℕ) (c : BitVec 8) (t : Option ℕ) : ShellM (ℕ ⊕ ℕ) :=
  if c = 0#8 then pure (.inr argc)
  else if c = ch 'w' then
    if MAXARGS ≤ argc then exit .exited
    else do
      storeArg argc t
      pure (.inl (argc + 1))
  else if c = ch '<' ∨ c = ch '>' then redirect fuel argc
  else if c = ch '|' then do
    let child ← fork
    -- `return parsecmd(argv, rightpipe)` starts again in the child
    if child then pure (.inl 0) else pure (.inr argc)
  else pure (.inl argc)

/-- The body of the loop. -/
def round (fuel argc : ℕ) : ShellM (ℕ ⊕ ℕ) := do
  let (c, t) ← token fuel none
  switch fuel argc c t

/-- `parsecmd`, when there are `argc` arguments already. -/
def parsecmd (fuel argc : ℕ) : ShellM ℕ := iter .outOfFuel (round fuel) fuel argc

/-- `runcmd`, until a program is spawned; without arguments it returns. -/
def runcmd (fuel s : ℕ) : ShellM ℕ := do
  let _ ← token fuel (some s)
  let argc ← parsecmd fuel 0
  if argc = 0 then pure 0
  else do
    storeArg argc none
    pure argc

/-! ## What the arguments are -/

def isPipe (token : Token) : Bool := decide (token = .symbol (ch '|'))

/-- The stages of a pipeline. -/
def stages (tokens : List Token) : List (List Token) := tokens.splitOnP isPipe

def isRedirection (c : BitVec 8) : Bool := decide (c = ch '<' ∨ c = ch '>')

/-- The words of a stage that are not targets of redirections.  There are none if a redirection has
no target. -/
def args : List Token → Option (List (List (BitVec 8)))
  | [] => some []
  | .word w :: ts => (args ts).map (w :: ·)
  | .symbol c :: ts =>
      if isRedirection c then
        match ts with
        | .word _ :: ts => args ts
        | _ => none
      else args ts

/-- The shell can parse a stage. -/
def Parses (stage : List Token) : Prop := ∃ ws, args stage = some ws ∧ ws.length ≤ MAXARGS

/-- The places of `argv`. -/
def Argv : Set ℕ := {i | i < MAXARGS}

/-- The arguments are strings, and a null pointer follows them if there are any. -/
structure Holds (s : Shell) (argc : ℕ) (ws : List (List (BitVec 8))) : Prop where
  count : argc = ws.length
  words : ∀ i w, ws[i]? = some w → ∃ t, s.argv.mem i = some t ∧ StringAt s.scan.line.mem t w
  null : argc ≠ 0 → s.argv.mem argc = none

/-- The process that parses stage `n` stores into `argv` only, and if it comes to spawn a program,
the arguments are those of its stage. -/
def StoresArgs (fuel n : ℕ) (tokens : List Token) (s : Shell) : Prop :=
  wp (runcmd fuel 0) { s with forked := n }
    (fun argc s' => s'.argv.Within Argv ∧
      ∃ stage ws, (stages tokens)[n]? = some stage ∧ args stage = some ws ∧ Holds s' argc ws)
    (fun _ s' => s'.argv.Within Argv) (fun _ => False)

/-- A stage that comes to be parsed has exactly `MAXARGS` arguments. -/
def FillsArgv (tokens : List Token) : Prop :=
  ∃ (n : ℕ) (stage : List Token) (ws : List (List (BitVec 8))),
    (stages tokens)[n]? = some stage ∧ args stage = some ws ∧ ws.length = MAXARGS ∧
    ∀ k < n, ∀ stage', (stages tokens)[k]? = some stage' → Parses stage'

/-! ## The parser on tokens -/

/-- What the process that is the child of `n` forks makes of the tokens, after the arguments `acc`;
none if it exits. -/
def parse : ℕ → List (List (BitVec 8)) → List Token → Option (List (List (BitVec 8)))
  | _, acc, [] => some acc
  | n, acc, .word w :: ts => if MAXARGS ≤ acc.length then none else parse n (acc ++ [w]) ts
  | n, acc, .symbol c :: ts =>
      if isRedirection c then
        match ts with
        | .word _ :: ts => parse n acc ts
        | _ => none
      else if c = ch '|' then
        match n with
        | 0 => some acc
        | n + 1 => parse n [] ts
      else parse n acc ts

section

variable {n : ℕ} {acc ws : List (List (BitVec 8))} {tokens stage : List Token} {t : Token}

lemma not_isPipe_word (w : List (BitVec 8)) : ¬ isPipe (.word w) := by
  unfold isPipe
  simp

lemma isPipe_symbol {c : BitVec 8} : isPipe (.symbol c) ↔ c = ch '|' := by
  unfold isPipe
  simp

lemma not_isPipe_redirection {c : BitVec 8} (hc : isRedirection c) : ¬ isPipe (.symbol c) := by
  rw [isPipe_symbol]
  rintro rfl
  exact absurd hc (by decide)

lemma stages_cons_pipe (h : isPipe t) : stages (t :: tokens) = [] :: stages tokens := by
  unfold stages
  rw [List.splitOnP_cons_eq_if_modifyHead, if_pos h]

/-- A token that is no pipe belongs to the first stage. -/
lemma stages_cons (h : ¬ isPipe t) : ∃ stage rest, stages tokens = stage :: rest ∧
    stages (t :: tokens) = (t :: stage) :: rest := by
  have hne : stages tokens ≠ [] := List.splitOnP_ne_nil isPipe tokens
  obtain ⟨stage, rest, hstages⟩ := List.exists_cons_of_ne_nil hne
  refine ⟨stage, rest, hstages, ?_⟩
  unfold stages at hstages ⊢
  rw [List.splitOnP_cons_eq_if_modifyHead, if_neg h, hstages]
  rfl

/-- The first stage goes on with the arguments `acc`, and every stage up to number `n` can be
parsed. -/
def Arguments (acc : List (List (BitVec 8))) (ws : List (List (BitVec 8))) :
    ℕ → List (List Token) → Prop
  | _, [] => False
  | 0, stage :: _ => ∃ vs, args stage = some vs ∧ ws = acc ++ vs ∧ ws.length ≤ MAXARGS
  | n + 1, stage :: rest => (∃ vs, args stage = some vs ∧ (acc ++ vs).length ≤ MAXARGS) ∧
      Arguments [] ws n rest

section Equations

attribute [local simp] args parse

lemma args_symbol {c : BitVec 8} (hc : ¬ isRedirection c) (ts : List Token) :
    args (.symbol c :: ts) = args ts := by
  cases ts with
  | nil => simp [hc]
  | cons t ts => cases t <;> simp [hc]

lemma args_no_target {c : BitVec 8} (hc : isRedirection c) {ts : List Token}
    (hts : ∀ w ts', ts ≠ .word w :: ts') : args (.symbol c :: ts) = none := by
  cases ts with
  | nil => simp [hc]
  | cons t ts =>
      cases t with
      | symbol c' => simp [hc]
      | word w => exact absurd rfl (hts w ts)

lemma parse_redirection {c : BitVec 8} (hc : isRedirection c) (w : List (BitVec 8))
    (ts : List Token) :
    parse n acc (.symbol c :: .word w :: ts) = parse n acc ts := by
  simp [hc]

lemma parse_no_target {c : BitVec 8} (hc : isRedirection c) {ts : List Token}
    (hts : ∀ w ts', ts ≠ .word w :: ts') : parse n acc (.symbol c :: ts) = none := by
  cases ts with
  | nil => simp [hc]
  | cons t ts =>
      cases t with
      | symbol c' => simp [hc]
      | word w => exact absurd rfl (hts w ts)

lemma parse_pipe_zero (ts : List Token) : parse 0 acc (.symbol (ch '|') :: ts) = some acc := by
  have hno : ¬ isRedirection (ch '|') := by decide
  cases ts with
  | nil => simp [hno]
  | cons t ts => cases t <;> simp [hno]

lemma parse_pipe_succ (ts : List Token) :
    parse (n + 1) acc (.symbol (ch '|') :: ts) = parse n [] ts := by
  have hno : ¬ isRedirection (ch '|') := by decide
  cases ts with
  | nil => simp [hno]
  | cons t ts => cases t <;> simp [hno]

lemma parse_symbol {c : BitVec 8} (hc : ¬ isRedirection c) (hpipe : c ≠ ch '|') (ts : List Token) :
    parse n acc (.symbol c :: ts) = parse n acc ts := by
  cases ts with
  | nil => simp [hc, hpipe]
  | cons t ts => cases t <;> simp [hc, hpipe]

end Equations

/-- If the first stage starts with a word, so do the tokens. -/
lemma eq_word_of_stages {w : List (BitVec 8)} {rest : List (List Token)}
    (h : stages tokens = (.word w :: stage) :: rest) : ∃ ts, tokens = .word w :: ts := by
  cases tokens with
  | nil => cases h
  | cons t ts =>
      by_cases ht : isPipe t
      · rw [stages_cons_pipe ht] at h
        cases h
      · obtain ⟨stage', rest', -, hstages⟩ := @stages_cons ts t ht
        rw [hstages] at h
        cases h
        exact ⟨ts, rfl⟩

lemma arguments_congr {stage stage' : List Token} {rest : List (List Token)}
    (h : args stage = args stage') :
    Arguments acc ws n (stage :: rest) ↔ Arguments acc ws n (stage' :: rest) := by
  cases n <;> simp only [Arguments, h]

lemma arguments_word (w : List (BitVec 8)) {rest : List (List Token)} :
    Arguments acc ws n ((.word w :: stage) :: rest) ↔
      Arguments (acc ++ [w]) ws n (stage :: rest) := by
  cases hargs : args stage <;> cases n <;> simp [Arguments, args, hargs]

/-- A stage that cannot be parsed. -/
lemma not_arguments {rest : List (List Token)} (h : ∀ vs, args stage = some vs →
    MAXARGS < (acc ++ vs).length) : ¬ Arguments acc ws n (stage :: rest) := by
  cases n with
  | zero =>
      intro hargs
      obtain ⟨vs, hvs, rfl, hle⟩ := hargs
      exact absurd (h vs hvs) (Nat.not_lt.mpr hle)
  | succ n =>
      intro hargs
      obtain ⟨⟨vs, hvs, hle⟩, -⟩ := hargs
      exact absurd (h vs hvs) (Nat.not_lt.mpr hle)

/-- The parser finds the arguments of the stages. -/
lemma parse_eq_some (hacc : acc.length ≤ MAXARGS) (hn : n < (stages tokens).length) :
    parse n acc tokens = some ws ↔ Arguments acc ws n (stages tokens) := by
  fun_induction parse n acc tokens with
  | case1 n acc =>
      have hstages : stages [] = [[]] := rfl
      rw [hstages] at hn ⊢
      obtain rfl : n = 0 := Nat.lt_one_iff.mp hn
      simp only [Arguments, args, Option.some.injEq]
      constructor
      · rintro rfl
        exact ⟨[], rfl, by simp, hacc⟩
      · rintro ⟨vs, rfl, rfl, -⟩
        simp
  | case2 n acc w ts hfull =>
      obtain ⟨stage, rest, -, hstages⟩ := @stages_cons ts _ (not_isPipe_word w)
      rw [hstages, arguments_word]
      apply iff_of_false (by simp)
      apply not_arguments
      intro vs _
      simp only [List.length_append, List.length_singleton]
      omega
  | case3 n acc w ts hfull ih =>
      obtain ⟨stage, rest, hts, hstages⟩ := @stages_cons ts _ (not_isPipe_word w)
      rw [hstages, arguments_word, ← hts]
      rw [hstages, List.length_cons, ← List.length_cons, ← hts] at hn
      apply ih _ hn
      rw [List.length_append, List.length_singleton]
      omega
  | case4 n acc c hc w ts ih =>
      have hpipe := not_isPipe_redirection hc
      obtain ⟨stage, rest, hts, hstages⟩ := @stages_cons ts _ (not_isPipe_word w)
      obtain ⟨stage', rest', hts', hstages'⟩ := @stages_cons (.word w :: ts) _ hpipe
      rw [hstages] at hts'
      obtain ⟨rfl, rfl⟩ := List.cons.inj hts'
      rw [hstages'] at hn ⊢
      have hargs : args (.symbol c :: .word w :: stage) = args stage := by simp [args, hc]
      rw [arguments_congr hargs, ← hts]
      apply ih hacc
      rw [hts]
      exact hn
  | case5 n acc c ts hc hno =>
      have hpipe := not_isPipe_redirection hc
      obtain ⟨stage, rest, hts, hstages⟩ := @stages_cons ts _ hpipe
      rw [hstages]
      apply iff_of_false (by simp)
      apply not_arguments
      intro vs hvs
      rw [args_no_target hc] at hvs
      · cases hvs
      · rintro w stage' rfl
        obtain ⟨ts', rfl⟩ := eq_word_of_stages hts
        exact hno w ts' rfl
  | case6 acc ts hc =>
      rw [stages_cons_pipe (isPipe_symbol.mpr rfl)]
      simp only [Arguments, args, Option.some.injEq]
      constructor
      · rintro rfl
        exact ⟨[], rfl, by simp, hacc⟩
      · rintro ⟨vs, rfl, rfl, -⟩
        simp
  | case7 acc ts hc n ih =>
      rw [stages_cons_pipe (isPipe_symbol.mpr rfl)] at hn ⊢
      rw [ih (Nat.zero_le _) (Nat.lt_of_succ_lt_succ hn)]
      simp only [Arguments, args, Option.some.injEq]
      exact ⟨fun h => ⟨⟨[], rfl, by simpa using hacc⟩, h⟩, fun h => h.2⟩
  | case8 n acc c ts hc hpipe ih =>
      obtain ⟨stage, rest, hts, hstages⟩ := @stages_cons ts (.symbol c) (mt isPipe_symbol.mp hpipe)
      have hargs : args (.symbol c :: stage) = args stage := args_symbol hc stage
      rw [hstages] at hn ⊢
      rw [arguments_congr hargs, ← hts]
      apply ih hacc
      rw [hts]
      exact hn

/-- Counted from the first stage, the arguments are those of stage `n`. -/
lemma arguments_nil {ss : List (List Token)} : Arguments [] ws n ss ↔
    ∃ stage, ss[n]? = some stage ∧ args stage = some ws ∧ ws.length ≤ MAXARGS ∧
      ∀ k < n, ∀ stage', ss[k]? = some stage' → Parses stage' := by
  induction n generalizing ss with
  | zero => cases ss <;> simp [Arguments]
  | succ n ih =>
      cases ss with
      | nil => simp [Arguments]
      | cons stage rest =>
          simp only [Arguments, ih, List.nil_append, List.getElem?_cons_succ]
          constructor
          · rintro ⟨hfirst, stage', hget, hargs, hle, hbefore⟩
            refine ⟨stage', hget, hargs, hle, fun k hk stage'' hk' => ?_⟩
            cases k with
            | zero =>
                obtain rfl := Option.some.inj hk'
                exact hfirst
            | succ k => exact hbefore k (by omega) stage'' hk'
          · rintro ⟨stage', hget, hargs, hle, hbefore⟩
            refine ⟨hbefore 0 (Nat.succ_pos n) stage rfl, stage', hget, hargs, hle, ?_⟩
            exact fun k hk stage'' hk' => hbefore (k + 1) (by omega) stage'' hk'

end

/-! ## The loop -/

section

variable {fuel pos argc : ℕ} {l : List (BitVec 8)} {acc ws : List (List (BitVec 8))}
  {rest : List Token} {goal : Option (List (List (BitVec 8)))} {s : Shell} {P : OutOfFuel → Prop}

/-- The arguments `acc` are in `argv`. -/
def Held (l : List (BitVec 8)) (pos : ℕ) (acc : List (List (BitVec 8)))
    (m : Traced ℕ (Option ℕ)) : Prop :=
  ∀ i w, acc[i]? = some w → ∃ t, m.mem i = some t ∧ Handed l pos (.word w) (ch 'w', some t)

/-- The parser is in front of the tokens `rest`, and comes to `goal`. -/
structure Parsing (l : List (BitVec 8)) (goal : Option (List (List (BitVec 8)))) (pos : ℕ)
    (acc : List (List (BitVec 8))) (rest : List Token) (argc : ℕ) (s : Shell) : Prop where
  ahead : Ahead l pos rest s.scan
  proper : ∀ c, .symbol c ∈ rest → symbols.contains c
  goal : parse s.forked acc rest = goal
  count : argc = acc.length
  le : acc.length ≤ MAXARGS
  held : Held l pos acc s.argv
  within : s.argv.Within Argv

lemma Held.mono {m : Traced ℕ (Option ℕ)} {pos' : ℕ} (h : Held l pos acc m) (hle : pos ≤ pos')
    (hend : pos' ≤ l.length) : Held l pos' acc m := by
  intro i w hw
  obtain ⟨t, ht, hhanded⟩ := h i w hw
  exact ⟨t, ht, hhanded.mono hle hend⟩

lemma Held.concat {m : Traced ℕ (Option ℕ)} {w : List (BitVec 8)} {t : ℕ} (h : Held l pos acc m)
    (ht : Handed l pos (.word w) (ch 'w', some t)) :
    Held l pos (acc ++ [w]) (m.store acc.length (some t)) := by
  intro i v hv
  rw [Traced.store_mem]
  obtain hlt | rfl | hgt := lt_trichotomy i acc.length
  · rw [List.getElem?_append_left hlt] at hv
    rw [Function.update_of_ne hlt.ne]
    exact h i v hv
  · rw [List.getElem?_concat_length] at hv
    obtain rfl := Option.some.inj hv
    rw [Function.update_self]
    exact ⟨t, rfl, ht⟩
  · rw [List.getElem?_eq_none (by simp; omega)] at hv
    cases hv

/-- A call of `gettoken` in a process. -/
lemma wp_token (hnul : 0#8 ∉ l) (hfuel : l.length < fuel) {E : Quit → Shell → Prop}
    (h : Ahead l pos rest s.scan) :
    wp (token fuel none) s (fun r s' => s'.argv = s.argv ∧ s'.forked = s.forked ∧
      ∃ pos', pos ≤ pos' ∧ Ahead l pos' rest.tail s'.scan ∧
        match rest.head? with
        | none => r = (0#8, none)
        | some token => Handed l pos' token r) E P := by
  unfold token
  rw [wp_zoom]
  apply (wp_gettoken hnul hfuel none h).imp
  intro r scan hr
  exact ⟨rfl, rfl, hr⟩

/-- A round goes on with fewer tokens, or `parsecmd` returns the arguments. -/
def RoundLeaves (l : List (BitVec 8)) (goal : Option (List (List (BitVec 8)))) (k : ℕ) (r : ℕ ⊕ ℕ)
    (s : Shell) : Prop :=
  r.elim (fun argc => ∃ k' < k, ∃ pos acc rest, Parsing l goal pos acc rest argc s ∧
    rest.length = k')
    fun argc => ∃ pos ws, goal = some ws ∧ argc = ws.length ∧ ws.length ≤ MAXARGS ∧
      ScannedTo l pos s.scan.line ∧ Held l pos ws s.argv ∧ s.argv.Within Argv

/-- What the process may leave behind if it exits. -/
def Quits (goal : Option (List (List (BitVec 8)))) (s : Shell) : Prop :=
  goal = none ∧ s.argv.Within Argv

/-- The token behind a redirection is its target, or the process exits. -/
lemma wp_redirect (hnul : 0#8 ∉ l) (hfuel : l.length < fuel) {c : BitVec 8} (hc : isRedirection c)
    {goal' : Option (List (List (BitVec 8)))} (h : Parsing l goal' pos acc rest argc s)
    (hgoal : parse s.forked acc (.symbol c :: rest) = goal) :
    wp (redirect fuel argc) s (RoundLeaves l goal (rest.length + 1)) (fun _ => Quits goal) P := by
  unfold redirect
  rw [wp_bind]
  apply (wp_token hnul hfuel h.ahead).imp
  intro r s₁ h₁
  obtain ⟨hargv, hforked, pos₁, hle, hahead, hr⟩ := h₁
  have hwithin := h.within
  have hheld := h.held.mono hle hahead.scanned.le
  rw [← hforked] at hgoal
  rw [← hargv] at hheld hwithin
  rw [wp_ite]
  cases rest with
  | nil =>
      obtain rfl : r = (0#8, none) := hr
      refine ⟨fun _ => ⟨?_, hwithin⟩, fun hw => absurd (not_not.mp hw) (by decide)⟩
      rw [← hgoal, parse_no_target hc (by simp)]
  | cons token rest =>
      cases token with
      | word w =>
          have hw : r.1 = ch 'w' := hr.1
          refine ⟨fun hno => absurd hw hno, fun _ => ?_⟩
          rw [parse_redirection hc] at hgoal
          exact ⟨rest.length, by simp, pos₁, acc, rest,
            ⟨hahead, fun c hc => h.proper c (List.mem_cons_of_mem _ hc), hgoal,
              h.count, h.le, hheld,
              hwithin⟩, rfl⟩
      | symbol c' =>
          have hsymbol := h.proper c' (List.mem_cons_self ..)
          refine ⟨fun _ => ⟨?_, hwithin⟩, fun hw => ?_⟩
          · rw [← hgoal, parse_no_target hc (by simp)]
          · rw [show c' = ch 'w' from hr.1.symm.trans (not_not.mp hw)] at hsymbol
            exact absurd hsymbol (by decide)

/-- At a pipe the parent has all its arguments, and the child begins with none. -/
lemma wp_pipe {goal' : Option (List (List (BitVec 8)))} (h : Parsing l goal' pos acc rest argc s)
    (hgoal : parse s.forked acc (.symbol (ch '|') :: rest) = goal) :
    wp (do
        let child ← fork
        if child then pure (.inl 0) else pure (.inr argc)) s
      (RoundLeaves l goal (rest.length + 1)) (fun _ => Quits goal) P := by
  unfold fork
  cases hn : s.forked with
  | zero =>
      rw [hn, parse_pipe_zero] at hgoal
      simp only [wp_bind, wp_get, hn, wp_pure, wp_ite]
      refine ⟨fun hf => absurd hf Bool.false_ne_true, fun _ => ?_⟩
      exact ⟨pos, acc, hgoal.symm, h.count, h.le, h.ahead.scanned, h.held, h.within⟩
  | succ n =>
      rw [hn, parse_pipe_succ] at hgoal
      simp only [wp_bind, wp_get, hn, wp_pure, wp_ite, wp_set]
      refine ⟨fun _ => ?_, fun hf => absurd trivial hf⟩
      exact ⟨rest.length, Nat.lt_succ_self _, pos, [], rest,
        ⟨h.ahead, h.proper, hgoal, rfl, Nat.zero_le _, fun i w hw => by simp at hw, h.within⟩, rfl⟩

lemma wp_round (hnul : 0#8 ∉ l) (hfuel : l.length < fuel) (h : Parsing l goal pos acc rest argc s) :
    wp (round fuel argc) s (RoundLeaves l goal rest.length) (fun _ => Quits goal) P := by
  unfold round
  rw [wp_bind]
  apply (wp_token hnul hfuel h.ahead).imp
  intro (c, t) s₁ h₁
  change wp (switch fuel argc c t) s₁ _ _ _
  obtain ⟨hargv, hforked, pos₁, hle, hahead, hr⟩ := h₁
  have hcount := h.count
  have hgoal := h.goal
  have hwithin := h.within
  have hheld := h.held.mono hle hahead.scanned.le
  rw [← hforked] at hgoal
  rw [← hargv] at hheld hwithin
  cases rest with
  | nil =>
      simp only [List.head?_nil, Prod.mk.injEq] at hr
      simp only [parse] at hgoal
      unfold switch
      rw [if_pos hr.1]
      exact ⟨pos₁, acc, hgoal.symm, hcount, h.le, hahead.scanned, hheld, hwithin⟩
  | cons token rest =>
      have hproper : ∀ c, .symbol c ∈ rest → symbols.contains c :=
        fun c hc => h.proper c (List.mem_cons_of_mem _ hc)
      simp only [List.head?_cons] at hr
      cases token with
      | word w =>
          obtain ⟨t', rfl, -⟩ := hr.2 w rfl
          obtain rfl : c = ch 'w' := hr.1
          unfold switch
          rw [if_neg (by decide), if_pos rfl, wp_ite]
          constructor
          · intro hfull
            rw [parse, if_pos (by omega)] at hgoal
            exact ⟨hgoal.symm, hwithin⟩
          · intro hfull
            rw [parse, if_neg (by omega)] at hgoal
            refine ⟨rest.length, Nat.lt_succ_self _, pos₁, acc ++ [w], rest,
              ⟨hahead, hproper, hgoal, ?_, ?_, ?_, ?_⟩, rfl⟩
            · simp [hcount]
            · simp
              omega
            · rw [hcount]
              exact hheld.concat hr
            · exact Traced.within_store.mpr ⟨Nat.not_le.mp hfull, hwithin⟩
      | symbol c' =>
          obtain rfl : c = c' := hr.1
          have hsymbol := h.proper c (List.mem_cons_self ..)
          have hzero : c ≠ 0#8 := by
            rintro rfl
            exact absurd hsymbol (by decide)
          have hword : c ≠ ch 'w' := by
            rintro rfl
            exact absurd hsymbol (by decide)
          have hnext : Parsing l (parse s₁.forked acc rest) pos₁ acc rest argc s₁ :=
            ⟨hahead, hproper, rfl, hcount, h.le, hheld, hwithin⟩
          unfold switch
          rw [if_neg hzero, if_neg hword]
          by_cases hredirect : c = ch '<' ∨ c = ch '>'
          · rw [if_pos hredirect]
            exact wp_redirect hnul hfuel (decide_eq_true hredirect) hnext hgoal
          have hno : ¬ isRedirection c := mt of_decide_eq_true hredirect
          rw [if_neg hredirect]
          by_cases hpipe : c = ch '|'
          · subst hpipe
            rw [if_pos rfl]
            exact wp_pipe hnext hgoal
          · rw [if_neg hpipe]
            rw [parse_symbol hno hpipe] at hgoal
            exact ⟨rest.length, Nat.lt_succ_self _, pos₁, acc, rest,
              ⟨hahead, hproper, hgoal, hcount, h.le, hheld, hwithin⟩, rfl⟩

lemma wp_parsecmd (hnul : 0#8 ∉ l) (hfuel : l.length < fuel) (hrest : rest.length < fuel)
    (h : Parsing l goal pos acc rest argc s) :
    wp (parsecmd fuel argc) s (fun argc' s' => ∃ pos ws, goal = some ws ∧ argc' = ws.length ∧
      ws.length ≤ MAXARGS ∧ ScannedTo l pos s'.scan.line ∧ Held l pos ws s'.argv ∧
        s'.argv.Within Argv) (fun _ => Quits goal) P := by
  unfold parsecmd
  apply wp_iter_index (fun k argc s => ∃ pos acc rest, Parsing l goal pos acc rest argc s ∧
    rest.length = k) _ ⟨pos, acc, rest, h, rfl⟩ hrest
  intro k argc s hI
  obtain ⟨pos, acc, rest, h, rfl⟩ := hI
  apply (wp_round hnul hfuel h).imp
  intro r s' hr
  cases r with
  | inl argc' => exact hr
  | inr argc' => exact hr

lemma length_lex_le (l : List (BitVec 8)) : (lex l).length ≤ l.length := by
  fun_induction lex l with
  | case1 => exact le_rfl
  | case2 c l _ ih => exact ih.trans (Nat.le_succ _)
  | case3 c l _ _ ih => exact Nat.succ_le_succ ih
  | case4 c l _ _ ih => exact Nat.succ_le_succ (ih.trans (List.dropWhile_suffix _).length_le)

lemma symbols_of_mem_lex {c : BitVec 8} (h : .symbol c ∈ lex l) : symbols.contains c := by
  fun_induction lex l with
  | case1 => cases h
  | case2 c' l _ ih => exact ih h
  | case3 c' l _ hc' ih =>
      rw [List.mem_cons] at h
      obtain h | h := h
      · cases h
        exact hc'
      · exact ih h
  | case4 c' l _ _ ih =>
      rw [List.mem_cons] at h
      obtain h | h := h
      · cases h
      · exact ih h

/-- **A command is parsed** by some process of the pipeline. -/
lemma wp_runcmd {line : CStr} (hline : StringAt s.scan.line.mem 0 line.bytes)
    (hscan : s.scan.line.touched = []) (hargv : s.argv.touched = [])
    (hfuel : line.bytes.length < fuel) :
    wp (runcmd fuel 0) s (fun argc s' => ∃ ws, parse s.forked [] (lex line.bytes) = some ws ∧
        ws.length ≤ MAXARGS ∧ Holds s' argc ws ∧ (s'.argv.Within Argv ↔ ws.length ≠ MAXARGS))
      (fun _ => Quits (parse s.forked [] (lex line.bytes))) P := by
  unfold runcmd token
  rw [wp_bind, wp_zoom]
  apply (wp_gettoken_start line.noNul hfuel none (scannedTo_start hline hscan)).imp
  intro _ scan h
  obtain ⟨pos, hahead⟩ := h
  have hwithin : s.argv.Within Argv := by
    intro i hi
    rw [hargv] at hi
    exact absurd hi List.not_mem_nil
  have hstart : Parsing line.bytes (parse s.forked [] (lex line.bytes)) pos [] (lex line.bytes) 0
      { s with scan := scan } :=
    ⟨hahead, fun c hc => symbols_of_mem_lex hc, rfl, rfl, Nat.zero_le _,
      fun i w hw => by simp at hw,
      hwithin⟩
  rw [wp_bind]
  apply (wp_parsecmd line.noNul hfuel ((length_lex_le _).trans_lt hfuel) hstart).imp
  intro argc s' h
  obtain ⟨pos', ws, hgoal, hargc, hle, hscanned, hheld, hwithin'⟩ := h
  have hwords : ∀ i w, ws[i]? = some w → ∃ t, s'.argv.mem i = some t ∧
      StringAt s'.scan.line.mem t w := by
    intro i w hw
    obtain ⟨t, ht, hhanded⟩ := hheld i w hw
    obtain ⟨t', heq, hstring⟩ := hhanded.stringAt hscanned
    cases heq
    exact ⟨t, ht, hstring⟩
  rw [wp_ite]
  constructor
  · intro hzero
    refine ⟨ws, hgoal, hle, ⟨by omega, hwords, fun hne => absurd rfl hne⟩, ?_⟩
    apply iff_of_true hwithin'
    unfold MAXARGS
    omega
  · intro hne
    refine ⟨ws, hgoal, hle, ⟨hargc, ?_, fun _ => by simp⟩, ?_⟩
    · intro i w hw
      have hlt : i < ws.length := (List.getElem?_eq_some_iff.mp hw).1
      obtain ⟨t, ht, hstring⟩ := hwords i w hw
      refine ⟨t, ?_, hstring⟩
      change Function.update s'.argv.mem argc none i = some t
      rw [Function.update_of_ne (by omega), ht]
    · change (s'.argv.store argc none).Within Argv ↔ _
      rw [Traced.within_store]
      constructor
      · intro h
        have hlt : argc < MAXARGS := h.1
        omega
      · exact fun h => ⟨by change argc < MAXARGS; omega, hwithin'⟩

/-- One process of the pipeline, which comes to parse its stage or exits. -/
lemma storesArgs_iff {n : ℕ} {line : CStr} (hline : StringAt s.scan.line.mem 0 line.bytes)
    (hscan : s.scan.line.touched = []) (hargv : s.argv.touched = [])
    (hfuel : line.bytes.length < fuel)
    (hn : n < (stages (lex line.bytes)).length) :
    StoresArgs fuel n (lex line.bytes) s ↔
      ∀ stage ws, (stages (lex line.bytes))[n]? = some stage → args stage = some ws →
        (∀ k < n, ∀ stage', (stages (lex line.bytes))[k]? = some stage' → Parses stage') →
        ws.length ≠ MAXARGS := by
  have hrun : wp (runcmd fuel 0) { s with forked := n }
      (fun argc s' => ∃ ws, parse n [] (lex line.bytes) = some ws ∧ ws.length ≤ MAXARGS ∧
        Holds s' argc ws ∧ (s'.argv.Within Argv ↔ ws.length ≠ MAXARGS))
      (fun _ => Quits (parse n [] (lex line.bytes))) (fun _ => False) :=
    wp_runcmd hline hscan hargv hfuel
  have hparse : ∀ ws, parse n [] (lex line.bytes) = some ws ↔ _ := fun ws =>
    (parse_eq_some (Nat.zero_le _) hn).trans arguments_nil
  unfold StoresArgs
  constructor
  · intro hstores stage ws hstage hargs hbefore hfull
    have hgoal := (hparse ws).mpr ⟨stage, hstage, hargs, hfull.le, hbefore⟩
    have hnone : wp (runcmd fuel 0) { s with forked := n } (fun _ _ => False) (fun _ _ => False)
        (fun _ => False) := by
      apply (hrun.and hstores).mono
      · intro argc s' h
        obtain ⟨⟨ws', hws', -, -, hiff⟩, hwithin, -⟩ := h
        obtain rfl := Option.some.inj (hgoal.symm.trans hws')
        exact hiff.mp hwithin hfull
      · intro _ s' h
        rw [hgoal] at h
        exact nomatch h.1.1
      · exact fun _ h => h.1
    obtain ⟨_, _, _, hfalse⟩ := hnone.exists_ok
    exact hfalse
  · intro hfills
    apply hrun.mono
    · intro argc s' h
      obtain ⟨ws, hgoal, hle, hholds, hiff⟩ := h
      obtain ⟨stage, hstage, hargs, -, hbefore⟩ := (hparse ws).mp hgoal
      exact ⟨hiff.mpr (hfills stage ws hstage hargs hbefore), stage, ws, hstage, hargs, hholds⟩
    · exact fun _ s' h => h.2
    · exact fun _ h => h

/-- **The arguments of a command line** go into `argv`, for every process of the pipeline, unless a
stage that comes to be parsed has exactly as many arguments as `argv` has places. -/
theorem argv_iff (line : CStr) (s : Shell) (hline : StringAt s.scan.line.mem 0 line.bytes)
    (hscan : s.scan.line.touched = []) (hargv : s.argv.touched = [])
    (hfuel : line.bytes.length < fuel) :
    (∀ n < (stages (lex line.bytes)).length, StoresArgs fuel n (lex line.bytes) s) ↔
      ¬ FillsArgv (lex line.bytes) := by
  constructor
  · intro hstores hfills
    obtain ⟨n, stage, ws, hstage, hargs, hfull, hbefore⟩ := hfills
    have hn := (List.getElem?_eq_some_iff.mp hstage).1
    exact (storesArgs_iff hline hscan hargv hfuel hn).mp
      (hstores n hn) stage ws hstage hargs hbefore
      hfull
  · intro hfills n hn
    apply (storesArgs_iff hline hscan hargv hfuel hn).mpr
    exact fun stage ws hstage hargs hbefore hfull =>
      hfills ⟨n, stage, ws, hstage, hargs, hfull, hbefore⟩

end

/-- A shell with a line in its buffer, which has not been looked at. -/
def start (line : List (BitVec 8)) : Shell :=
  ⟨⟨⟨fun k => line.getD k 0#8, []⟩, 0#8, none, none⟩, ⟨fun _ => none, []⟩, 0⟩

lemma stringAt_start (line : List (BitVec 8)) : StringAt (start line).scan.line.mem 0 line := by
  constructor
  · intro j hj
    rw [Nat.zero_add]
    exact List.getD_eq_getElem _ _ hj
  · rw [Nat.zero_add]
    exact List.getD_eq_default _ _ le_rfl

/-- `a|b`. -/
theorem argv_iff_pipe : (∀ n < (stages (lex [97#8, 124#8, 98#8])).length,
      StoresArgs 4 n (lex [97#8, 124#8, 98#8]) (start [97#8, 124#8, 98#8])) ↔
    ¬ FillsArgv (lex [97#8, 124#8, 98#8]) :=
  argv_iff ⟨[97#8, 124#8, 98#8], by decide⟩ _ (stringAt_start _) rfl rfl (by decide)

/-- So many words of one letter, with a blank behind each. -/
def letters (n : ℕ) : List (BitVec 8) := (List.replicate n [97#8, 32#8]).flatten

lemma length_letters (n : ℕ) : (letters n).length = 2 * n := by
  simp [letters, Nat.mul_comm]

lemma noNul_letters (n : ℕ) : 0#8 ∉ letters n := by
  intro h
  obtain ⟨word, hword, hmem⟩ := List.mem_flatten.mp h
  rw [List.eq_of_mem_replicate hword] at hmem
  exact absurd hmem (by decide)

lemma lex_letters (n : ℕ) : lex (letters n) = List.replicate n (.word [97#8]) := by
  induction n with
  | zero => rw [letters, List.replicate_zero, List.flatten_nil, lex, List.replicate_zero]
  | succ n ih =>
      have hcons : letters (n + 1) = 97#8 :: 32#8 :: letters n := rfl
      have hblank : ¬ isOrdinary 32#8 := by decide
      rw [hcons, lex, if_neg (by decide), if_neg (by decide), List.takeWhile_cons_of_neg hblank,
        List.dropWhile_cons_of_neg hblank, lex, if_pos (by decide), ih]
      rfl

lemma stages_words (n : ℕ) (w : List (BitVec 8)) :
    stages (List.replicate n (.word w)) = [List.replicate n (.word w)] := by
  induction n with
  | zero => rfl
  | succ n ih =>
      obtain ⟨stage, rest, hstages, hcons⟩ :=
        @stages_cons (List.replicate n (.word w)) _ (not_isPipe_word w)
      obtain ⟨rfl, rfl⟩ := List.cons.inj (ih.symm.trans hstages)
      exact hcons

lemma args_words (n : ℕ) (w : List (BitVec 8)) :
    args (List.replicate n (.word w)) = some (List.replicate n w) := by
  induction n with
  | zero => rfl
  | succ n ih =>
      rw [List.replicate_succ, args, ih]
      rfl

/-- As many words as `argv` has places, in a line that fits the buffer of the shell. -/
theorem not_storesArgs_letters : (letters MAXARGS).length < 1024 ∧
    0 < (stages (lex (letters MAXARGS))).length ∧
    ¬ StoresArgs 1024 0 (lex (letters MAXARGS)) (start (letters MAXARGS)) := by
  have hlength : (letters MAXARGS).length < 1024 := by
    rw [length_letters]
    decide
  have hstages : stages (lex (letters MAXARGS)) = [List.replicate MAXARGS (.word [97#8])] := by
    rw [lex_letters, stages_words]
  have hn : 0 < (stages (lex (letters MAXARGS))).length := by
    rw [hstages]
    exact Nat.one_pos
  refine ⟨hlength, hn, ?_⟩
  rw [@storesArgs_iff 1024 (start (letters MAXARGS)) 0 ⟨letters MAXARGS, noNul_letters MAXARGS⟩
    (stringAt_start _) rfl rfl hlength hn]
  intro h
  apply h (List.replicate MAXARGS (.word [97#8])) (List.replicate MAXARGS [97#8])
  · rw [hstages]
    rfl
  · exact args_words _ _
  · exact fun k hk => absurd hk (Nat.not_lt_zero k)
  · exact List.length_replicate

end MosRv.Parsecmd
