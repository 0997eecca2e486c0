import Mathlib.Data.List.GetD
import Mathlib.Data.List.TakeWhile
import MosRv.LibString
import MosRv.Lib.Traced

/-!
# The tokens of a command line (`user/sh.c`)

`gettoken` is one token ahead of its caller: it keeps the next token in static variables and scans
for the one after that before it hands the token over.  Blanks and symbols are overwritten with the
byte 0 as they are scanned.  A word is ended by what follows it, and that has been scanned by the
time the word is handed over.

So the line is the same as at first from the place on that has been scanned, and before that place
all is 0 but for the bytes of words (`scanned`).  `gettoken_lexes` compares the tokens with those of
`lex`.

A pointer into the line is the number of bytes before it.
-/

namespace MosRv.Gettoken

open Prog

/-- The line, and the static variables of `gettoken`. -/
structure Scanner where
  line : Traced ℕ (BitVec 8)
  nc : BitVec 8
  np1 : Option ℕ
  np2 : Option ℕ

/-- The functions never leave early, whatever their callers may do. -/
abbrev ScanM (ε : Type) := Prog ε OutOfFuel Scanner

variable {ε : Type}

/-- `*s`. -/
def load (s : ℕ) : ScanM ε (BitVec 8) := do
  let st ← get
  set { st with line := st.line.touch s }
  pure (st.line.mem s)

/-- `*s = c`. -/
def store (s : ℕ) (c : BitVec 8) : ScanM ε Unit :=
  modify fun st => { st with line := st.line.store s c }

/-- Whether `strchr` finds the character; it does not find the byte 0 at the end. -/
def strchr : List (BitVec 8) → BitVec 8 → Bool
  | [], _ => false
  | a :: s, c => if a = c then true else strchr s c

def whitespace : List (BitVec 8) := " \t\r\n".toList.map ch

def symbols : List (BitVec 8) := "<|>&;()".toList.map ch

/-- `while (strchr(WHITESPACE, *s)) *s++ = 0;`. -/
def skipBlanks (fuel : ℕ) : ℕ → ScanM ε ℕ :=
  iter .outOfFuel (fun s => do
    let c ← load s
    if strchr whitespace c then do
      store s 0#8
      pure (.inl (s + 1))
    else pure (.inr s)) fuel

/-- `while (*s && !strchr(WHITESPACE SYMBOLS, *s)) s++;`. -/
def skipWord (fuel : ℕ) : ℕ → ScanM ε ℕ :=
  iter .outOfFuel (fun s => do
    let c ← load s
    if c ≠ 0#8 ∧ ¬ strchr (whitespace ++ symbols) c then pure (.inl (s + 1))
    else pure (.inr s)) fuel

/-- `_gettoken`: the token, `*p1` and `*p2`. -/
def gettokenAt (fuel : ℕ) : Option ℕ → ScanM ε (BitVec 8 × Option ℕ × Option ℕ)
  | none => pure (0#8, none, none)
  | some s => do
      let s ← skipBlanks fuel s
      let c ← load s
      if c = 0#8 then pure (0#8, none, none)
      else if strchr symbols c then do
        store s 0#8
        pure (c, some s, some (s + 1))
      else do
        let e ← skipWord fuel s
        pure (ch 'w', some s, some e)

/-- The token, and `*p1`, which stays as it is at the start of a line. -/
def gettoken (fuel : ℕ) (s p1 : Option ℕ) : ScanM ε (BitVec 8 × Option ℕ) := do
  let next (s : Option ℕ) : ScanM ε Unit := do
    let (nc, np1, np2) ← gettokenAt fuel s
    modify fun st => { st with nc := nc, np1 := np1, np2 := np2 }
  match s with
  | some _ => do
      next s
      pure (0#8, p1)
  | none => do
      let st ← get
      next st.np2
      pure (st.nc, st.np1)

/-- `n` calls `gettoken(0, &t)`: what they return, and `t`. -/
def gettokens (fuel : ℕ) : ℕ → ScanM ε (List (BitVec 8 × Option ℕ))
  | 0 => pure []
  | n + 1 => do
      let tokens ← gettokens fuel n
      let token ← gettoken fuel none none
      pure (tokens ++ [token])

/-! ## What the tokens are -/

inductive Token
  | symbol (c : BitVec 8)
  | word (w : List (BitVec 8))
  deriving DecidableEq

/-- What `gettoken` returns for a token. -/
def Token.code : Token → BitVec 8
  | symbol c => c
  | word _ => ch 'w'

/-- A byte of a word. -/
def isOrdinary (c : BitVec 8) : Bool := !whitespace.contains c && !symbols.contains c

/-- **The reference lexer.** -/
def lex : List (BitVec 8) → List Token
  | [] => []
  | c :: s =>
      if whitespace.contains c then lex s
      else if symbols.contains c then .symbol c :: lex s
      else .word (c :: s.takeWhile isOrdinary) :: lex (s.dropWhile isOrdinary)
termination_by s => s.length
decreasing_by
  · exact Nat.lt_succ_self _
  · exact Nat.lt_succ_self _
  · exact Nat.lt_succ_of_le (List.dropWhile_suffix _).length_le

/-- The C string at some place. -/
def StringAt (m : ℕ → BitVec 8) (t : ℕ) (w : List (BitVec 8)) : Prop :=
  (∀ j (h : j < w.length), m (t + j) = w.get ⟨j, h⟩) ∧ m (t + w.length) = 0#8

section

variable {fuel pos n t : ℕ} {l w : List (BitVec 8)} {c : BitVec 8} {st : Scanner}
  {E : ε → Scanner → Prop} {P : OutOfFuel → Prop}

lemma strchr_eq (s : List (BitVec 8)) (c : BitVec 8) : strchr s c = s.contains c := by
  induction s with
  | nil => rfl
  | cons a s ih =>
      unfold strchr
      rw [ih, List.contains_cons]
      by_cases hac : a = c
      · simp [hac]
      · simp [hac, Ne.symm hac]

/-! ## The line when it has been scanned up to some place -/

/-- Scanning leaves 0 of all but the bytes of words. -/
def clean (c : BitVec 8) : BitVec 8 := if isOrdinary c then c else 0#8

/-- The line, and the byte 0 at its end, when all before `pos` has been scanned. -/
def scanned (l : List (BitVec 8)) (pos k : ℕ) : BitVec 8 :=
  if k < pos then clean (l.getD k 0#8) else l.getD k 0#8

/-- All before `pos` has been scanned, and no other place has been touched than those of the line.
-/
structure ScannedTo (l : List (BitVec 8)) (pos : ℕ) (m : Traced ℕ (BitVec 8)) : Prop where
  le : pos ≤ l.length
  mem : ∀ k ≤ l.length, m.mem k = scanned l pos k
  within : m.Within {k | k ≤ l.length}

lemma ScannedTo.touch {m : Traced ℕ (BitVec 8)} (h : ScannedTo l pos m) :
    ScannedTo l pos (m.touch pos) where
  le := h.le
  mem := h.mem
  within := Traced.within_touch.mpr ⟨h.le, h.within⟩

lemma ScannedTo.mem_pos {m : Traced ℕ (BitVec 8)} (h : ScannedTo l pos m) :
    m.mem pos = l.getD pos 0#8 := by
  rw [h.mem pos h.le, scanned, if_neg (lt_irrefl pos)]

/-- A byte of a word is scanned and stays. -/
lemma ScannedTo.succ {m : Traced ℕ (BitVec 8)} (h : ScannedTo l pos m) (hpos : pos < l.length)
    (hc : isOrdinary (l.getD pos 0#8)) : ScannedTo l (pos + 1) m where
  le := hpos
  mem := by
    intro k hk
    rw [h.mem k hk]
    unfold scanned clean
    obtain hlt | rfl | hgt := lt_trichotomy k pos
    · rw [if_pos hlt, if_pos (Nat.lt_succ_of_lt hlt)]
    · rw [if_neg (lt_irrefl k), if_pos (Nat.lt_succ_self k), if_pos hc]
    · rw [if_neg (by omega), if_neg (by omega)]
  within := h.within

/-- Another byte is scanned and overwritten. -/
lemma ScannedTo.store {m : Traced ℕ (BitVec 8)} (h : ScannedTo l pos m) (hpos : pos < l.length)
    (hc : ¬ isOrdinary (l.getD pos 0#8)) : ScannedTo l (pos + 1) (m.store pos 0#8) where
  le := hpos
  mem := by
    intro k hk
    rw [Traced.store_mem]
    obtain rfl | hne := eq_or_ne k pos
    · rw [Function.update_self, scanned, if_pos (Nat.lt_succ_self k), clean, if_neg hc]
    · rw [Function.update_of_ne hne, h.mem k hk]
      unfold scanned
      congr 1
      rw [eq_iff_iff]
      omega
  within := Traced.within_store.mpr ⟨h.le, h.within⟩

/-- The line is at its end, or there is a byte. -/
lemma end_or_byte (hnul : 0#8 ∉ l) (hpos : pos ≤ l.length) :
    (pos = l.length ∧ l.drop pos = [] ∧ l.getD pos 0#8 = 0#8) ∨
    (pos < l.length ∧ l.drop pos = l.getD pos 0#8 :: l.drop (pos + 1) ∧ l.getD pos 0#8 ≠ 0#8) := by
  obtain rfl | hlt := hpos.eq_or_lt
  · left
    simp
  · right
    have hget : l.getD pos 0#8 = getElem l pos hlt := by simp [hlt]
    refine ⟨hlt, ?_, ?_⟩
    · rw [hget, List.drop_eq_getElem_cons hlt]
    · rw [hget]
      exact fun h0 => hnul (h0 ▸ List.getElem_mem hlt)

/-- Blanks are no tokens. -/
lemma wp_skipBlanks (hnul : 0#8 ∉ l) (h : ScannedTo l pos st.line) (hfuel : l.length < fuel) :
    wp (skipBlanks fuel pos) st (fun s st' => ScannedTo l s st'.line ∧ pos ≤ s ∧
      lex (l.drop s) = lex (l.drop pos) ∧ ¬ whitespace.contains (l.getD s 0#8)) E P := by
  unfold skipBlanks
  apply wp_iter (fun s st' => ScannedTo l s st'.line ∧ pos ≤ s ∧ lex (l.drop s) = lex (l.drop pos))
    (fun s _ => l.length - s)
  · intro s st' hI
    obtain ⟨hs, hle, hlex⟩ := hI
    unfold load store
    simp only [wp_bind, wp_get, wp_set, wp_pure, wp_ite, wp_modify, hs.mem_pos, strchr_eq]
    constructor
    · intro hblank
      obtain ⟨-, -, h0⟩ | ⟨hlt, hdrop, -⟩ := end_or_byte hnul hs.le
      · rw [h0] at hblank
        exact absurd hblank (by decide)
      · have hord : ¬ isOrdinary (l.getD s 0#8) := by
          unfold isOrdinary
          rw [hblank]
          exact Bool.false_ne_true
        have hnext : lex (l.drop s) = lex (l.drop (s + 1)) := by
          rw [hdrop, lex, if_pos hblank]
        refine ⟨⟨hs.touch.store hlt hord, by omega, hnext.symm.trans hlex⟩, ?_⟩
        omega
    · exact fun hblank => ⟨hs.touch, hle, hlex, hblank⟩
  · exact ⟨h, le_rfl, rfl⟩
  · omega

/-- The scanner goes on to the end of the word. -/
lemma wp_skipWord (hnul : 0#8 ∉ l) (h : ScannedTo l pos st.line) (hfuel : l.length < fuel) :
    wp (skipWord fuel pos) st (fun e st' => ScannedTo l e st'.line ∧
      e = pos + ((l.drop pos).takeWhile isOrdinary).length ∧
      (l.drop pos).dropWhile isOrdinary = l.drop e) E P := by
  unfold skipWord
  apply wp_iter (fun s st' => ScannedTo l s st'.line ∧
      s + ((l.drop s).takeWhile isOrdinary).length = pos +
        ((l.drop pos).takeWhile isOrdinary).length ∧
      (l.drop s).dropWhile isOrdinary = (l.drop pos).dropWhile isOrdinary)
    (fun s _ => l.length - s)
  · intro s st' hI
    obtain ⟨hs, hlen, hdrop⟩ := hI
    have hword : strchr (whitespace ++ symbols) (l.getD s 0#8) = !isOrdinary (l.getD s 0#8) := by
      unfold isOrdinary
      rw [strchr_eq, List.contains_append, Bool.not_and, Bool.not_not, Bool.not_not]
    unfold load
    simp only [wp_bind, wp_get, wp_set, wp_pure, wp_ite, hs.mem_pos, hword, Bool.not_eq_true',
      Bool.not_eq_false]
    constructor
    · intro hgo
      obtain ⟨hne, hord⟩ := hgo
      obtain ⟨-, -, h0⟩ | ⟨hlt, hcons, -⟩ := end_or_byte hnul hs.le
      · exact absurd h0 hne
      rw [hcons, List.takeWhile_cons_of_pos hord, List.length_cons] at hlen
      rw [hcons, List.dropWhile_cons_of_pos hord] at hdrop
      refine ⟨⟨hs.touch.succ hlt hord, ?_, hdrop⟩, ?_⟩
      · omega
      · omega
    · intro hstop
      -- the end of the line, or the first byte that is not of the word
      have hend : (l.drop s).takeWhile isOrdinary = [] ∧
          (l.drop s).dropWhile isOrdinary = l.drop s := by
        obtain ⟨-, hnil, -⟩ | ⟨-, hcons, hne⟩ := end_or_byte hnul hs.le
        · rw [hnil]
          exact ⟨rfl, rfl⟩
        · have hord : ¬ isOrdinary (l.getD s 0#8) := fun hord => hstop ⟨hne, hord⟩
          rw [hcons]
          exact ⟨List.takeWhile_cons_of_neg hord, List.dropWhile_cons_of_neg hord⟩
      rw [hend.1] at hlen
      rw [hend.2] at hdrop
      exact ⟨hs.touch, hlen, hdrop.symm⟩
  · exact ⟨h, rfl, rfl⟩
  · omega

/-! ## The token ahead -/

/-- The next token of those that are left, which ends at `pos`, or the end of the line. -/
def Next (l : List (BitVec 8)) (pos : ℕ) : List Token → BitVec 8 × Option ℕ × Option ℕ → Prop
  | [], r => pos = l.length ∧ r = (0#8, none, none)
  | token :: rest, r => ∃ t, r = (token.code, some t, some pos) ∧ rest = lex (l.drop pos) ∧
      ∀ w, token = .word w → w = (l.drop t).takeWhile isOrdinary ∧ t + w.length = pos

lemma wp_gettokenAt (hnul : 0#8 ∉ l) (h : ScannedTo l pos st.line) (hfuel : l.length < fuel) :
    wp (gettokenAt fuel (some pos)) st (fun r st' => ∃ pos', ScannedTo l pos' st'.line ∧
      Next l pos' (lex (l.drop pos)) r ∧ (pos < pos' ∨ pos' = l.length)) E P := by
  unfold gettokenAt
  rw [wp_bind]
  apply (wp_skipBlanks hnul h hfuel).imp
  intro s st hI
  obtain ⟨hs, hle, hlex, hblank⟩ := hI
  rw [← hlex]
  unfold load store
  simp only [wp_bind, wp_get, wp_set, wp_pure, wp_ite, wp_modify, hs.mem_pos, strchr_eq]
  obtain ⟨hend, hnil, h0⟩ | ⟨hlt, hcons, hne⟩ := end_or_byte hnul hs.le
  · refine ⟨fun _ => ?_, fun hne => absurd h0 hne⟩
    rw [hnil, lex]
    exact ⟨s, hs.touch, ⟨hend, rfl⟩, .inr hend⟩
  · refine ⟨fun h0 => absurd h0 hne, fun _ => ⟨fun hsymbol => ?_, fun hsymbol => ?_⟩⟩
    · have hord : ¬ isOrdinary (l.getD s 0#8) := by
        unfold isOrdinary
        rw [hsymbol, Bool.not_true, Bool.and_false]
        exact Bool.false_ne_true
      refine ⟨s + 1, hs.touch.store hlt hord, ?_, .inl (by omega)⟩
      rw [hcons, lex, if_neg hblank, if_pos hsymbol]
      exact ⟨s, rfl, rfl, fun w hw => absurd hw (by simp)⟩
    · have hord : isOrdinary (l.getD s 0#8) := by
        unfold isOrdinary
        rw [Bool.not_eq_true] at hblank hsymbol
        rw [hblank, hsymbol]
        rfl
      have hword : .word ((l.drop s).takeWhile isOrdinary) ::
          lex ((l.drop s).dropWhile isOrdinary) = lex (l.drop s) := by
        rw [hcons, lex, if_neg hblank, if_neg hsymbol, List.takeWhile_cons_of_pos hord,
          List.dropWhile_cons_of_pos hord]
      have hpositive : 0 < ((l.drop s).takeWhile isOrdinary).length := by
        rw [hcons, List.takeWhile_cons_of_pos hord]
        exact Nat.succ_pos _
      apply (@wp_skipWord _ fuel s l _ _ _ hnul hs.touch hfuel).imp
      intro e st' he
      obtain ⟨he, hlength, hdrop⟩ := he
      refine ⟨e, he, ?_, .inl (by omega)⟩
      rw [← hword]
      refine ⟨s, rfl, by rw [hdrop], fun w hw => ?_⟩
      obtain rfl := Token.word.inj hw
      exact ⟨rfl, hlength.symm⟩

/-- The tokens of `rest` are still to be handed over, and the first one has been scanned. -/
structure Ahead (l : List (BitVec 8)) (pos : ℕ) (rest : List Token) (st : Scanner) : Prop where
  scanned : ScannedTo l pos st.line
  next : Next l pos rest (st.nc, st.np1, st.np2)

/-- A token has been handed over.  A word stands in the line, and what follows it has been scanned.
-/
def Handed (l : List (BitVec 8)) (pos : ℕ) (token : Token) (r : BitVec 8 × Option ℕ) : Prop :=
  r.1 = token.code ∧ ∀ w, token = .word w → ∃ t, r.2 = some t ∧
    w = (l.drop t).takeWhile isOrdinary ∧ t + w.length ≤ pos ∧
      (t + w.length < pos ∨ pos = l.length)

lemma Handed.mono {token : Token} {r : BitVec 8 × Option ℕ} (h : Handed l pos token r) {pos' : ℕ}
    (hle : pos ≤ pos') (hend : pos' ≤ l.length) : Handed l pos' token r := by
  refine ⟨h.1, fun w hw => ?_⟩
  obtain ⟨t, ht, htext, hpos⟩ := h.2 w hw
  exact ⟨t, ht, htext, by omega, by omega⟩

lemma getD_of_takeWhile (hw : w = (l.drop t).takeWhile isOrdinary) {j : ℕ} (hj : j < w.length) :
    l.getD (t + j) 0#8 = w.get ⟨j, hj⟩ ∧ isOrdinary (w.get ⟨j, hj⟩) := by
  have hmem : w.get ⟨j, hj⟩ ∈ (l.drop t).takeWhile isOrdinary := hw ▸ List.get_mem w ⟨j, hj⟩
  have hprefix : w <+: l.drop t := hw ▸ List.takeWhile_prefix isOrdinary
  have hlt : t + j < l.length := by
    have hle := hprefix.length_le
    rw [List.length_drop] at hle
    omega
  refine ⟨?_, List.mem_takeWhile_imp hmem⟩
  rw [List.get_eq_getElem, hprefix.getElem hj, List.getElem_drop, List.getD_eq_getElem _ _ hlt]

/-- Behind a word the line is at its end, or there is a byte that is not of a word. -/
lemma clean_of_takeWhile (hw : w = (l.drop t).takeWhile isOrdinary) :
    clean (l.getD (t + w.length) 0#8) = 0#8 := by
  have hdrop : l.drop (t + w.length) = (l.drop t).dropWhile isOrdinary := by
    rw [← List.drop_drop]
    conv_lhs => rw [← List.takeWhile_append_dropWhile (p := isOrdinary) (l := l.drop t), ← hw]
    exact List.drop_left
  unfold clean
  cases hrest : l.drop (t + w.length) with
  | nil =>
      rw [List.getD_eq_default _ _ (List.drop_eq_nil_iff.mp hrest)]
      rfl
  | cons c rest =>
      have hget : l.getD (t + w.length) 0#8 = c := by
        rw [List.getD_eq_getElem?_getD, ← List.head?_drop, hrest]
        rfl
      have hdropWhile : (l.drop t).dropWhile isOrdinary = c :: rest := hdrop.symm.trans hrest
      have hstop : isOrdinary c = false := by
        have hnot := List.head_dropWhile_not isOrdinary (l := l.drop t) (by simp [hdropWhile])
        simpa only [hdropWhile, List.head_cons] using hnot
      rw [hget, if_neg (by simp [hstop])]

/-- The word that has been handed over is a string, however much has been scanned since. -/
lemma Handed.stringAt {r : BitVec 8 × Option ℕ} {m : Traced ℕ (BitVec 8)}
    (h : Handed l pos (.word w) r) (hs : ScannedTo l pos m) :
    ∃ t, r = (ch 'w', some t) ∧ StringAt m.mem t w := by
  obtain ⟨t, ht, htext, hle, hpos⟩ := h.2 w rfl
  have hlen := hs.le
  refine ⟨t, Prod.ext h.1 ht, ?_, ?_⟩
  · intro j hj
    obtain ⟨hget, hord⟩ := getD_of_takeWhile htext hj
    rw [hs.mem (t + j) (by omega)]
    unfold scanned clean
    rw [hget, if_pos hord, ite_self]
  · rw [hs.mem (t + w.length) (by omega)]
    unfold scanned
    rw [clean_of_takeWhile htext]
    split_ifs with hlt
    · rfl
    · rw [List.getD_eq_default _ _ (by omega)]

/-- **A call of `gettoken`** hands over the token that is ahead, or 0. -/
lemma wp_gettoken (hnul : 0#8 ∉ l) (hfuel : l.length < fuel) (p1 : Option ℕ) {rest : List Token}
    (h : Ahead l pos rest st) :
    wp (gettoken fuel none p1) st (fun r st' => ∃ pos', pos ≤ pos' ∧ Ahead l pos' rest.tail st' ∧
      match rest.head? with
      | none => r = (0#8, none)
      | some token => Handed l pos' token r) E P := by
  unfold gettoken
  simp only [wp_bind, wp_get, wp_pure, wp_modify]
  have hnext := h.next
  cases rest with
  | nil =>
      obtain ⟨hend, hstatics⟩ := hnext
      simp only [Prod.mk.injEq] at hstatics
      obtain ⟨hnc, hnp1, hnp2⟩ := hstatics
      rw [hnp2, hnc, hnp1]
      exact ⟨pos, le_rfl, ⟨h.scanned, hend, rfl⟩, rfl⟩
  | cons token rest =>
      obtain ⟨t, hstatics, hrest, htext⟩ := hnext
      simp only [Prod.mk.injEq] at hstatics
      obtain ⟨hnc, hnp1, hnp2⟩ := hstatics
      rw [hnp2]
      apply (wp_gettokenAt hnul h.scanned hfuel).imp
      intro r st' hr
      obtain ⟨pos', hscanned, hnext, hpos'⟩ := hr
      rw [hnc, hnp1, List.tail_cons, List.head?_cons, hrest]
      have hle := h.scanned.le
      refine ⟨pos', by omega, ⟨hscanned, hnext⟩, rfl, fun w hw => ?_⟩
      obtain ⟨hw, hlength⟩ := htext w hw
      exact ⟨t, rfl, hw, by omega, by omega⟩

/-! ## The tokens of a line -/

/-- Nothing has been scanned yet. -/
lemma scannedTo_start {m : Traced ℕ (BitVec 8)} (hline : StringAt m.mem 0 l)
    (htouched : m.touched = []) :
    ScannedTo l 0 m where
  le := Nat.zero_le _
  mem := by
    intro k hk
    unfold scanned
    rw [if_neg (Nat.not_lt_zero k)]
    obtain rfl | hlt := hk.eq_or_lt
    · rw [List.getD_eq_default _ _ le_rfl, ← hline.2, Nat.zero_add]
    · have hbyte := hline.1 k hlt
      rw [Nat.zero_add] at hbyte
      rw [List.getD_eq_getElem _ _ hlt, hbyte]
      rfl
  within := by
    intro k hk
    rw [htouched] at hk
    exact absurd hk List.not_mem_nil

/-- The start of a line: the first token is scanned. -/
lemma wp_gettoken_start (hnul : 0#8 ∉ l) (hfuel : l.length < fuel) (p1 : Option ℕ)
    (h : ScannedTo l 0 st.line) :
    wp (gettoken fuel (some 0) p1) st (fun _ st' => ∃ pos, Ahead l pos (lex l) st') E P := by
  unfold gettoken
  simp only [wp_bind, wp_pure, wp_modify]
  apply (wp_gettokenAt hnul h hfuel).imp
  intro r st' hr
  obtain ⟨pos, hscanned, hnext, -⟩ := hr
  exact ⟨pos, hscanned, hnext⟩

/-- What `n` calls have returned: the tokens, and 0 behind the last one. -/
structure Calls (l : List (BitVec 8)) (pos n : ℕ) (rs : List (BitVec 8 × Option ℕ)) : Prop where
  length : rs.length = n
  codes : rs.map Prod.fst =
    ((lex l).take n).map Token.code ++ List.replicate (n - (lex l).length) 0#8
  handed : ∀ i token, (lex l)[i]? = some token → i < n → ∃ r, rs[i]? = some r ∧ Handed l pos token r

lemma Calls.concat {rs : List (BitVec 8 × Option ℕ)} {r : BitVec 8 × Option ℕ} {pos' : ℕ}
    (h : Calls l pos n rs) (hle : pos ≤ pos') (hend : pos' ≤ l.length)
    (hr : match ((lex l).drop n).head? with
      | none => r = (0#8, none)
      | some token => Handed l pos' token r) : Calls l pos' (n + 1) (rs ++ [r]) := by
  rw [List.head?_drop] at hr
  have hold : ∀ i token, (lex l)[i]? = some token → i < n →
      ∃ r', (rs ++ [r])[i]? = some r' ∧ Handed l pos' token r' := by
    intro i token htoken hi
    obtain ⟨r', hr', hhanded⟩ := h.handed i token htoken hi
    refine ⟨r', ?_, hhanded.mono hle hend⟩
    rw [List.getElem?_append_left (by rw [h.length]; exact hi), hr']
  cases htoken : (lex l)[n]? with
  | none =>
      rw [htoken] at hr
      have hlen : (lex l).length ≤ n := List.getElem?_eq_none_iff.mp htoken
      refine ⟨by simp [h.length], ?_, ?_⟩
      · rw [List.map_append, h.codes, hr, List.take_of_length_le hlen,
          List.take_of_length_le (hlen.trans n.le_succ), Nat.succ_sub hlen, List.replicate_succ',
          List.append_assoc]
        rfl
      · intro i token hi _
        have hlt := (List.getElem?_eq_some_iff.mp hi).1
        exact hold i token hi (by omega)
  | some token =>
      rw [htoken] at hr
      have hlen : n < (lex l).length := (List.getElem?_eq_some_iff.mp htoken).1
      refine ⟨by simp [h.length], ?_, ?_⟩
      · rw [List.map_append, h.codes, Nat.sub_eq_zero_of_le hlen.le, Nat.sub_eq_zero_of_le hlen,
          List.take_add_one, htoken, List.map_append]
        simp [hr.1]
      · intro i token' hi hin
        obtain hlt | rfl := Nat.lt_succ_iff_lt_or_eq.mp hin
        · exact hold i token' hi hlt
        · rw [htoken] at hi
          obtain rfl := Option.some.inj hi
          refine ⟨r, ?_, hr⟩
          rw [List.getElem?_append_right h.length.le, h.length, Nat.sub_self]
          rfl

lemma wp_gettokens (hnul : 0#8 ∉ l) (hfuel : l.length < fuel) (h : Ahead l pos (lex l) st) (n : ℕ) :
    wp (gettokens fuel n) st (fun rs st' => ∃ pos', Ahead l pos' ((lex l).drop n) st' ∧
      Calls l pos' n rs) E P := by
  induction n with
  | zero => exact ⟨pos, h, rfl, by simp, fun i _ _ hi => absurd hi (Nat.not_lt_zero i)⟩
  | succ n ih =>
      unfold gettokens
      rw [wp_bind]
      apply ih.imp
      intro rs st' hrs
      obtain ⟨pos', hahead, hcalls⟩ := hrs
      rw [wp_bind]
      apply (wp_gettoken hnul hfuel none hahead).imp
      intro r st'' hr
      obtain ⟨pos'', hle, hahead', hr⟩ := hr
      rw [List.tail_drop] at hahead'
      exact ⟨pos'', hahead', hcalls.concat hle hahead'.scanned.le hr⟩

/-- **The tokens of a line are those of the reference lexer**, and 0 behind them.  The text of a
word that has been returned stays what it is, and no place outside the line is touched. -/
theorem gettoken_lexes (line : CStr) (st : Scanner) (hline : StringAt st.line.mem 0 line.bytes)
    (htouched : st.line.touched = []) (hfuel : line.bytes.length < fuel) (n : ℕ) :
    ∃ rs st', (do let _ ← gettoken fuel (some 0) none; gettokens fuel n : ScanM Empty _) st =
        .ok rs st' ∧
      st'.line.Within {k | k ≤ line.bytes.length} ∧
      rs.map Prod.fst = ((lex line.bytes).take n).map Token.code ++
        List.replicate (n - (lex line.bytes).length) 0#8 ∧
      ∀ i w, (lex line.bytes)[i]? = some (.word w) → i < n →
        ∃ t, rs[i]? = some (ch 'w', some t) ∧ StringAt st'.line.mem t w := by
  have hstart := scannedTo_start hline htouched
  have hwp : wp (do let _ ← gettoken fuel (some 0) none; gettokens fuel n : ScanM Empty _) st
      (fun rs st' => ∃ pos, Ahead line.bytes pos ((lex line.bytes).drop n) st' ∧
        Calls line.bytes pos n rs) (fun _ _ => False) (fun _ => False) := by
    rw [wp_bind]
    apply (wp_gettoken_start line.noNul hfuel none hstart).imp
    intro _ st' h
    obtain ⟨pos, h⟩ := h
    exact wp_gettokens line.noNul hfuel h n
  obtain ⟨rs, st', hrun, pos, hahead, hcalls⟩ := hwp.exists_ok
  refine ⟨rs, st', hrun, hahead.scanned.within, hcalls.codes, fun i w hw hi => ?_⟩
  obtain ⟨r, hr, hhanded⟩ := hcalls.handed i _ hw hi
  obtain ⟨t, rfl, hstring⟩ := hhanded.stringAt hahead.scanned
  exact ⟨t, hr, hstring⟩

end

/-- `ab>`, and two calls more than there are tokens. -/
theorem gettoken_lexes_redirection :
    ∃ rs st', (do let _ ← gettoken 6 (some 0) none; gettokens 6 4 : ScanM Empty _)
        ⟨⟨fun k => [97#8, 98#8, 62#8].getD k 0#8, []⟩, 0#8, none, none⟩ = .ok rs st' ∧
      rs.map Prod.fst = [ch 'w', ch '>', 0#8, 0#8] := by
  have hlex : lex [97#8, 98#8, 62#8] = [.word [97#8, 98#8], .symbol (ch '>')] := by
    have htake : [98#8, 62#8].takeWhile isOrdinary = [98#8] := by decide
    have hdrop : [98#8, 62#8].dropWhile isOrdinary = [62#8] := by decide
    rw [lex, if_neg (by decide), if_neg (by decide), htake, hdrop, lex, if_neg (by decide),
      if_pos (by decide), lex]
    rfl
  have hline : StringAt (fun k => [97#8, 98#8, 62#8].getD k 0#8) 0 [97#8, 98#8, 62#8] := by
    refine ⟨fun j hj => ?_, rfl⟩
    rw [Nat.zero_add]
    exact List.getD_eq_getElem _ _ hj
  obtain ⟨rs, st', hrun, -, hcodes, -⟩ := @gettoken_lexes 6 ⟨[97#8, 98#8, 62#8], by decide⟩
    ⟨⟨fun k => [97#8, 98#8, 62#8].getD k 0#8, []⟩, 0#8, none, none⟩ hline rfl (by decide) 4
  refine ⟨rs, st', hrun, ?_⟩
  rw [hcodes, hlex]
  rfl

end MosRv.Gettoken
