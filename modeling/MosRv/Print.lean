import Mathlib.Data.Nat.Digits.Lemmas
import MosRv.LibString

/-!
# Formatted output (`lib/print.c`)

`vprintfmt` walks through a format and hands what it prints to a callback, piece by piece.  A
pointer into a string is the list of the bytes from there on; behind them the string ends.  The
output is the concatenation of the buffers that the callback gets.

`print_num` writes the digits into a buffer, the last one first, then the sign and the padding, and
turns the buffer round, or a part of it if the number stands on the left.

What the output is to be is `render`: the format is a sequence of pieces, characters and directives
(`pieces`), and a directive prints its argument in a field of some width.  `vprintfmt_renders` says
that the two agree.
-/

namespace MosRv.Print

open Prog

/-- What is left of a string, from a pointer on. -/
abbrev Str := List (BitVec 8)

/-- `*p`. -/
def deref (p : Str) : BitVec 8 := p.headD 0#8

/-- An argument: a word, or a pointer to a string. -/
inductive Arg
  | word (w : Word)
  | str (s : CStr)

/-- Why the function does not come to its end. -/
inductive Stop
  | outOfFuel
  /-- `va_arg` is used for an argument that there is not. -/
  | noArg

/-- The state is what has been printed. -/
abbrev PrintM := Prog Empty Stop Str

/-- `out(data, buf, len)`, for the bytes of the buffer. -/
def out (buf : Str) : PrintM Unit := modify fun o => o ++ buf

/-! ## The helpers -/

def printChar (c : BitVec 8) (length : ℤ) (ladjust : Bool) : PrintM Unit := do
  let length := if length < 1 then 1 else length
  let space := ch ' '
  if ladjust then do
    out [c]
    forRange (fun _ => out [space]) 1 (length - 1).toNat
  else do
    forRange (fun _ => out [space]) 0 (length - 1).toNat
    out [c]

/-- `while (*s1++) len++;`. -/
def strLen : Str → ℕ
  | [] => 0
  | c :: s => if c = 0#8 then 0 else strLen s + 1

def printStr (s : Str) (length : ℤ) (ladjust : Bool) : PrintM Unit := do
  let len := strLen s
  let length := if length < len then (len : ℤ) else length
  if ladjust then do
    out (s.take len)
    forRange (fun _ => out [ch ' ']) len (length - len).toNat
  else do
    forRange (fun _ => out [ch ' ']) 0 (length - len).toNat
    out (s.take len)

/-- The character of a digit. -/
def digit (upcase : Bool) (tmp : ℕ) : BitVec 8 :=
  if tmp ≤ 9 then BitVec.ofNat 8 (48 + tmp)
  else if upcase then BitVec.ofNat 8 (65 + tmp - 10)
  else BitVec.ofNat 8 (97 + tmp - 10)

/-- The buffer of `print_num`. -/
abbrev Buf := ℕ → BitVec 8

/-- `do { … *p++ = digit; u /= base; } while (u != 0);`; the buffer and the place `p`. -/
def putDigits (fuel : ℕ) (base : Word) (upcase : Bool) (buf : Buf) (u : Word) : PrintM (Buf × ℕ) :=
  iter .outOfFuel (fun (buf, p, u) => do
    let tmp := u % base
    let buf := Function.update buf p (digit upcase tmp.toNat)
    let u := u / base
    if u ≠ 0#32 then pure (.inl (buf, p + 1, u)) else pure (.inr (buf, p + 1))) fuel (buf, 0, u)

/-- `for (; i < n; i++) buf[i] = padc;`, for as many rounds as there are. -/
def fill (buf : Buf) (padc : BitVec 8) : (i rounds : ℕ) → Buf
  | _, 0 => buf
  | i, rounds + 1 => fill (Function.update buf i padc) padc (i + 1) rounds

/-- `while (end > begin) { … begin++; end--; }`, where two bytes are exchanged. -/
def turn (buf : Buf) (first : ℕ) : (last : ℕ) → Buf
  | 0 => buf
  | last + 1 =>
      if first < last + 1 then
        turn (Function.update (Function.update buf first (buf (last + 1))) (last + 1) (buf first))
          (first + 1) last
      else buf

/-- The first `n` bytes of the buffer. -/
def bytes (buf : Buf) (n : ℕ) : Str := (List.range n).map buf

/-- `print_num` behind its first loop: what is printed of the buffer with `p` digits in it. -/
def layOut (buf : Buf) (p : ℕ) (negFlag : Bool) (length : ℤ) (ladjust : Bool) (padc : BitVec 8) :
    Str :=
  let buf := if negFlag then Function.update buf p (ch '-') else buf
  let p := if negFlag then p + 1 else p
  -- figure out actual length and adjust the maximum length
  let actualLength := p
  let length := if length < actualLength then actualLength else length.toNat
  -- add padding
  let padc := if ladjust then ch ' ' else padc
  let buf :=
    if negFlag ∧ ¬ ladjust ∧ padc = ch '0' then
      Function.update (fill buf padc (actualLength - 1) (length - actualLength))
        (length - 1) (ch '-')
    else fill buf padc actualLength (length - actualLength)
  -- reverse the string
  let last := if ladjust then actualLength - 1 else length - 1
  bytes (turn buf 0 last) length

def printNum (fuel : ℕ) (u base : Word) (negFlag : Bool) (length : ℤ) (ladjust : Bool)
    (padc : BitVec 8) (upcase : Bool) : PrintM Unit := do
  let (buf, p) ← putDigits fuel base upcase (fun _ => 0#8) u
  out (layOut buf p negFlag length ladjust padc)

/-! ## `vprintfmt` -/

/-- `while (*s != '%' && *s != '\0') s++;`. -/
def scan : Str → Str
  | [] => []
  | c :: s => if c ≠ ch '%' ∧ c ≠ 0#8 then scan s else c :: s

/-- `if (*fmt == c) { flag = 1; ++fmt; } else flag = 0;`. -/
def takeFlag (c : BitVec 8) (fmt : Str) : Bool × Str :=
  if deref fmt = c then (true, fmt.tail) else (false, fmt)

/-- `while (*fmt >= '0' && *fmt <= '9') width = width*10+(*fmt++)-'0';`. -/
def getWidth (width : Word) : Str → Word × Str
  | [] => (width, [])
  | c :: fmt =>
      if ch '0' ≤ c ∧ c ≤ ch '9' then
        getWidth (width * 10#32 + c.setWidth 32 - (ch '0').setWidth 32) fmt
      else (width, c :: fmt)

/-- `va_arg(ap, int)` or `va_arg(ap, long int)`: both are 32 bits wide. -/
def nextWord : List Arg → PrintM (Word × List Arg)
  | .word w :: ap => pure (w, ap)
  | _ => panic .noArg

/-- `va_arg(ap, char *)`. -/
def nextStr : List Arg → PrintM (CStr × List Arg)
  | .str s :: ap => pure (s, ap)
  | _ => panic .noArg

/-- The `switch` on the character of a directive; what is left of the format and the arguments. -/
def convert (fuel : ℕ) (ladjust : Bool) (padc : BitVec 8) (width : ℤ) (fmt : Str) (ap : List Arg) :
    PrintM (Str × List Arg) := do
  let c := deref fmt
  let unsignedNum (base : Word) (upcase : Bool) : PrintM (Str × List Arg) := do
    let (num, ap) ← nextWord ap
    printNum fuel num base false width ladjust padc upcase
    pure (fmt.tail, ap)
  if c = ch 'b' then unsignedNum 2#32 false
  else if c = ch 'd' ∨ c = ch 'D' then do
    let (num, ap) ← nextWord ap
    let negFlag := num.msb
    let num := if num.msb then -num else num
    printNum fuel num 10#32 negFlag width ladjust padc false
    pure (fmt.tail, ap)
  else if c = ch 'o' ∨ c = ch 'O' then unsignedNum 8#32 false
  else if c = ch 'u' ∨ c = ch 'U' then unsignedNum 10#32 false
  else if c = ch 'x' then unsignedNum 16#32 false
  else if c = ch 'X' then unsignedNum 16#32 true
  else if c = ch 'c' then do
    let (num, ap) ← nextWord ap
    printChar (num.setWidth 8) width ladjust
    pure (fmt.tail, ap)
  else if c = ch 's' then do
    let (s, ap) ← nextStr ap
    printStr s.bytes width ladjust
    pure (fmt.tail, ap)
  -- `fmt--`, which the `fmt++` after the `switch` undoes
  else if c = 0#8 then pure (fmt, ap)
  else do
    -- output this char as it is
    out [c]
    pure (fmt.tail, ap)

/-- A directive, from behind the '%' on. -/
def directive (fuel : ℕ) (fmt : Str) (ap : List Arg) : PrintM (Str × List Arg) :=
  -- check format flag
  let (ladjust, fmt) := takeFlag (ch '-') fmt
  let (zero, fmt) := takeFlag (ch '0') fmt
  let padc := if zero then ch '0' else ch ' '
  -- get width
  let (width, fmt) := getWidth 0#32 fmt
  -- check for long
  let (_, fmt) := takeFlag (ch 'l') fmt
  convert fuel ladjust padc width.toInt fmt ap

/-- The body of the loop; `break` is the second result. -/
def round (fuel : ℕ) (fmt : Str) (ap : List Arg) : PrintM ((Str × List Arg) ⊕ Unit) := do
  -- scan for the next '%'
  let s := scan fmt
  -- flush the string found so far
  out (fmt.take (fmt.length - s.length))
  -- check "are we hitting the end?"
  if deref s = 0#8 then pure (.inr ())
  else do
    -- we found a '%'
    let r ← directive fuel s.tail ap
    pure (.inl r)

def vprintfmt (fuel : ℕ) (fmt : CStr) (ap : List Arg) : PrintM Unit :=
  iter .outOfFuel (fun (fmt, ap) => round fuel fmt ap) fuel (fmt.bytes, ap)

/-! ## What is to be printed -/

/-- What a directive does with its argument. -/
inductive Conv
  | num (base : ℕ) (isSigned upcase : Bool)
  | char
  | str
  /-- It has none, and the character is printed as it is. -/
  | none

/-- The meaning of the character of a directive. -/
def conv (c : BitVec 8) : Conv :=
  if c = ch 'b' then .num 2 false false
  else if c = ch 'd' ∨ c = ch 'D' then .num 10 true false
  else if c = ch 'o' ∨ c = ch 'O' then .num 8 false false
  else if c = ch 'u' ∨ c = ch 'U' then .num 10 false false
  else if c = ch 'x' then .num 16 false false
  else if c = ch 'X' then .num 16 false true
  else if c = ch 'c' then .char
  else if c = ch 's' then .str
  else .none

/-- What stands before the character of a directive. -/
structure Field where
  left : Bool
  zero : Bool
  width : ℕ

inductive Piece
  | text (c : BitVec 8)
  | directive (f : Field) (c : BitVec 8)

def isDigit (c : BitVec 8) : Bool := decide (48 ≤ c.toNat ∧ c.toNat ≤ 57)

/-- The number that a string of digits stands for. -/
def decimal (s : Str) : ℕ := s.foldl (fun n c => n * 10 + (c.toNat - 48)) 0

/-- `[-][0][width][l]` at the start of a string, and what is behind it. -/
def field (s : Str) : Field × Str :=
  let left := decide (s.head? = some (ch '-'))
  let s := if left then s.tail else s
  let zero := decide (s.head? = some (ch '0'))
  let s := if zero then s.tail else s
  let width := decimal (s.takeWhile isDigit)
  let s := s.dropWhile isDigit
  (⟨left, zero, width⟩, if s.head? = some (ch 'l') then s.tail else s)

lemma length_field_le (s : Str) : (field s).2.length ≤ s.length := by
  have htail : ∀ (t : Str) (p : Prop) [Decidable p],
      (if p then t.tail else t).length ≤ t.length := by
    intro t p _
    split_ifs
    · rw [List.length_tail]
      omega
    · exact le_rfl
  unfold field
  refine (htail _ _).trans (((List.dropWhile_suffix _).length_le.trans (htail _ _)).trans ?_)
  exact htail _ _

/-- The characters and directives of a format.  A directive that is cut off is none. -/
def pieces : Str → List Piece
  | [] => []
  | c :: s =>
      if c = ch '%' then
        match _h : (field s).2 with
        | [] => []
        | k :: rest => .directive (field s).1 k :: pieces rest
      else .text c :: pieces s
termination_by s => s.length
decreasing_by
  · have hle := length_field_le s
    rw [_h, List.length_cons] at hle
    rw [List.length_cons]
    omega
  · exact Nat.lt_succ_self _

/-- The digits of a number, the last one first; there is at least one. -/
def digitsOf (base n : ℕ) : List ℕ := if n = 0 then [0] else base.digits n

/-- A number in some base, without superfluous digits. -/
def numeral (base : ℕ) (upcase : Bool) (n : ℕ) : Str :=
  ((digitsOf base n).map (digit upcase)).reverse

/-- The sign and the absolute value of a word. -/
def signed (w : Word) : Str × ℕ := (if w.toInt < 0 then [ch '-'] else [], w.toInt.natAbs)

/-- Blanks up to the width. -/
def Field.pad (f : Field) (s : Str) : Str :=
  let blanks := List.replicate (f.width - s.length) (ch ' ')
  if f.left then s ++ blanks else blanks ++ s

/-- Blanks up to the width, or zeros behind the sign. -/
def Field.padNum (f : Field) (sign digits : Str) : Str :=
  if f.zero ∧ ¬ f.left then
    sign ++ List.replicate (f.width - (sign ++ digits).length) (ch '0') ++ digits
  else f.pad (sign ++ digits)

/-- There is an argument of the right kind for every directive. -/
def Matches : List Piece → List Arg → Prop
  | [], _ => True
  | .text _ :: ps, args => Matches ps args
  | .directive _ c :: ps, args =>
      match conv c, args with
      | .num _ _ _, .word _ :: args => Matches ps args
      | .char, .word _ :: args => Matches ps args
      | .str, .str _ :: args => Matches ps args
      | .none, args => Matches ps args
      | _, _ => False

/-- **What a format prints.** -/
def render : List Piece → List Arg → Str
  | [], _ => []
  | .text c :: ps, args => c :: render ps args
  | .directive f c :: ps, args =>
      match conv c, args with
      | .num base isSigned upcase, .word w :: args =>
          (if isSigned then f.padNum (signed w).1 (numeral base upcase (signed w).2)
            else f.padNum [] (numeral base upcase w.toNat)) ++ render ps args
      | .char, .word w :: args => f.pad [w.setWidth 8] ++ render ps args
      | .str, .str s :: args => f.pad s.bytes ++ render ps args
      | .none, args => c :: render ps args
      | _, _ => []

/-! ## The buffer of `print_num` -/

section

variable {buf buf' : Buf} {c padc : BitVec 8} {n p r i : ℕ} {s t : Str}

@[simp] lemma length_bytes (buf : Buf) (n : ℕ) : (bytes buf n).length = n := by simp [bytes]

lemma bytes_succ (buf : Buf) (n : ℕ) : bytes buf (n + 1) = bytes buf n ++ [buf n] := by
  simp [bytes, List.range_succ]

lemma bytes_congr (h : ∀ i < n, buf i = buf' i) : bytes buf n = bytes buf' n :=
  List.map_congr_left fun i hi => h i (List.mem_range.mp hi)

lemma bytes_update (buf : Buf) (n : ℕ) (c : BitVec 8) :
    bytes (Function.update buf n c) (n + 1) = bytes buf n ++ [c] := by
  have hbefore : bytes (Function.update buf n c) n = bytes buf n :=
    bytes_congr fun i hi => Function.update_of_ne hi.ne _ _
  rw [bytes_succ, Function.update_self, hbefore]

lemma bytes_fill (buf : Buf) (padc : BitVec 8) (i r : ℕ) :
    bytes (fill buf padc i r) (i + r) = bytes buf i ++ List.replicate r padc := by
  induction r generalizing buf i with
  | zero => simp [fill]
  | succ r ih =>
      have hnext := ih (Function.update buf i padc) (i + 1)
      rw [show i + 1 + r = i + (r + 1) by omega, bytes_update] at hnext
      rw [fill, hnext, List.replicate_succ, List.append_assoc]
      rfl

/-- What the last loop does to the bytes from `first` to `last`. -/
lemma turn_apply (buf : Buf) (first last i : ℕ) :
    turn buf first last i =
      if first ≤ i ∧ i ≤ last then buf (first + last - i) else buf i := by
  induction last generalizing buf first with
  | zero =>
      unfold turn
      split_ifs with h
      · congr 1
        omega
      · rfl
  | succ last ih =>
      unfold turn
      split_ifs with hlt hin hin
      · rw [ih]
        simp only [Function.update_apply]
        split_ifs <;> first | omega | (congr 1; omega)
      · rw [ih]
        simp only [Function.update_apply]
        split_ifs <;> first | omega | rfl
      · congr 1
        omega
      · rfl

lemma bytes_add (buf : Buf) (n r : ℕ) :
    bytes buf (n + r) = bytes buf n ++ (List.range r).map fun i => buf (n + i) := by
  unfold bytes
  rw [List.range_add, List.map_append, List.map_map]
  rfl

/-- The first `n` bytes are turned round, and the others stay. -/
lemma bytes_turn (h : bytes buf (n + r) = s ++ t) (hs : s.length = n) :
    bytes (turn buf 0 (n - 1)) (n + r) = s.reverse ++ t := by
  rw [bytes_add] at h ⊢
  obtain ⟨rfl, rfl⟩ := List.append_inj h (by rw [length_bytes, hs])
  congr 1
  · apply List.ext_getElem
    · simp
    · intro i hi _
      rw [length_bytes] at hi
      simp only [bytes, List.getElem_map, List.getElem_range, List.getElem_reverse, List.length_map,
        List.length_range, turn_apply]
      rw [if_pos (by omega)]
      congr 1
      omega
  · apply List.map_congr_left
    intro i hi
    rw [List.mem_range] at hi
    rw [turn_apply]
    split_ifs with hin
    · -- there are no bytes in front
      congr 1
      omega
    · rfl

lemma bytes_turn_all (h : bytes buf n = s) : bytes (turn buf 0 (n - 1)) n = s.reverse := by
  have hall := bytes_turn (r := 0) (t := []) (h.trans (List.append_nil s).symm) (by
    rw [← h, length_bytes])
  rwa [List.append_nil] at hall

/-- Padding behind the number, which is turned round alone. -/
lemma bytes_left (hbuf : bytes buf p = s) (r : ℕ) (padc : BitVec 8) :
    bytes (turn (fill buf padc p r) 0 (p - 1)) (p + r) = s.reverse ++ List.replicate r padc := by
  apply bytes_turn
  · rw [bytes_fill, hbuf]
  · rw [← hbuf, length_bytes]

/-- Padding behind the number, and all is turned round. -/
lemma bytes_right (hbuf : bytes buf p = s) (r : ℕ) (padc : BitVec 8) :
    bytes (turn (fill buf padc p r) 0 (p + r - 1)) (p + r) =
    List.replicate r padc ++ s.reverse := by
  rw [bytes_turn_all (bytes_fill buf padc p r), hbuf, List.reverse_append, List.reverse_replicate]

/-- Zeros from the place of the sign on, which is put behind them; all is turned round. -/
lemma bytes_zeros (hbuf : bytes buf (p - 1) = s) (hp : 0 < p) (r : ℕ) (padc sign : BitVec 8) :
    bytes (turn (Function.update (fill buf padc (p - 1) r) (p + r - 1) sign) 0 (p + r - 1))
    (p + r) =
      sign :: (List.replicate r padc ++ s.reverse) := by
  have hend : p - 1 + r + 1 = p + r := by omega
  rw [← hend, Nat.add_sub_cancel]
  have hall := bytes_turn_all (bytes_update (fill buf padc (p - 1) r) (p - 1 + r) sign)
  rw [Nat.add_sub_cancel] at hall
  rw [hall, bytes_fill, hbuf]
  simp

/-- What is printed of a number: sign, padding and digits in their places. -/
lemma layOut_eq (ladjust zero negFlag : Bool) (w : ℕ) (hbuf : bytes buf p = s) :
    layOut buf p negFlag w ladjust (if zero then ch '0' else ch ' ') =
      (⟨ladjust, zero, w⟩ : Field).padNum (if negFlag then [ch '-'] else []) s.reverse := by
  have hne : ch ' ' ≠ ch '0' := by decide
  have hs : s.length = p := by rw [← hbuf, length_bytes]
  have hlength : ∀ q : ℕ, (if (w : ℤ) < q then q else (w : ℤ).toNat) = q + (w - q) := by
    intro q
    split_ifs <;> omega
  have hsub : ∀ q r : ℕ, q + r - q = r := fun q r => Nat.add_sub_cancel_left q r
  unfold layOut Field.padNum Field.pad
  cases negFlag with
  | false =>
      simp only [hlength, hsub, Bool.false_eq_true, false_and, if_false, List.nil_append,
        List.length_reverse, hs]
      cases ladjust with
      | true => simp [bytes_left hbuf]
      | false => cases zero <;> simp [bytes_right hbuf]
  | true =>
      have hsign : bytes (Function.update buf p (ch '-')) (p + 1) = s ++ [ch '-'] := by
        rw [bytes_update, hbuf]
      have hdigits : bytes (Function.update buf p (ch '-')) (p + 1 - 1) = s := by
        rw [← hbuf]
        exact bytes_congr fun i hi => Function.update_of_ne hi.ne _ _
      have hrev : (s ++ [ch '-']).reverse = [ch '-'] ++ s.reverse := by simp
      have hlen : ([ch '-'] ++ s.reverse).length = p + 1 := by simp [hs]
      cases ladjust with
      | true =>
          simp only [hlength, hsub, if_true, not_true, false_and, and_false, if_false]
          rw [bytes_left hsign, hrev, hlen]
      | false =>
          cases zero with
          | true =>
              simp only [hlength, hsub, if_true, Bool.false_eq_true, not_false_eq_true, and_self,
                if_false]
              rw [bytes_zeros hdigits (Nat.succ_pos p), hlen]
              rfl
          | false =>
              simp only [hlength, hsub, if_true, Bool.false_eq_true, not_false_eq_true, true_and,
                false_and, if_false, hne]
              rw [bytes_right hsign, hrev, hlen]

end

/-! ## The helpers print what they should -/

section

variable {fuel base : ℕ} {o : Str} {E : Empty → Str → Prop} {P : Stop → Prop}

lemma digitsOf_eq (hbase : 1 < base) (n : ℕ) :
    digitsOf base n = n % base :: if n / base = 0 then [] else digitsOf base (n / base) := by
  unfold digitsOf
  by_cases hn : n = 0
  · simp [hn]
  · rw [if_neg hn, Nat.digits_def' hbase (Nat.pos_of_ne_zero hn)]
    congr 1
    split_ifs with hdiv
    · rw [hdiv, Nat.digits_zero]
    · rfl

lemma length_digitsOf_le (hbase : 1 < base) (w : Word) : (digitsOf base w.toNat).length ≤ 32 := by
  unfold digitsOf
  split_ifs
  · simp
  · rw [Nat.digits_length_le_iff hbase]
    exact w.isLt.trans_le (Nat.pow_le_pow_left hbase 32)

lemma wp_putDigits {base : Word} (hbase : 1 < base.toNat) (hfuel : 32 < fuel) (upcase : Bool)
    (buf : Buf) (u : Word) :
    wp (putDigits fuel base upcase buf u) o (fun r o' => o' = o ∧
      bytes r.1 r.2 = (digitsOf base.toNat u.toNat).map (digit upcase)) E P := by
  unfold putDigits
  apply wp_iter (fun (buf, p, u') o' => o' = o ∧
    bytes buf p ++ (digitsOf base.toNat u'.toNat).map (digit upcase) =
      (digitsOf base.toNat u.toNat).map (digit upcase))
    (fun (_, _, u') _ => (digitsOf base.toNat u'.toNat).length)
  · intro (buf, p, u') o' hI
    obtain ⟨rfl, hI⟩ := hI
    have hdiv : (u' / base).toNat = u'.toNat / base.toNat := BitVec.toNat_udiv
    have hzero : u' / base = 0#32 ↔ u'.toNat / base.toNat = 0 := by
      rw [← hdiv, BitVec.toNat_eq]
      rfl
    have hmod : (u' % base).toNat = u'.toNat % base.toNat := BitVec.toNat_umod
    have hput : bytes (Function.update buf p (digit upcase (u' % base).toNat)) (p + 1) ++
        (if u'.toNat / base.toNat = 0 then [] else digitsOf base.toNat (u'.toNat / base.toNat)).map
          (digit upcase) = (digitsOf base.toNat u.toNat).map (digit upcase) := by
      rw [bytes_update, hmod, ← hI, digitsOf_eq hbase u'.toNat, List.map_cons, List.append_assoc]
      rfl
    rw [wp_ite]
    constructor
    · intro hne
      rw [Ne, hzero] at hne
      rw [if_neg hne] at hput
      refine ⟨⟨rfl, by rw [hdiv]; exact hput⟩, ?_⟩
      change (digitsOf base.toNat (u' / base).toNat).length < (digitsOf base.toNat u'.toNat).length
      rw [hdiv, digitsOf_eq hbase u'.toNat, if_neg hne]
      exact Nat.lt_succ_self _
    · intro hne
      rw [Ne, not_not, hzero] at hne
      rw [if_pos hne, List.map_nil, List.append_nil] at hput
      exact ⟨rfl, hput⟩
  · exact ⟨rfl, rfl⟩
  · exact (length_digitsOf_le hbase u).trans_lt hfuel

lemma wp_printNum {base : Word} (hbase : 1 < base.toNat) (hfuel : 32 < fuel) (f : Field)
    (negFlag upcase : Bool) (u : Word) :
    wp (printNum fuel u base negFlag f.width f.left (if f.zero then ch '0' else ch ' ') upcase) o
      (fun _ o' => o' = o ++ f.padNum (if negFlag then [ch '-'] else [])
        (numeral base.toNat upcase u.toNat)) E P := by
  unfold printNum
  rw [wp_bind]
  apply (wp_putDigits hbase hfuel upcase (fun _ => 0#8) u).imp
  intro (buf, p) o' hput
  obtain ⟨rfl, hput⟩ := hput
  unfold numeral
  rw [← layOut_eq f.left f.zero negFlag f.width hput]
  rfl

/-- A loop that prints one and the same character. -/
lemma wp_blanks (c : BitVec 8) (lo n : ℕ) :
    wp (forRange (fun _ => out [c]) lo n) o (fun _ o' => o' = o ++ List.replicate n c) E P := by
  apply (wp_forRange (fun i o' => o' = o ++ List.replicate (i - lo) c) n lo (by simp) _).imp
  · intro _ o' h
    rw [h, Nat.add_sub_cancel_left]
  · intro i o' hi _ h
    change o' ++ [c] = _
    rw [h, List.append_assoc, ← List.replicate_succ', Nat.succ_sub hi]

lemma wp_printChar (f : Field) (c : BitVec 8) :
    wp (printChar c f.width f.left) o (fun _ o' => o' = o ++ f.pad [c]) E P := by
  have hlength : ((if (f.width : ℤ) < 1 then 1 else (f.width : ℤ)) - 1).toNat = f.width - 1 := by
    split_ifs <;> omega
  unfold printChar Field.pad
  simp only [hlength, List.length_singleton]
  split_ifs
  · rw [wp_bind]
    apply (wp_blanks (o := o ++ [c]) (ch ' ') 1 (f.width - 1)).imp
    intro _ o' h
    rw [h, List.append_assoc]
  · rw [wp_bind]
    apply (wp_blanks (o := o) (ch ' ') 0 (f.width - 1)).imp
    intro _ o' h
    change o' ++ [c] = _
    rw [h, List.append_assoc]

lemma strLen_eq {s : Str} (hs : 0#8 ∉ s) : strLen s = s.length := by
  induction s with
  | nil => rfl
  | cons c s ih =>
      rw [List.mem_cons, not_or] at hs
      rw [strLen, if_neg (Ne.symm hs.1), ih hs.2, List.length_cons]

lemma wp_printStr (f : Field) (s : CStr) :
    wp (printStr s.bytes f.width f.left) o (fun _ o' => o' = o ++ f.pad s.bytes) E P := by
  have hlength : ∀ n : ℕ,
      ((if (f.width : ℤ) < n then (n : ℤ) else (f.width : ℤ)) - n).toNat = f.width - n := by
    intro n
    split_ifs <;> omega
  unfold printStr Field.pad
  simp only [hlength, strLen_eq s.noNul, List.take_length]
  split_ifs
  · rw [wp_bind]
    apply (wp_blanks (o := o ++ s.bytes) (ch ' ') s.bytes.length (f.width - s.bytes.length)).imp
    intro _ o' h
    rw [h, List.append_assoc]
  · rw [wp_bind]
    apply (wp_blanks (o := o) (ch ' ') 0 (f.width - s.bytes.length)).imp
    intro _ o' h
    change o' ++ s.bytes = _
    rw [h, List.append_assoc]

end

/-! ## The directives -/

section

variable {fuel : ℕ} {o fmt s t : Str} {k : BitVec 8} {f : Field} {ps : List Piece} {ap : List Arg}
  {E : Empty → Str → Prop} {P : Stop → Prop}

lemma takeFlag_eq {c : BitVec 8} (hc : c ≠ 0#8) (fmt : Str) :
    takeFlag c fmt =
      (decide (fmt.head? = some c), if fmt.head? = some c then fmt.tail else fmt) := by
  unfold takeFlag deref
  cases fmt with
  | nil => simp [Ne.symm hc]
  | cons d fmt => by_cases hd : d = c <;> simp [hd]

lemma getWidth_eq (fmt : Str) (n : ℕ) :
    getWidth (BitVec.ofNat 32 n) fmt =
      (BitVec.ofNat 32 ((fmt.takeWhile isDigit).foldl (fun n c => n * 10 + (c.toNat - 48)) n),
        fmt.dropWhile isDigit) := by
  induction fmt generalizing n with
  | nil => rfl
  | cons c fmt ih =>
      have hdigit : (ch '0' ≤ c ∧ c ≤ ch '9') ↔ isDigit c = true := by
        unfold isDigit
        rw [decide_eq_true_iff, BitVec.le_def, BitVec.le_def]
        rfl
      unfold getWidth
      by_cases hc : isDigit c = true
      · have hnext : BitVec.ofNat 32 n * 10#32 + c.setWidth 32 - (ch '0').setWidth 32 =
            BitVec.ofNat 32 (n * 10 + (c.toNat - 48)) := by
          unfold isDigit at hc
          rw [decide_eq_true_iff] at hc
          apply BitVec.eq_of_toNat_eq
          have h0 : ((ch '0').setWidth 32).toNat = 48 := rfl
          simp only [BitVec.toNat_sub, BitVec.toNat_add, BitVec.toNat_mul, BitVec.toNat_ofNat,
            BitVec.toNat_setWidth, h0]
          omega
        rw [if_pos (hdigit.mpr hc), hnext, ih, List.takeWhile_cons_of_pos hc,
          List.dropWhile_cons_of_pos hc, List.foldl_cons]
      · rw [if_neg (mt hdigit.mp hc), List.takeWhile_cons_of_neg hc, List.dropWhile_cons_of_neg hc]
        rfl

/-- The code reads a directive as `field` does. -/
lemma directive_eq (fuel : ℕ) (s : Str) (ap : List Arg) :
    directive fuel s ap =
      convert fuel (field s).1.left (if (field s).1.zero then ch '0' else ch ' ')
        (BitVec.ofNat 32 (field s).1.width).toInt (field s).2 ap := by
  unfold directive field decimal
  simp only [takeFlag_eq (show ch '-' ≠ 0#8 by decide), takeFlag_eq (show ch '0' ≠ 0#8 by decide),
    takeFlag_eq (show ch 'l' ≠ 0#8 by decide), getWidth_eq, decide_eq_true_eq]

lemma toInt_width (hwidth : f.width < 2 ^ 30) : (BitVec.ofNat 32 f.width).toInt = f.width := by
  have hnat : (BitVec.ofNat 32 f.width).toNat = f.width := by
    rw [BitVec.toNat_ofNat]
    omega
  rw [BitVec.toInt_eq_toNat_of_lt, hnat]
  omega

/-- The `switch`, by what its cases have in common. -/
def act (fuel : ℕ) (ladjust : Bool) (padc : BitVec 8) (width : ℤ) (k : BitVec 8) (ap : List Arg) :
    PrintM (List Arg) :=
  match conv k with
  | .num base isSigned upcase => do
      let (num, ap) ← nextWord ap
      let negFlag := isSigned && num.msb
      let num := if negFlag then -num else num
      printNum fuel num (BitVec.ofNat 32 base) negFlag width ladjust padc upcase
      pure ap
  | .char => do
      let (num, ap) ← nextWord ap
      printChar (num.setWidth 8) width ladjust
      pure ap
  | .str => do
      let (str, ap) ← nextStr ap
      printStr str.bytes width ladjust
      pure ap
  | .none => do
      out [k]
      pure ap

lemma convert_eq (hk : k ≠ 0#8) (ladjust : Bool) (padc : BitVec 8) (width : ℤ) (ap : List Arg)
    {Q : Str × List Arg → Str → Prop} :
    wp (convert fuel ladjust padc width (k :: s) ap) o Q E P ↔
      wp (act fuel ladjust padc width k ap) o (fun ap o' => Q (s, ap) o') E P := by
  have hderef : deref (k :: s) = k := rfl
  unfold convert act conv
  dsimp only
  rw [hderef, List.tail_cons]
  split_ifs
  all_goals simp only [wp_bind, wp_pure, Bool.false_and, Bool.true_and,
    Bool.false_eq_true, if_false]

/-- The bases are those of the four kinds of numbers. -/
lemma conv_base {base : ℕ} {isSigned upcase : Bool} (hk : conv k = .num base isSigned upcase) :
    1 < (BitVec.ofNat 32 base).toNat ∧ (BitVec.ofNat 32 base).toNat = base := by
  unfold conv at hk
  split_ifs at hk
  all_goals
    cases hk
    decide

/-- The code negates the word in two's complement, which is right for the most negative one too. -/
lemma signed_eq (w : Word) :
    signed w = (if w.msb then [ch '-'] else [], (if w.msb then -w else w).toNat) := by
  have hlt := w.isLt
  unfold signed
  rw [BitVec.msb_eq_decide]
  by_cases hneg : 2 ^ 31 ≤ w.toNat
  · have hint : w.toInt = (w.toNat : ℤ) - 2 ^ 32 := by
      rw [BitVec.toInt_eq_toNat_cond, if_neg (by omega)]
      rfl
    simp only [hneg, decide_true, if_true, BitVec.toNat_neg, hint]
    rw [if_pos (by omega)]
    congr 1
    omega
  · have hint : w.toInt = (w.toNat : ℤ) := by
      rw [BitVec.toInt_eq_toNat_cond, if_pos (by omega)]
    simp only [hneg, decide_false, Bool.false_eq_true, if_false, hint]
    rw [if_neg (by omega)]
    rfl

lemma wp_nextWord (w : Word) {Q : Word × List Arg → Str → Prop} :
    wp (nextWord (.word w :: ap)) o Q E P ↔ Q (w, ap) o := Iff.rfl

lemma wp_nextStr (str : CStr) {Q : CStr × List Arg → Str → Prop} :
    wp (nextStr (.str str :: ap)) o Q E P ↔ Q (str, ap) o := Iff.rfl

lemma matches_directive : Matches (.directive f k :: ps) ap ↔
    match conv k, ap with
    | .num _ _ _, .word _ :: args => Matches ps args
    | .char, .word _ :: args => Matches ps args
    | .str, .str _ :: args => Matches ps args
    | .none, args => Matches ps args
    | _, _ => False := by
  rfl

/-- **A directive prints what it should**, and takes its argument. -/
lemma wp_act (hm : Matches (.directive f k :: ps) ap) (hfuel : 32 < fuel) :
    wp (act fuel f.left (if f.zero then ch '0' else ch ' ') f.width k ap) o (fun ap' o' =>
      Matches ps ap' ∧ o' ++ render ps ap' = o ++ render (.directive f k :: ps) ap) E P := by
  unfold act
  rw [matches_directive] at hm
  simp only [render]
  cases hk : conv k with
  | num base isSigned upcase =>
      obtain ⟨hbase, hnat⟩ := conv_base hk
      rw [hk] at hm
      match ap, hm with
      | .word w :: ap', hm =>
          rw [wp_bind, wp_nextWord, wp_bind]
          apply (wp_printNum hbase hfuel f (isSigned && w.msb) upcase
            (if isSigned && w.msb then -w else w)).imp
          intro _ o' ho
          refine ⟨hm, ?_⟩
          rw [ho, List.append_assoc, hnat]
          congr 2
          cases isSigned with
          | true =>
              rw [signed_eq]
              rfl
          | false => rfl
  | char =>
      rw [hk] at hm
      match ap, hm with
      | .word w :: ap', hm =>
          rw [wp_bind, wp_nextWord, wp_bind]
          apply (wp_printChar f (w.setWidth 8)).imp
          intro _ o' ho
          refine ⟨hm, ?_⟩
          rw [ho, List.append_assoc]
  | str =>
      rw [hk] at hm
      match ap, hm with
      | .str s :: ap', hm =>
          rw [wp_bind, wp_nextStr, wp_bind]
          apply (wp_printStr f s).imp
          intro _ o' ho
          refine ⟨hm, ?_⟩
          rw [ho, List.append_assoc]
  | none =>
      rw [hk] at hm
      refine ⟨hm, ?_⟩
      rw [List.append_assoc]
      rfl

/-! ## The format -/

/-- The loop over the text stops at a directive, or at the end. -/
lemma exists_text (hnul : 0#8 ∉ fmt) : ∃ t, fmt = t ++ scan fmt ∧ ch '%' ∉ t ∧
    (scan fmt = [] ∨ ∃ s, scan fmt = ch '%' :: s) := by
  induction fmt with
  | nil => exact ⟨[], rfl, List.not_mem_nil, .inl rfl⟩
  | cons c fmt ih =>
      rw [List.mem_cons, not_or] at hnul
      unfold scan
      by_cases hc : c = ch '%'
      · rw [if_neg (fun h => h.1 hc), hc]
        exact ⟨[], rfl, List.not_mem_nil, .inr ⟨fmt, rfl⟩⟩
      · rw [if_pos ⟨hc, Ne.symm hnul.1⟩]
        obtain ⟨t, ht, hmem, hend⟩ := ih hnul.2
        refine ⟨c :: t, ?_, ?_, hend⟩
        · rw [List.cons_append, ← ht]
        · rw [List.mem_cons, not_or]
          exact ⟨Ne.symm hc, hmem⟩

lemma pieces_text (ht : ch '%' ∉ t) : pieces (t ++ s) = t.map .text ++ pieces s := by
  induction t with
  | nil => rfl
  | cons c t ih =>
      rw [List.mem_cons, not_or] at ht
      rw [List.cons_append, pieces, if_neg (Ne.symm ht.1), ih ht.2]
      rfl

lemma pieces_directive {rest : Str} (h : (field s).2 = k :: rest) :
    pieces (ch '%' :: s) = .directive (field s).1 k :: pieces rest := by
  rw [pieces, if_pos rfl]
  split
  · next h' =>
      rw [h] at h'
      cases h'
  · next k' rest' h' =>
      rw [h] at h'
      cases h'
      rfl

lemma pieces_cut_off (h : (field s).2 = []) : pieces (ch '%' :: s) = [] := by
  rw [pieces, if_pos rfl]
  split
  · rfl
  · next h' =>
      rw [h] at h'
      cases h'

lemma matches_text : Matches (t.map .text ++ ps) ap ↔ Matches ps ap := by
  induction t with
  | nil => rfl
  | cons c t ih => exact ih

lemma render_text : render (t.map .text ++ ps) ap = t ++ render ps ap := by
  induction t with
  | nil => rfl
  | cons c t ih => rw [List.map_cons, List.cons_append, render, ih, List.cons_append]

/-- No byte is new in what is behind a field. -/
lemma mem_field (hc : k ∈ (field s).2) : k ∈ s := by
  have htail : ∀ (u : Str) (p : Prop) [Decidable p], k ∈ (if p then u.tail else u) → k ∈ u := by
    intro u p _ h
    split_ifs at h
    · exact List.mem_of_mem_tail h
    · exact h
  unfold field at hc
  exact htail _ _ (htail _ _ ((List.dropWhile_suffix _).mem (htail _ _ hc)))

/-- The widths of a format are small enough for an `int` and for the buffer. -/
def WidthsBelow (bound : ℕ) (ps : List Piece) : Prop :=
  ∀ f c, .directive f c ∈ ps → Field.width f < bound

/-- What is still to be printed, of which `o` is there. -/
structure Rest (target : Str) (a : Str × List Arg) (o : Str) : Prop where
  noNul : 0#8 ∉ a.1
  matching : Matches (pieces a.1) a.2
  widths : WidthsBelow (2 ^ 30) (pieces a.1)
  output : o ++ render (pieces a.1) a.2 = target

/-- One round of the loop: the text up to the next directive, and this directive. -/
lemma wp_round {target : Str} (hI : Rest target (fmt, ap) o) (hfuel : 32 < fuel) :
    wp (round fuel fmt ap) o (fun r o' => r.elim
      (fun a => Rest target a o' ∧ a.1.length < fmt.length) fun _ => o' = target) E P := by
  obtain ⟨hnul, hmatch, hwidths, hout⟩ := hI
  obtain ⟨t, ht, hmem, hend⟩ := exists_text hnul
  unfold round
  generalize scan fmt = s at ht hend ⊢
  subst ht
  have htake : (t ++ s).take ((t ++ s).length - s.length) = t := by simp
  simp only [htake, pieces_text hmem, matches_text, render_text] at hmatch hwidths hout ⊢
  rw [wp_bind]
  change wp _ (o ++ t) _ _ _
  rw [← List.append_assoc] at hout
  obtain rfl | ⟨s, rfl⟩ := hend
  · -- the end
    rw [wp_ite]
    simp only [pieces, render, List.append_nil] at hout
    exact ⟨fun _ => hout, fun hne => absurd rfl hne⟩
  have hpercent : deref (ch '%' :: s) ≠ 0#8 := by
    change ch '%' ≠ 0#8
    decide
  rw [if_neg hpercent, List.tail_cons, wp_bind, directive_eq]
  have hnul' : 0#8 ∉ (field s).2 := fun h =>
    hnul (List.mem_append_right t (List.mem_cons_of_mem _ (mem_field h)))
  have hlength := length_field_le s
  cases hfield : (field s).2 with
  | nil =>
      -- the directive is cut off
      rw [pieces_cut_off hfield] at hmatch hout
      change Rest target ([], ap) (o ++ t) ∧ _
      refine ⟨⟨List.not_mem_nil, ?_, ?_, ?_⟩, ?_⟩
      · simp [pieces, Matches]
      · simp [pieces, WidthsBelow]
      · simpa [pieces] using hout
      · simp
  | cons k rest =>
      rw [pieces_directive hfield] at hmatch hwidths hout
      rw [hfield, List.mem_cons, not_or] at hnul'
      rw [hfield, List.length_cons] at hlength
      rw [toInt_width (hwidths _ k (by simp)), convert_eq (Ne.symm hnul'.1)]
      apply (wp_act hmatch hfuel).imp
      intro ap' o' hact
      refine ⟨⟨hnul'.2, hact.1, ?_, hact.2.trans hout⟩, ?_⟩
      · exact fun f c hc => hwidths f c (by simp [hc])
      · simp
        omega

/-- **Formatted output.**  The function comes to its end for every format and arguments that match
it, and what it prints is what it should print. -/
theorem vprintfmt_renders (fmt : CStr) (args : List Arg) (hargs : Matches (pieces fmt.bytes) args)
    (hwidth : WidthsBelow (2 ^ 30) (pieces fmt.bytes)) (hfuel : fmt.bytes.length + 32 < fuel) :
    vprintfmt fuel fmt args [] = .ok () (render (pieces fmt.bytes) args) := by
  have hfuel' : 32 < fuel := by omega
  have hwp : wp (vprintfmt fuel fmt args) [] (fun _ o => o = render (pieces fmt.bytes) args)
      (fun _ _ => False) (fun _ => False) := by
    unfold vprintfmt
    apply wp_iter (Rest (render (pieces fmt.bytes) args)) (fun a _ => a.1.length)
    · intro (rest, ap) o hI
      exact wp_round hI hfuel'
    · exact ⟨fmt.noNul, hargs, hwidth, rfl⟩
    · change fmt.bytes.length < fuel
      omega
  obtain ⟨_, o, hrun, rfl⟩ := hwp.exists_ok
  exact hrun

end

/-- The most negative word with zeros up to the width, and a directive that is cut off. -/
theorem vprintfmt_renders_most_negative :
    vprintfmt 40 ⟨"%013d%".toList.map ch, by decide⟩ [.word 0x80000000#32] [] =
      .ok () ("-002147483648".toList.map ch) := by
  have hpieces : pieces ("%013d%".toList.map ch) = [.directive ⟨false, true, 13⟩ (ch 'd')] := by
    have hfield : field ("013d%".toList.map ch) = (⟨false, true, 13⟩, [ch 'd', ch '%']) := rfl
    have hhead := pieces_directive (congrArg Prod.snd hfield)
    have hend : pieces [ch '%'] = [] := pieces_cut_off rfl
    rw [hend, hfield] at hhead
    exact hhead
  have hrun := @vprintfmt_renders 40 ⟨"%013d%".toList.map ch, by decide⟩ [.word 0x80000000#32]
  simp only [hpieces] at hrun
  have hrender : render [.directive ⟨false, true, 13⟩ (ch 'd')] [.word 0x80000000#32] =
      "-002147483648".toList.map ch := by
    decide
  rw [← hrender]
  apply hrun
  · trivial
  · intro f c hc
    cases List.mem_singleton.mp hc
    decide
  · decide

end MosRv.Print
