import MosRv.LibString

/-!
# The initial stack of a program (`init_stack`)

`spawn` hands the arguments to the new program in one page.  The parent fills the page at `UTEMP`,
from the top downwards: the strings, the array of pointers to them, and two words, the address of
the array and the number of arguments.  Then the page is mapped at `USTACKTOP - BY2PG` in the child,
where `_start` loads the two words from the stack pointer on.  The pointers are addresses of the
child.

`argv[argc]` is to be 0.  `init_stack` has the comment for this, and stores the address of the last
byte of the page (`argv_end`).  So a child never sees its arguments as it should, and
`init_stack_iff` says when this does not show: the arguments are too many, or the page does not get
into the child.
-/

namespace MosRv

open ByteMem

namespace InitStack

/-! ## The code -/

/-- What the system calls return: those of the parent's page, the one that maps it in the child, and
the second attempt to unmap. -/
structure Answers where
  alloc : Word
  map : Word
  unmap : Word
  unmapAgain : Word

/-- What `init_stack` leaves behind. -/
structure Out where
  ret : Word
  initSp : Option Word
  /-- The memory of the parent. -/
  mem : ByteMem 32
  /-- There is a page at `UTEMP`. -/
  temp : Bool
  /-- It is mapped in the child. -/
  child : Bool

/-- The number of bytes of the strings. -/
def tot : List CStr → Word
  | [] => 0#32
  | s :: argv => BitVec.ofNat 32 s.bytes.length + 1#32 + tot argv

/-- `syscall_mem_alloc(0, UTEMP, PTE_W)` gives a page of zeros. -/
def memAlloc (m : ByteMem 32) : ByteMem 32 :=
  { m with get := fun a => if UTEMP ≤ a ∧ a < UTEMP + BY2PG then 0#8 else m.get a }

/-- One string is copied. -/
def copyStr (m : ByteMem 32) (ctemp : Word) : List (BitVec 8) → ByteMem 32 × Word
  | [] => (m.store ctemp 0#8, ctemp + 1#32)
  | b :: s => copyStr (m.store ctemp b) (ctemp + 1#32) s

/-- All strings are copied. -/
def copyStrs (m : ByteMem 32) (ctemp : Word) : List CStr → ByteMem 32 × Word
  | [] => (m, ctemp)
  | s :: argv =>
    let (m, ctemp) := copyStr m ctemp s.bytes
    copyStrs m ctemp argv

/-- `args[i]` and those behind it are set. -/
def setArgs (m : ByteMem 32) (args : Word) (i : ℕ) (ctemp : Word) : List CStr → ByteMem 32 × Word
  | [] => (m, ctemp)
  | s :: argv =>
    setArgs (m.storeWord (args + 4#32 * BitVec.ofNat 32 i) ctemp) args (i + 1)
      (ctemp + (BitVec.ofNat 32 s.bytes.length + 1#32)) argv

/-- The arguments are refused. -/
def Rejects (argv : List CStr) : Prop :=
  BY2PG < ROUND (tot argv) 4#32 + 4#32 * (BitVec.ofNat 32 argv.length + 3#32)

instance (argv : List CStr) : Decidable (Rejects argv) := inferInstanceAs (Decidable (_ < _))

/-- `init_stack`; the strings are outside the page at `UTEMP`. -/
def initStack (argv : List CStr) (ans : Answers) (m : ByteMem 32) : Out :=
  let argc := BitVec.ofNat 32 argv.length
  let tot := tot argv
  -- make sure everything will fit in the initial stack page
  if Rejects argv then ⟨-Err.noMem.toWord, none, m, false, false⟩
  else
    let strings := UTEMP + BY2PG - tot
    let args := UTEMP + BY2PG - ROUND tot 4#32 - 4#32 * (argc + 1#32)
    if ans.alloc.msb then ⟨ans.alloc, none, m, false, false⟩
    else
      let m := (copyStrs (memAlloc m) strings argv).1
      let (m, ctemp) := setArgs m args 0 (USTACKTOP - UTEMP - BY2PG + strings) argv
      -- set args[argc] to 0 to null-terminate the args array
      let ctemp := ctemp - 1#32
      let m := m.storeWord (args + 4#32 * argc) ctemp
      let pargvPtr := args - 4#32
      let m := m.storeWord pargvPtr (USTACKTOP - UTEMP - BY2PG + args)
      let pargvPtr := pargvPtr - 4#32
      let m := m.storeWord pargvPtr argc
      let initSp := some (USTACKTOP - UTEMP - BY2PG + pargvPtr)
      if ans.map.msb then ⟨ans.map, initSp, m, ans.unmapAgain.msb, false⟩
      else if ans.unmap.msb then ⟨ans.unmap, initSp, m, ans.unmapAgain.msb, true⟩
      else ⟨0#32, initSp, m, false, true⟩

/-! ## What it is for -/

/-- A byte of the page, as the child loads it. -/
def childByte (m : ByteMem 32) (a : Word) : Option (BitVec 8) :=
  if USTACKTOP - BY2PG ≤ a ∧ a < USTACKTOP then some (m.get (a - (USTACKTOP - BY2PG) + UTEMP))
  else none

/-- A word of the page, as the child loads it. -/
def childWord (m : ByteMem 32) (a : Word) : Option Word := do
  let b₀ ← childByte m a
  let b₁ ← childByte m (a + 1#32)
  let b₂ ← childByte m (a + 2#32)
  let b₃ ← childByte m (a + 3#32)
  return b₃ ++ b₂ ++ b₁ ++ b₀

/-- At `p` the child has a copy of a string, and the byte 0. -/
def ChildStr (m : ByteMem 32) (p : Word) (s : CStr) : Prop :=
  (∀ j (hj : j < s.bytes.length), childByte m (p + BitVec.ofNat 32 j) = some s.bytes[j]) ∧
    childByte m (p + BitVec.ofNat 32 s.bytes.length) = some 0#8

/-- What `_start` finds: `argc` at the stack pointer, `argv` behind it, and in the array the strings
and the word `last`. -/
structure ChildSees (m : ByteMem 32) (sp : Word) (argv : List CStr) (last : Word) : Prop where
  argc : childWord m sp = some (BitVec.ofNat 32 argv.length)
  array : ∃ av, childWord m (sp + 4#32) = some av ∧
    (∀ i (hi : i < argv.length), ∃ p, childWord m (av + 4#32 * BitVec.ofNat 32 i) = some p ∧
      ChildStr m p argv[i]) ∧
    childWord m (av + 4#32 * BitVec.ofNat 32 argv.length) = some last

/-- The bytes that the strings and their ends have. -/
def total (argv : List CStr) : ℕ := (argv.map fun s => s.bytes.length + 1).sum

/-- The bytes that are needed in the page. -/
def need (argv : List CStr) : ℕ := (total argv + 3) / 4 * 4 + 4 * (argv.length + 3)

/-- **What `init_stack` is to do.** -/
structure Right (argv : List CStr) (m : ByteMem 32) (out : Out) : Prop where
  refused : BY2PG.toNat < need argv → out = ⟨-Err.noMem.toWord, none, m, false, false⟩
  inside : need argv ≤ BY2PG.toNat →
    ∀ a ∈ out.mem.stored, a ∈ m.stored ∨ UTEMP ≤ a ∧ a < UTEMP + BY2PG
  sees : need argv ≤ BY2PG.toNat → out.child = true →
    ∃ sp, out.initSp = some sp ∧ ChildSees out.mem sp argv 0#32

/-! ## The loops -/

/-- The bytes of all strings. -/
def strBytes (argv : List CStr) : List (BitVec 8) := argv.flatMap fun s => s.bytes ++ [0#8]

/-- The pointers to the strings, the first of which is at `p`. -/
def ptrs (p : Word) : List CStr → List Word
  | [] => []
  | s :: argv => p :: ptrs (p + (BitVec.ofNat 32 s.bytes.length + 1#32)) argv

variable {m : ByteMem 32} {argv : List CStr} {p a x : Word}

lemma total_cons (s : CStr) (argv : List CStr) :
    total (s :: argv) = s.bytes.length + 1 + total argv := rfl

lemma strBytes_cons (s : CStr) (argv : List CStr) :
    strBytes (s :: argv) = s.bytes ++ [0#8] ++ strBytes argv := rfl

lemma length_strBytes (argv : List CStr) : (strBytes argv).length = total argv := by
  simp [strBytes, total, List.length_flatMap]

@[simp] lemma length_ptrs (p : Word) (argv : List CStr) : (ptrs p argv).length = argv.length := by
  induction argv generalizing p with
  | nil => rfl
  | cons s argv ih => rw [ptrs, List.length_cons, ih, List.length_cons]

lemma tot_eq (argv : List CStr) : tot argv = BitVec.ofNat 32 (total argv) := by
  induction argv with
  | nil => rfl
  | cons s argv ih =>
    rw [tot, ih, total_cons, BitVec.ofNat_add, BitVec.ofNat_add]

/-- The pointer to string `i` is behind the strings before it. -/
lemma getElem_ptrs {i : ℕ} (hi : i < argv.length) :
    getElem (ptrs p argv) i (by rwa [length_ptrs]) =
      p + BitVec.ofNat 32 (strBytes (argv.take i)).length := by
  induction argv generalizing p i with
  | nil => exact absurd hi (Nat.not_lt_zero i)
  | cons s argv ih =>
    cases i with
    | zero => exact (BitVec.add_zero p).symm
    | succ i =>
      have hstep := ih (p := p + (BitVec.ofNat 32 s.bytes.length + 1#32))
        (Nat.lt_of_succ_lt_succ hi)
      rw [length_strBytes] at hstep ⊢
      rw [List.take_succ_cons, total_cons, BitVec.ofNat_add, BitVec.ofNat_add,
        ← BitVec.add_assoc]
      exact hstep

lemma copyStr_eq (m : ByteMem 32) (p : Word) (s : List (BitVec 8)) :
    copyStr m p s = (m.storeBytes p (s ++ [0#8]), p + (BitVec.ofNat 32 s.length + 1#32)) := by
  induction s generalizing m p with
  | nil => rw [copyStr, List.length_nil, BitVec.zero_add]; rfl
  | cons b s ih =>
    rw [copyStr, ih, List.cons_append, storeBytes, List.length_cons, BitVec.ofNat_add,
      BitVec.add_assoc, ← BitVec.add_assoc 1#32, BitVec.add_comm 1#32]

lemma copyStrs_eq (m : ByteMem 32) (p : Word) (argv : List CStr) :
    (copyStrs m p argv).1 = m.storeBytes p (strBytes argv) := by
  induction argv generalizing m p with
  | nil => rfl
  | cons s argv ih =>
    have hlen : (s.bytes ++ [0#8]).length = s.bytes.length + 1 := by rw [List.length_append]; rfl
    rw [copyStrs, copyStr_eq, ih, strBytes_cons,
      storeBytes_append m p _ (strBytes argv), hlen, BitVec.ofNat_add]

lemma setArgs_eq (m : ByteMem 32) (args : Word) (i : ℕ) (p : Word) (argv : List CStr) :
    setArgs m args i p argv =
      (m.storeBytes (args + BitVec.ofNat 32 (4 * i)) ((ptrs p argv).flatMap wordBytes),
        p + tot argv) := by
  induction argv generalizing m i p with
  | nil => rw [setArgs, tot, BitVec.add_zero]; rfl
  | cons s argv ih =>
    have hnext : BitVec.ofNat 32 (4 * (i + 1)) = 4#32 * BitVec.ofNat 32 i + 4#32 := by
      rw [Nat.mul_succ, BitVec.ofNat_add, BitVec.ofNat_mul]
    rw [setArgs, ih, hnext, ptrs, List.flatMap_cons, storeBytes_append, length_wordBytes, tot,
      BitVec.ofNat_mul, BitVec.add_assoc p, ← BitVec.add_assoc args]
    rfl

/-! ## The page -/

/-- Where the strings begin in the parent. -/
def strings (argv : List CStr) : Word := UTEMP + BY2PG - tot argv

/-- Where the array begins. -/
def args (argv : List CStr) : Word :=
  UTEMP + BY2PG - ROUND (tot argv) 4#32 - 4#32 * (BitVec.ofNat 32 argv.length + 1#32)

/-- An address of the page, as the child has it. -/
def toChild (a : Word) : Word := USTACKTOP - UTEMP - BY2PG + a

/-- The words of the array: the pointers and what is stored behind them. -/
def array (argv : List CStr) : List Word :=
  ptrs (toChild (strings argv)) argv ++ [toChild (strings argv) + tot argv - 1#32]

/-- The memory when the page is filled. -/
def filled (argv : List CStr) (m : ByteMem 32) : ByteMem 32 :=
  ((((memAlloc m).storeBytes (strings argv) (strBytes argv)).storeBytes (args argv)
    ((array argv).flatMap wordBytes)).storeWord (args argv - 4#32)
      (toChild (args argv))).storeWord (args argv - 4#32 - 4#32) (BitVec.ofNat 32 argv.length)

/-- What `init_stack` does when it does not refuse. -/
lemma initStack_eq (hrej : ¬ Rejects argv) (ans : Answers) (m : ByteMem 32) :
    initStack argv ans m =
      if ans.alloc.msb then ⟨ans.alloc, none, m, false, false⟩
      else
        let sp := some (toChild (args argv - 4#32 - 4#32))
        if ans.map.msb then ⟨ans.map, sp, filled argv m, ans.unmapAgain.msb, false⟩
        else if ans.unmap.msb then ⟨ans.unmap, sp, filled argv m, ans.unmapAgain.msb, true⟩
        else ⟨0#32, sp, filled argv m, false, true⟩ := by
  have harr : ∀ m' : ByteMem 32, (m'.storeBytes (args argv + BitVec.ofNat 32 (4 * 0))
      ((ptrs (toChild (strings argv)) argv).flatMap wordBytes)).storeWord
        (args argv + 4#32 * BitVec.ofNat 32 argv.length)
          (toChild (strings argv) + tot argv - 1#32) =
      m'.storeBytes (args argv) ((array argv).flatMap wordBytes) := by
    intro m'
    rw [array, List.flatMap_append, storeBytes_append, length_flatMap_wordBytes, length_ptrs,
      Nat.mul_zero, BitVec.add_zero, storeWord, List.flatMap_singleton, BitVec.ofNat_mul]
  rw [initStack, if_neg hrej]
  simp only [copyStrs_eq, setArgs_eq]
  rw [filled, ← harr]
  rfl

/-! ## The child's view -/

lemma toNat_UTEMP : UTEMP.toNat = 0x3FE000 := by decide

lemma toNat_UTEMP_add : (UTEMP + BY2PG).toNat = 0x3FF000 := by decide

lemma toNat_stack : (USTACKTOP - BY2PG).toNat = 0x7F3FD000 ∧ USTACKTOP.toNat = 0x7F3FE000 := by
  decide

lemma toNat_toChild (ha : a.toNat ≤ 0x3FF000) : (toChild a).toNat = 0x7EFFF000 + a.toNat := by
  rw [toChild, BitVec.toNat_add, show (USTACKTOP - UTEMP - BY2PG).toNat = 0x7EFFF000 by decide]
  omega

lemma toChild_add (a x : Word) : toChild (a + x) = toChild a + x := (BitVec.add_assoc ..).symm

lemma childByte_toChild (hlo : 0x3FE000 ≤ a.toNat) (hhi : a.toNat < 0x3FF000) :
    childByte m (toChild a) = some (m.get a) := by
  have hto := toNat_toChild hhi.le
  have hback : toChild a - (USTACKTOP - BY2PG) + UTEMP = a := by
    apply BitVec.eq_of_toNat_eq
    rw [BitVec.toNat_add, BitVec.toNat_sub, hto, toNat_stack.1, toNat_UTEMP]
    omega
  have hin : USTACKTOP - BY2PG ≤ toChild a ∧ toChild a < USTACKTOP := by
    rw [BitVec.le_def, BitVec.lt_def, hto, toNat_stack.1, toNat_stack.2]
    omega
  rw [childByte, if_pos hin, hback]

/-- A word of the parent's page is loaded by the child. -/
lemma childWord_toChild (h : m.WordAt a x) (hlo : 0x3FE000 ≤ a.toNat)
    (hhi : a.toNat + 4 ≤ 0x3FF000) : childWord m (toChild a) = some x := by
  have hbyte : ∀ i < 4, childByte m (toChild a + BitVec.ofNat 32 i) = some (Bits.byte x i) := by
    intro i hi
    have hnat : (a + BitVec.ofNat 32 i).toNat = a.toNat + i := by
      rw [BitVec.toNat_add, BitVec.toNat_ofNat]
      omega
    rw [← toChild_add, childByte_toChild (by omega) (by omega), h i hi]
  have h0 := hbyte 0 (by decide)
  rw [BitVec.add_zero] at h0
  rw [childWord, h0, hbyte 1 (by decide), hbyte 2 (by decide), hbyte 3 (by decide)]
  exact congrArg some (Bits.bytes_append x)

/-! ## Where everything is -/

lemma wordAt_argc :
    (filled argv m).WordAt (args argv - 4#32 - 4#32) (BitVec.ofNat 32 argv.length) :=
  wordAt_storeWord (by decide)

section

variable (hfit : need argv ≤ 4096)
include hfit

lemma toNat_tot : (tot argv).toNat = total argv := by
  rw [need] at hfit
  rw [tot_eq, BitVec.toNat_ofNat]
  exact Nat.mod_eq_of_lt (by omega)

lemma toNat_ROUND : (ROUND (tot argv) 4#32).toNat = (total argv + 3) / 4 * 4 := by
  have hmask : Bits.IsLowMask 2 (4#32 - 1#32) := by
    intro i hi
    interval_cases i <;> rfl
  have htot := toNat_tot hfit
  rw [need] at hfit
  rw [ROUND, Bits.toNat_and_not_low hmask, BitVec.toNat_sub, BitVec.toNat_add, htot]
  simp only [BitVec.toNat_ofNat]
  omega

/-- Then the code finds that everything fits. -/
lemma not_rejects : ¬ Rejects argv := by
  have hround := toNat_ROUND hfit
  rw [need] at hfit
  rw [Rejects, BitVec.lt_def, BitVec.toNat_add, BitVec.toNat_mul, BitVec.toNat_add, hround,
    show BY2PG.toNat = 4096 by decide]
  simp only [BitVec.toNat_ofNat]
  omega

lemma toNat_strings : (strings argv).toNat = 0x3FF000 - total argv := by
  have htot := toNat_tot hfit
  rw [need] at hfit
  rw [strings, BitVec.toNat_sub, htot, toNat_UTEMP_add]
  omega

lemma toNat_args :
    (args argv).toNat = 0x3FF000 - (total argv + 3) / 4 * 4 - 4 * (argv.length + 1) := by
  have hround := toNat_ROUND hfit
  rw [need] at hfit
  rw [args, BitVec.toNat_sub, BitVec.toNat_sub, BitVec.toNat_mul, BitVec.toNat_add, hround,
    toNat_UTEMP_add]
  simp only [BitVec.toNat_ofNat]
  omega

lemma toNat_args_sub_four :
    (args argv - 4#32).toNat = 0x3FF000 - (total argv + 3) / 4 * 4 - 4 * (argv.length + 2) := by
  have hargs := toNat_args hfit
  rw [need] at hfit
  rw [BitVec.toNat_sub, hargs]
  simp only [BitVec.toNat_ofNat]
  omega

lemma toNat_args_sub_eight : (args argv - 4#32 - 4#32).toNat =
    0x3FF000 - (total argv + 3) / 4 * 4 - 4 * (argv.length + 3) := by
  have hargs := toNat_args_sub_four hfit
  rw [need] at hfit
  rw [BitVec.toNat_sub, hargs]
  simp only [BitVec.toNat_ofNat]
  omega

lemma wordAt_argv : (filled argv m).WordAt (args argv - 4#32) (toChild (args argv)) := by
  have h4 := toNat_args_sub_four hfit
  have h8 := toNat_args_sub_eight hfit
  rw [need] at hfit
  refine (wordAt_storeWord (by decide)).storeWord (by omega) fun i hi => .inr ?_
  rw [BitVec.toNat_add, h4, h8, BitVec.toNat_ofNat]
  omega

lemma wordAt_args {i : ℕ} (hi : i < (array argv).length) :
    (filled argv m).WordAt (args argv + BitVec.ofNat 32 (4 * i)) (array argv)[i] := by
  have hlen : (array argv).length = argv.length + 1 := by simp [array]
  have ha := toNat_args hfit
  have h4 := toNat_args_sub_four hfit
  have h8 := toNat_args_sub_eight hfit
  rw [need] at hfit
  have hnat : ∀ j < 4, (args argv + BitVec.ofNat 32 (4 * i) + BitVec.ofNat 32 j).toNat =
      (args argv).toNat + 4 * i + j := by
    intro j hj
    rw [BitVec.toNat_add, BitVec.toNat_add, BitVec.toNat_ofNat, BitVec.toNat_ofNat]
    omega
  refine ((wordAt_array _ (by omega) hi).storeWord (by omega) fun j hj => .inr ?_).storeWord
    (by omega) fun j hj => .inr ?_
  · rw [hnat j hj, h4]
    omega
  · rw [hnat j hj, h8]
    omega

/-- Behind the array there are the strings. -/
lemma get_filled (h : (strings argv).toNat ≤ a.toNat) :
    (filled argv m).get a =
      ((memAlloc m).storeBytes (strings argv) (strBytes argv)).get a := by
  have hlen : ((array argv).flatMap wordBytes).length = 4 * (argv.length + 1) := by
    rw [length_flatMap_wordBytes]
    simp [array]
  have hs := toNat_strings hfit
  have ha := toNat_args hfit
  have h4 := toNat_args_sub_four hfit
  have h8 := toNat_args_sub_eight hfit
  rw [need] at hfit
  have hfar : ∀ (n : ℕ) (b : Word), b.toNat + n ≤ (strings argv).toNat → n ≤ (a - b).toNat :=
    fun n b hb => le_toNat_sub (by omega) (.inr (by omega))
  have hword : ∀ (m' : ByteMem 32) (b x : Word), b.toNat + 4 ≤ (strings argv).toNat →
      (m'.storeWord b x).get a = m'.get a := fun m' b x hb =>
    get_storeBytes_of_le m' b (show 4 ≤ 2 ^ 32 by decide) (hfar 4 b hb)
  rw [filled, hword _ _ _ (by omega), hword _ _ _ (by omega),
    get_storeBytes_of_le _ _ (by omega) (hfar _ _ (by omega))]

/-- Every address that is stored to is in the page. -/
lemma inside_filled (ha : a ∈ (filled argv m).stored) :
    a ∈ m.stored ∨ UTEMP ≤ a ∧ a < UTEMP + BY2PG := by
  have hlen : ((array argv).flatMap wordBytes).length = 4 * (argv.length + 1) := by
    rw [length_flatMap_wordBytes]
    simp [array]
  have htot := length_strBytes argv
  have hs := toNat_strings hfit
  have hargs := toNat_args hfit
  have h4 := toNat_args_sub_four hfit
  have h8 := toNat_args_sub_eight hfit
  rw [need] at hfit
  have hin : ∀ (n : ℕ) (b : Word), 0x3FE000 ≤ b.toNat → b.toNat + n ≤ 0x3FF000 →
      (a - b).toNat < n → UTEMP ≤ a ∧ a < UTEMP + BY2PG := by
    intro n b hlo hhi hlt
    rw [BitVec.le_def, BitVec.lt_def, toNat_UTEMP, toNat_UTEMP_add]
    by_contra hout
    have hfar : n ≤ (a - b).toNat := le_toNat_sub (by omega) (by omega)
    omega
  obtain h | ha := mem_stored_storeBytes _ _ (by rw [length_wordBytes]; decide) ha
  · exact .inr (hin 4 _ (by omega) (by omega) h)
  obtain h | ha := mem_stored_storeBytes _ _ (by rw [length_wordBytes]; decide) ha
  · exact .inr (hin 4 _ (by omega) (by omega) h)
  obtain h | ha := mem_stored_storeBytes _ _ (by omega) ha
  · exact .inr (hin _ _ (by omega) (by omega) h)
  obtain h | ha := mem_stored_storeBytes _ _ (by omega) ha
  · exact .inr (hin _ _ (by omega) (by omega) h)
  · exact .inl ha

/-- A string and the byte 0 behind it, among the bytes of all strings. -/
lemma get_string {i j : ℕ} (hi : i < argv.length) (hj : j < argv[i].bytes.length + 1) :
    childByte (filled argv m) (toChild (strings argv) +
      BitVec.ofNat 32 (strBytes (argv.take i)).length + BitVec.ofNat 32 j) =
        some (getElem (argv[i].bytes ++ [0#8]) j (by rw [List.length_append]; exact hj)) := by
  have hsplit : strBytes argv = strBytes (argv.take i) ++ (argv[i].bytes ++ [0#8]) ++
      strBytes (argv.drop (i + 1)) := by
    rw [List.append_assoc, ← strBytes_cons, List.getElem_cons_drop, strBytes, strBytes, strBytes,
      ← List.flatMap_append, List.take_append_drop]
  have hmid : (argv[i].bytes ++ [0#8]).length = argv[i].bytes.length + 1 := by
    rw [List.length_append]
    rfl
  have htot := length_strBytes argv
  have hs := toNat_strings hfit
  have hlen : (strBytes (argv.take i)).length + j < total argv := by
    rw [← htot, hsplit, List.length_append, List.length_append, hmid]
    omega
  have hget := get_filled (m := m) (a := strings argv +
    BitVec.ofNat 32 (strBytes (argv.take i)).length + BitVec.ofNat 32 j) hfit
  rw [need] at hfit
  have hnat : (strings argv + BitVec.ofNat 32 (strBytes (argv.take i)).length +
      BitVec.ofNat 32 j).toNat =
        (strings argv).toNat + ((strBytes (argv.take i)).length + j) := by
    rw [BitVec.toNat_add, BitVec.toNat_add, BitVec.toNat_ofNat, BitVec.toNat_ofNat]
    omega
  rw [← toChild_add, ← toChild_add, childByte_toChild (by omega) (by omega), hget (by omega)]
  rw [hsplit] at htot ⊢
  exact congrArg some (get_storeBytes_mid _ _ _ _ _ (by omega) (by omega))

/-- The child has string `i` at the pointer in the array. -/
lemma childStr_filled {i : ℕ} (hi : i < argv.length) :
    ∃ p, getElem (array argv) i (by simp [array]; omega) = p ∧
    ChildStr (filled argv m) p argv[i] := by
  refine ⟨_, rfl, ?_⟩
  have hptr : getElem (array argv) i (by simp [array]; omega) =
      toChild (strings argv) + BitVec.ofNat 32 (strBytes (argv.take i)).length := by
    rw [← getElem_ptrs hi]
    exact List.getElem_append_left (by rwa [length_ptrs])
  rw [hptr]
  refine ⟨fun j hj => ?_, ?_⟩
  · rw [get_string hfit hi (by omega), List.getElem_append_left hj]
  · rw [get_string hfit hi (by omega), List.getElem_append_right le_rfl]
    simp

/-- What is stored behind the pointers is no null pointer. -/
lemma array_last : getElem (array argv) argv.length (by simp [array]) = USTACKTOP - 1#32 := by
  have hs := toNat_strings hfit
  have htot := toNat_tot hfit
  rw [need] at hfit
  have hchild := toNat_toChild (a := strings argv) (by omega)
  have hlast : toChild (strings argv) + tot argv - 1#32 = USTACKTOP - 1#32 := by
    apply BitVec.eq_of_toNat_eq
    rw [BitVec.toNat_sub, BitVec.toNat_add, hchild, hs, htot, BitVec.toNat_sub, toNat_stack.2]
    simp only [BitVec.toNat_ofNat]
    omega
  rw [← hlast]
  simp [array]

/-- **The child finds its arguments**, but no null pointer behind them. -/
lemma argv_end (m : ByteMem 32) :
    ChildSees (filled argv m) (toChild (args argv - 4#32 - 4#32)) argv (USTACKTOP - 1#32) := by
  have hlen : (array argv).length = argv.length + 1 := by simp [array]
  have hargs := toNat_args hfit
  have h4 := toNat_args_sub_four hfit
  have h8 := toNat_args_sub_eight hfit
  have hword : ∀ i (hi : i < (array argv).length), childWord (filled argv m)
      (toChild (args argv) + 4#32 * BitVec.ofNat 32 i) = some (array argv)[i] := by
    intro i hi
    have hw := wordAt_args (m := m) hfit hi
    rw [need] at hfit
    have hnat : (args argv + BitVec.ofNat 32 (4 * i)).toNat = (args argv).toNat + 4 * i := by
      rw [BitVec.toNat_add, BitVec.toNat_ofNat]
      omega
    rw [← childWord_toChild hw (by omega) (by omega), toChild_add, BitVec.ofNat_mul]
  have hav := wordAt_argv (m := m) hfit
  have hend := array_last hfit
  have hstr := fun i (hi : i < argv.length) => childStr_filled (m := m) hfit hi
  rw [need] at hfit
  refine ⟨childWord_toChild wordAt_argc (by omega) (by omega), toChild (args argv), ?_,
    fun i hi => ?_, ?_⟩
  · rw [← toChild_add, BitVec.sub_add_cancel]
    exact childWord_toChild hav (by omega) (by omega)
  · obtain ⟨p, hp, hs⟩ := hstr i hi
    exact ⟨p, hp ▸ hword i (by omega), hs⟩
  · rw [hword _ (by omega), hend]

end

/-- What stands behind the pointers is determined. -/
lemma ChildSees.last_unique {sp : Word} {last last' : Word} (h : ChildSees m sp argv last)
    (h' : ChildSees m sp argv last') : last = last' := by
  obtain ⟨av, hav, -, hlast⟩ := h.array
  obtain ⟨av', hav', -, hlast'⟩ := h'.array
  obtain rfl := Option.some.inj (hav.symm.trans hav')
  exact Option.some.inj (hlast.symm.trans hlast')

/-- With a page at `UTEMP` it is filled. -/
lemma initStack_filled (hrej : ¬ Rejects argv) {ans : Answers} (halloc : ¬ ans.alloc.msb) :
    (initStack argv ans m).child = !ans.map.msb ∧
      (initStack argv ans m).initSp = some (toChild (args argv - 4#32 - 4#32)) ∧
        (initStack argv ans m).mem = filled argv m := by
  rw [initStack_eq hrej, if_neg halloc]
  cases ans.map.msb <;> cases ans.unmap.msb <;> exact ⟨rfl, rfl, rfl⟩

lemma initStack_alloc (hrej : ¬ Rejects argv) {ans : Answers} (halloc : ans.alloc.msb) :
    initStack argv ans m = ⟨ans.alloc, none, m, false, false⟩ :=
  (initStack_eq hrej ans m).trans (if_pos halloc)

/-- A child that gets its page does not see the arguments as it should. -/
lemma not_right_of_child (hfit : need argv ≤ 4096) {ans : Answers} (halloc : ¬ ans.alloc.msb)
    (hmap : ¬ ans.map.msb) : ¬ Right argv m (initStack argv ans m) := by
  intro h
  obtain ⟨hchild, hsp, hmem⟩ := initStack_filled (m := m) (not_rejects hfit) halloc
  obtain ⟨sp, hsp', hsees⟩ := h.sees hfit (by simp [hchild, hmap])
  obtain rfl := Option.some.inj (hsp.symm.trans hsp')
  rw [hmem] at hsees
  exact absurd (hsees.last_unique (argv_end hfit m)) (by decide)

/-- **`init_stack` does what it should if and only if** it refuses, or finds no page and says so, or
the arguments fit and a call fails before the child has the page.  When the child has the page, all
is as it should be but for `argv[argc]`. -/
theorem init_stack_iff (argv : List CStr) (ans : Answers) (m : ByteMem 32) :
    (Right argv m (initStack argv ans m) ↔
      Rejects argv ∨ ans.alloc = -Err.noMem.toWord ∨
        need argv ≤ BY2PG.toNat ∧ (ans.alloc.msb = true ∨ ans.map.msb = true)) ∧
    (need argv ≤ BY2PG.toNat → (initStack argv ans m).child = true →
      ∃ sp, (initStack argv ans m).initSp = some sp ∧
        ChildSees (initStack argv ans m).mem sp argv (USTACKTOP - 1#32)) := by
  refine ⟨⟨fun h => ?_, fun h => ?_⟩, fun hfit hchild => ?_⟩
  · by_cases hrej : Rejects argv
    · exact .inl hrej
    refine .inr (or_iff_not_imp_left.mpr fun hne => ?_)
    by_cases hfit : need argv ≤ BY2PG.toNat
    · refine ⟨hfit, ?_⟩
      by_contra hok
      rw [not_or] at hok
      exact not_right_of_child hfit hok.1 hok.2 h
    · -- the sum wraps around, and the code goes on
      have hout := h.refused (not_le.mp hfit)
      by_cases halloc : ans.alloc.msb = true
      · rw [initStack_alloc hrej halloc] at hout
        exact absurd (congrArg Out.ret hout) hne
      · have hsp := (initStack_filled (m := m) hrej halloc).2.1
        rw [hout] at hsp
        cases hsp
  · obtain hrej | halloc | ⟨hfit, hfail⟩ := h
    · have hlarge : ¬ need argv ≤ 4096 := fun hfit => not_rejects hfit hrej
      exact ⟨fun _ => if_pos hrej, fun hfit => absurd hfit hlarge, fun hfit => absurd hfit hlarge⟩
    · have hout : initStack argv ans m = ⟨-Err.noMem.toWord, none, m, false, false⟩ := by
        by_cases hrej : Rejects argv
        · exact if_pos hrej
        · rw [initStack_alloc hrej (by rw [halloc]; decide), halloc]
      refine ⟨fun _ => hout, fun _ a ha => .inl (by rwa [hout] at ha), fun _ hchild => ?_⟩
      rw [hout] at hchild
      cases hchild
    · have hrej := not_rejects hfit
      refine ⟨fun hlarge => absurd hfit (not_le.mpr hlarge), fun _ a ha => ?_, fun _ hchild => ?_⟩
      · by_cases halloc : ans.alloc.msb = true
        · rw [initStack_alloc hrej halloc] at ha
          exact .inl ha
        · rw [(initStack_filled hrej halloc).2.2] at ha
          exact inside_filled hfit ha
      · by_cases halloc : ans.alloc.msb = true
        · rw [initStack_alloc hrej halloc] at hchild
          cases hchild
        · rw [(initStack_filled hrej halloc).1, hfail.resolve_left halloc] at hchild
          cases hchild
  · have hrej := not_rejects hfit
    by_cases halloc : ans.alloc.msb = true
    · rw [initStack_alloc hrej halloc] at hchild
      cases hchild
    · obtain ⟨-, hsp, hmem⟩ := initStack_filled (m := m) hrej halloc
      rw [hmem]
      exact ⟨_, hsp, argv_end hfit m⟩

/-- **A program without arguments** has a pointer in `argv[0]` that is not 0. -/
theorem init_stack_no_null : ∃ argv ans m, ¬ Right argv m (initStack argv ans m) :=
  ⟨[], ⟨0#32, 0#32, 0#32, 0#32⟩, ⟨fun _ => 0#8, []⟩,
    not_right_of_child (by decide) (by decide) (by decide)⟩

end InitStack

end MosRv
