import MosRv.Fs.Laid

/-!
# A laid out disk is well formed, and its tree is the host's

`Node.find` says what the host has at a path, and `View.Stores` that a file of the disk is a copy of
it.  On a disk that the entries of the root were laid out on (`View.Formatted`) every file that is
live is one of the laid out ones, so what holds of each of these makes the disk well formed
(`Formatted.wellFormed`) and its directories a tree (`Formatted.isTree`); and a list of names leads
to a file of the disk exactly if the host has something there (`Formatted.leads`,
`Formatted.leads_of_find`).
-/

namespace MosRv.Fs

open View

/-! ## What the host has at a path -/

/-- A file or a directory of the host. -/
inductive Node
  | file (data : List Byte)
  | dir (es : Entries)
  deriving DecidableEq, Repr

namespace Entries

def toList : Entries → List (List Byte × Node)
  | .nil => []
  | .file name data rest => (name, .file data) :: rest.toList
  | .dir name inner rest => (name, .dir inner) :: rest.toList

def names (es : Entries) : List (List Byte) := es.toList.map Prod.fst

/-- What has the name. -/
def lookup (es : Entries) (c : List Byte) : Option Node := es.toList.lookup c

end Entries

/-- What is reached with the names. -/
def Node.find : Node → List (List Byte) → Option Node
  | x, [] => some x
  | .file _, _ :: _ => none
  | .dir es, c :: cs =>
      match es.lookup c with
      | some x => x.find cs
      | none => none

/-- A name that has a place in a `struct File`. -/
def NameOk (c : List Byte) : Prop := c ≠ [] ∧ IsString c ∧ slash ∉ c ∧ c.length < MAXNAMELEN

instance (c : List Byte) : Decidable (NameOk c) := inferInstanceAs (Decidable (_ ∧ _ ∉ _ ∧ _ ∧ _))

/-- The names are different from each other and have a place. -/
def Entries.Ok : Entries → Prop
  | .nil => True
  | .file name _ rest => NameOk name ∧ name ∉ rest.names ∧ rest.Ok
  | .dir name inner rest => NameOk name ∧ name ∉ rest.names ∧ inner.Ok ∧ rest.Ok

instance Entries.decidableOk : (es : Entries) → Decidable es.Ok
  | .nil => isTrue trivial
  | .file name _ rest =>
      have := decidableOk rest
      inferInstanceAs (Decidable (NameOk name ∧ name ∉ rest.names ∧ rest.Ok))
  | .dir name inner rest =>
      have := decidableOk inner
      have := decidableOk rest
      inferInstanceAs (Decidable (NameOk name ∧ name ∉ rest.names ∧ inner.Ok ∧ rest.Ok))

def Node.Ok : Node → Prop
  | .file _ => True
  | .dir es => es.Ok

section

variable {es : Entries} {c : List Byte} {x : Node} {k : ℕ}

lemma Entries.Ok.nodup (h : es.Ok) : es.names.Nodup := by
  induction es with
  | nil => exact List.nodup_nil
  | file name data rest ih => exact List.nodup_cons.mpr ⟨h.2.1, ih h.2.2⟩
  | dir name inner rest _ ih => exact List.nodup_cons.mpr ⟨h.2.1, ih h.2.2.2⟩

/-- The name and the contents of each entry are in order. -/
lemma Entries.Ok.entry (h : es.Ok) (hk : es.toList[k]? = some (c, x)) : NameOk c ∧ x.Ok := by
  induction es generalizing k with
  | nil => exact absurd hk nofun
  | file name data rest ih =>
      cases k with
      | zero =>
          injection hk with hk
          injection hk with hname hx
          subst hname hx
          exact ⟨h.1, trivial⟩
      | succ k => exact ih h.2.2 hk
  | dir name inner rest _ ih =>
      cases k with
      | zero =>
          injection hk with hk
          injection hk with hname hx
          subst hname hx
          exact ⟨h.1, h.2.2.1⟩
      | succ k => exact ih h.2.2.2 hk

/-- A name is that of one entry. -/
lemma Entries.Ok.index_unique (h : es.Ok) {k' : ℕ} {y : Node} (hk : es.toList[k]? = some (c, x))
    (hk' : es.toList[k']? = some (c, y)) : k = k' := by
  have hname : es.names[k]? = some c := by rw [Entries.names, List.getElem?_map, hk]; rfl
  have hname' : es.names[k']? = some c := by rw [Entries.names, List.getElem?_map, hk']; rfl
  have hlt : k < es.names.length := (List.getElem?_eq_some_iff.mp hname).1
  exact (List.getElem?_inj hlt h.nodup).mp (hname.trans hname'.symm)

lemma Entries.exists_of_lookup (h : es.lookup c = some x) :
    ∃ k : ℕ, es.toList[k]? = some (c, x) := by
  obtain ⟨l₁, l₂, heq, -⟩ := List.lookup_eq_some_iff.mp h
  refine ⟨l₁.length, ?_⟩
  rw [heq, List.getElem?_append_right le_rfl, Nat.sub_self]
  rfl

lemma Entries.Ok.lookup_eq (h : es.Ok) (hk : es.toList[k]? = some (c, x)) :
    es.lookup c = some x := by
  cases hl : es.lookup c with
  | none =>
      have hne := List.lookup_eq_none_iff.mp hl (c, x) (List.mem_of_getElem? hk)
      simp at hne
  | some y =>
      obtain ⟨k', hk'⟩ := Entries.exists_of_lookup hl
      obtain rfl := h.index_unique hk hk'
      rw [hk] at hk'
      injection hk' with hk'
      injection hk' with _ hxy
      rw [hxy]

end

/-! ## Each entry is laid out -/

namespace View

/-- The file or directory is laid out, from some block on. -/
def NodeAt (v : View) (f : FileRef) : Node → Prop
  | .file data => ∃ m m', 0 < m ∧ v.FileAt f data m m'
  | .dir es => v.IsDir f ∧ ∃ m m', 0 < m ∧ v.Laid f 0 es m m'

/-- The file of the disk is a copy of the host's. -/
def Stores (v : View) (f : FileRef) : Node → Prop
  | .file data => v.field f F_TYPE = FTYPE_REG ∧ (v.field f F_SIZE).toNat = data.length ∧
      ∀ k, (hk : k < data.length) →
        (v (v.num f (.of (k / BY2BLK)))).byte (k % BY2BLK) = data[k]
  | .dir _ => v.IsDir f

end View

section

variable {v : View} {d f g : FileRef} {n m m' i k : ℕ} {es : Entries} {c : List Byte} {x : Node}
variable {cs : List (List Byte)}

lemma View.NodeAt.stores (h : v.NodeAt f x) : v.Stores f x := by
  cases x with
  | file data =>
      obtain ⟨m, m', -, hf⟩ := h
      refine ⟨hf.type, hf.size, fun k hk => ?_⟩
      rw [hf.block _ (div_lt_chunks hk)]
      exact hf.byte k hk
  | dir es => exact h.1

/-- What is laid out as a directory is none of the host's files. -/
lemma View.NodeAt.exists_dir (h : v.NodeAt f x) (hdir : v.IsDir f) : ∃ es, x = .dir es := by
  cases x with
  | file data =>
      obtain ⟨m, m', -, hf⟩ := h
      exact absurd (hf.type.symm.trans hdir) (by decide)
  | dir es => exact ⟨es, rfl⟩

/-- After the last entry there are no more. -/
lemma View.Laid.dirEnd (h : v.Laid d n es m m') : v.DirEnd d (n + es.toList.length) := by
  induction h with
  | nil hend => exact hend
  | @file d n m m₁ m₂ m₃ name data rest _ _ _ _ ih =>
      rw [Entries.toList, List.length_cons, Nat.add_comm _ 1, ← Nat.add_assoc]
      exact ih
  | @dir d n m m₁ m₂ m₃ name inner rest _ _ _ _ _ _ ih =>
      rw [Entries.toList, List.length_cons, Nat.add_comm _ 1, ← Nat.add_assoc]
      exact ih

/-- The block of an entry is there, if it is the first one in it. -/
lemma View.SlotAt.filled (h : v.SlotAt d n m m') (hm : 0 < m) (hi : blocksOf n ≤ i)
    (hlt : i < blocksOf (n + 1)) : i < NINDIRECT ∧ v.num d (.of i) ≠ 0 := by
  have hsucc := @blocksOf_succ n
  have hmod : n % FILE2BLK = 0 := by
    by_contra hmod
    have := blocksOf_of_mod hmod
    omega
  have hn := blocksOf_of_dvd hmod
  obtain rfl : i = n / FILE2BLK := by omega
  refine ⟨h.small, ?_⟩
  rw [h.block hmod]
  exact Nat.ne_of_gt hm

lemma View.FileAt.le {data : List Byte} (h : v.FileAt f data m m') : m ≤ m' :=
  h.next ▸ le_fileBlock

/-- The directory has all its blocks. -/
lemma View.Laid.filled (h : v.Laid d n es m m') (hm : 0 < m) (hi : blocksOf n ≤ i)
    (hlt : i < blocksOf (n + es.toList.length)) : i < NINDIRECT ∧ v.num d (.of i) ≠ 0 := by
  induction h with
  | nil _ => exact absurd hlt (not_lt.mpr hi)
  | @file d n m m₁ m₂ m₃ name data rest hslot _ hfile _ ih =>
      rw [Entries.toList, List.length_cons, Nat.add_comm _ 1, ← Nat.add_assoc] at hlt
      by_cases hnew : i < blocksOf (n + 1)
      · exact hslot.filled hm hi hnew
      · have := hslot.spread.le
        have := hfile.le
        exact ih (by omega) (not_lt.mp hnew) hlt
  | @dir d n m m₁ m₂ m₃ name inner rest hslot _ _ hinner _ _ ih =>
      rw [Entries.toList, List.length_cons, Nat.add_comm _ 1, ← Nat.add_assoc] at hlt
      by_cases hnew : i < blocksOf (n + 1)
      · exact hslot.filled hm hi hnew
      · have := hslot.spread.le
        have := hinner.spread.le
        exact ih (by omega) (not_lt.mp hnew) hlt

/-- **Each entry has its name and its contents.** -/
lemma View.Laid.entry (h : v.Laid d n es m m') (hm : 0 < m) (hk : es.toList[k]? = some (c, x)) :
    v.name (v.slot d (n + k)) = c ∧ v.NodeAt (v.slot d (n + k)) x := by
  induction h generalizing k with
  | nil _ => exact absurd hk nofun
  | @file d n m m₁ m₂ m₃ name data rest hslot hname hfile _ ih =>
      have hle := hslot.spread.le
      cases k with
      | zero =>
          injection hk with hk
          injection hk with hc hx
          subst hc hx
          exact ⟨hname, m₁, m₂, by omega, hfile⟩
      | succ k =>
          have := hfile.le
          rw [← Nat.add_assoc, Nat.add_right_comm]
          exact ih (by omega) hk
  | @dir d n m m₁ m₂ m₃ name inner rest hslot hname hdir hinner _ _ ih =>
      have hle := hslot.spread.le
      cases k with
      | zero =>
          injection hk with hk
          injection hk with hc hx
          subst hc hx
          exact ⟨hname, hdir, m₁, m₂, by omega, hinner⟩
      | succ k =>
          have := hinner.spread.le
          rw [← Nat.add_assoc, Nat.add_right_comm]
          exact ih (by omega) hk

/-- The entries that the directory holds are the laid out ones. -/
lemma View.Laid.holds (h : v.Laid d 0 es m m') (hm : 0 < m) (hc : c ≠ []) :
    v.Holds d c g ↔ ∃ k x, es.toList[k]? = some (c, x) ∧ g = v.slot d k := by
  have hend := h.dirEnd
  rw [Nat.zero_add] at hend
  have hdiv : (v.field d F_SIZE).toNat / BY2BLK = blocksOf es.toList.length := by
    rw [hend.size, Nat.mul_div_cancel_left _ (by decide)]
  rw [View.Holds, hdiv]
  constructor
  · rintro ⟨i, hi, j, hj, rfl, hname⟩
    rw [← slot_entry hj] at hname ⊢
    have hlt : FILE2BLK * i + j < es.toList.length := by
      by_contra hge
      refine hend.unnamed _ (not_lt.mp hge) ?_ ?_
      · rw [← lt_blocksOf]
        simp only [FILE2BLK] at hj ⊢
        omega
      · by_contra hun
        exact hc (hname.symm.trans (name_eq_nil.mpr hun))
    have hget := List.getElem?_eq_getElem hlt
    have hentry := h.entry (x := (es.toList[FILE2BLK * i + j]).2) hm hget
    rw [Nat.zero_add, hname] at hentry
    refine ⟨_, (es.toList[FILE2BLK * i + j]).2, ?_, rfl⟩
    rw [hentry.1]
    exact hget
  · rintro ⟨k, x, hk, rfl⟩
    have hlt : k < es.toList.length := (List.getElem?_eq_some_iff.mp hk).1
    refine ⟨k / FILE2BLK, ?_, k % FILE2BLK, Nat.mod_lt _ (by decide), rfl, ?_⟩
    · simp only [blocksOf, FILE2BLK]
      omega
    · have hentry := (h.entry hm hk).1
      rwa [Nat.zero_add] at hentry

/-! ## What leads where -/

/-- What the names lead to is a copy of what the host has there. -/
lemma View.NodeAt.leads (h : v.NodeAt f x) (hok : x.Ok) (hl : v.Leads f cs g) :
    ∃ y, x.find cs = some y ∧ v.NodeAt g y ∧ y.Ok := by
  induction hl generalizing x with
  | nil f =>
      refine ⟨x, ?_, h, hok⟩
      cases x <;> rfl
  | @cons d g f c cs hdir hc hg _ ih =>
      obtain ⟨es, rfl⟩ := h.exists_dir hdir
      obtain ⟨-, m, m', hm, hlaid⟩ := h
      obtain ⟨k, y, hk, rfl⟩ := (hlaid.holds hm hc).mp hg
      have hy := (hlaid.entry hm hk).2
      rw [Nat.zero_add] at hy
      obtain ⟨z, hz, hnode⟩ := ih hy (Entries.Ok.entry hok hk).2
      refine ⟨z, ?_, hnode⟩
      rw [Node.find, Entries.Ok.lookup_eq hok hk]
      exact hz

/-- What the host has is reached by its names. -/
lemma View.NodeAt.exists_leads {y : Node} (h : v.NodeAt f x) (hok : x.Ok)
    (hfind : x.find cs = some y) : ∃ g, v.Leads f cs g ∧ v.NodeAt g y := by
  induction cs generalizing f x with
  | nil =>
      have hxy : x = y := by
        cases x <;> exact Option.some.inj hfind
      exact ⟨f, .nil f, hxy ▸ h⟩
  | cons c cs ih =>
      cases x with
      | file data => exact absurd hfind nofun
      | dir es =>
          rw [Node.find] at hfind
          cases hl : es.lookup c with
          | none =>
              rw [hl] at hfind
              exact absurd hfind nofun
          | some z =>
              rw [hl] at hfind
              obtain ⟨hdir, m, m', hm, hlaid⟩ := h
              obtain ⟨k, hk⟩ := Entries.exists_of_lookup hl
              obtain ⟨hc, hz⟩ := Entries.Ok.entry hok hk
              have hnode := (hlaid.entry hm hk).2
              rw [Nat.zero_add] at hnode
              obtain ⟨g, hg, hy⟩ := ih hnode hz hfind
              exact ⟨g, .cons hdir hc.1 ((hlaid.holds hm hc.1).mpr ⟨k, z, hk, rfl⟩) hg, hy⟩

/-! ## The live files -/

lemma View.Laid.slot_mem_files (hk : k < es.toList.length) : v.slot d (n + k) ∈ v.files d n es := by
  induction es generalizing n k with
  | nil => exact absurd hk (Nat.not_lt_zero k)
  | file name data rest ih =>
      cases k with
      | zero => exact .inl rfl
      | succ k =>
          rw [← Nat.add_assoc, Nat.add_right_comm]
          exact .inr (ih (Nat.lt_of_succ_lt_succ hk))
  | dir name inner rest _ ih =>
      cases k with
      | zero => exact .inl rfl
      | succ k =>
          rw [← Nat.add_assoc, Nat.add_right_comm]
          exact .inr (.inr (ih (Nat.lt_of_succ_lt_succ hk)))

/-- Each of the files is laid out, and what is below it is among the files as well. -/
lemma View.Laid.of_mem_files (h : v.Laid d n es m m') (hm : 0 < m) (hf : f ∈ v.files d n es) :
    ∃ x, v.NodeAt f x ∧ ∀ inner, x = .dir inner → v.files f 0 inner ⊆ v.files d n es := by
  induction h with
  | nil _ => exact absurd hf (Set.notMem_empty f)
  | @file d n m m₁ m₂ m₃ name data rest hslot _ hfile _ ih =>
      have := hslot.spread.le
      have := hfile.le
      rcases hf with rfl | hf
      · exact ⟨.file data, ⟨m₁, m₂, by omega, hfile⟩, nofun⟩
      · obtain ⟨x, hx, hsub⟩ := ih (by omega) hf
        exact ⟨x, hx, fun inner heq => (hsub inner heq).trans fun _ hg => .inr hg⟩
  | @dir d n m m₁ m₂ m₃ name inner rest hslot _ hdir hinner _ ihinner ihrest =>
      have := hslot.spread.le
      have := hinner.spread.le
      rcases hf with rfl | hf | hf
      · refine ⟨.dir inner, ⟨hdir, m₁, m₂, by omega, hinner⟩, ?_⟩
        intro inner' heq
        injection heq with heq
        subst heq
        exact fun _ hg => .inr (.inl hg)
      · obtain ⟨x, hx, hsub⟩ := ihinner (by omega) hf
        exact ⟨x, hx, fun inner' heq => (hsub inner' heq).trans fun _ hg => .inr (.inl hg)⟩
      · obtain ⟨x, hx, hsub⟩ := ihrest (by omega) hf
        exact ⟨x, hx, fun inner' heq => (hsub inner' heq).trans fun _ hg => .inr (.inr hg)⟩

/-- An entry with a name is one of the laid out ones. -/
lemma View.Laid.mem_files (h : v.Laid d 0 es m m') {sl : Slot} {j : ℕ} (hsl : sl.Data)
    (hne : v.num d sl ≠ 0) (hj : j < FILE2BLK) (hn : v.Named (.entry (v.num d sl) j)) :
    .entry (v.num d sl) j ∈ v.files d 0 es := by
  have hend := h.dirEnd
  rw [Nat.zero_add] at hend
  obtain rfl | ⟨i, hi, rfl⟩ := Slot.ok_iff.mp hsl.ok
  · exact hsl.elim
  · rw [← slot_entry hj] at hn ⊢
    have hlt : FILE2BLK * i + j < es.toList.length := by
      by_contra hge
      refine hend.unnamed _ (not_lt.mp hge) ?_ hn
      by_contra hout
      rw [← lt_blocksOf, not_lt] at hout
      refine hne (hend.rest i (hout.trans (le_of_eq ?_)) hi)
      simp only [FILE2BLK] at hj ⊢
      omega
    have hmem := View.Laid.slot_mem_files (v := v) (d := d) (n := 0) hlt
    rwa [Nat.zero_add] at hmem

end

/-! ## The whole disk -/

/-- **A disk with the entries in its root**, with the blocks before `m` in use. -/
structure View.Formatted (v : View) (es : Entries) (m : ℕ) : Prop where
  magic : v 1 S_MAGIC = FS_MAGIC
  nblocks : v.nblocks = Format.NBLOCK
  parent : v.field .root F_DIR = 0#32
  isDir : v.IsDir .root
  laid : v.Laid .root 0 es 3 m
  fits : m ≤ Format.NBLOCK
  free : ∀ b < Format.NBLOCK, v.Free b ↔ m ≤ b

/-- **A copy of the host's directory**: the names lead to copies of what they lead to there, and
nowhere else. -/
structure View.Copies (v : View) (es : Entries) : Prop where
  stores : ∀ cs f, v.Leads .root cs f → ∃ x, (Node.dir es).find cs = some x ∧ v.Stores f x
  found : ∀ cs x, (Node.dir es).find cs = some x → ∃ f, v.Leads .root cs f ∧ v.Stores f x

namespace View.Formatted

variable {v : View} {es : Entries} {m : ℕ} {f g : FileRef} {cs : List (List Byte)}

lemma node (h : v.Formatted es m) : v.NodeAt .root (.dir es) := ⟨h.isDir, 3, m, by decide, h.laid⟩

lemma lastReserved (h : v.Formatted es m) : v.lastReserved = 2 := by
  rw [View.lastReserved, h.nblocks]
  rfl

/-- The live files are the root and the laid out files. -/
lemma files_of_live (h : v.Formatted es m) (hf : v.Live ∅ f) :
    f = .root ∨ f ∈ v.files .root 0 es := by
  induction hf with
  | root => exact .inl rfl
  | @entry d sl j hd hdir hsl hb hj hn ih =>
      have hn := hn.resolve_right (Set.notMem_empty _)
      rcases ih with rfl | hmem
      · exact .inr (h.laid.mem_files hsl hb hj hn)
      · obtain ⟨x, hx, hsub⟩ := h.laid.of_mem_files (by decide) hmem
        obtain ⟨inner, rfl⟩ := hx.exists_dir hdir
        obtain ⟨-, m₁, m₂, -, hinner⟩ := hx
        exact .inr (hsub inner rfl (hinner.mem_files hsl hb hj hn))

lemma holder (h : v.Formatted es m) (hf : v.Live ∅ f) {sl : Slot} (hsl : sl.Ok) :
    (f, sl) ∈ v.holders .root 0 es := by
  rcases h.files_of_live hf with rfl | hmem
  · exact .inl ⟨rfl, mem_later_zero.mpr hsl⟩
  · exact .inr ⟨hmem, hsl⟩

/-- **The disk is well formed.** -/
lemma wellFormed (h : v.Formatted es m) : WellFormed v where
  own := by
    have hspread := h.laid.spread
    have hfits := h.fits
    refine ⟨h.magic, ?_, ?_, ?_, ?_⟩
    · rw [h.nblocks]
      decide
    · intro b hb hfree
      rw [h.nblocks] at hb
      have := (h.free b hb).mp hfree
      have := hspread.le
      rw [h.lastReserved]
      omega
    · intro f sl hf hsl hne
      obtain ⟨hlo, hhi⟩ := hspread.range (f, sl) (h.holder hf hsl) hne
      change 3 ≤ v.num f sl at hlo
      change v.num f sl < m at hhi
      rw [h.lastReserved, h.nblocks, h.free _ (hhi.trans_le hfits)]
      exact ⟨hlo, hhi.trans_le hfits, not_le.mpr hhi⟩
    · intro f sl g sl' hf hg hsl hsl' hne heq
      have hpair := hspread.inj (f, sl) (h.holder hf hsl) (g, sl') (h.holder hg hsl') hne heq
      injection hpair with hfg hslot
      exact ⟨hfg, hslot⟩
  fits := by
    rw [h.lastReserved, h.nblocks]
    decide
  root := h.parent

/-- **The names of the disk lead where those of the host do.** -/
lemma leads (h : v.Formatted es m) (hok : es.Ok) (hl : v.Leads .root cs f) :
    ∃ x, (Node.dir es).find cs = some x ∧ v.NodeAt f x ∧ x.Ok :=
  View.NodeAt.leads h.node hok hl

lemma exists_leads (h : v.Formatted es m) (hok : es.Ok) {x : Node}
    (hfind : (Node.dir es).find cs = some x) : ∃ f, v.Leads .root cs f ∧ v.NodeAt f x :=
  View.NodeAt.exists_leads h.node hok hfind

/-- **The disk is a copy of what the host has.** -/
lemma copies (h : v.Formatted es m) (hok : es.Ok) : v.Copies es where
  stores cs f hl := by
    obtain ⟨x, hx, hnode, -⟩ := h.leads hok hl
    exact ⟨x, hx, hnode.stores⟩
  found cs x hfind := by
    obtain ⟨f, hf, hnode⟩ := h.exists_leads hok hfind
    exact ⟨f, hf, hnode.stores⟩

/-- **The directories are a tree.** -/
lemma isTree (h : v.Formatted es m) (hok : es.Ok) : v.IsTree := by
  -- a directory that is reached is laid out
  have hdir : ∀ cs d, v.Leads .root cs d → v.IsDir d →
      ∃ inner m₁ m₂, 0 < m₁ ∧ v.Laid d 0 inner m₁ m₂ ∧ inner.Ok := by
    intro cs d hd hdir
    obtain ⟨x, -, hx, hxok⟩ := h.leads hok hd
    obtain ⟨inner, rfl⟩ := hx.exists_dir hdir
    obtain ⟨-, m₁, m₂, hm, hlaid⟩ := hx
    exact ⟨inner, m₁, m₂, hm, hlaid, hxok⟩
  refine ⟨fun cs d hd hd' i hi => ?_, fun cs d c g hd hd' hg => ?_,
    fun cs d c g g' hd hd' hc hg hg' => ?_⟩
  · obtain ⟨inner, m₁, m₂, hm, hlaid, -⟩ := hdir cs d hd hd'
    have hend := hlaid.dirEnd
    rw [hend.size, Nat.mul_div_cancel_left _ (by decide)] at hi
    exact hlaid.filled hm (Nat.zero_le i) hi
  · obtain ⟨inner, m₁, m₂, hm, hlaid, hinner⟩ := hdir cs d hd hd'
    by_cases hc : c = []
    · rw [hc]
      decide
    · obtain ⟨k, x, hk, -⟩ := (hlaid.holds hm hc).mp hg
      exact (hinner.entry hk).1.2.2.2
  · obtain ⟨inner, m₁, m₂, hm, hlaid, hinner⟩ := hdir cs d hd hd'
    obtain ⟨k, x, hk, rfl⟩ := (hlaid.holds hm hc).mp hg
    obtain ⟨k', y, hk', rfl⟩ := (hlaid.holds hm hc).mp hg'
    rw [hinner.index_unique hk hk']

end View.Formatted

end MosRv.Fs
