import Mathlib.Data.List.TakeWhile
import MosRv.Fs.Runs
import MosRv.Fs.Tree

/-!
# Walking a path is looking up its pieces (`walk_path`)

The *pieces* of a path are what is between its slashes, the empty strings left out.  `View.Resolves`
says what looking them up one after the other in the tree comes to: the file they lead to with the
directory it is in, or the first piece that leads nowhere, and what is wrong with it.

`walk_path` copies each piece to a buffer of `MAXNAMELEN` bytes before it looks it up. `walkPathIn`
is the walk with the buffer: its result is `none` if a byte is stored behind the buffer. For a
string it is the walk of `walkPath` (`wp_walkFromIn`), so the buffer is never overrun.

`walk_path_resolves` is the result: on a well-formed tree the walk resolves the pieces, and it
leaves all files and the bitmap as they are.
-/

namespace MosRv.Fs

open Prog View

/-! ## The pieces of a path -/

/-- What is between the slashes. -/
def pieces (path : List Byte) : List (List Byte) := (path.splitOn slash).filter (· ≠ [])

section

variable {path : List Byte}

@[simp] lemma pieces_nil : pieces [] = [] := by
  rw [pieces, List.splitOn_nil]
  rfl

lemma pieces_slash : pieces (slash :: path) = pieces path := by
  rw [pieces, List.splitOn_cons_eq_if_modifyHead, if_pos (beq_self_eq_true slash)]
  rfl

/-- Slashes at the front do not matter. -/
lemma pieces_skipSlash : pieces (skipSlash path) = pieces path := by
  induction path with
  | nil => rfl
  | cons c path ih =>
      rw [skipSlash, List.dropWhile_cons]
      split_ifs with hc
      · rw [decide_eq_true_iff.mp hc, pieces_slash]
        exact ih
      · rfl

/-- The first piece, and the pieces of the rest. -/
lemma pieces_eq (hne : path.takeWhile (· ≠ slash) ≠ []) :
    pieces path =
      path.takeWhile (· ≠ slash) :: pieces (skipSlash (path.dropWhile (· ≠ slash))) := by
  have hnot : slash ∉ path.takeWhile (· ≠ slash) := by
    intro hm
    simpa using List.mem_takeWhile_imp hm
  rw [pieces_skipSlash]
  conv_lhs => rw [← List.takeWhile_append_dropWhile (p := (· ≠ slash)) (l := path)]
  cases hrest : path.dropWhile (· ≠ slash) with
  | nil =>
      rw [List.append_nil, pieces, List.splitOn_eq_singleton hnot, pieces_nil]
      exact List.filter_cons_of_pos (by simpa using hne)
  | cons c rest =>
      have hc := List.head?_dropWhile_not (· ≠ slash) path
      rw [hrest] at hc
      obtain rfl : c = slash := by simpa using hc
      rw [pieces_slash, pieces, List.splitOn_append_cons_self_of_not_mem hnot]
      exact List.filter_cons_of_pos (by simpa using hne)

lemma length_skipSlash_le : (skipSlash path).length ≤ path.length :=
  (List.dropWhile_suffix _).length_le

/-- The pieces are not empty, and strings if the path is one. -/
lemma mem_pieces {c : List Byte} (hstr : IsString path) (hc : c ∈ pieces path) :
    c ≠ [] ∧ IsString c := by
  obtain ⟨hc, hne⟩ := List.mem_filter.mp hc
  refine ⟨of_decide_eq_true hne, fun hmem => hstr ?_⟩
  obtain ⟨i, hi⟩ := List.mem_iff_getElem?.mp hc
  have hmem' : c ∈ (path.splitOn slash).intersperse [slash] :=
    List.mem_iff_getElem?.mpr ⟨2 * i, List.getElem?_intersperse_two_mul.trans hi⟩
  have hsplit : [slash].intercalate (path.splitOn slash) = path := List.intercalate_splitOn slash
  rw [← hsplit, List.intercalate]
  exact List.mem_flatten.mpr ⟨c, hmem', hmem⟩

end

/-! ## What a walk is to find -/

/-- `c` is the first of the names that leads nowhere. -/
def View.FailsAt (v : View) (cs pre : List (List Byte)) (c : List Byte) (post : List (List Byte)) :
    Prop :=
  cs = pre ++ c :: post ∧ (∃ d, v.Leads .root pre d) ∧ ∀ g, ¬ v.Leads .root (pre ++ [c]) g

/-- The names lead to the directory `d`, up to the last one, which leads nowhere. -/
structure View.Lacks (v : View) (cs : List (List Byte)) (d : FileRef) (c : List Byte) : Prop where
  leads : ∃ pre, cs = pre ++ [c] ∧ v.Leads .root pre d
  isDir : v.IsDir d
  short : c.length < MAXNAMELEN
  missing : ∀ g, ¬ v.Holds d c g

/-- **The result of looking up names**, one after the other. -/
structure View.Resolves (v : View) (cs : List (List Byte)) (w : Walk) : Prop where
  found : w.err = none ↔ ∃ f, v.Leads .root cs f
  file : ∀ f, w.file = some f ↔ v.Leads .root cs f
  dir : w.err = none → ∀ d, w.dir = some d ↔ cs ≠ [] ∧ v.Leads .root cs.dropLast d
  badPath : w.err = some .badPath ↔
    ∃ pre c post, v.FailsAt cs pre c post ∧ MAXNAMELEN ≤ c.length
  notFound : w.err = some .notFound ↔
    ∃ pre c post, v.FailsAt cs pre c post ∧ c.length < MAXNAMELEN
  missing : ∀ pre c d, v.FailsAt cs pre c [] → c.length < MAXNAMELEN → v.Leads .root pre d →
    v.IsDir d → w.dir = some d ∧ w.lastelem = some c

section

variable {v : View} {cs pre post pre' post' : List (List Byte)} {c c' : List Byte} {f d : FileRef}

lemma View.FailsAt.not_leads (h : v.FailsAt cs pre c post) : ¬ v.Leads .root cs f := by
  obtain ⟨rfl, -, hno⟩ := h
  rw [List.append_cons, View.leads_append]
  rintro ⟨g, hg, -⟩
  exact hno g hg

/-- What is before the first name that fails is not longer than what is before another. -/
lemma View.FailsAt.prefix_le (h : v.FailsAt cs pre c post) (h' : v.FailsAt cs pre' c' post') :
    pre'.length ≤ pre.length := by
  obtain ⟨hcs, -, hno⟩ := h
  obtain ⟨hcs', ⟨d, hd⟩, -⟩ := h'
  by_contra hlt
  have hp : pre ++ [c] <+: cs := ⟨post, by rw [hcs, List.append_assoc, List.singleton_append]⟩
  have hp' : pre' <+: cs := ⟨c' :: post', hcs'.symm⟩
  have hlen : (pre ++ [c]).length ≤ pre'.length := by
    rw [List.length_append, List.length_singleton]
    omega
  obtain ⟨rest, rfl⟩ := List.prefix_of_prefix_length_le hp hp' hlen
  obtain ⟨g, hg, -⟩ := View.leads_append.mp hd
  exact hno g hg

/-- **Only one name is the first that fails.** -/
lemma View.FailsAt.unique (h : v.FailsAt cs pre c post) (h' : v.FailsAt cs pre' c' post') :
    pre = pre' ∧ c = c' ∧ post = post' := by
  have hlen := le_antisymm (h'.prefix_le h) (h.prefix_le h')
  have heq : pre ++ c :: post = pre' ++ c' :: post' := h.1.symm.trans h'.1
  obtain ⟨hpre, hrest⟩ := List.append_inj heq hlen
  obtain ⟨hc, hpost⟩ := List.cons.inj hrest
  exact ⟨hpre, hc, hpost⟩

/-- A walk that finds a file. -/
lemma View.IsTree.resolves_found (ht : v.IsTree) (hf : v.Leads .root cs f) {dir : Option FileRef}
    (hdir : ∀ d, dir = some d ↔ cs ≠ [] ∧ v.Leads .root cs.dropLast d) :
    v.Resolves cs ⟨none, dir, some f, none⟩ where
  found := ⟨fun _ => ⟨f, hf⟩, fun _ => rfl⟩
  file _ := ⟨fun h => Option.some.inj h ▸ hf, fun hg => congrArg some (ht.leads_unique hf hg)⟩
  dir _ := hdir
  badPath := ⟨nofun, fun ⟨_, _, _, hfail, _⟩ => absurd hf hfail.not_leads⟩
  notFound := ⟨nofun, fun ⟨_, _, _, hfail, _⟩ => absurd hf hfail.not_leads⟩
  missing _ _ _ hfail := absurd hf hfail.not_leads

/-- A walk that stops at the first name that leads nowhere. -/
lemma View.FailsAt.resolves (h : v.FailsAt cs pre c post) {e : FsErr} {dir : Option FileRef}
    {elem : Option (List Byte)}
    (he : e = .badPath ∧ MAXNAMELEN ≤ c.length ∨ e = .notFound ∧ c.length < MAXNAMELEN)
    (hmiss : ∀ d, post = [] → c.length < MAXNAMELEN → v.Leads .root pre d → v.IsDir d →
      dir = some d ∧ elem = some c) :
    v.Resolves cs ⟨some e, dir, none, elem⟩ where
  found := ⟨nofun, fun ⟨_, hf⟩ => absurd hf h.not_leads⟩
  file _ := ⟨nofun, fun hf => absurd hf h.not_leads⟩
  dir := nofun
  badPath := by
    constructor
    · rintro ⟨⟩
      exact ⟨pre, c, post, h, (he.resolve_right fun hn => nomatch hn.1).2⟩
    · rintro ⟨_, _, _, h', hlen⟩
      obtain ⟨-, rfl, -⟩ := h.unique h'
      exact congrArg some (he.resolve_right fun hn => absurd hn.2 (not_lt.mpr hlen)).1
  notFound := by
    constructor
    · rintro ⟨⟩
      exact ⟨pre, c, post, h, (he.resolve_left fun hn => nomatch hn.1).2⟩
    · rintro ⟨_, _, _, h', hlen⟩
      obtain ⟨-, rfl, -⟩ := h.unique h'
      exact congrArg some (he.resolve_left fun hn => absurd hlen (not_lt.mpr hn.2)).1
  missing _ _ d hfail hlen hd hdir := by
    obtain ⟨rfl, rfl, hpost⟩ := h.unique hfail
    exact hmiss d hpost hlen hd hdir

end

/-! ## Looking up a name in a tree -/

section

variable {O : Set FileRef} {s s' : Server} {v : View} {f g d : FileRef} {c : List Byte} {i n : ℕ}
variable {pre : List (List Byte)} {E : FsErr → Server → Prop}

/-- A block that is there is found, and nothing is allocated. -/
lemma Server.Sound.wp_fileGetBlock_filled (h : s.Sound O) (hf : s.view.Live O f)
    (hm : (s.cache f.block).isSome) (hn : n < NINDIRECT) (hne : s.view.num f (.of n) ≠ 0) :
    wp (fileGetBlock f n) s
      (fun b s' => b = s.view.num f (.of n) ∧ s.Becomes s.view s' ∧ s.Keeps s' ∧
        (s'.cache b).isSome) E Panic.Memory := by
  have hhas := hasSlot_of_num_ne_zero hne
  rw [fileGetBlock, wp_bind, fileMapBlock, wp_bind]
  refine (h.wp_fileBlockWalk hf hm true fun _ hnot => absurd hhas hnot).mono ?_
    (fun _ _ he => absurd hhas (he.2.2.1 hn)) fun _ hp => hp
  rintro ptr s₁ ⟨-, hr, hk, hlive, hhas₁, rfl, hmap, ⟨-, hview⟩ | ⟨-, hnot, -⟩⟩
  swap
  · exact absurd hhas hnot
  have h₁ := h.runs hr
  have hne₁ : s₁.view.num f (.of n) ≠ 0 := by rwa [hview]
  rw [wp_bind]
  refine (h₁.wp_fillSlot hlive hhas₁ hmap true).mono ?_ (fun _ _ he => absurd he.1 hne₁)
    fun _ hp => hp
  rintro - s₂ (⟨-, rfl⟩ | ⟨-, hempty, -⟩)
  swap
  · exact absurd hempty hne₁
  rw [wp_bind, wp_loadWord hmap, wp_pure, ← num_eq hhas₁, wp_bind]
  obtain ⟨-, hlt, hused⟩ := h₁.own.range f _ hlive (Slot.data_of hn).ok hne₁
  refine (wp_readBlock (P := Panic.Memory) h₁.started hlt hused rfl).mono ?_ (fun _ _ he => he)
    fun _ hp => hp
  rintro - s₃ ⟨hbec, hmap₃, hcache⟩
  rw [wp_pure]
  refine ⟨by rw [hview], ?_, ?_, hmap₃⟩
  · have hbec₁ := hr.becomes.trans hbec
    rwa [hview] at hbec₁
  · exact hk.trans (keeps_of_cache hbec.view hused hcache) (hr.edits.nblocks h.own)

lemma findEntry_none {blk : Block} {name : List Byte} {j : ℕ} (h : findEntry blk name i n = none)
    (hj : i ≤ j) (hlt : j < i + n) : blk.strEq (256 * j) name = false := by
  induction n generalizing i with
  | zero => exact absurd hj (by omega)
  | succ n ih =>
      rw [findEntry] at h
      split_ifs at h with heq
      rcases Nat.eq_or_lt_of_le hj with rfl | hj
      · exact Bool.eq_false_of_not_eq_true heq
      · exact ih h hj (by omega)

lemma strEq_entry {b j : ℕ} (hc : IsString c) (hlen : c.length < MAXNAMELEN) :
    (v b).strEq (256 * j) c = true ↔ v.name (.entry b j) = c := by
  rw [strEq_iff hc hlen, View.name, FileRef.entry, show 4 * (64 * j) = 256 * j by omega]

/-- What looking up a name in a directory of a tree is to do: it finds the entry, which is opened
and gets a pointer to the directory. -/
structure Server.LooksUp (O : Set FileRef) (s : Server) (d : FileRef) (c : List Byte) (g : FileRef)
    (s' : Server) : Prop where
  holds : s.view.Holds d c g
  sound : s'.Sound (insert g O)
  same : SameTree s.view s'.view
  keeps : s.Keeps s'

/-- The pointer to the parent is stored in an entry that is found. -/
lemma Server.Sound.wp_storeParent_holds (h : s.Sound O) (hO : d = .root ∨ d ∈ O)
    (hd : s.view.Live ∅ d) (hdir : s.view.IsDir d) (hc : c ≠ []) (hfill : s.view.Filled d)
    (hg : s.view.Holds d c g) (hm : (s.cache g.block).isSome) :
    wp (storeField g F_DIR d.addr) s (fun _ s' => s.LooksUp O d c g s') E Panic.Memory := by
  have hd' := hd.mono (Set.empty_subset O)
  have hg₀ := hg.live hd hdir hc hfill
  have hg' := hg₀.mono (Set.empty_subset O)
  have hbec : s.Becomes (s.view.store g.block (g.word + F_DIR) d.addr) _ :=
    becomes_store (i := g.word + F_DIR) d.addr
  have hagree := h.own.agree_field hg' (k := F_DIR) (by decide) (by decide) d.addr
  have hshrinks := h.own.shrinks_field hg' (k := F_DIR) (by decide) (by decide) d.addr
  have hentry : s.view.Entry O d g := by
    obtain ⟨i, hi, j, -, rfl, -⟩ := hg
    exact ⟨hO, hd', hdir, .of i, Slot.data_of (hfill i hi).1, rfl⟩
  have hroot : g ≠ .root := by
    rintro rfl
    obtain ⟨sl, hsl, heq⟩ := hentry.block
    have h2 := @two_le_lastReserved s.view
    have hgt := (h.own.range d sl hd' hsl.ok (heq.trans_ne (by decide))).1
    have h1 : s.view.num d sl = 1 := heq
    omega
  have hr := hbec.runs (.single (.parent hg' hroot hentry))
  have hview := hbec.view
  have hlive := hagree.live.mpr hg'
  rw [storeField, wp_storeWord hm]
  refine ⟨hg, Server.Sound.insert (d := d) (h.runs hr) (hview ▸ hlive) (hbec.mapped _ hm) ?_ ?_, ?_,
    h.keeps_field hg' F_DIR d.addr⟩
  · rw [hview]
    exact h.own.entry_shrink hshrinks hlive hroot hentry
  · rw [hview, field, store_apply, if_pos ⟨rfl, rfl⟩]
  · rw [hview]
    exact h.own.named.sameTree_parent hg₀ _

/-- **The loop of `dir_lookup` in a tree**: it goes through all entries. -/
lemma Server.Sound.wp_dirLookupFrom_tree (h : s.Sound O) (hO : d = .root ∨ d ∈ O)
    (hd : s.view.Live ∅ d) (hdir : s.view.IsDir d) (hfill : s.view.Filled d) (hstr : IsString c)
    (hc : c ≠ []) (hlen : c.length < MAXNAMELEN)
    (hle : i + n = (s.view.field d F_SIZE).toNat / BY2BLK)
    (hbefore : ∀ k < i, ∀ j < FILE2BLK, s.view.name (.entry (s.view.num d (.of k)) j) ≠ c) :
    wp (dirLookupFrom d c i n) s (fun g s' => s.LooksUp O d c g s')
      (fun e s' => e = .notFound ∧ (∀ g, ¬ s.view.Holds d c g) ∧ s'.Sound O ∧ s'.view = s.view ∧
        s.Keeps s')
      Panic.Memory := by
  induction n generalizing i s with
  | zero =>
      rw [dirLookupFrom, wp_exit]
      refine ⟨rfl, ?_, h, rfl, .refl⟩
      rintro g ⟨k, hk, j, hj, rfl, hname⟩
      exact hbefore k (by omega) j hj hname
  | succ n ih =>
      obtain ⟨hlt, hne⟩ := hfill i (by omega)
      rw [dirLookupFrom, wp_bind]
      refine (h.wp_fileGetBlock_filled (hd.mono (Set.empty_subset O)) (h.mapped hO) hlt hne).mono ?_
        (fun _ _ he => he) fun _ hp => hp
      rintro b s₁ ⟨rfl, hbec, hk, hm⟩
      have hview := hbec.view
      have hn₁ : s₁.view.nblocks = s.view.nblocks := by rw [hview]
      have h₁ : s₁.Sound O := h.runs hbec.runs_same
      rw [wp_bind, wp_loadBlock hm, hview]
      cases hfind : findEntry (s.view (s.view.num d (.of i))) c 0 FILE2BLK with
      | none =>
          have hnot : ∀ j < FILE2BLK, s.view.name (.entry (s.view.num d (.of i)) j) ≠ c := by
            intro j hj hname
            have hfalse := findEntry_none hfind (Nat.zero_le j) (by omega)
            rw [(strEq_entry hstr hlen).mpr hname] at hfalse
            exact absurd hfalse (by decide)
          refine (ih (i := i + 1) h₁ (hview ▸ hd) (hview ▸ hdir) (hview ▸ hfill)
            (by rw [hview]; omega) ?_).mono ?_ ?_ fun _ hp => hp
          · rw [hview]
            intro k hk
            rcases Nat.lt_succ_iff_lt_or_eq.mp hk with hk | rfl
            · exact hbefore k hk
            · exact hnot
          · rintro g s₂ ⟨hg, hs, hsame, hk₂⟩
            rw [hview] at hg hsame
            exact ⟨hg, hs, hsame, hk.trans hk₂ hn₁⟩
          · rintro e s₂ ⟨he, hno, hs, hview₂, hk₂⟩
            rw [hview] at hno hview₂
            exact ⟨he, hno, hs, hview₂, hk.trans hk₂ hn₁⟩
      | some j =>
          obtain ⟨hj, heq⟩ := findEntry_some hfind
          have hg : s₁.view.Holds d c (.entry (s.view.num d (.of i)) j) := by
            rw [hview]
            exact ⟨i, by omega, j, by omega, rfl, (strEq_entry hstr hlen).mp heq⟩
          rw [wp_bind]
          refine (h₁.wp_storeParent_holds hO (hview ▸ hd) (hview ▸ hdir) hc
            (hview ▸ hfill) hg hm).mono
            ?_ (fun _ _ he => he) fun _ hp => hp
          rintro - s₂ ⟨hg₂, hs, hsame, hk₂⟩
          rw [hview] at hg₂ hsame
          rw [wp_pure]
          exact ⟨hg₂, hs, hsame, hk.trans hk₂ hn₁⟩

lemma Server.Sound.wp_dirLookup_tree (h : s.Sound O) (hO : d = .root ∨ d ∈ O)
    (hd : s.view.Live ∅ d) (hdir : s.view.IsDir d) (hfill : s.view.Filled d) (hstr : IsString c)
    (hc : c ≠ []) (hlen : c.length < MAXNAMELEN) :
    wp (dirLookup d c) s (fun g s' => s.LooksUp O d c g s')
      (fun e s' => e = .notFound ∧ (∀ g, ¬ s.view.Holds d c g) ∧ s'.Sound O ∧ s'.view = s.view ∧
        s.Keeps s')
      Panic.Memory := by
  rw [dirLookup, wp_bind, loadField, wp_loadWord (h.mapped hO)]
  exact h.wp_dirLookupFrom_tree hO hd hdir hfill hstr hc hlen (Nat.zero_add _)
    fun k hk => absurd hk (Nat.not_lt_zero k)

end

/-! ## The walk with its buffer -/

/-- `name[i] = c`; there is no such byte behind the buffer. -/
def putName (name : ℕ → Byte) (i : ℕ) (c : Byte) : Option (ℕ → Byte) :=
  if i < MAXNAMELEN then some (Function.update name i c) else none

/-- `memcpy(name + i, p, path - p)` and the zero byte behind it. -/
def copyName (name : ℕ → Byte) : ℕ → List Byte → Option (ℕ → Byte)
  | i, [] => putName name i 0#8
  | i, c :: str => do copyName (← putName name i c) (i + 1) str

/-- The string in the buffer from byte `i` on, which has `n` more bytes. -/
def nameStr (name : ℕ → Byte) : (i n : ℕ) → List Byte
  | _, 0 => []
  | i, n + 1 => if name i = 0#8 then [] else name i :: nameStr name (i + 1) n

/-- The loop of `walk_path`, which looks up the string in the buffer; `none` if the buffer is
overrun. -/
def walkFromIn : (name : ℕ → Byte) → ℕ → List Byte → (dir : Option FileRef) → (file : FileRef) →
    FsM (Option Walk)
  | _, 0, _, dir, file => pure (some ⟨none, dir, some file, none⟩)
  | name, n + 1, path, dir, file =>
      if path = [] then pure (some ⟨none, dir, some file, none⟩)
      else do
        let piece := path.takeWhile (· ≠ slash)
        let rest := skipSlash (path.dropWhile (· ≠ slash))
        if MAXNAMELEN ≤ piece.length then pure (some ⟨some .badPath, none, none, none⟩)
        else match copyName name 0 piece with
          | none => pure none
          | some name => do
              if (← loadField file F_TYPE) ≠ FTYPE_DIR then
                pure (some ⟨some .notFound, none, none, none⟩)
              else
                let str := nameStr name 0 MAXNAMELEN
                match ← attempt (dirLookup file str) with
                | .ok f => walkFromIn name n rest (some file) f
                | .error e =>
                    if e = .notFound ∧ rest = [] then
                      pure (some ⟨some e, some file, none, some str⟩)
                    else pure (some ⟨some e, none, none, none⟩)

/-- `walk_path`; `name` is what the buffer holds before. -/
def walkPathIn (name : ℕ → Byte) (path : List Byte) : FsM (Option Walk) :=
  walkFromIn name (skipSlash path).length (skipSlash path) none .root

lemma answered_walkPathIn (name : ℕ → Byte) (path : List Byte) :
    Answered (walkPathIn name path) := by
  have hfrom : ∀ n name path dir file, Answered (walkFromIn name n path dir file) := by
    intro n
    induction n with
    | zero => exact fun _ _ _ _ => .pure _
    | succ n ih =>
        intro name path dir file
        refine .ite (.pure _) (.ite (.pure _) ?_)
        cases copyName name 0 (path.takeWhile (· ≠ slash)) with
        | none => exact .pure _
        | some name =>
            refine .bind (answered_loadWord _ _) fun _ =>
              .ite (.pure _) (.bind (.attempt (answered_dirLookup _ _)) fun r => ?_)
            cases r with
            | ok f => exact ih _ _ _ f
            | error e => exact .ite (.pure _) (.pure _)
  exact hfrom _ _ _ _ _

section

variable {name : ℕ → Byte} {path c : List Byte} {i n : ℕ}

/-- A string that fits is copied, and is what is in the buffer then. -/
lemma copyName_eq (hstr : IsString c) (hlen : i + c.length < MAXNAMELEN) :
    ∃ name', copyName name i c = some name' ∧ (∀ k < i, name' k = name k) ∧
      ∀ n, c.length < n → nameStr name' i n = c := by
  induction c generalizing i name with
  | nil =>
      refine ⟨_, if_pos hlen, fun k hk => Function.update_of_ne (Nat.ne_of_lt hk) _ _, ?_⟩
      intro n hn
      obtain ⟨n, rfl⟩ := Nat.exists_eq_add_one_of_ne_zero (Nat.ne_of_gt hn)
      rw [nameStr, Function.update_self, if_pos rfl]
  | cons a c ih =>
      have ha : a ≠ 0#8 := fun h0 => hstr (h0 ▸ List.mem_cons_self)
      have hrest : IsString c := fun hm => hstr (List.mem_cons_of_mem a hm)
      rw [List.length_cons] at hlen
      obtain ⟨name', hcopy, hbefore, hread⟩ :=
        @ih (Function.update name i a) (i + 1) hrest (by omega)
      have hput : putName name i a = some (Function.update name i a) := if_pos (by omega)
      have hi : name' i = a := (hbefore i (Nat.lt_succ_self i)).trans (Function.update_self _ _ _)
      refine ⟨name', ?_, fun k hk => ?_, fun n hn => ?_⟩
      · rw [copyName, hput]
        exact hcopy
      · rw [hbefore k (by omega), Function.update_of_ne (by omega)]
      · obtain ⟨n, rfl⟩ := Nat.exists_eq_add_one_of_ne_zero (Nat.ne_of_gt (Nat.zero_lt_of_lt hn))
        rw [nameStr, hi, if_neg ha, hread n (Nat.lt_of_succ_lt_succ hn)]

/-- **The buffer is never overrun**: with a string for a path, the walk is the one of `walkFrom`. -/
lemma wp_walkFromIn {s : Server} {Q : Walk → Server → Prop} {E : FsErr → Server → Prop}
    {P : Panic → Prop} {dir : Option FileRef} {f : FileRef} (hstr : IsString path)
    (h : wp (walkFrom n path dir f) s Q E P) :
    wp (walkFromIn name n path dir f) s (fun r s' => ∃ w, r = some w ∧ Q w s') E P := by
  induction n generalizing name path dir f s with
  | zero => exact ⟨_, rfl, h⟩
  | succ n ih =>
      rw [walkFrom, wp_ite] at h
      rw [walkFromIn, wp_ite]
      refine ⟨fun hnil => ⟨_, rfl, h.1 hnil⟩, fun hne => ?_⟩
      have h := h.2 hne
      rw [wp_ite] at h ⊢
      refine ⟨fun hlong => ⟨_, rfl, h.1 hlong⟩, fun hlong => ?_⟩
      have h := h.2 hlong
      have hpiece : IsString (path.takeWhile (· ≠ slash)) :=
        fun hm => hstr ((List.takeWhile_prefix _).subset hm)
      have hrest : IsString (path.dropWhile (· ≠ slash)) :=
        fun hm => hstr ((List.dropWhile_suffix _).subset hm)
      obtain ⟨name', hcopy, -, hread⟩ := @copyName_eq name _ 0 hpiece (by omega)
      rw [hcopy]
      simp only [hread MAXNAMELEN (not_le.mp hlong)]
      rw [wp_bind] at h ⊢
      refine h.mono (fun type s₁ h => ?_) (fun _ _ he => he) fun _ hp => hp
      rw [wp_ite] at h ⊢
      refine ⟨fun hreg => ⟨_, rfl, h.1 hreg⟩, fun hdir => ?_⟩
      have h := h.2 hdir
      rw [wp_bind] at h ⊢
      refine h.mono (fun r s₂ h => ?_) (fun _ _ he => he) fun _ hp => hp
      cases r with
      | ok g => exact ih (isString_skipSlash hrest) h
      | error e =>
          rw [wp_ite] at h ⊢
          exact ⟨fun hmiss => ⟨_, rfl, h.1 hmiss⟩, fun hmiss => ⟨_, rfl, h.2 hmiss⟩⟩

end

/-! ## The walk resolves the pieces -/

section

variable {O : Set FileRef} {s : Server} {v : View} {f : FileRef} {path : List Byte} {n : ℕ}
variable {pre : List (List Byte)} {E : FsErr → Server → Prop} {dir : Option FileRef}

/-- A rest of a path that starts with a piece starts with it. -/
lemma takeWhile_ne_nil (hne : path ≠ []) (hslash : ∀ c rest, path = c :: rest → c ≠ slash) :
    path.takeWhile (· ≠ slash) ≠ [] := by
  obtain ⟨c, rest, rfl⟩ := List.exists_cons_of_ne_nil hne
  rw [List.takeWhile_cons_of_pos (by simpa using hslash c rest rfl)]
  exact List.cons_ne_nil _ _

/-- The files of the server are those of `v`, and the file that a walk has come to is open; and so
is the directory in which the last name is missing. -/
def Server.Comes (v : View) (cs : List (List Byte)) (w : Walk) (s' : Server) : Prop :=
  SameTree v s'.view ∧ ∃ O', s'.Sound O' ∧ (∀ f, w.file = some f → f = .root ∨ f ∈ O') ∧
    ∀ d, w.err ≠ none → w.dir = some d → (d = .root ∨ d ∈ O') ∧ ∃ c, v.Lacks cs d c

/-- **The loop of `walk_path` in a tree.**  The names `pre` have led to `f`, and the pieces of the
path are left. -/
lemma Server.Sound.wp_walkFrom_tree (h : s.Sound O) (ht : v.IsTree) (hsame : SameTree v s.view)
    (hO : f = .root ∨ f ∈ O) (hf : v.Leads .root pre f)
    (hdir : ∀ d, dir = some d ↔ pre ≠ [] ∧ v.Leads .root pre.dropLast d) (hstr : IsString path)
    (hslash : ∀ c rest, path = c :: rest → c ≠ slash) (hn : path.length ≤ n) :
    wp (walkFrom n path dir f) s (fun w s' => v.Resolves (pre ++ pieces path) w ∧ s.Keeps s' ∧
      s'.Comes v (pre ++ pieces path) w) E Panic.Memory := by
  induction n generalizing path dir f s O pre with
  | zero =>
      obtain rfl := List.length_eq_zero_iff.mp (Nat.le_zero.mp hn)
      rw [walkFrom, wp_pure, pieces_nil, List.append_nil]
      exact ⟨ht.resolves_found hf hdir, .refl, hsame, O, h,
        fun g hg => Option.some.inj hg ▸ hO, fun _ hnone => absurd rfl hnone⟩
  | succ n ih =>
      rw [walkFrom, wp_ite]
      refine ⟨fun hnil => ?_, fun hne => ?_⟩
      · rw [hnil, wp_pure, pieces_nil, List.append_nil]
        exact ⟨ht.resolves_found hf hdir, .refl, hsame, O, h,
        fun g hg => Option.some.inj hg ▸ hO, fun _ hnone => absurd rfl hnone⟩
      have hpiece := takeWhile_ne_nil hne hslash
      have hstr₁ : IsString (path.takeWhile (· ≠ slash)) :=
        fun hm => hstr ((List.takeWhile_prefix _).subset hm)
      have hstr₂ : IsString (path.dropWhile (· ≠ slash)) :=
        fun hm => hstr ((List.dropWhile_suffix _).subset hm)
      have hsplit : (path.takeWhile (· ≠ slash)).length + (path.dropWhile (· ≠ slash)).length =
          path.length := by
        rw [← List.length_append, List.takeWhile_append_dropWhile]
      have hrest := @length_skipSlash_le (path.dropWhile (· ≠ slash))
      rw [pieces_eq hpiece]
      have hslash' := fun c rest => @skipSlash_head (path.dropWhile (· ≠ slash)) rest c
      generalize path.takeWhile (· ≠ slash) = c at hpiece hstr₁ hsplit ⊢
      have hrest' := isString_skipSlash hstr₂
      generalize skipSlash (path.dropWhile (· ≠ slash)) = rest at hrest hrest' hslash' ⊢
      have hc0 := List.length_pos_iff.mpr hpiece
      -- what the piece leads to is what the file holds under it
      have hone : ∀ g, v.Leads .root (pre ++ [c]) g ↔ v.IsDir f ∧ v.Holds f c g := by
        intro g
        rw [View.leads_concat]
        constructor
        · rintro ⟨d, hd, hdir, -, hg⟩
          obtain rfl := ht.leads_unique hd hf
          exact ⟨hdir, hg⟩
        · rintro ⟨hdir, hg⟩
          exact ⟨f, hf, hdir, hpiece, hg⟩
      have hlive : v.Live ∅ f := ht.live hf
      have hisDir := hsame.isDir hlive
      rw [wp_ite]
      refine ⟨fun hlong => ?_, fun hlong => ?_⟩
      · rw [wp_pure]
        have hfail : v.FailsAt (pre ++ c :: pieces rest) pre c (pieces rest) := by
          refine ⟨rfl, ⟨f, hf⟩, fun g hg => ?_⟩
          obtain ⟨hd, hg⟩ := (hone g).mp hg
          exact absurd (ht.ends pre f c g hf hd hg) (not_lt.mpr hlong)
        exact ⟨hfail.resolves (.inl ⟨rfl, hlong⟩) fun d _ hlt => absurd hlong (not_le.mpr hlt),
          .refl, hsame, O, h, (by simp), (by simp)⟩
      have hshort := not_le.mp hlong
      rw [wp_bind, loadField, wp_loadWord (h.mapped hO), wp_ite]
      refine ⟨fun hreg => ?_, fun htype => ?_⟩
      · have hreg : ¬ v.IsDir f := fun hd => hreg (hisDir.mpr hd)
        have hfail : v.FailsAt (pre ++ c :: pieces rest) pre c (pieces rest) :=
          ⟨rfl, ⟨f, hf⟩, fun g hg => hreg ((hone g).mp hg).1⟩
        refine ⟨hfail.resolves (.inr ⟨rfl, hshort⟩) fun d _ _ hd hdir => ?_, .refl, hsame, O,
          h, (by simp), (by simp)⟩
        obtain rfl := ht.leads_unique hd hf
        exact absurd hdir hreg
      have hdirS : s.view.IsDir f := not_not.mp htype
      have hdirV := hisDir.mp hdirS
      have hfillV := ht.filled pre f hf hdirV
      rw [wp_bind, wp_attempt]
      refine (h.wp_dirLookup_tree hO ((hsame.live f).mpr hlive) hdirS
        ((hsame.filled hlive).mpr hfillV) hstr₁ hpiece hshort).mono ?_ ?_ fun _ hp => hp
      · rintro g s₁ ⟨hg, h₁, hsame₁, hk⟩
        have hg := (hsame.holds hlive hdirV hfillV).mp hg
        have hlead := (hone g).mpr ⟨hdirV, hg⟩
        have hpar : ∀ d, some f = some d ↔
            pre ++ [c] ≠ [] ∧ v.Leads .root (pre ++ [c]).dropLast d := by
          intro d
          rw [List.dropLast_concat]
          constructor
          · rintro ⟨⟩
            exact ⟨by simp, hf⟩
          · rintro ⟨-, hd⟩
            exact congrArg some (ht.leads_unique hf hd)
        have hnext := ih h₁ (hsame.trans hsame₁) (.inr (Set.mem_insert g O)) hlead hpar hrest'
          hslash' (by omega)
        rw [List.append_assoc, List.singleton_append] at hnext
        exact hnext.mono (fun _ _ hw => ⟨hw.1, hk.trans hw.2.1 hsame₁.nblocks, hw.2.2⟩)
          (fun _ _ he => he) fun _ hp => hp
      · rintro e s₁ ⟨rfl, hno, h₁, hview, hk⟩
        have hfail : v.FailsAt (pre ++ c :: pieces rest) pre c (pieces rest) := by
          refine ⟨rfl, ⟨f, hf⟩, fun g hg => hno g ?_⟩
          exact (hsame.holds hlive hdirV hfillV).mpr ((hone g).mp hg).2
        rw [wp_ite]
        refine ⟨fun hlast => ?_, fun hlast => ?_⟩
        · refine ⟨hfail.resolves (.inr ⟨rfl, hshort⟩) fun d _ _ hd _ => ?_, hk, hview ▸ hsame,
            O, h₁, (by simp), ?_⟩
          · exact ⟨congrArg some (ht.leads_unique hf hd), rfl⟩
          · rintro d - ⟨⟩
            rw [hlast.2, pieces_nil]
            refine ⟨hO, c, ⟨pre, rfl, hf⟩, hdirV, hshort, fun g hg => hno g ?_⟩
            exact (hsame.holds hlive hdirV hfillV).mpr hg
        · refine ⟨hfail.resolves (.inr ⟨rfl, hshort⟩) fun d hpost _ _ _ => ?_, hk,
            hview ▸ hsame, O, h₁, (by simp), (by simp)⟩
          -- the rest is not empty, and starts with a piece
          have hrest₀ : rest ≠ [] := fun hnil => hlast ⟨rfl, hnil⟩
          rw [pieces_eq (takeWhile_ne_nil hrest₀ hslash')] at hpost
          exact absurd hpost (List.cons_ne_nil _ _)

/-- A walk in a tree keeps the pages of the free blocks. -/
lemma Server.Sound.wp_walkPath_keeps (h : s.Sound O) (ht : s.view.IsTree) (hstr : IsString path) :
    wp (walkPath path) s (fun w s' => s.view.Resolves (pieces path) w ∧ s.Keeps s' ∧
      s'.Comes s.view (pieces path) w) E Panic.Memory := by
  have hwalk := h.wp_walkFrom_tree (E := E) (n := (skipSlash path).length) ht .refl
    (.inl rfl) (.nil .root) (fun d => ⟨(nofun : none = some d → _), fun hc => absurd rfl hc.1⟩)
      (isString_skipSlash hstr)
    (fun c rest => skipSlash_head) le_rfl
  rwa [pieces_skipSlash, List.nil_append] at hwalk

lemma Server.Sound.wp_walkPath_tree (h : s.Sound O) (ht : s.view.IsTree) (hstr : IsString path) :
    wp (walkPath path) s (fun w s' => s.view.Resolves (pieces path) w ∧
      s'.Comes s.view (pieces path) w) E Panic.Memory :=
  (h.wp_walkPath_keeps ht hstr).mono (fun _ _ hw => ⟨hw.1, hw.2.2⟩) (fun _ _ he => he)
    fun _ hp => hp

/-- **Path walking is component-wise resolution.**  On a well-formed tree `walk_path` resolves the
pieces of the path and never stores behind its buffer; all files and the bitmap stay as they are. -/
theorem walk_path_resolves (h : s.Sound O) (ht : s.view.IsTree) (hstr : IsString path)
    (name : ℕ → Byte) :
    wp (walkPathIn name path) s
      (fun r s' => ∃ w, r = some w ∧ s.view.Resolves (pieces path) w ∧ SameTree s.view s'.view)
      (fun _ _ => False) s.OutOfMemory := by
  refine (answered_walkPathIn name path).outOfMemory ?_
  have hwalk := @wp_walkFromIn name _ _ _ _ _ _ _ _ (isString_skipSlash hstr)
    (h.wp_walkPath_tree (E := fun _ _ => False) ht hstr)
  refine hwalk.mono ?_ (fun _ _ he => he) fun _ hp => hp
  rintro r s' ⟨w, rfl, hres, hsame, -⟩
  exact ⟨w, rfl, hres, hsame⟩

end

lemma treeChecks_oneFileDisk : oneFileDisk.backup.TreeChecks [.root] := by
  decide

/-- The path "//a/" on a disk with the file "a". -/
theorem walk_path_resolves_oneFile : ∃ s : Server, s.view = oneFileDisk.backup ∧
    wp (walkPathIn (fun _ => 0#8) [slash, slash, 0x61#8, slash]) s
      (fun r s' => ∃ w, r = some w ∧ s.view.Resolves (pieces [slash, slash, 0x61#8, slash]) w ∧
        SameTree s.view s'.view)
      (fun _ _ => False) s.OutOfMemory := by
  obtain ⟨s, hs, hview, -⟩ := wellFormed_oneFileDisk.exists_sound
  have ht : s.view.IsTree := hview ▸ treeChecks_oneFileDisk.isTree
  exact ⟨s, hview, walk_path_resolves hs ht (by rw [IsString]; decide) _⟩

end MosRv.Fs
