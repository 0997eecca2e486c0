import MosRv.Fs.Server
import MosRv.Lib.Reach
import MosRv.User.Space

/-!
# The open-file table (`fs/serv.c`)

The server tells whether an entry of `opentab` is in use from the reference count of its Filefd
page: a page that only the server maps belongs to no open file any more.  A file id is the number of
the entry, plus `MAXOPEN` for each time the entry has been taken.

The pages are those of `Spaces`, so the mappings of clients are what they are whoever makes them:
`serve_open` gives the page to the client that asks, and clients map and unmap it.  `history` keeps,
along a run, which ids have been issued, for which files, and which of them some client has mapped
ever since.

`fileids_right` says for which ids `open_lookup` is right: all but the ids that the table starts
with, as long as their entry has never been taken.  No page is mapped there, the count is 0, and
`open_lookup` only refuses a count of 1.
-/

namespace MosRv.Fs

open Prog Reach

/-! ## The table -/

def MAXOPEN : ℕ := 1024
def FILEVA : Word := 0x60000000
def O_RDONLY : Word := 0x0000#32
def O_WRONLY : Word := 0x0001#32
def O_RDWR : Word := 0x0002#32
def O_ACCMODE : Word := 0x0003#32

/-- The environment of the server: `envs[1]`. -/
def SERVER : ℕ := 1

/-- `struct Open`, but for `o_ff`, which is `offVa`.  `F` are the files. -/
structure OpenFile (F : Type) where
  oFile : Option F
  oFileid : Word
  oMode : Word

/-- `opentab[i].o_ff`. -/
def offVa (i : ℕ) : Word := FILEVA + BitVec.ofNat 32 (i * 4096)

/-- The page number of `opentab[i].o_ff`. -/
def offPage (i : ℕ) : ℕ := 0x60000 + i

structure Serv (F : Type) where
  spaces : Spaces
  opentab : ℕ → OpenFile F

abbrev ServM (F : Type) := Prog FsErr Panic (Serv F)

section

variable {F : Type}

/-- `pageref(opentab[i].o_ff)`. -/
def Serv.pageref (s : Serv F) (i : ℕ) : BitVec 16 := s.spaces.pageref SERVER (offVa i)

/-- The page at `opentab[i].o_ff`. -/
def Serv.ffPage (s : Serv F) (i : ℕ) : Option ℕ := s.spaces.target (SERVER, offPage i)

/-- The loop of `open_alloc` from entry `i` on, with `n` entries to go: the entry that it stops at.
-/
def Serv.availableFrom (s : Serv F) : (i n : ℕ) → Option ℕ
  | _, 0 => none
  | i, n + 1 =>
      if s.pageref i = 0#16 ∨ s.pageref i = 1#16 then some i else s.availableFrom (i + 1) n

@[irreducible] def Serv.available (s : Serv F) : Option ℕ := s.availableFrom 0 MAXOPEN

def modifyOpen (i : ℕ) (f : OpenFile F → OpenFile F) : ServM F Unit :=
  modify fun s => { s with opentab := Function.update s.opentab i (f (s.opentab i)) }

/-- `page` is the page that the kernel allocates, if it has one. -/
def openAlloc (page : Option ℕ) : ServM F ℕ := do
  let s ← get
  match s.available with
  | none => exit .maxOpen
  | some i => do
      if s.pageref i = 0#16 then
        match page with
        | none => exit .noMem
        | some p => modify fun s =>
            { s with spaces := s.spaces.memAlloc SERVER (offVa i) p (PTE_W ||| PTE_LIBRARY) }
      else pure ()
      modifyOpen i fun o => { o with oFileid := o.oFileid + BitVec.ofNat 32 MAXOPEN }
      pure i

def openLookup (fileid : Word) : ServM F ℕ := do
  let s ← get
  let i := fileid.toNat % MAXOPEN
  if s.pageref i = 1#16 ∨ (s.opentab i).oFileid ≠ fileid then exit .inval else pure i

/-- `serve_open`; `file` is what `file_open` answers.  The result is the entry whose page is sent to
the client, if the request succeeds. -/
def Serv.serveOpen (mode : Word) (page : Option ℕ) (file : Except FsErr F) :
    ServM F (Option ℕ) := do
  match ← attempt (openAlloc page) with
  | .error _ => pure none
  | .ok i => do
      let s ← get
      -- `open_alloc` returns the id as an `int`
      if (s.opentab i).oFileid.msb then pure none
      else match file with
        | .error _ => pure none
        | .ok f => do
            modifyOpen i fun o => { o with oFile := some f, oMode := mode }
            pure (some i)

/-- `serve_init`: the ids are the numbers of the entries, and no page is mapped at any `o_ff`. -/
structure Serv.Starts (s : Serv F) : Prop where
  spaces : ∀ i < MAXOPEN, s.spaces (SERVER, offPage i) = none
  opentab : ∀ i, s.opentab i = ⟨none, BitVec.ofNat 32 i, if i = 0 then 1#32 else 0#32⟩

/-! ## Runs -/

inductive OpenEvent (F : Type)
  /-- A request to open, by env `e`, which receives the reply at page `n`. -/
  | open_ (e n : ℕ) (mode : Word) (page : Option ℕ) (file : Except FsErr F)
  /-- A client maps or unmaps a page: `fork`, `dup`, `close`, `exit`, a page that it is sent. -/
  | client (e n : ℕ) (m : Option Mapping)
  /-- The server maps or unmaps another page: that of a request, or of the block cache. -/
  | server (n : ℕ) (m : Option Mapping)

/-- Some client maps the page. -/
def Serv.ClientMaps (s : Serv F) (p : ℕ) : Prop :=
  ∃ e n, e ≠ SERVER ∧ e < NENV ∧ n < 2 ^ 20 ∧ s.spaces.target (e, n) = some p

/-- The page is a Filefd page of the table. -/
def Serv.IsFilefd (s : Serv F) (p : ℕ) : Prop := ∃ i < MAXOPEN, s.ffPage i = some p

/-- The events that can occur.  The Filefd pages that there are to be mapped are those that some
client maps. -/
def OpenEvent.Enabled (s : Serv F) : OpenEvent F → Prop
  | .open_ e n _ page _ => (e ≠ SERVER ∧ e < NENV ∧ n < 2 ^ 20) ∧
      ∀ p, page = some p → s.spaces.refs p = 0
  | .client e n m => (e ≠ SERVER ∧ e < NENV ∧ n < 2 ^ 20) ∧
      ∀ m', m = some m' → s.IsFilefd m'.page → s.ClientMaps m'.page
  | .server n m => (n < 2 ^ 20 ∧ ∀ i < MAXOPEN, n ≠ offPage i) ∧
      ∀ m', m = some m' → s.IsFilefd m'.page → s.ClientMaps m'.page

def Serv.setMapping (s : Serv F) (e n : ℕ) (m : Option Mapping) : Serv F :=
  { s with spaces := Function.update s.spaces (e, n) m }

/-- The mapping that the client gets. -/
def Serv.sendPage (s : Serv F) (e n i : ℕ) : Serv F :=
  s.setMapping e n ((s.ffPage i).map fun p =>
    ⟨p, pteBits (entryFlags (PTE_W ||| PTE_LIBRARY ||| PTE_U))⟩)

def OpenEvent.exec (s : Serv F) : OpenEvent F → Option (Serv F)
  | .open_ e n mode page file =>
      match Serv.serveOpen mode page file s with
      | .ok (some i) s' => some (s'.sendPage e n i)
      | .ok none s' => some s'
      | _ => none
  | .client e n m => some (s.setMapping e n m)
  | .server n m => some (s.setMapping SERVER n m)

def Serv.Step (s : Serv F) (ev : OpenEvent F) (s' : Serv F) : Prop :=
  ev.Enabled s ∧ ev.exec s = some s'

/-- An open that succeeded. -/
structure Opened (F : Type) where
  fileid : Word
  slot : ℕ
  page : ℕ
  file : F

/-- The opens that succeeded, and those of them whose page some client has mapped ever since. -/
structure OpenHistory (F : Type) where
  issued : Set (Opened F)
  live : Set (Opened F)

/-- The open that an event is, if it succeeds. -/
def OpenEvent.Opens (s : Serv F) (r : Opened F) : OpenEvent F → Prop
  | .open_ _ _ mode page file => ∃ s', Serv.serveOpen mode page file s = .ok (some r.slot) s' ∧
      r.fileid = (s'.opentab r.slot).oFileid ∧ s'.ffPage r.slot = some r.page ∧ file = .ok r.file
  | _ => False

def history (s : Serv F) (ev : OpenEvent F) (s' : Serv F) (h : OpenHistory F) : OpenHistory F where
  issued := {r | r ∈ h.issued ∨ ev.Opens s r}
  live := {r | (r ∈ h.live ∨ ev.Opens s r) ∧ s'.ClientMaps r.page}

def Serv.Reaches (C : Serv F → OpenEvent F → Prop) : Serv F × OpenHistory F → Prop :=
  Reachable (fun x => x.1.Starts ∧ x.2 = ⟨∅, ∅⟩) (When (fun x => C x.1) (Tracked history Serv.Step))

/-- `open_lookup` returns 0. -/
def Serv.Accepts (s : Serv F) (fileid : Word) : Prop :=
  ∃ i, openLookup fileid s = .ok i s

/-- **The id resolves only to the file it was issued for.** -/
structure IdRight (x : Serv F × OpenHistory F) (fileid : Word) : Prop where
  accepts_iff : x.1.Accepts fileid ↔ ∃ r ∈ x.2.live, r.fileid = fileid
  file : ∀ i, openLookup fileid x.1 = .ok i x.1 → ∀ r ∈ x.2.live, r.fileid = fileid →
    (x.1.opentab i).oFile = some r.file
  gone : ∀ r ∈ x.2.issued, r ∉ x.2.live → r.fileid = fileid → ¬ x.1.Accepts fileid

/-- The id is the one that its entry starts with, and the entry has never been taken. -/
def Serv.Initial (s : Serv F) (fileid : Word) : Prop :=
  s.ffPage (fileid.toNat % MAXOPEN) = none ∧
    (s.opentab (fileid.toNat % MAXOPEN)).oFileid = fileid

/-- The ids stay positive `int`s, the counts fit in 16 bits, and no client sends a Filefd page as
the argument of a request. -/
def OpenEvent.Countable (s : Serv F) : OpenEvent F → Prop
  | .open_ _ _ _ _ _ => ∀ i, s.available = some i → (s.opentab i).oFileid.toNat + MAXOPEN < 2 ^ 31
  | .client _ _ m => ∀ m', m = some m' → s.spaces.refs m'.page < 2 ^ 16 - 1
  | .server _ m => ∀ m', m = some m' → ¬ s.IsFilefd m'.page

end

/-! ## What the requests do -/

section

variable {F : Type} {s s' : Serv F} {i p : ℕ} {page : Option ℕ} {mode fileid : Word}
  {file : Except FsErr F}

lemma offVa_toNat (hi : i < MAXOPEN) : (offVa i).toNat = 0x60000000 + i * 4096 := by
  change i < 1024 at hi
  rw [offVa, BitVec.toNat_add, BitVec.toNat_ofNat, show FILEVA.toNat = 0x60000000 by decide]
  omega

lemma pn_offVa (hi : i < MAXOPEN) : pn (offVa i) = offPage i := by
  rw [pn_eq, offVa_toNat hi, offPage]
  omega

lemma offPage_lt (hi : i < MAXOPEN) : offPage i < 2 ^ 20 := by
  change i < 1024 at hi
  rw [offPage]
  omega

lemma offPage_inj {j : ℕ} (h : offPage i = offPage j) : i = j := Nat.add_left_cancel h

/-- The count of the Filefd page. -/
lemma Serv.pageref_eq (hi : i < MAXOPEN) :
    s.pageref i = match s.ffPage i with
      | none => 0
      | some p => BitVec.ofNat 16 (s.spaces.refs p) := by
  rw [Serv.pageref, Spaces.pageref, pn_offVa hi, Serv.ffPage, Spaces.target]
  cases s.spaces (SERVER, offPage i) <;> rfl

/-- The state after `open_alloc` has taken entry `i`. -/
def Serv.taken (s : Serv F) (i : ℕ) (page : Option ℕ) : Serv F where
  spaces := match page with
    | some p => if s.pageref i = 0#16 then
        s.spaces.memAlloc SERVER (offVa i) p (PTE_W ||| PTE_LIBRARY) else s.spaces
    | none => s.spaces
  opentab := Function.update s.opentab i
    { s.opentab i with oFileid := (s.opentab i).oFileid + BitVec.ofNat 32 MAXOPEN }

lemma wp_openAlloc {Q : ℕ → Serv F → Prop} {E : FsErr → Serv F → Prop} {P : Panic → Prop} :
    wp (openAlloc page) s Q E P ↔
      match s.available with
      | none => E .maxOpen s
      | some i => if s.pageref i = 0#16 ∧
        page = none then E .noMem s else Q i (s.taken i page) := by
  rw [openAlloc, wp_bind, wp_get]
  cases hav : s.available with
  | none => exact Iff.rfl
  | some i =>
      by_cases h0 : s.pageref i = 0#16
      · cases page with
        | none => simp [h0]
        | some p => simp [h0, modifyOpen, Serv.taken]
      · cases page <;> simp [h0, modifyOpen, Serv.taken]

/-- What `serve_open` does. -/
inductive Serv.Opening (s : Serv F) (mode : Word) (page : Option ℕ) (file : Except FsErr F) :
    Option ℕ → Serv F → Prop
  | none : Opening s mode page file none s
  | failed {i : ℕ} (hav : s.available = some i) (hpage : s.pageref i = 0#16 → page ≠ none) :
      Opening s mode page file none (s.taken i page)
  | opened {i : ℕ} {f : F} (hav : s.available = some i) (hpage : s.pageref i = 0#16 → page ≠ none)
      (hfile : file = .ok f) :
      Opening s mode page file (some i) { s.taken i page with
        opentab := Function.update (s.taken i page).opentab i
          { (s.taken i page).opentab i with oFile := some f, oMode := mode } }

lemma Serv.wp_serveOpen {E : FsErr → Serv F → Prop} {P : Panic → Prop} :
    wp (Serv.serveOpen mode page file) s (fun r s' => s.Opening mode page file r s') E P := by
  rw [Serv.serveOpen, wp_bind, wp_attempt, wp_openAlloc]
  cases hav : s.available with
  | none => exact .none
  | some i =>
      dsimp only
      by_cases hno : s.pageref i = 0#16 ∧ page = none
      · rw [if_pos hno]
        exact .none
      · rw [if_neg hno]
        have hpage : s.pageref i = 0#16 → page ≠ none := fun h0 hp => hno ⟨h0, hp⟩
        rw [wp_bind, wp_get, wp_ite, wp_pure]
        refine ⟨fun _ => .failed hav hpage, fun _ => ?_⟩
        cases file with
        | error e => exact .failed hav hpage
        | ok f => exact .opened hav hpage rfl

/-- `open_lookup`, in one state. -/
lemma openLookup_eq_ok_iff :
    openLookup fileid s = .ok i s' ↔ s' = s ∧ i = fileid.toNat % MAXOPEN ∧
      s.pageref i ≠ 1#16 ∧ (s.opentab i).oFileid = fileid := by
  have hrun : openLookup fileid s =
      if s.pageref (fileid.toNat % MAXOPEN) = 1#16 ∨
        (s.opentab (fileid.toNat % MAXOPEN)).oFileid ≠ fileid then .exit .inval s
      else .ok (fileid.toNat % MAXOPEN) s := by
    change (if _ then _ else _ : ServM F ℕ) s = _
    split_ifs <;> rfl
  rw [hrun]
  split_ifs with hbad
  · refine iff_of_false nofun ?_
    rintro ⟨-, rfl, h1, hid⟩
    exact hbad.elim h1 fun hne => hne hid
  · rw [not_or, not_not] at hbad
    constructor
    · rintro ⟨⟩
      exact ⟨rfl, rfl, hbad⟩
    · rintro ⟨rfl, rfl, -⟩
      rfl

lemma Serv.accepts_iff : s.Accepts fileid ↔ s.pageref (fileid.toNat % MAXOPEN) ≠ 1#16 ∧
    (s.opentab (fileid.toNat % MAXOPEN)).oFileid = fileid := by
  constructor
  · rintro ⟨i, hi⟩
    obtain ⟨-, rfl, h⟩ := openLookup_eq_ok_iff.mp hi
    exact h
  · intro h
    exact ⟨_, openLookup_eq_ok_iff.mpr ⟨rfl, rfl, h⟩⟩

end

/-! ## The invariant -/

/-- **The invariant of the table.** -/
structure ServInv {F : Type} (s : Serv F) (h : OpenHistory F) : Prop where
  /-- The server has no other mapping of a Filefd page. -/
  alone : ∀ i < MAXOPEN, ∀ p, s.ffPage i = some p → ∀ n < 2 ^ 20,
    s.spaces.target (SERVER, n) = some p → n = offPage i
  small : ∀ i < MAXOPEN, ∀ p, s.ffPage i = some p → s.spaces.refs p < 2 ^ 16
  ids : ∀ i < MAXOPEN, (s.opentab i).oFileid.toNat % MAXOPEN = i
  issued : ∀ r ∈ h.issued, r.slot < MAXOPEN ∧ r.fileid.toNat % MAXOPEN = r.slot ∧
    r.fileid.toNat ≤ (s.opentab r.slot).oFileid.toNat ∧ s.ffPage r.slot ≠ none
  distinct : ∀ r ∈ h.issued, ∀ r' ∈ h.issued, r.fileid = r'.fileid → r = r'
  live : ∀ r ∈ h.live, r ∈ h.issued ∧ s.ffPage r.slot = some r.page ∧
    (s.opentab r.slot).oFileid = r.fileid ∧ (s.opentab r.slot).oFile = some r.file
  /-- The page of an entry is mapped by a client only for an open that is live. -/
  mapped : ∀ i < MAXOPEN, ∀ p, s.ffPage i = some p →
    (s.ClientMaps p ↔ ∃ r ∈ h.live, r.slot = i)

section

variable {F : Type} {s s' : Serv F} {h : OpenHistory F} {i p e n : ℕ} {page : Option ℕ}
  {mode fileid : Word} {file : Except FsErr F} {m : Option Mapping} {r : Opened F}

lemma Serv.mem_slots_off (hi : i < MAXOPEN) : (SERVER, offPage i) ∈ Spaces.slots :=
  Spaces.mem_slots.mpr ⟨(by decide : SERVER < NENV), offPage_lt hi⟩

namespace ServInv

/-- The count tells whether some client maps the page. -/
lemma pageref_eq_one_iff (h' : ServInv s h) (hi : i < MAXOPEN) (hp : s.ffPage i = some p) :
    s.pageref i = 1#16 ↔ ¬ s.ClientMaps p := by
  have hsmall := h'.small i hi p hp
  have hone : (s.spaces.refs p = 1) ↔ ¬ s.ClientMaps p := by
    have hmem := Serv.mem_slots_off hi
    constructor
    · rintro hcard ⟨e, n, he, helt, hn, ht⟩
      rw [Spaces.refs, RefGraph.refs, Finset.card_eq_one] at hcard
      obtain ⟨t, ht'⟩ := hcard
      have h₁ : (SERVER, offPage i) ∈ ({t} : Finset (ℕ × ℕ)) :=
        ht' ▸ Finset.mem_filter.mpr ⟨hmem, hp⟩
      have h₂ : (e, n) ∈ ({t} : Finset (ℕ × ℕ)) :=
        ht' ▸ Finset.mem_filter.mpr ⟨Spaces.mem_slots.mpr ⟨helt, hn⟩, ht⟩
      rw [Finset.mem_singleton] at h₁ h₂
      exact he (congrArg Prod.fst (h₂.trans h₁.symm))
    · intro hno
      rw [Spaces.refs, RefGraph.refs, Finset.card_eq_one]
      refine ⟨(SERVER, offPage i), Finset.ext fun t => ?_⟩
      rw [Finset.mem_filter, Finset.mem_singleton]
      constructor
      · rintro ⟨hmem', ht⟩
        by_cases hts : t.1 = SERVER
        · exact Prod.ext hts (h'.alone i hi p hp t.2 (Spaces.mem_slots.mp hmem').2 (hts ▸ ht))
        · have hlt := Spaces.mem_slots.mp hmem'
          exact absurd ⟨t.1, t.2, hts, hlt.1, hlt.2, ht⟩ hno
      · rintro rfl
        exact ⟨hmem, hp⟩
  rw [Serv.pageref_eq hi, hp, ← hone, ← BitVec.toNat_inj, BitVec.toNat_ofNat,
    Nat.mod_eq_of_lt hsmall]
  rfl

lemma pageref_ne_zero (h' : ServInv s h) (hi : i < MAXOPEN) (hp : s.ffPage i = some p) :
    s.pageref i ≠ 0#16 := by
  have hsmall := h'.small i hi p hp
  have hpos : 0 < s.spaces.refs p := RefGraph.refs_pos (Serv.mem_slots_off hi) hp
  rw [Serv.pageref_eq hi, hp, ← BitVec.toNat_inj.ne, BitVec.toNat_ofNat, Nat.mod_eq_of_lt hsmall]
  exact hpos.ne'

lemma pageref_none (hi : i < MAXOPEN) (hp : s.ffPage i = none) : s.pageref i = 0#16 := by
  rw [Serv.pageref_eq hi, hp]
  rfl

/-- The ids of an entry that has been taken are accepted as long as a client maps its page. -/
lemma idRight (h' : ServInv s h) (fileid : Word) :
    IdRight (s, h) fileid ↔ ¬ s.Initial fileid := by
  have hi : fileid.toNat % MAXOPEN < MAXOPEN := Nat.mod_lt _ (by decide)
  have hslot : ∀ r ∈ h.issued, r.fileid = fileid → r.slot = fileid.toNat % MAXOPEN := by
    rintro r hr rfl
    exact (h'.issued r hr).2.1.symm
  constructor
  · rintro hright ⟨hno, hid⟩
    have hacc : s.Accepts fileid := by
      refine Serv.accepts_iff.mpr ⟨?_, hid⟩
      rw [pageref_none hi hno]
      decide
    obtain ⟨r, hr, hrid⟩ := hright.accepts_iff.mp hacc
    obtain ⟨hissued, hpage, -⟩ := h'.live r hr
    rw [hslot r hissued hrid] at hpage
    exact absurd (hpage.symm.trans hno) nofun
  · intro hnot
    have hacc : s.Accepts fileid ↔ ∃ r ∈ h.live, r.fileid = fileid := by
      rw [Serv.accepts_iff]
      constructor
      · rintro ⟨hne, hid⟩
        obtain ⟨p, hp⟩ := Option.ne_none_iff_exists'.mp fun hno => hnot ⟨hno, hid⟩
        have hmaps : s.ClientMaps p := by
          by_contra hno
          exact hne ((h'.pageref_eq_one_iff hi hp).mpr hno)
        obtain ⟨r, hr, hrs⟩ := (h'.mapped _ hi p hp).mp hmaps
        refine ⟨r, hr, ?_⟩
        rw [← (h'.live r hr).2.2.1, hrs, hid]
      · rintro ⟨r, hr, hrid⟩
        obtain ⟨hissued, hpage, hid, -⟩ := h'.live r hr
        have hs := hslot r hissued hrid
        rw [hs] at hpage hid
        refine ⟨fun hone => ?_, hid.trans hrid⟩
        exact (h'.pageref_eq_one_iff hi hpage).mp hone ((h'.mapped _ hi _ hpage).mpr ⟨r, hr, hs⟩)
    refine ⟨hacc, ?_, ?_⟩
    · intro i hlook r hr hrid
      obtain ⟨-, rfl, -⟩ := openLookup_eq_ok_iff.mp hlook
      obtain ⟨hissued, -, -, hfile⟩ := h'.live r hr
      rwa [hslot r hissued hrid] at hfile
    · intro r hissued hdead hrid hok
      obtain ⟨r', hr', hrid'⟩ := hacc.mp hok
      exact hdead (h'.distinct r hissued r' (h'.live r' hr').1 (hrid.trans hrid'.symm) ▸ hr')

end ServInv

end

/-! ## One event -/

section

variable {F : Type} {s s' : Serv F} {h : OpenHistory F} {i p e n : ℕ} {page : Option ℕ}
  {mode fileid : Word} {file : Except FsErr F} {m : Option Mapping} {r : Opened F}

/-- The targets after a mapping has changed. -/
lemma Serv.target_setMapping (s : Serv F) (e n : ℕ) (m : Option Mapping) :
    (s.setMapping e n m).spaces.target =
      Function.update s.spaces.target (e, n) (m.map Mapping.page) := by
  funext t
  by_cases ht : t = (e, n)
  · subst ht
    simp [Serv.setMapping, Spaces.target]
  · simp [Serv.setMapping, Spaces.target, ht]

/-- A change of a mapping adds nothing to the count of another page than the one that is mapped … -/
lemma refs_le_of_target {S S' : Spaces} {t : ℕ × ℕ} {x : Option ℕ} {q : ℕ}
    (h : S'.target = Function.update S.target t x) (hne : x ≠ some q) : S'.refs q ≤ S.refs q := by
  rw [Spaces.refs, h]
  exact RefGraph.refs_update_le_of_ne hne

/-- … and at most one to that one's. -/
lemma refs_lt_of_target {S S' : Spaces} {t : ℕ × ℕ} {x : Option ℕ} {q k : ℕ}
    (h : S'.target = Function.update S.target t x) (hlt : S.refs q < k) : S'.refs q < k + 1 := by
  rw [Spaces.refs, h]
  exact RefGraph.refs_update_lt hlt

namespace ServInv

/-- A mapping of a client changes; `R` are opens whose pages are mapped by it. -/
lemma client {R : Set (Opened F)} (h' : ServInv s h) (he : e ≠ SERVER)
    (hsmall : ∀ m', m = some m' → s.spaces.refs m'.page < 2 ^ 16 - 1)
    (hR : ∀ r ∈ R, r.slot < MAXOPEN ∧ r.fileid.toNat % MAXOPEN = r.slot ∧
      s.ffPage r.slot = some r.page ∧ (s.opentab r.slot).oFileid = r.fileid ∧
      (s.opentab r.slot).oFile = some r.file ∧ (∀ r' ∈ h.issued, r'.fileid ≠ r.fileid) ∧
      (∀ r' ∈ R, r' = r) ∧ m.map Mapping.page = some r.page)
    (hm : ∀ i < MAXOPEN, ∀ p, s.ffPage i = some p → m.map Mapping.page = some p →
      s.ClientMaps p ∨ ∃ r ∈ R, r.slot = i) :
    ServInv (s.setMapping e n m) ⟨{r | r ∈ h.issued ∨ r ∈ R},
      {r | (r ∈ h.live ∨ r ∈ R) ∧ (s.setMapping e n m).ClientMaps r.page}⟩ := by
  have htarget := Serv.target_setMapping s e n m
  have hoff : ∀ i, (s.setMapping e n m).ffPage i = s.ffPage i := by
    intro i
    rw [Serv.ffPage, htarget, Function.update_of_ne]
    · rfl
    · exact fun hc => he (congrArg Prod.fst hc).symm
  refine ⟨fun i hi p hp n' hn' ht => ?_, fun i hi p hp => ?_, h'.ids, ?_, ?_, ?_,
    fun i hi p hp => ?_⟩
  · rw [htarget, Function.update_of_ne (fun hc => he (congrArg Prod.fst hc).symm)] at ht
    exact h'.alone i hi p (hoff i ▸ hp) n' hn' ht
  · by_cases hmp : m.map Mapping.page = some p
    · obtain ⟨m', rfl, rfl⟩ := Option.map_eq_some_iff.mp hmp
      exact refs_lt_of_target htarget (hsmall m' rfl)
    · exact (refs_le_of_target htarget hmp).trans_lt (h'.small i hi p (hoff i ▸ hp))
  · rintro r (hr | hr)
    · obtain ⟨hi, hid, hle, hne⟩ := h'.issued r hr
      exact ⟨hi, hid, hle, (hoff _).symm ▸ hne⟩
    · obtain ⟨hi, hid, hpage, heq, -⟩ := hR r hr
      refine ⟨hi, hid, (congrArg BitVec.toNat heq).ge, ?_⟩
      rw [hoff, hpage]
      exact nofun
  · rintro r (hr | hr) r' (hr' | hr') heq
    · exact h'.distinct r hr r' hr' heq
    · exact absurd heq ((hR r' hr').2.2.2.2.2.1 r hr)
    · exact absurd heq.symm ((hR r hr).2.2.2.2.2.1 r' hr')
    · exact (hR r' hr').2.2.2.2.2.2.1 r hr
  · rintro r ⟨hr | hr, -⟩
    · obtain ⟨hissued, hpage, hid, hfile⟩ := h'.live r hr
      exact ⟨.inl hissued, (hoff _).trans hpage, hid, hfile⟩
    · obtain ⟨-, -, hpage, heq, hfile, -⟩ := hR r hr
      exact ⟨.inr hr, (hoff _).trans hpage, heq, hfile⟩
  · rw [hoff] at hp
    constructor
    · rintro ⟨e', n', he', helt', hn', ht⟩
      have hmaps' : (s.setMapping e n m).ClientMaps p := ⟨e', n', he', helt', hn', ht⟩
      have hwas : s.ClientMaps p ∨ ∃ r ∈ R, r.slot = i := by
        rw [htarget] at ht
        by_cases hen : (e', n') = (e, n)
        · rw [hen, Function.update_self] at ht
          exact hm i hi p hp ht
        · rw [Function.update_of_ne hen] at ht
          exact .inl ⟨e', n', he', helt', hn', ht⟩
      obtain ⟨r, hr, hrs⟩ | ⟨r, hr, hrs⟩ := hwas.imp_left (h'.mapped i hi p hp).mp
      · have hpage := (h'.live r hr).2.1
        rw [hrs, hp] at hpage
        exact ⟨r, ⟨.inl hr, Option.some.inj hpage ▸ hmaps'⟩, hrs⟩
      · have hpage := (hR r hr).2.2.1
        rw [hrs, hp] at hpage
        exact ⟨r, ⟨.inr hr, Option.some.inj hpage ▸ hmaps'⟩, hrs⟩
    · rintro ⟨r, ⟨hr, hmaps⟩, hrs⟩
      have hpage : s.ffPage r.slot = some r.page :=
        hr.elim (fun hr => (h'.live r hr).2.1) fun hr => (hR r hr).2.2.1
      rw [hrs, hp] at hpage
      exact Option.some.inj hpage ▸ hmaps

/-- The live opens are those that they were. -/
lemma filter (h' : ServInv s h) :
    ServInv s ⟨h.issued, {r | r ∈ h.live ∧ s.ClientMaps r.page}⟩ := by
  have hlive : {r | r ∈ h.live ∧ s.ClientMaps r.page} = h.live := by
    ext r
    refine ⟨And.left, fun hr => ⟨hr, ?_⟩⟩
    obtain ⟨hissued, hpage, -⟩ := h'.live r hr
    exact (h'.mapped _ (h'.issued r hissued).1 _ hpage).mpr ⟨r, hr, rfl⟩
  rwa [hlive]

/-- Another mapping of the server changes. -/
lemma server (h' : ServInv s h) (hoff : ∀ i < MAXOPEN, n ≠ offPage i)
    (hm : ∀ m', m = some m' → ¬ s.IsFilefd m'.page) : ServInv (s.setMapping SERVER n m) h := by
  have htarget := Serv.target_setMapping s SERVER n m
  have hff : ∀ i < MAXOPEN, (s.setMapping SERVER n m).ffPage i = s.ffPage i := by
    intro i hi
    rw [Serv.ffPage, htarget, Function.update_of_ne]
    · rfl
    · exact fun hc => hoff i hi (congrArg Prod.snd hc).symm
  have hclient : ∀ p, (s.setMapping SERVER n m).ClientMaps p ↔ s.ClientMaps p := by
    intro p
    refine exists_congr fun e => exists_congr fun n' => and_congr_right fun he => ?_
    rw [htarget, Function.update_of_ne]
    exact fun hc => he (congrArg Prod.fst hc)
  have hno : ∀ i < MAXOPEN, ∀ p, s.ffPage i = some p → m.map Mapping.page ≠ some p := by
    intro i hi p hp hmp
    obtain ⟨m', rfl, rfl⟩ := Option.map_eq_some_iff.mp hmp
    exact hm m' rfl ⟨i, hi, hp⟩
  refine ⟨fun i hi p hp n' hn' ht => ?_, fun i hi p hp => ?_, h'.ids, fun r hr => ?_, h'.distinct,
    fun r hr => ?_, fun i hi p hp => ?_⟩
  · rw [hff i hi] at hp
    rw [htarget] at ht
    by_cases hnn : n' = n
    · rw [hnn, Function.update_self] at ht
      exact absurd ht (hno i hi p hp)
    · rw [Function.update_of_ne fun hc => hnn (congrArg Prod.snd hc)] at ht
      exact h'.alone i hi p hp n' hn' ht
  · rw [hff i hi] at hp
    exact (refs_le_of_target htarget (hno i hi p hp)).trans_lt (h'.small i hi p hp)
  · obtain ⟨hi, hid, hle, hne⟩ := h'.issued r hr
    exact ⟨hi, hid, hle, (hff _ hi).symm ▸ hne⟩
  · obtain ⟨hissued, hpage, hrest⟩ := h'.live r hr
    exact ⟨hissued, (hff _ (h'.issued r hissued).1).trans hpage, hrest⟩
  · rw [hff i hi] at hp
    rw [hclient]
    exact h'.mapped i hi p hp

end ServInv

lemma Serv.available_zero (h : s.pageref 0 = 0#16) : s.available = some 0 := by
  unfold Serv.available
  exact if_pos (.inl h)

lemma Serv.availableFrom_spec {j k : ℕ} (hav : s.availableFrom j k = some i) :
    i < j + k ∧ (s.pageref i = 0#16 ∨ s.pageref i = 1#16) := by
  induction k generalizing j with
  | zero => exact absurd hav nofun
  | succ k ih =>
      rw [Serv.availableFrom] at hav
      split_ifs at hav with hcount
      · obtain rfl := Option.some.inj hav
        exact ⟨Nat.lt_add_of_pos_right (Nat.succ_pos k), hcount⟩
      · obtain ⟨hlt, hi⟩ := ih hav
        exact ⟨by omega, hi⟩

lemma Serv.available_spec (hav : s.available = some i) :
    i < MAXOPEN ∧ (s.pageref i = 0#16 ∨ s.pageref i = 1#16) := by
  unfold Serv.available at hav
  obtain ⟨hlt, hi⟩ := Serv.availableFrom_spec hav
  exact ⟨by rwa [Nat.zero_add] at hlt, hi⟩

/-- What `syscall_mem_alloc` does to the mappings, at `o_ff`. -/
lemma target_memAlloc (hi : i < MAXOPEN) (S : Spaces) (perm : Word) :
    (S.memAlloc SERVER (offVa i) p perm).target =
      Function.update S.target (SERVER, offPage i) (some p) := by
  have hva := offVa_toNat hi
  have hlegal : isIllegalVa (offVa i) = false := by
    change i < 1024 at hi
    exact not_illegal (by omega) (by omega)
  funext t
  rw [Spaces.memAlloc, hlegal, if_neg (by decide), pn_offVa hi]
  by_cases ht : t = (SERVER, offPage i)
  · subst ht
    simp [Spaces.target]
  · simp [Spaces.target, ht]

/-- The entry with its id raised. -/
def Serv.raised (s : Serv F) (i : ℕ) : OpenFile F :=
  { s.opentab i with oFileid := (s.opentab i).oFileid + BitVec.ofNat 32 MAXOPEN }

/-- The entry as a `serve_open` that succeeds leaves it. -/
def Serv.opened (s : Serv F) (i : ℕ) (f : F) (mode : Word) : OpenFile F :=
  { s.raised i with oFile := some f, oMode := mode }

lemma Serv.taken_opened (s : Serv F) (i : ℕ) (page : Option ℕ) (f : F) (mode : Word) :
    ({ s.taken i page with
      opentab := Function.update (s.taken i page).opentab i
        { (s.taken i page).opentab i with oFile := some f, oMode := mode } } : Serv F) =
      { s.taken i page with opentab := Function.update s.opentab i (s.opened i f mode) } := by
  simp [Serv.taken, Serv.opened, Serv.raised]

namespace ServInv

/-- A page that nobody maps is mapped at an `o_ff` without one. -/
lemma alloc {S' : Spaces} (h' : ServInv s h) (hno : s.ffPage i = none)
    (hp : s.spaces.refs p = 0)
    (hS : S'.target = Function.update s.spaces.target (SERVER, offPage i) (some p)) :
    ServInv { s with spaces := S' } h := by
  have hunref : ∀ t ∈ Spaces.slots, s.spaces.target t ≠ some p := RefGraph.refs_eq_zero_iff.mp hp
  have hff : ∀ j, ({ s with spaces := S' } : Serv F).ffPage j =
      if j = i then some p else s.ffPage j := by
    intro j
    change S'.target (SERVER, offPage j) = _
    rw [hS]
    by_cases hj : j = i
    · rw [hj, if_pos rfl, Function.update_self]
    · rw [if_neg hj, Function.update_of_ne fun hc => hj (offPage_inj (congrArg Prod.snd hc))]
      rfl
  have hclient : ∀ q, ({ s with spaces := S' } : Serv F).ClientMaps q ↔ s.ClientMaps q := by
    intro q
    refine exists_congr fun e => exists_congr fun n' => and_congr_right fun he => ?_
    change _ ∧ _ ∧ S'.target (e, n') = some q ↔ _
    rw [hS, Function.update_of_ne]
    exact fun hc => he (congrArg Prod.fst hc)
  have hnot : ∀ r ∈ h.issued, r.slot ≠ i := fun r hr hri => (h'.issued r hr).2.2.2 (hri ▸ hno)
  refine ⟨fun j hj q hq n' hn' ht => ?_, fun j hj q hq => ?_, h'.ids, fun r hr => ?_, h'.distinct,
    fun r hr => ?_, fun j hj q hq => ?_⟩
  · have hmem : (SERVER, n') ∈ Spaces.slots :=
      Spaces.mem_slots.mpr ⟨(by decide : SERVER < NENV), hn'⟩
    change S'.target (SERVER, n') = some q at ht
    rw [hff] at hq
    rw [hS] at ht
    by_cases hni : n' = offPage i
    · rw [hni, Function.update_self] at ht
      split_ifs at hq with hji
      · rw [hni, hji]
      · -- the page of another entry is mapped
        rw [← ht] at hq
        exact absurd hq (hunref _ (Serv.mem_slots_off hj))
    · rw [Function.update_of_ne fun hc => hni (congrArg Prod.snd hc)] at ht
      split_ifs at hq with hji
      · rw [← hq] at ht
        exact absurd ht (hunref _ hmem)
      · exact h'.alone j hj q hq n' hn' ht
  · rw [hff] at hq
    change S'.refs q < 2 ^ 16
    split_ifs at hq with hji
    · rw [← Option.some.inj hq]
      have hlt : s.spaces.refs p < 1 := hp ▸ Nat.one_pos
      exact (refs_lt_of_target hS hlt).trans (by decide)
    · have hne : some p ≠ some q := fun hc => hunref _ (Serv.mem_slots_off hj) (hc ▸ hq)
      exact (refs_le_of_target hS hne).trans_lt (h'.small j hj q hq)
  · obtain ⟨hslot, hid, hle, hne⟩ := h'.issued r hr
    refine ⟨hslot, hid, hle, ?_⟩
    rw [hff, if_neg (hnot r hr)]
    exact hne
  · obtain ⟨hissued, hpage, hrest⟩ := h'.live r hr
    refine ⟨hissued, ?_, hrest⟩
    rw [hff, if_neg (hnot r hissued)]
    exact hpage
  · rw [hff] at hq
    rw [hclient]
    split_ifs at hq with hji
    · refine iff_of_false ?_ ?_
      · rintro ⟨e, n', -, he, hn', ht⟩
        exact hunref _ (Spaces.mem_slots.mpr ⟨he, hn'⟩) (Option.some.inj hq ▸ ht)
      · rintro ⟨r, hr, hri⟩
        exact hnot r (h'.live r hr).1 (hri.trans hji)
    · exact h'.mapped j hj q hq

/-- The id of an entry that no client uses is raised. -/
lemma bump (h' : ServInv s h) (hi : i < MAXOPEN) (hp : s.ffPage i = some p)
    (hno : ¬ s.ClientMaps p) (hlt : (s.opentab i).oFileid.toNat + MAXOPEN < 2 ^ 31)
    {o : OpenFile F} (ho : o.oFileid = (s.opentab i).oFileid + BitVec.ofNat 32 MAXOPEN) :
    ServInv { s with opentab := Function.update s.opentab i o } h := by
  have hid : o.oFileid.toNat = (s.opentab i).oFileid.toNat + MAXOPEN := by
    change _ = _ + 1024
    change _ + 1024 < _ at hlt
    rw [ho, BitVec.toNat_add, BitVec.toNat_ofNat, show MAXOPEN = 1024 from rfl]
    omega
  have hopen : ∀ j, (Function.update s.opentab i o j).oFileid.toNat =
      (s.opentab j).oFileid.toNat + if j = i then MAXOPEN else 0 := by
    intro j
    by_cases hj : j = i
    · rw [hj, Function.update_self, if_pos rfl, hid]
    · rw [Function.update_of_ne hj, if_neg hj, Nat.add_zero]
  refine ⟨h'.alone, h'.small, fun j hj => ?_, fun r hr => ?_, h'.distinct, fun r hr => ?_,
    h'.mapped⟩
  · have hmod := h'.ids j hj
    rw [hopen j]
    split_ifs
    · rw [Nat.add_mod_right, hmod]
    · exact hmod
  · obtain ⟨hslot, hrid, hle, hne⟩ := h'.issued r hr
    refine ⟨hslot, hrid, ?_, hne⟩
    rw [hopen]
    exact hle.trans (Nat.le_add_right _ _)
  · obtain ⟨hissued, hpage, hrest⟩ := h'.live r hr
    have hne : r.slot ≠ i := by
      intro hri
      exact hno ((h'.mapped i hi p hp).mpr ⟨r, hr, hri⟩)
    refine ⟨hissued, hpage, ?_⟩
    simp only [Function.update_of_ne hne]
    exact hrest

/-- **`open_alloc` takes an entry**: no client maps its page, and its id is new. -/
lemma taken (h' : ServInv s h) (hav : s.available = some i)
    (hpage : s.pageref i = 0#16 → page ≠ none)
    (hfresh : ∀ p, page = some p → s.spaces.refs p = 0)
    (hlt : (s.opentab i).oFileid.toNat + MAXOPEN < 2 ^ 31) {o : OpenFile F}
    (ho : o.oFileid = (s.opentab i).oFileid + BitVec.ofNat 32 MAXOPEN) :
    ServInv { s.taken i page with opentab := Function.update s.opentab i o } h ∧
      (∀ r ∈ h.issued, r.fileid ≠ o.oFileid) ∧
      ∃ p, (s.taken i page).ffPage i = some p ∧ ¬ (s.taken i page).ClientMaps p ∧
        (s.taken i page).spaces.refs p < 2 ^ 16 - 1 := by
  obtain ⟨hi, hcount⟩ := Serv.available_spec hav
  let s₁ : Serv F := { s with spaces := (s.taken i page).spaces }
  have hspaces : ServInv s₁ h ∧ ∃ p, s₁.ffPage i = some p ∧ ¬ s₁.ClientMaps p := by
    cases hp : s.ffPage i with
    | none =>
        have h0 := pageref_none hi hp
        obtain ⟨p, rfl⟩ := Option.ne_none_iff_exists'.mp (hpage h0)
        have hS : (s.taken i (some p)).spaces.target =
            Function.update s.spaces.target (SERVER, offPage i) (some p) := by
          simp only [Serv.taken, if_pos h0]
          exact target_memAlloc hi _ _
        have h₁ := h'.alloc hp (hfresh p rfl) hS
        have hff : (s.taken i (some p)).ffPage i = some p := by
          rw [Serv.ffPage, hS, Function.update_self]
        refine ⟨h₁, p, hff, fun hmaps => ?_⟩
        obtain ⟨r, hr, hri⟩ := (h₁.mapped i hi p hff).mp hmaps
        exact (h'.issued r (h'.live r hr).1).2.2.2 (hri ▸ hp)
    | some p =>
        have hone := hcount.resolve_left (h'.pageref_ne_zero hi hp)
        have hS : (s.taken i page).spaces = s.spaces := by
          cases page with
          | none => rfl
          | some q => exact if_neg (by rw [hone]; decide)
        have hs₁ : s₁ = s := congrArg (fun S => { s with spaces := S }) hS
        rw [hs₁]
        exact ⟨h', p, hp, (h'.pageref_eq_one_iff hi hp).mp hone⟩
  obtain ⟨h₁, p, hff, hno⟩ := hspaces
  have h₂ := h₁.bump hi hff hno hlt ho
  have hid := h₂.ids i hi
  simp only [Function.update_self] at hid
  refine ⟨h₂, fun r hr heq => ?_, p, hff, hno, ?_⟩
  · obtain ⟨hslot, hrid, hle, -⟩ := h'.issued r hr
    rw [heq, hid] at hrid
    have hnum : o.oFileid.toNat = (s.opentab i).oFileid.toNat + MAXOPEN := by
      change _ = _ + 1024
      change _ + 1024 < _ at hlt
      rw [ho, BitVec.toNat_add, BitVec.toNat_ofNat, show MAXOPEN = 1024 from rfl]
      omega
    rw [← hrid, heq, hnum] at hle
    change _ + 1024 ≤ _ at hle
    omega
  · have hone := (h₁.pageref_eq_one_iff hi hff).mpr hno
    have hsmall := h₁.small i hi p hff
    rw [Serv.pageref_eq hi, hff, ← BitVec.toNat_inj, BitVec.toNat_ofNat,
      Nat.mod_eq_of_lt hsmall] at hone
    change s₁.spaces.refs p = 1 at hone
    change s₁.spaces.refs p < 2 ^ 16 - 1
    rw [hone]
    decide

/-- **Every event keeps the invariant**, when what it counts fits. -/
lemma step {ev : OpenEvent F} (h' : ServInv s h) (hc : ev.Countable s) (hs : s.Step ev s') :
    ServInv s' (history s ev s' h) := by
  obtain ⟨hen, hexec⟩ := hs
  cases ev with
  | client e n m =>
      obtain ⟨⟨he, -⟩, hmap⟩ := hen
      obtain rfl := Option.some.inj hexec
      refine h'.client (R := ∅) he hc (fun _ hr => hr.elim) fun i hi p hp hmp => .inl ?_
      obtain ⟨m', rfl, rfl⟩ := Option.map_eq_some_iff.mp hmp
      exact hmap m' rfl ⟨i, hi, hp⟩
  | server n m =>
      obtain ⟨⟨hn, hoff⟩, -⟩ := hen
      obtain rfl := Option.some.inj hexec
      have h₁ := (h'.server hoff hc).filter
      simpa [history, OpenEvent.Opens] using h₁
  | open_ e n mode page file =>
      obtain ⟨⟨he, -⟩, hfresh⟩ := hen
      have hno : ∀ {s₁ : Serv F}, Serv.serveOpen mode page file s = .ok none s₁ → ServInv s₁ h →
          ServInv s₁ (history s (.open_ e n mode page file) s₁ h) := by
        intro s₁ hrun h₁
        have hnone : ∀ r : Opened F, ¬ (OpenEvent.open_ e n mode page file).Opens s r := by
          rintro r ⟨s₂, hrun', -⟩
          exact absurd (hrun.symm.trans hrun') nofun
        simpa [history, hnone] using h₁.filter
      have hwp : wp (Serv.serveOpen mode page file) s (fun r s' => s.Opening mode page file r s')
          (fun _ _ => False) (fun _ => False) := Serv.wp_serveOpen
      rw [OpenEvent.exec] at hexec
      cases hrun : Serv.serveOpen mode page file s with
      | exit x s₁ => exact (hwp.of_exit hrun).elim
      | panic x => exact (hwp.of_panic hrun).elim
      | ok res s₁ =>
          rw [hrun] at hexec
          cases hwp.of_ok hrun with
          | none =>
              obtain rfl := Option.some.inj hexec
              exact hno hrun h'
          | @failed i hav hpage =>
              obtain rfl := Option.some.inj hexec
              obtain ⟨h₁, -⟩ := h'.taken hav hpage hfresh (hc i hav) (o := s.raised i) rfl
              exact hno hrun h₁
          | @opened i f hav hpage hfile =>
              obtain rfl := Option.some.inj hexec
              have hi := (Serv.available_spec hav).1
              obtain ⟨h₁, hnew, p, hff, -, hsmall⟩ :=
                h'.taken hav hpage hfresh (hc i hav) (o := s.opened i f mode) rfl
              rw [s.taken_opened i page f mode] at hrun ⊢
              generalize hs₁ : ({ s.taken i page with
                opentab := Function.update s.opentab i (s.opened i f mode) } : Serv F) = s₁
                at hrun h₁ ⊢
              have hff₁ : s₁.ffPage i = some p := hs₁ ▸ hff
              have hopen₁ : s₁.opentab i = s.opened i f mode := by
                rw [← hs₁]
                exact Function.update_self _ _ _
              have hsmall₁ : s₁.spaces.refs p < 2 ^ 16 - 1 := hs₁ ▸ hsmall
              have hR : ∀ r, (OpenEvent.open_ e n mode page file).Opens s r ↔
                  r = ⟨(s.opened i f mode).oFileid, i, p, f⟩ := by
                intro r
                constructor
                · rintro ⟨s₂, hrun₂, hid, hpage₂, hfile₂⟩
                  obtain ⟨hslot, rfl⟩ := Outcome.ok.inj (hrun.symm.trans hrun₂)
                  obtain rfl := Option.some.inj hslot
                  obtain rfl := Option.some.inj (hff₁.symm.trans hpage₂)
                  obtain rfl := Except.ok.inj (hfile.symm.trans hfile₂)
                  rw [hopen₁] at hid
                  rw [← hid]
                · rintro rfl
                  exact ⟨s₁, hrun, congrArg OpenFile.oFileid hopen₁.symm, hff₁, hfile⟩
              have hpage' : ((s₁.ffPage i).map fun p =>
                  (⟨p, pteBits (entryFlags (PTE_W ||| PTE_LIBRARY ||| PTE_U))⟩ : Mapping)).map
                    Mapping.page = some p := by
                rw [hff₁]
                rfl
              refine h₁.client (R :=
                {r | (OpenEvent.open_ e n mode page file).Opens s r}) he ?_ ?_ ?_
              · intro m' hm'
                rw [hm'] at hpage'
                rw [show m'.page = p from Option.some.inj hpage']
                exact hsmall₁
              · intro r hr
                obtain rfl := (hR r).mp hr
                have hids := h₁.ids i hi
                rw [hopen₁] at hids
                refine ⟨hi, hids, hff₁, congrArg OpenFile.oFileid hopen₁,
                  congrArg OpenFile.oFile hopen₁, hnew, fun r' hr' => (hR r').mp hr', hpage'⟩
              · intro j hj q hq hmq
                obtain rfl : p = q := Option.some.inj (hpage'.symm.trans hmq)
                obtain rfl := offPage_inj (h₁.alone i hi p hff₁ _ (offPage_lt hj) hq)
                exact .inr ⟨_, (hR _).mpr rfl, rfl⟩

end ServInv

end
/-! ## Runs -/

section

variable {F : Type} {s : Serv F} {C : Serv F → OpenEvent F → Prop} {x : Serv F × OpenHistory F}

lemma Serv.Starts.inv (h : s.Starts) : ServInv s ⟨∅, ∅⟩ := by
  have hoff : ∀ i < MAXOPEN, s.ffPage i = none := by
    intro i hi
    rw [Serv.ffPage, Spaces.target, h.spaces i hi]
    rfl
  have hno : ∀ i < MAXOPEN, ∀ p, s.ffPage i = some p → False :=
    fun i hi p hp => absurd ((hoff i hi).symm.trans hp) nofun
  refine ⟨fun i hi p hp => (hno i hi p hp).elim, fun i hi p hp => (hno i hi p hp).elim,
    fun i hi => ?_, nofun, nofun, nofun, fun i hi p hp => (hno i hi p hp).elim⟩
  rw [h.opentab, BitVec.toNat_ofNat]
  change i < 1024 at hi
  change i % 2 ^ 32 % 1024 = i
  omega

/-- **Ids resolve only to the files they were issued for**, along every run that `Countable` allows,
except the ids that the table starts with, as long as their entry has not been taken. -/
theorem fileids_right (h : Serv.Reaches OpenEvent.Countable x) (fileid : Word) :
    IdRight x fileid ↔ ¬ x.1.Initial fileid := by
  have hinv : ServInv x.1 x.2 := by
    refine Reachable.invariant (I := fun x => ServInv x.1 x.2) h ?_ ?_
    · rintro ⟨s, hist⟩ ⟨hstart, rfl⟩
      exact hstart.inv
    · rintro ⟨s, hist⟩ ev ⟨s', hist'⟩ hinv ⟨hc, hstep, hhist⟩
      rw [show hist' = history s ev s' hist from hhist]
      exact hinv.step hc hstep
  exact hinv.idRight fileid

end

/-- The server before its first request, with nothing mapped anywhere. -/
def Serv.first : Serv Unit where
  spaces _ := none
  opentab i := ⟨none, BitVec.ofNat 32 i, if i = 0 then 1#32 else 0#32⟩

lemma Serv.starts_first : Serv.first.Starts := ⟨fun _ _ => rfl, fun _ => rfl⟩

/-- **An id that was never issued is accepted**: before the first request, `open_lookup(0)` returns
0. -/
theorem fileid_never_issued : ∃ x : Serv Unit × OpenHistory Unit,
    Serv.Reaches (fun _ _ => True) x ∧ x.2.issued = ∅ ∧ x.1.Accepts 0#32 ∧ ¬ IdRight x 0#32 := by
  have hno : Serv.first.ffPage 0 = none := rfl
  have hacc : Serv.first.Accepts 0#32 := by
    refine Serv.accepts_iff.mpr ⟨?_, rfl⟩
    change Serv.first.pageref 0 ≠ 1#16
    rw [ServInv.pageref_none (by decide) hno]
    decide
  refine ⟨(Serv.first, ⟨∅, ∅⟩), .init ⟨Serv.starts_first, rfl⟩, rfl, hacc, fun hright => ?_⟩
  obtain ⟨r, hr, -⟩ := hright.accepts_iff.mp hacc
  exact hr

/-- Env 2 opens a file, and gets the id 1024. -/
theorem fileids_right_opened : ∃ x : Serv Unit × OpenHistory Unit,
    Serv.Reaches OpenEvent.Countable x ∧ (∃ r ∈ x.2.live, r.fileid = 1024#32) ∧
      x.1.Accepts 1024#32 ∧ ∀ fileid, IdRight x fileid ↔ ¬ x.1.Initial fileid := by
  have h0 : Serv.first.pageref 0 = 0#16 := ServInv.pageref_none (by decide) rfl
  have hav := Serv.available_zero h0
  have hwp : wp (Serv.serveOpen O_RDWR (some 7) (.ok ())) Serv.first (fun r s' => r = some 0 ∧
      (s'.opentab 0).oFileid = 1024#32 ∧ s'.ffPage 0 = some 7)
        (fun _ _ => False) fun _ => False := by
    rw [Serv.serveOpen, wp_bind, wp_attempt, wp_openAlloc, hav]
    dsimp only
    rw [if_neg (by simp), wp_bind, wp_get, wp_ite, wp_pure]
    have hid : ((Serv.first.taken 0 (some 7)).opentab 0).oFileid = 1024#32 := rfl
    refine ⟨fun hneg => absurd hneg (by rw [hid]; decide), fun _ => ⟨rfl, hid, ?_⟩⟩
    have hS : (Serv.first.taken 0 (some 7)).spaces.target =
        Function.update Serv.first.spaces.target (SERVER, offPage 0) (some 7) := by
      simp only [Serv.taken, if_pos h0]
      exact target_memAlloc (by decide) _ _
    change (Serv.first.taken 0 (some 7)).spaces.target (SERVER, offPage 0) = some 7
    rw [hS, Function.update_self]
  obtain ⟨r, s₁, hrun, rfl, hid, hpage⟩ := hwp.exists_ok
  have hev : (OpenEvent.open_ 2 5 O_RDWR (some 7) (.ok ())).Opens Serv.first
      ⟨1024#32, 0, 7, ()⟩ := ⟨s₁, hrun, hid.symm, hpage, rfl⟩
  have hexec : OpenEvent.exec Serv.first (.open_ 2 5 O_RDWR (some 7) (.ok ())) =
      some (s₁.sendPage 2 5 0) := by
    rw [OpenEvent.exec, hrun]
  have hen : (OpenEvent.open_ 2 5 O_RDWR (some 7) (.ok ())).Enabled Serv.first := by
    refine ⟨by decide, fun p _ => RefGraph.refs_eq_zero_iff.mpr fun t _ => nofun⟩
  have hmaps : (s₁.sendPage 2 5 0).ClientMaps 7 := by
    refine ⟨2, 5, by decide, by decide, by decide, ?_⟩
    rw [Serv.sendPage, Serv.target_setMapping, Function.update_self, hpage]
    rfl
  have hc : OpenEvent.Countable Serv.first
      (.open_ 2 5 O_RDWR (some 7) (.ok ()) : OpenEvent Unit) := by
    intro i hi
    obtain rfl := Option.some.inj (hav.symm.trans hi)
    decide
  have hr : Serv.Reaches OpenEvent.Countable (s₁.sendPage 2 5 0,
      history Serv.first (.open_ 2 5 O_RDWR (some 7) (.ok ())) (s₁.sendPage 2 5 0) ⟨∅, ∅⟩) :=
    Reachable.step (s := (Serv.first, ⟨∅, ∅⟩)) (.init ⟨Serv.starts_first, rfl⟩)
      ⟨hc, ⟨hen, hexec⟩, rfl⟩
  have hlive : ∃ r ∈ (history Serv.first (.open_ 2 5 O_RDWR (some 7) (.ok ()))
      (s₁.sendPage 2 5 0) ⟨∅, ∅⟩).live, r.fileid = 1024#32 :=
    ⟨_, ⟨.inr hev, hmaps⟩, rfl⟩
  have hright := fileids_right hr
  have hnot : ¬ (s₁.sendPage 2 5 0).Initial 1024#32 := by
    rintro ⟨hno, -⟩
    have hoff : (s₁.sendPage 2 5 0).ffPage 0 = some 7 := by
      rw [Serv.ffPage, Serv.sendPage, Serv.target_setMapping, Function.update_of_ne (by decide)]
      exact hpage
    exact absurd (hoff.symm.trans hno) nofun
  exact ⟨_, hr, hlive, ((hright _).mpr hnot).accepts_iff.mpr hlive, hright⟩

end MosRv.Fs
