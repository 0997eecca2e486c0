import MosRv.Fs.Cut
import MosRv.Fs.Runs

/-!
# The pages that clients map

`serve_map` gives a client the page of the cache itself.  The client keeps it when the file is cut
off or removed and the block is free again, and `alloc_block` may then take the block, with this
page, for another file: both files then have the same page (`page_aliased`).

A *grant* says that a client maps the page of a block that it was given for a block of a file.  In
every run whose steps do not take a granted block for something else, and do not lose blocks, the
block of every grant is still that block of the file, or it is free (`pages_private`).
-/

namespace MosRv.Fs

open Prog View Reach

/-! ## Requests of clients -/

/-- The client maps the page of block `block`, which was block `index` of the file. -/
structure Grant where
  client : ℕ
  file : FileRef
  index : ℕ
  block : ℕ
  deriving DecidableEq, Repr

structure Clients where
  world : World
  grants : List Grant

inductive Request
  | op (client : ℕ) (op : Op)
  /-- The client unmaps a page. -/
  | unmap (g : Grant)

/-- What the client gets mapped by an operation. -/
def Op.granted (client : ℕ) : Op → Reply → List Grant
  | getBlock f n, .block b => [⟨client, f, n, b⟩]
  | _, _ => []

namespace Clients

/-- The state after a request, unless the server stops. -/
def exec (c : Clients) : Request → Option Clients
  | .op client op =>
      match op.run c.world.server with
      | .ok r s => some ⟨⟨s, r.files ++ c.world.opened⟩, op.granted client r ++ c.grants⟩
      | .exit _ s => some ⟨⟨s, c.world.opened⟩, c.grants⟩
      | .panic _ => none
  | .unmap g => some ⟨c.world, c.grants.filter (· ≠ g)⟩

def Valid (c : Clients) : Request → Prop
  | .op _ op => op.Valid c.world
  | .unmap _ => True

def Step (c : Clients) (r : Request) (c' : Clients) : Prop := c.Valid r ∧ c.exec r = some c'

/-- A server has just been started on the disk. -/
def Starts (disk : View) (c : Clients) : Prop := c.world.Starts disk ∧ c.grants = []

/-- The states that runs of requests in `C` reach. -/
def Reaches (disk : View) (C : Clients → Request → Prop) : Clients → Prop :=
  Reachable (Starts disk) (When C Step)

/-- The block of a page that a client maps is still the block of the file that it was, or it is
free; and no other file has it. -/
def Private (c : Clients) : Prop :=
  ∀ g ∈ c.grants,
    (c.world.server.view.num g.file (.of g.index) = g.block ∨ c.world.server.view.Free g.block) ∧
    ∀ f sl, c.world.Live f → sl.Ok → c.world.server.view.num f sl = g.block →
      f = g.file ∧ sl = .of g.index

end Clients

/-! ## What a step must not do -/

/-- A walk meets no hole, or no page that a client maps is one of a free block. -/
def Clients.WalkAway (c : Clients) : Prop :=
  c.world.server.view.NoHoles ∨ ∀ g ∈ c.grants, ¬ c.world.server.view.Free g.block

/-- No block that is taken is in the page of a client, except if it is the same block of the same
file again; and only regular files are cut off, which then lose no block. -/
def Op.Careful (c : Clients) : Op → Prop
  | openFile _ => c.WalkAway
  | getBlock f n => n < NINDIRECT → ∀ g ∈ c.grants, ¬ c.world.server.TakesIndirect f n g.block ∧
      (c.world.server.TakesData f n g.block → g.file = f ∧ g.index = n)
  | setSize f size => size.toNat < (c.world.server.view.field f F_SIZE).toNat →
      ¬ c.world.server.view.IsDir f ∧ c.world.server.view.KeepsAll f size
  | remove path => c.WalkAway ∧ ∀ f s, fileOpen path c.world.server = .ok f s →
      ¬ s.view.IsDir f ∧ s.view.KeepsAll f 0#32
  | dirty _ _ | flush _ | close _ | sync | write _ _ _ => True

/-- The steps of clients that share no page. -/
def Request.Careful (c : Clients) : Request → Prop
  | .op _ o => o.Harmless c.world ∧ o.Careful c
  | .unmap _ => True

/-! ## The invariant -/

/-- The file of the grant is there, and the block is its block or free. -/
structure Grant.Held (O : Set FileRef) (v : View) (g : Grant) : Prop where
  index : g.index < NINDIRECT
  live : v.Live O g.file
  gt : v.lastReserved < g.block
  lt : g.block < v.nblocks
  held : v.num g.file (.of g.index) = g.block ∨ v.Free g.block

def Clients.Inv (c : Clients) : Prop :=
  ∃ O, (∀ f ∈ c.world.opened, f ∈ O) ∧ c.world.server.Sound O ∧
    c.world.server.view.lastReserved < c.world.server.view.nblocks ∧
    ∀ g ∈ c.grants, g.Held O c.world.server.view

section

variable {O O' : Set FileRef} {s s' : Server} {v v' disk : View} {f : FileRef} {g : Grant}
    {c c' : Clients}

lemma Grant.Held.block_ne_zero (h : g.Held O v) : g.block ≠ 0 := by
  have := h.gt
  omega

/-- A grant is kept by what only adds to the files. -/
lemma Grant.Held.extends_ (h : g.Held O v) (hx : Extends O v v')
    (hfree : v.Free g.block → v'.num g.file (.of g.index) = g.block ∨ v'.Free g.block) :
    g.Held O v' where
  index := h.index
  live := hx.live _ h.live
  gt := by
    rw [lastReserved_congr hx.nblocks]
    exact h.gt
  lt := by
    rw [hx.nblocks]
    exact h.lt
  held := by
    rcases h.held with heq | hf
    · rw [← heq]
      exact .inl (hx.num _ _ h.live (Slot.data_of h.index).ok (heq ▸ h.block_ne_zero))
    · exact hfree hf

/-- A grant is kept when a regular file is cut off. -/
lemma Grant.Held.cuts (h : g.Held O v) (hc : Cuts O f v v') : g.Held O v' where
  index := h.index
  live := hc.live _ h.live
  gt := by
    rw [lastReserved_congr hc.nblocks]
    exact h.gt
  lt := by
    rw [hc.nblocks]
    exact h.lt
  held := by
    rcases h.held with heq | hf
    · rcases hc.num _ _ h.live (Slot.data_of h.index).ok (heq ▸ h.block_ne_zero) with hn | ⟨-, hf⟩
      · exact .inl (hn.trans heq)
      · exact .inr (heq ▸ hf)
    · exact .inr (hc.free _ h.lt hf)

lemma Grant.Held.mono (h : g.Held O v) (hO : O ⊆ O') : g.Held O' v :=
  ⟨h.index, h.live.mono hO, h.gt, h.lt, h.held⟩

lemma Clients.Inv.private_ (h : c.Inv) : c.Private := by
  obtain ⟨O, hO, hs, -, hg⟩ := h
  intro g hm
  have hheld := hg g hm
  refine ⟨hheld.held, fun f sl hf hsl heq => ?_⟩
  have hne := hheld.block_ne_zero
  have hf := hf.sound hO
  rcases hheld.held with hnum | hfree
  · exact hs.own.inj f sl g.file _ hf hheld.live hsl (Slot.data_of hheld.index).ok (heq ▸ hne)
      (heq.trans hnum.symm)
  · exact absurd (heq ▸ hfree) (hs.own.range f sl hf hsl (heq ▸ hne)).2.2

/-- A walk keeps the grants. -/
lemma Grant.Held.walked (h : g.Held O s.view) (hw : s.Walked O O' s')
    (haway : s.view.NoHoles ∨ ¬ s.view.Free g.block) : g.Held O' s'.view := by
  refine (h.extends_ hw.extends_ fun hfree => ?_).mono hw.subset
  rcases haway with hno | hused
  · exact .inr ((hw.noHoles hno).2 _ h.lt hfree)
  · exact absurd hfree hused

/-! ## The steps -/

/-- A file grows, and takes no block that a client has in a page. -/
lemma Server.Sound.held_grown {n : ℕ} (h : s.Sound O) (hf : s.view.Live O f) (hready : s.Ready f n)
    (hn : n < NINDIRECT) (hg : s.view.Grown s.page f n v) (hheld : g.Held O s.view)
    (hind : ¬ s.TakesIndirect f n g.block)
    (hdata : s.TakesData f n g.block → g.file = f ∧ g.index = n) : g.Held O v := by
  have hx := h.extends_grown hf hready hn hg
  have hsl := Slot.data_of hn
  refine hheld.extends_ hx fun hfree => ?_
  cases hg with
  | same => exact .inr hfree
  | @data b hhas hempty hb =>
      by_cases heq : g.block = b
      · obtain ⟨hgf, hgn⟩ := hdata (.inl ⟨hhas, hempty, heq ▸ hb⟩)
        rw [hgf, hgn, heq]
        exact .inl (h.own.num_fill hb hf hsl.ok hhas hempty)
      · exact .inr ((h.own.free_fill hb hf hsl.ok hhas hheld.lt).mpr ⟨hfree, heq⟩)
  | @both b b' hnot hb hb' =>
      obtain ⟨he, hx₁⟩ := h.extends_half hf hready hn hnot hb
      have hown₁ := he.own h.own
      have hf₁ := hx₁.live f hf
      obtain ⟨hd, hempty⟩ := (hasSlot_or s.view f n).resolve_left hnot
      have hne : g.block ≠ b := by
        rintro rfl
        exact hind ⟨hnot, hb⟩
      have hfree₁ : (s.view.fill f .indirect b (s.page b)).Free g.block :=
        (h.own.free_fill hb hf Slot.ok_indirect trivial hheld.lt).mpr ⟨hfree, hne⟩
      have hhas₁ : (s.view.fill f .indirect b (s.page b)).HasSlot f (.of n) :=
        h.hasSlot_half hf hnot hb
      have hnum₁ : (s.view.fill f .indirect b (s.page b)).num f (.of n) = 0 := by
        rw [hready.indirect hn hnot b hb]
        exact h.own.num_fill_indirect hb hf hempty hn hd
      by_cases heq : g.block = b'
      · obtain ⟨hgf, hgn⟩ := hdata (.inr ⟨hnot, b, hb, heq ▸ hb'⟩)
        rw [hgf, hgn, heq]
        exact .inl (hown₁.num_fill hb' hf₁ hsl.ok hhas₁ hnum₁)
      · exact .inr ((hown₁.free_fill hb' hf₁ hsl.ok hhas₁ (hx₁.nblocks.symm ▸ hheld.lt)).mpr
          ⟨hfree₁, heq⟩)

lemma Server.Sound.held_notGrown {n : ℕ} (h : s.Sound O) (hf : s.view.Live O f)
    (hready : s.Ready f n) (hg : s.view.NotGrown s.page f n v) (hheld : g.Held O s.view)
    (hind : n < NINDIRECT → ¬ s.TakesIndirect f n g.block) : g.Held O v := by
  have hx := h.extends_notGrown hf hready hg
  refine hheld.extends_ hx fun hfree => ?_
  cases hg with
  | same => exact .inr hfree
  | @half b hn hnot hb =>
      have hne : g.block ≠ b := by
        rintro rfl
        exact hind hn ⟨hnot, hb⟩
      exact .inr ((h.own.free_fill hb hf Slot.ok_indirect trivial hheld.lt).mpr ⟨hfree, hne⟩)

/-- What is done to the grants by an operation that takes care. -/
lemma Op.Does.held {op : Op} {r : Option Reply} (h : op.Does O c.world.server r O' s')
    (hs : c.world.server.Sound O) (hc : op.Careful c) (hm : g ∈ c.grants)
    (hheld : g.Held O c.world.server.view) : g.Held O' s'.view := by
  have hsame : ∀ {s' : Server}, c.world.server.Becomes c.world.server.view s' → g.Held O s'.view :=
    fun hb => hb.view ▸ hheld
  cases h with
  | opened hw _ | notOpened hw => exact hheld.walked hw (hc.imp_right fun hno => hno g hm)
  | notRemoved hw => exact hheld.walked hw (hc.1.imp_right fun hno => hno g hm)
  | got hn hf hready _ hg =>
      exact hs.held_grown hf hready hn hg hheld (hc hn g hm).1 (hc hn g hm).2
  | notGot hf hready _ hg =>
      exact hs.held_notGrown hf hready hg hheld fun hn => (hc hn g hm).1
  | sized hf hb => exact hb.view ▸ hheld.cuts (hs.own.cuts_setSize hf hc)
  | dirtied hb | notDirtied hb | flushed hb | closed hb | synced hb => exact hsame hb
  | removed hopen hw hf hlive hb =>
      obtain ⟨hreg, hall⟩ := hc.2 _ _ hopen
      have hheld₁ := hheld.walked hw (hc.1.imp_right fun hno => hno g hm)
      exact hb.view ▸ hheld₁.cuts (hw.sound.own.cuts_remove hlive hf hreg hall)
  | @wrote f n blk s' hn hf hreg hne hb =>
      have hsl := Slot.data_of hn
      refine hb.view ▸ hheld.extends_ (hs.own.extends_data hf hreg hsl hne blk) fun hfree => ?_
      exact .inr ((hs.own.free_data hf hsl hne blk hheld.lt).mpr hfree)

/-- A new grant. -/
lemma Op.Does.granted {op : Op} {r : Reply} {client : ℕ}
    (h : op.Does O c.world.server (some r) O' s') (hs : c.world.server.Sound O) (hs' : s'.Sound O')
    (hm : g ∈ op.granted client r) : g.Held O' s'.view := by
  cases h with
  | @got f n b s' hn hf hready hr hg hb hne =>
      obtain rfl := List.mem_singleton.mp hm
      have hlive := (hs.extends_grown hf hready hn hg).live f hf
      subst hb
      obtain ⟨hgt, hlt, -⟩ := hs'.own.range f _ hlive (Slot.data_of hn).ok hne
      exact ⟨hn, hlive, hgt, hlt, .inl rfl⟩
  | _ => exact absurd hm List.not_mem_nil

lemma Clients.Starts.inv (hwf : WellFormed disk) (h : c.Starts disk) : c.Inv := by
  obtain ⟨O, hO, hs, hfits⟩ := h.1.inv hwf
  refine ⟨O, hO, hs, hfits, fun g hg => ?_⟩
  rw [h.2] at hg
  exact absurd hg List.not_mem_nil

/-- What a careful operation does keeps the invariant. -/
lemma Op.Does.clients_inv {op : Op} {r : Option Reply} {grants : List Grant}
    (h : op.Does O c.world.server r O' s') (hO : ∀ f ∈ c.world.opened, f ∈ O)
    (hs : c.world.server.Sound O)
    (hfits : c.world.server.view.lastReserved < c.world.server.view.nblocks)
    (hgrants : ∀ g ∈ grants, g.Held O' s'.view) :
    Clients.Inv ⟨⟨s', (r.elim [] Reply.files) ++ c.world.opened⟩, grants⟩ := by
  obtain ⟨hs', hn⟩ := h.sound hs
  refine ⟨insert .root O', h.opened_subset hO, hs'.insert_root, ?_, fun g hg => ?_⟩
  · rw [lastReserved_congr hn, hn]
    exact hfits
  · exact (hgrants g hg).mono (Set.subset_insert _ _)

/-- **A careful request keeps the invariant.** -/
lemma Clients.Inv.step {r : Request} (h : c.Inv) (hc : r.Careful c) (hstep : c.Step r c') :
    c'.Inv := by
  obtain ⟨hv, hexec⟩ := hstep
  obtain ⟨O, hO, hs, hfits, hheld⟩ := h
  cases r with
  | unmap g =>
      obtain rfl := Option.some.inj hexec
      exact ⟨O, hO, hs, hfits, fun g' hg' => hheld g' (List.mem_of_mem_filter hg')⟩
  | op client o =>
      obtain ⟨hh, hc⟩ := hc
      have hwp := hs.wp_op hO hv hh
      rw [Clients.exec] at hexec
      cases hrun : o.run c.world.server with
      | ok r s =>
          rw [hrun] at hexec
          obtain rfl := Option.some.inj hexec
          obtain ⟨O', hd⟩ := hwp.of_ok hrun
          refine hd.clients_inv hO hs hfits fun g hg => ?_
          rcases List.mem_append.mp hg with hg | hg
          · exact hd.granted hs (hd.sound hs).1 hg
          · exact hd.held hs hc hg (hheld g hg)
      | exit e s =>
          rw [hrun] at hexec
          obtain rfl := Option.some.inj hexec
          obtain ⟨O', hd⟩ := hwp.of_exit hrun
          exact hd.clients_inv hO hs hfits fun g hg => hd.held hs hc hg (hheld g hg)
      | panic p =>
          rw [hrun] at hexec
          exact absurd hexec nofun

/-- **No page of a client is that of another file.**  In every run of careful requests from a well
formed disk, a block whose page a client maps is still the block of the file for which the client
got it, or it is free, and no other file has it. -/
theorem pages_private (hwf : WellFormed disk) (h : c.Reaches disk Request.Careful) : c.Private :=
  (Reachable.invariant h (fun _ hc => hc.inv hwf) fun _ _ _ hc hstep =>
    hc.step hstep.1 hstep.2).private_

end

/-! ## A page of two files -/

instance (c : Clients) (r : Request) : Decidable (c.Valid r) :=
  match r with
  | .op _ op => inferInstanceAs (Decidable (op.Valid c.world))
  | .unmap _ => inferInstanceAs (Decidable True)

/-- The next state, if the request is in `C` and can be made. -/
def Clients.next (C : Clients → Request → Prop) [∀ c r, Decidable (C c r)]
    (c : Clients) (r : Request) :
    Option Clients :=
  if C c r ∧ c.Valid r then c.exec r else none

/-- A run from the disk, by evaluation, to a state that passes a test. -/
lemma Clients.reaches_of_any {C : Clients → Request → Prop} [∀ c r, Decidable (C c r)] {disk : View}
    (rs : List Request) (test : Clients → Bool)
    (h : ((World.boot disk).bind fun w => rs.foldlM (Clients.next C) ⟨w, []⟩).any test = true) :
    ∃ c, c.Reaches disk C ∧ test c = true := by
  obtain ⟨c, hc, ht⟩ := (Option.any_eq_true _ _).mp h
  obtain ⟨w₀, hw₀, hr⟩ := Option.bind_eq_some_iff.mp hc
  have hinit : Clients.Reaches disk C ⟨w₀, []⟩ := .init ⟨World.starts_boot hw₀, rfl⟩
  refine ⟨c, hinit.foldlM (fun c r c' h => ?_) hr, ht⟩
  rw [Clients.next] at h
  split_ifs at h with hcr
  exact ⟨hcr.1, hcr.2, h⟩

/-- The file is an entry with a name of the first block of the root. -/
def View.InRoot (v : View) (f : FileRef) : Prop :=
  v.IsDir .root ∧ v.num .root (.direct 0) ≠ 0 ∧ v.Named f ∧
    ∃ j < FILE2BLK, f = .entry (v.num .root (.direct 0)) j

instance (v : View) (f : FileRef) : Decidable (v.InRoot f) :=
  inferInstanceAs (Decidable (_ ∧ _ ∧ _ ∧ _))

lemma View.InRoot.live {O : Set FileRef} {v : View} {f : FileRef} (h : v.InRoot f) :
    v.Live O f := by
  obtain ⟨hdir, hb, hn, j, hj, rfl⟩ := h
  exact .entry .root hdir (show (0 : ℕ) < NDIRECT by decide) hb hj (.inl hn)

/-- A disk with two empty files, "a" and "b", and two free blocks. -/
def twoFileDisk : View
  | 1 => .ofWords [(0, FS_MAGIC), (1, 6#32), (34, 4096#32), (35, FTYPE_DIR), (36, 3#32)]
  | 2 => .ofWords [(0, 0b110000#32)]
  | 3 => .ofWords [(0, 0x61#32), (64, 0x62#32)]
  | _ => Block.zero

lemma wellFormed_twoFileDisk : WellFormed twoFileDisk :=
  wellFormed_of_checks [.root, .entry 3 0, .entry 3 1] (by decide) (by decide)
    (by decide) (by decide) (by decide) (by decide)

/-- Client 0 maps block 0 of "a", which is then cut off; client 1 maps block 0 of "b". -/
def recycled : List Request :=
  [.op 0 (.openFile [0x61#8]), .op 1 (.openFile [0x62#8]), .op 0 (.getBlock (.entry 3 0) 0),
    .op 1 (.setSize (.entry 3 0) 4096#32), .op 1 (.setSize (.entry 3 0) 0#32),
    .op 1 (.getBlock (.entry 3 1) 0)]

/-- The page that client 0 maps for a block of "a" is that of a block of "b". -/
theorem page_aliased : ∃ (disk : View) (c : Clients) (g : Grant) (f : FileRef), WellFormed disk ∧
    c.Reaches disk (fun _ _ => True) ∧ g ∈ c.grants ∧ g.client = 0 ∧ f ≠ g.file ∧ c.world.Live f ∧
    c.world.server.view.num f (.of 0) = g.block := by
  have hrun : ((World.boot twoFileDisk).bind fun w =>
      recycled.foldlM (Clients.next fun _ _ => True) ⟨w, []⟩).any
      (fun c => decide (⟨0, .entry 3 0, 0, 4⟩ ∈ c.grants ∧ c.world.server.view.InRoot (.entry 3 1) ∧
        c.world.server.view.num (.entry 3 1) (.of 0) = 4)) = true := by
    decide +kernel
  obtain ⟨c, hc, htest⟩ := Clients.reaches_of_any _ _ hrun
  obtain ⟨hg, hroot, hnum⟩ := decide_eq_true_iff.mp htest
  exact ⟨twoFileDisk, c, _, .entry 3 1, wellFormed_twoFileDisk, hc, hg, rfl, by decide,
    hroot.live, hnum⟩

/-- Requests, while no granted block is free: files are opened, and blocks of files in the root
mapped. -/
def Request.Opens (c : Clients) : Request → Prop
  | .op _ (.openFile path) => (∀ g ∈ c.grants, ¬ c.world.server.view.Free g.block) ∧
      (Op.openFile path).FirstWalk c.world
  | .op _ (.getBlock f n) => (∀ g ∈ c.grants, ¬ c.world.server.view.Free g.block) ∧ n < NDIRECT ∧
      c.world.server.view.InRoot f ∧ ¬ c.world.server.view.IsDir f
  | _ => False

instance (c : Clients) (r : Request) : Decidable (r.Opens c) :=
  match r with
  | .op _ (.openFile _) => inferInstanceAs (Decidable (_ ∧ _))
  | .op _ (.getBlock _ _) => inferInstanceAs (Decidable (_ ∧ _ ∧ _ ∧ _))
  | .op _ (.setSize _ _) | .op _ (.dirty _ _) | .op _ (.flush _) | .op _ (.close _)
  | .op _ (.remove _) | .op _ .sync | .op _ (.write _ _ _) | .unmap _ =>
      inferInstanceAs (Decidable False)

lemma Request.Opens.careful {c : Clients} {r : Request} (h : r.Opens c) : r.Careful c := by
  cases r with
  | unmap g => exact h.elim
  | op client o =>
      cases o with
      | openFile path => exact ⟨h.2.harmless, .inr h.1⟩
      | getBlock f n =>
          obtain ⟨hused, hn, hroot, hreg⟩ := h
          have hslot : c.world.server.view.HasSlot f (.of n) := by
            rw [Slot.of_direct hn]
            trivial
          refine ⟨⟨hroot.live, ⟨fun _ hnot => absurd hslot hnot, fun _ hd => absurd hd hreg⟩⟩,
            fun _ g hg => ⟨fun ht => ht.1 hslot, ?_⟩⟩
          rintro (⟨-, -, hfirst⟩ | ⟨hnot, -⟩)
          · exact absurd hfirst.free (hused g hg)
          · exact absurd hslot hnot
      | _ => exact h.elim

/-- Client 0 maps block 0 of "a", and client 1 that of "b". -/
theorem pages_private_twoFile : ∃ c : Clients, c.Reaches twoFileDisk Request.Careful ∧
    c.grants = [⟨1, .entry 3 1, 0, 5⟩, ⟨0, .entry 3 0, 0, 4⟩] ∧ c.Private := by
  have hrun : ((World.boot twoFileDisk).bind fun w =>
      [Request.op 0 (.openFile [0x61#8]), .op 1 (.openFile [0x62#8]),
        .op 0 (.getBlock (.entry 3 0) 0),
        .op 1 (.getBlock (.entry 3 1) 0)].foldlM (Clients.next fun c r => r.Opens c) ⟨w, []⟩).any
      (fun c => decide (c.grants = [⟨1, .entry 3 1, 0, 5⟩, ⟨0, .entry 3 0, 0, 4⟩])) = true := by
    decide +kernel
  obtain ⟨c, hc, htest⟩ := Clients.reaches_of_any _ _ hrun
  have hc' : c.Reaches twoFileDisk Request.Careful :=
    Reachable.mono hc fun _ _ _ hs => ⟨hs.1.careful, hs.2⟩
  exact ⟨c, hc', decide_eq_true_iff.mp htest, pages_private wellFormed_twoFileDisk hc'⟩

end MosRv.Fs
