import MosRv.Fs.Descriptors

/-!
# A write and the size of the file

Each descriptor has its own copy of the size of the file.  A `write` that ends behind this copy asks
the server to set the size to its own end, even if another descriptor has made the file longer in
the meantime: the server then cuts the file off, and the blocks behind the new size are free
(`write_shrinks`).  The same happens when a page cannot be had and `ftruncate` asks for the old
size.

In every run in which no descriptor asks for a size below that of the file, and in which bytes are
written to regular files only, no file gets shorter and no block that is in use becomes free
(`write_never_shrinks`).
-/

namespace MosRv.Fs

open Prog View Reach

/-! ## Nothing is lost -/

/-- The files are still there with their blocks, none is shorter, and no block has become free.
More files may be open. -/
structure View.NoLoss (O O' : Set FileRef) (v v' : View) : Prop where
  live : ∀ g, v.Live O g → v'.Live O' g
  num : ∀ g sl, v.Live O g → sl.Ok → v.num g sl ≠ 0 → v'.num g sl = v.num g sl
  isDir : ∀ g, v.Live O g → (v'.IsDir g ↔ v.IsDir g)
  size : ∀ g, v.Live O g → (v.field g F_SIZE).toNat ≤ (v'.field g F_SIZE).toNat
  used : ∀ b, b < v.nblocks → v'.Free b → v.Free b
  nblocks : v'.nblocks = v.nblocks

section

variable {O O' O'' : Set FileRef} {s s' : Server} {v v' v'' : View} {f g : FileRef} {w : Word}
  {window : ℕ → Option ℕ}

lemma View.NoLoss.refl : NoLoss O O v v :=
  ⟨fun _ h => h, fun _ _ _ _ _ => rfl, fun _ _ => Iff.rfl, fun _ _ => le_rfl, fun _ _ h => h, rfl⟩

lemma View.NoLoss.trans (h : NoLoss O O' v v') (h' : NoLoss O' O'' v' v'') :
    NoLoss O O'' v v'' where
  live g hg := h'.live g (h.live g hg)
  num g sl hg hsl hne := by
    have heq := h.num g sl hg hsl hne
    exact (h'.num g sl (h.live g hg) hsl (heq ▸ hne)).trans heq
  isDir g hg := (h'.isDir g (h.live g hg)).trans (h.isDir g hg)
  size g hg := (h.size g hg).trans (h'.size g (h.live g hg))
  used b hb hfree := h.used b hb (h'.used b (h.nblocks ▸ hb) hfree)
  nblocks := h'.nblocks.trans h.nblocks

lemma View.NoLoss.mono (h : NoLoss O O' v v') (hO : O' ⊆ O'') : NoLoss O O'' v v' :=
  { h with live := fun g hg => (h.live g hg).mono hO }

lemma View.Extends.noLoss (h : Extends O v v') : NoLoss O O v v' where
  live := h.live
  num := h.num
  isDir _ hg := h.isDir hg
  size g hg := by rw [h.field g F_SIZE hg (by decide)]
  used := h.free
  nblocks := h.nblocks

/-- A size is stored that is not smaller. -/
lemma View.Own.noLoss_size (h : v.Own O) (hf : v.Live O f)
    (hle : (v.field f F_SIZE).toNat ≤ w.toNat) :
    NoLoss O O v (v.store f.block (f.word + F_SIZE) w) := by
  have hagree := h.agree_field hf (k := F_SIZE) (by decide) (by decide) w
  have hplain := h.plain_field hf F_SIZE
  refine ⟨fun _ => hagree.live.mpr, fun _ _ hg hsl _ => hagree.num hg hsl,
    fun _ => hagree.isDir, fun g hg => ?_, fun _ hb => (free_store hplain hb).mp,
    nblocks_store_plain hplain⟩
  by_cases hgf : g = f
  · subst hgf
    rw [View.field, View.field, store_apply, if_pos ⟨rfl, rfl⟩]
    exact hle
  · have hsame : (v.store f.block (f.word + F_SIZE) w).field g F_SIZE = v.field g F_SIZE :=
      field_store fun hc =>
        hgf (h.disjoint hg hf (k := F_SIZE) (l := F_SIZE) (by decide) (by decide)
        hc.1 hc.2).1
    rw [hsame]

/-! ## The pages of a window -/

/-- The pages that are mapped in a window are pages of the file. -/
def WindowOk (v : View) (f : FileRef) (window : ℕ → Option ℕ) : Prop :=
  ∀ p b, window p = some b → p < NINDIRECT ∧ v.num f (.of p) = b ∧ b ≠ 0

lemma WindowOk.noLoss (h : WindowOk v f window) (hl : NoLoss O O' v v') (hf : v.Live O f) :
    WindowOk v' f window := by
  intro p b hp
  obtain ⟨hn, heq, hne⟩ := h p b hp
  refine ⟨hn, ?_, hne⟩
  rw [hl.num f _ hf (Slot.data_of hn).ok (heq ▸ hne), heq]

lemma WindowOk.update {p b : ℕ} (h : WindowOk v f window) (hn : p < NINDIRECT)
    (heq : b = v.num f (.of p)) (hne : b ≠ 0) :
    WindowOk v f (Function.update window p (some b)) := by
  intro q c hq
  by_cases hqp : q = p
  · subst hqp
    rw [Function.update_self] at hq
    obtain rfl := Option.some.inj hq
    exact ⟨hn, heq.symm, hne⟩
  · rw [Function.update_of_ne hqp] at hq
    exact h q c hq

/-- A page of a regular file is written to. -/
lemma Server.Sound.put_data {n : ℕ} (h : s.Sound O) (hf : s.view.Live O f) (hreg : ¬ s.view.IsDir f)
    (hn : n < NINDIRECT) (hne : s.view.num f (.of n) ≠ 0) (blk : Block) :
    s.Runs O (s.put (s.view.num f (.of n)) blk) ∧ s.Keeps (s.put (s.view.num f (.of n)) blk) ∧
      Extends O s.view (s.put (s.view.num f (.of n)) blk).view := by
  have hsl := Slot.data_of hn
  refine ⟨(becomes_put blk).runs (.single (.data blk hf hreg hsl hne)), fun c hc hfree => ?_, ?_⟩
  · rw [view_put, h.own.free_data hf hsl hne blk hc] at hfree
    refine ⟨hfree, page_congr (Function.update_of_ne ?_ _ _)⟩
    rintro rfl
    exact (h.own.range f _ hf hsl.ok hne).2.2 hfree
  · rw [view_put]
    exact h.own.extends_data hf hreg hsl hne blk

/-- A `memcpy` to the window of a regular file changes the data of the file only. -/
lemma Server.Sound.copyBytes (h : s.Sound O) (hf : s.view.Live O f) (hreg : ¬ s.view.IsDir f)
    (hw : WindowOk s.view f window) (pos : Word) (buf : List Byte) :
    s.Runs O (copyBytes window pos buf s) ∧ s.Keeps (copyBytes window pos buf s) ∧
      Extends O s.view (copyBytes window pos buf s).view := by
  induction buf generalizing pos s with
  | nil => exact ⟨.refl, .refl, .refl⟩
  | cons c buf ih =>
      rw [Fs.copyBytes]
      cases hb : window (pos.toNat / BY2BLK) with
      | none => exact ih h hf hreg hw _
      | some b =>
          obtain ⟨hn, rfl, hne⟩ := hw _ _ hb
          obtain ⟨hr, hk, hx⟩ := h.put_data hf hreg hn hne
            ((s.view (s.view.num f (.of (pos.toNat / BY2BLK)))).setByte (pos.toNat % BY2BLK) c)
          obtain ⟨hr', hk', hx'⟩ := ih (h.runs hr) (hx.live f hf)
            (fun hd => hreg ((hx.isDir hf).mp hd)) (hw.noLoss hx.noLoss hf) (pos + 1#32)
          exact ⟨hr.trans hr', hk.trans hk' hx.nblocks, hx.trans hx'⟩

end

/-! ## The condition -/

/-- A `write` has been started through a descriptor and is not finished. -/
def Pc.Writes : Pc → Prop
  | .setSize _ _ copy | .mapping _ _ _ copy => copy.isSome
  | .copying _ => True
  | _ => False

/-- What a call of the descriptor must meet: bytes are written to regular files only, and a size
that is asked for is not below that of the file. -/
def Call.ExtendsAt (u : Users) (fd : Fd) (ff : Filefd) : Call → Prop
  | .write _ _ => ¬ u.server.view.IsDir ff.file
  | .step _ =>
      match fd.pc with
      | .setSize _ size _ | .rollback size =>
          (u.server.view.field ff.file F_SIZE).toNat ≤ size.toNat
      | _ => True
  | _ => True

def Call.Extends (u : Users) (call : Call) : Prop :=
  ∀ fd ff, u.get call.fd = some (fd, ff) → call.ExtendsAt u fd ff

instance (u : Users) (fd : Fd) (ff : Filefd) (call : Call) :
    Decidable (call.ExtendsAt u fd ff) := by
  cases call with
  | write i buf => exact inferInstanceAs (Decidable (¬ u.server.view.IsDir ff.file))
  | step i =>
      obtain ⟨k, window, pc⟩ := fd
      cases pc with
      | setSize old size copy => exact inferInstanceAs (Decidable (_ ≤ size.toNat))
      | rollback size => exact inferInstanceAs (Decidable (_ ≤ size.toNat))
      | _ => exact inferInstanceAs (Decidable True)
  | _ => exact inferInstanceAs (Decidable True)

instance (u : Users) (call : Call) : Decidable (call.Extends u) :=
  match h : u.get call.fd with
  | none => isTrue fun _ _ he => absurd (h.symm.trans he) nofun
  | some (fd, ff) =>
      decidable_of_iff (call.ExtendsAt u fd ff)
        ⟨fun hc fd' ff' he => by
          obtain ⟨rfl, rfl⟩ := Prod.mk.inj (Option.some.inj (h.symm.trans he))
          exact hc, fun hc => hc fd ff h⟩

/-! ## The invariant -/

/-- A descriptor: its window has pages of its file, which is regular if it is written to. -/
def Fd.Ok (v : View) (ffs : ℕ → Option Filefd) (fd : Fd) : Prop :=
  ∃ ff, ffs fd.ff = some ff ∧ WindowOk v ff.file fd.window ∧ (fd.pc.Writes → ¬ v.IsDir ff.file)

structure Users.Inv (O : Set FileRef) (u : Users) : Prop where
  sound : u.server.Sound O
  clean : u.server.Clean
  files : ∀ k ff, u.ffs k = some ff → ff.file ∈ O ∧ u.server.view.Live O ff.file
  fds : ∀ i fd, u.fds i = some fd → fd.Ok u.server.view u.ffs

section

variable {O O' : Set FileRef} {u u' : Users} {s' : Server} {i k : ℕ} {fd : Fd} {ff ff' : Filefd}

lemma Fd.Ok.noLoss {v v' : View} (h : fd.Ok v u.ffs) (hl : NoLoss O O' v v')
    (hfiles : ∀ k ff, u.ffs k = some ff → v.Live O ff.file) : fd.Ok v' u.ffs := by
  obtain ⟨ff, hff, hw, hreg⟩ := h
  have hlive := hfiles _ _ hff
  exact ⟨ff, hff, hw.noLoss hl hlive, fun hp hd => hreg hp ((hl.isDir _ hlive).mp hd)⟩

/-- The server has worked on a request in which nothing was lost. -/
lemma Users.Inv.server (h : u.Inv O) (hO : O ⊆ O') (hs' : s'.Sound O') (hk : u.server.Keeps s')
    (hl : NoLoss O O' u.server.view s'.view) : Users.Inv O' { u with server := s' } where
  sound := hs'
  clean := hk.clean hl.nblocks h.clean
  files k ff hff := ⟨hO (h.files k ff hff).1, hl.live _ (h.files k ff hff).2⟩
  fds i fd hfd := (h.fds i fd hfd).noLoss hl fun k ff hff => (h.files k ff hff).2

/-- A descriptor goes on, is made or is given up. -/
lemma Users.Inv.setFd (h : u.Inv O) {fd : Option Fd}
    (hfd : ∀ fd', fd = some fd' → fd'.Ok u.server.view u.ffs) : (u.setFd i fd).Inv O where
  sound := h.sound
  clean := h.clean
  files := h.files
  fds j fd' hj := by
    change Function.update u.fds i fd j = some fd' at hj
    by_cases hji : j = i
    · subst hji
      rw [Function.update_self] at hj
      exact hfd fd' hj
    · rw [Function.update_of_ne hji] at hj
      exact h.fds j fd' hj

lemma Users.Inv.setFd_some (h : u.Inv O) (hfd : fd.Ok u.server.view u.ffs) :
    (u.setFd i (some fd)).Inv O :=
  h.setFd fun _ he => Option.some.inj he ▸ hfd

/-- The page of an open file is written to, or there is a new one. -/
lemma Users.Inv.setFf (h : u.Inv O) (hfile : ff'.file ∈ O ∧ u.server.view.Live O ff'.file)
    (hold : ∀ ff, u.ffs k = some ff → ff'.file = ff.file) : (u.setFf k ff').Inv O where
  sound := h.sound
  clean := h.clean
  files j ff hj := by
    by_cases hjk : j = k
    · subst hjk
      obtain rfl := Option.some.inj ((Function.update_self j _ u.ffs).symm.trans hj)
      exact hfile
    · exact h.files j ff ((Function.update_of_ne hjk _ u.ffs).symm.trans hj)
  fds j fd hj := by
    obtain ⟨ff, hff, hw, hreg⟩ := h.fds j fd hj
    by_cases hk : fd.ff = k
    · subst hk
      rw [← hold ff hff] at hw hreg
      exact ⟨ff', Function.update_self _ _ _, hw, hreg⟩
    · exact ⟨ff, (Function.update_of_ne hk _ _).trans hff, hw, hreg⟩

lemma Users.get_eq (h : u.get i = some (fd, ff)) : u.fds i = some fd ∧ u.ffs fd.ff = some ff := by
  obtain ⟨fd', hfd, hff⟩ := Option.bind_eq_some_iff.mp h
  obtain ⟨ff', hff', heq⟩ := Option.map_eq_some_iff.mp hff
  obtain ⟨rfl, rfl⟩ := Prod.mk.inj heq
  exact ⟨hfd, hff'⟩

/-- A request that returned: the server has done it, or there was an error. -/
lemma Users.request_cases {α : Type} {x : FsM α} {ok : α → Users → Users} {err : Users → Users}
    (h : u.request x ok err = some u') :
    (∃ a s, x u.server = .ok a s ∧ u' = ok a { u with server := s }) ∨
      ∃ e s, x u.server = .exit e s ∧ u' = err { u with server := s } := by
  rw [Users.request] at h
  split at h
  · rename_i a s hx
    exact .inl ⟨a, s, hx, (Option.some.inj h).symm⟩
  · rename_i e s hx
    exact .inr ⟨e, s, hx, (Option.some.inj h).symm⟩
  · exact absurd h nofun

end

/-! ## One step -/

/-- What is left after a call: nothing has been lost. -/
def Users.Grows (O : Set FileRef) (u u' : Users) : Prop :=
  ∃ O', u'.Inv O' ∧ NoLoss O O' u.server.view u'.server.view

section

variable {O : Set FileRef} {s : Server} {u u' : Users} {i k : ℕ} {fd fd' : Fd} {ff : Filefd}
  {path : List Byte} {size : Word}

/-- What `serve_open` does. -/
lemma Server.Sound.wp_serveOpen (h : s.Sound O) (hc : s.Clean) (hstr : IsString path) :
    wp (serveOpen path) s
      (fun r s' => ∃ O', s.Walked O O' s' ∧ (r.1 = .root ∨ r.1 ∈ O') ∧ s'.view.Live ∅ r.1 ∧
        r.2 = s'.view.field r.1 F_SIZE)
      (fun _ s' => ∃ O', s.Walked O O' s') Panic.Memory := by
  rw [serveOpen, wp_bind]
  refine (h.wp_fileOpen (.inr hc) hstr).mono ?_ (fun _ _ he => he) fun _ hp => hp
  rintro f s₁ ⟨O', hw, hO, hlive⟩
  rw [wp_bind, loadField, wp_loadWord (hw.sound.mapped hO), wp_pure]
  exact ⟨O', hw, hO, hlive, rfl⟩

lemma Users.Inv.openFd {rdonly : Bool} (h : u.Inv O) (hk : u.ffs k = none) (hstr : IsString path)
    (hreq : u.request (serveOpen path)
      (fun r u => (u.setFf k ⟨r.1, r.2, 0#32, rdonly⟩).setFd i
        (some ⟨k, fun _ => none, .opening 0⟩))
      id = some u') : u.Grows O u' := by
  have hwp := h.sound.wp_serveOpen h.clean hstr
  rcases Users.request_cases hreq with ⟨⟨f, size⟩, s, hrun, rfl⟩ | ⟨e, s, hrun, rfl⟩
  · obtain ⟨O', hw, hO, hlive, -⟩ := hwp.of_ok hrun
    have hl := hw.extends_.noLoss.mono (hw.subset.trans (Set.subset_insert FileRef.root O'))
    have hmono : O ⊆ Insert.insert FileRef.root O' :=
      hw.subset.trans (Set.subset_insert FileRef.root O')
    have h₁ := h.server hmono hw.sound.insert_root hw.keeps hl
    have hfile : f ∈ Insert.insert FileRef.root O' ∧ s.view.Live (Insert.insert .root O') f :=
      ⟨hO, hlive.mono (Set.empty_subset _)⟩
    have h₂ : Users.Inv _ (Users.setFf _ k ⟨f, size, 0#32, rdonly⟩) :=
      h₁.setFf hfile fun ff hff => absurd (hk.symm.trans hff) nofun
    exact ⟨_, h₂.setFd_some ⟨_, Function.update_self _ _ _, nofun, nofun⟩, hl⟩
  · obtain ⟨O', hw⟩ := hwp.of_exit hrun
    have hl := hw.extends_.noLoss.mono hw.subset
    exact ⟨O', h.server hw.subset hw.sound hw.keeps hl, hl⟩

/-- A page of the window is mapped, or cannot be had. -/
lemma Users.Inv.getBlock {p : ℕ} {pc : Pc} {err : Option Fd} (h : u.Inv O)
    (hget : u.get i = some (fd, ff)) (hreq : u.request (fileGetBlock ff.file p)
      (fun b u => u.setFd i
        (some { fd with window := Function.update fd.window p (some b), pc := pc }))
      (fun u => u.setFd i err) = some u')
    (hreg : pc.Writes → ¬ u.server.view.IsDir ff.file)
    (herr : ∀ fd', err = some fd' → fd'.Ok u.server.view u.ffs) : u.Grows O u' := by
  obtain ⟨hfd, hff⟩ := Users.get_eq hget
  obtain ⟨hO, hlive⟩ := h.files _ _ hff
  have hready : u.server.Ready ff.file p := .of_clean h.clean
  have hfiles := fun k ff hff => (h.files k ff hff).2
  have hwp := h.sound.wp_fileGetBlock hlive (h.sound.mapped (.inr hO)) hready
  rcases Users.request_cases hreq with ⟨b, s, hrun, rfl⟩ | ⟨e, s, hrun, rfl⟩
  · obtain ⟨hn, hr, hk, -, hg, hb, hne, -⟩ := hwp.of_ok hrun
    have hl := (h.sound.extends_grown hlive hready hn hg).noLoss
    have h₁ := h.server subset_rfl (h.sound.runs hr) hk hl
    obtain ⟨ff', hff', hw, -⟩ := h.fds i fd hfd
    obtain rfl := Option.some.inj (hff.symm.trans hff')
    refine ⟨O, h₁.setFd_some ?_, hl⟩
    exact ⟨ff, hff, (hw.noLoss hl hlive).update hn hb hne,
      fun hp hd => hreg hp ((hl.isDir _ hlive).mp hd)⟩
  · obtain ⟨hr, hk, hg⟩ := hwp.of_exit hrun
    have hl := (h.sound.extends_notGrown hlive hready hg).noLoss
    have h₁ := h.server subset_rfl (h.sound.runs hr) hk hl
    exact ⟨O, h₁.setFd fun fd' he => (herr fd' he).noLoss hl hfiles, hl⟩

/-- The server sets a size that is not smaller. -/
lemma Users.Inv.setSize (h : u.Inv O) (hff : u.ffs k = some ff)
    (hle : (u.server.view.field ff.file F_SIZE).toNat ≤ size.toNat)
    {err : Users → Users} (hreq : u.request (fileSetSize ff.file size)
      (fun _ u => u.setFd i (some fd')) err = some u') (hfd :
      fd'.Ok u.server.view u.ffs) : u.Grows O u' := by
  obtain ⟨hO, hlive⟩ := h.files _ _ hff
  have hwp := h.sound.wp_fileSetSize_grow (E := fun _ _ => False) (.inr hO) hlive hle
  rcases Users.request_cases hreq with ⟨_, s, hrun, rfl⟩ | ⟨e, s, hrun, rfl⟩
  · obtain ⟨hk, hbec⟩ := hwp.of_ok hrun
    have hl : NoLoss O O u.server.view s.view := by
      rw [hbec.view]
      exact h.sound.own.noLoss_size hlive hle
    have hs := h.sound.runs (hbec.runs (h.sound.own.edits_size hlive size).1)
    have h₁ := h.server subset_rfl hs hk hl
    exact ⟨O, h₁.setFd_some (hfd.noLoss hl fun k ff hff => (h.files k ff hff).2), hl⟩
  · exact (hwp.of_exit hrun).elim

/-- The bytes of a `write` are copied. -/
lemma Users.Inv.copy (h : u.Inv O) (hget : u.get i = some (fd, ff))
    (hreg : ¬ u.server.view.IsDir ff.file) (pos : Word) (buf : List Byte) (ff' : Filefd)
    (hfile : ff'.file = ff.file) :
    u.Grows O (({ u with server := copyBytes fd.window pos buf u.server }.setFf fd.ff ff').setFd i
      (some { fd with pc := .idle })) := by
  obtain ⟨hfd, hff⟩ := Users.get_eq hget
  obtain ⟨hO, hlive⟩ := h.files _ _ hff
  obtain ⟨ff₁, hff₁, hw, -⟩ := h.fds i fd hfd
  obtain rfl := Option.some.inj (hff.symm.trans hff₁)
  obtain ⟨hr, hk, hx⟩ := h.sound.copyBytes hlive hreg hw pos buf
  have hl := hx.noLoss
  have h₁ := h.server subset_rfl (h.sound.runs hr) hk hl
  have hfile' : ff'.file ∈ O ∧ (copyBytes fd.window pos buf u.server).view.Live O ff'.file := by
    rw [hfile]
    exact ⟨hO, hl.live _ hlive⟩
  have h₂ : Users.Inv O (Users.setFf _ fd.ff ff') := h₁.setFf hfile' fun ff₂ hff₂ => by
    obtain rfl := Option.some.inj (hff.symm.trans hff₂)
    exact hfile
  refine ⟨O, h₂.setFd_some ⟨ff', Function.update_self _ _ _, ?_, nofun⟩, hl⟩
  rw [hfile]
  exact hw.noLoss hl hlive

end

/-! ## Runs -/

section

variable {O : Set FileRef} {u u' : Users} {i : ℕ} {fd : Fd} {ff : Filefd}
    {call : Call} {disk : View}

/-- The state of a descriptor after a local step. -/
lemma Users.Inv.pc (h : u.Inv O) (hget : u.get i = some (fd, ff)) {pc : Pc}
    {window : ℕ → Option ℕ} (hw : ∀ p b, window p = some b → fd.window p = some b)
    (hreg : pc.Writes → ¬ u.server.view.IsDir ff.file) :
    Fd.Ok u.server.view u.ffs { fd with window := window, pc := pc } := by
  obtain ⟨hfd, hff⟩ := Users.get_eq hget
  obtain ⟨ff', hff', hok, -⟩ := h.fds i fd hfd
  obtain rfl := Option.some.inj (hff.symm.trans hff')
  exact ⟨ff, hff, fun p b hp => hok p b (hw p b hp), hreg⟩

/-- A local change of the page of an open file. -/
lemma Users.Inv.setFf_get (h : u.Inv O) (hget : u.get i = some (fd, ff)) {ff' : Filefd}
    (hfile : ff'.file = ff.file) : (u.setFf fd.ff ff').Inv O := by
  obtain ⟨-, hff⟩ := Users.get_eq hget
  refine h.setFf ?_ fun ff₁ hff₁ => ?_
  · rw [hfile]
    exact h.files _ _ hff
  · rw [hfile, Option.some.inj (hff.symm.trans hff₁)]

lemma Users.Inv.grows_refl (h : u'.Inv O) (heq : u'.server = u.server) : u.Grows O u' :=
  ⟨O, h, heq ▸ .refl⟩

lemma Users.get_setFf (hget : u.get i = some (fd, ff)) (ff' : Filefd) :
    (u.setFf fd.ff ff').get i = some (fd, ff') := by
  obtain ⟨hfd, -⟩ := Users.get_eq hget
  have hff' : (u.setFf fd.ff ff').ffs fd.ff = some ff' := Function.update_self _ _ _
  rw [Users.get, Users.setFf, hfd, Option.bind_some]
  exact congrArg (Option.map fun ff => (fd, ff)) hff'

lemma Users.Inv.grows_truncate (h : u.Inv O) (hget : u.get i = some (fd, ff)) (size : Word)
    (copy : Option Copy) (hreg : copy.isSome → ¬ u.server.view.IsDir ff.file) :
    u.Grows O (u.truncate i fd ff size copy) := by
  have h₁ : (u.setFf fd.ff { ff with size := size }).Inv O := h.setFf_get hget rfl
  have hget₁ := Users.get_setFf hget { ff with size := size }
  exact Users.Inv.grows_refl (h₁.setFd_some (h₁.pc hget₁ (fun _ _ hp => hp) hreg)) rfl

/-- The call of a descriptor goes on. -/
lemma Users.Inv.advance (h : u.Inv O) (hC : (Call.step i).Extends u)
    (hget : u.get i = some (fd, ff)) (hadv : u.advance i fd ff = some u') : u.Grows O u' := by
  obtain ⟨hfd, hff⟩ := Users.get_eq hget
  have hC := hC fd ff hget
  have hreg : fd.pc.Writes → ¬ u.server.view.IsDir ff.file := by
    obtain ⟨ff', hff', -, hreg⟩ := h.fds i fd hfd
    obtain rfl := Option.some.inj (hff.symm.trans hff')
    exact hreg
  have hidle : Fd.Ok u.server.view u.ffs { fd with pc := .idle } :=
    h.pc hget (fun _ _ hp => hp) nofun
  rw [Users.advance] at hadv
  split at hadv
  · exact absurd hadv nofun
  · rename_i p hpc
    split_ifs at hadv
    · refine h.getBlock hget hadv nofun fun fd' he => ?_
      obtain rfl := Option.some.inj he
      exact hidle
    · obtain rfl := Option.some.inj hadv
      exact (h.setFd_some hidle).grows_refl rfl
  · rename_i oldsize size copy hpc
    rw [Call.ExtendsAt, hpc] at hC
    rw [hpc] at hreg
    exact h.setSize hff hC hadv (h.pc hget (fun _ _ hp => hp) fun hp => hreg hp)
  · rename_i p oldsize size copy hpc
    rw [hpc] at hreg
    split_ifs at hadv
    · refine h.getBlock hget hadv (fun hp => hreg hp) fun fd' he => ?_
      obtain rfl := Option.some.inj he
      exact h.pc hget (fun _ _ hp => hp) nofun
    · obtain rfl := Option.some.inj hadv
      refine (h.setFd_some (h.pc hget (fun q b hq => ?_) ?_)).grows_refl rfl
      · split_ifs at hq
        exact hq
      · cases copy with
        | none => exact nofun
        | some copy => exact fun _ => hreg rfl
  · rename_i oldsize hpc
    rw [Call.ExtendsAt, hpc] at hC
    exact h.setSize hff hC hadv hidle
  · rename_i copy hpc
    rw [hpc] at hreg
    obtain rfl := Option.some.inj hadv
    exact h.copy hget (hreg trivial) copy.offset copy.buf _ rfl

/-- A call is started. -/
lemma Users.Inv.begin_ (h : u.Inv O) (hC : call.Extends u) (hget : u.get call.fd = some (fd, ff))
    (hbegin : u.begin_ fd ff call = some u') : u.Grows O u' := by
  obtain ⟨hfd, -⟩ := Users.get_eq hget
  cases call with
  | openFd _ _ _ _ | step _ => exact absurd hbegin nofun
  | share i j =>
      rw [Users.begin_] at hbegin
      split_ifs at hbegin
      obtain rfl := Option.some.inj hbegin
      exact (h.setFd_some (h.fds i fd hfd)).grows_refl rfl
  | read i n | seek i offset =>
      rw [Users.begin_] at hbegin
      obtain rfl := Option.some.inj hbegin
      exact Users.Inv.grows_refl (h.setFf_get hget rfl) rfl
  | write i buf =>
      have hreg := hC fd ff hget
      rw [Users.begin_] at hbegin
      split_ifs at hbegin <;> obtain rfl := Option.some.inj hbegin
      · exact h.grows_refl rfl
      · exact h.grows_truncate hget _ _ fun _ => hreg
      · exact (h.setFd_some (h.pc hget (fun _ _ hp => hp) fun _ => hreg)).grows_refl rfl
  | ftruncate i size =>
      rw [Users.begin_] at hbegin
      split_ifs at hbegin <;> obtain rfl := Option.some.inj hbegin
      · exact h.grows_refl rfl
      · exact h.grows_truncate hget _ _ nofun

lemma Users.Inv.begin_idle (h : u.Inv O) (hC : call.Extends u)
    (hstep : ((u.get call.fd).bind fun (fd, ff) =>
      match fd.pc with
      | .idle => u.begin_ fd ff call
      | _ => none) = some u') : u.Grows O u' := by
  obtain ⟨⟨fd, ff⟩, hget, hbegin⟩ := Option.bind_eq_some_iff.mp hstep
  dsimp only at hbegin
  split at hbegin
  · exact h.begin_ hC hget hbegin
  · exact absurd hbegin nofun

/-- **A call under the condition loses nothing.** -/
lemma Users.Inv.step (h : u.Inv O) (hC : call.Extends u) (hstep : u.Step call u') :
    u.Grows O u' := by
  rw [Users.Step] at hstep
  cases call with
  | openFd i k path rdonly =>
      rw [Users.exec] at hstep
      split_ifs at hstep with hc
      exact h.openFd (Option.isNone_iff_eq_none.mp hc.2.1) hc.2.2 hstep
  | step i =>
      obtain ⟨⟨fd, ff⟩, hget, hadv⟩ := Option.bind_eq_some_iff.mp hstep
      exact h.advance hC hget hadv
  | share _ _ | read _ _ | write _ _ | seek _ _ | ftruncate _ _ => exact h.begin_idle hC hstep

lemma Users.Starts.inv (hwf : WellFormed disk) (h : u.Starts disk) : u.Inv ∅ := by
  obtain ⟨hw, hffs, hfds⟩ := h
  have hclean := hw.clean hwf
  obtain ⟨mem, s, hinit, heq⟩ := hw
  obtain rfl : u.server = s := congrArg World.server heq
  obtain ⟨hs, hview, -⟩ := (wp_fsInit (E := fun _ _ => True) hwf mem).of_ok hinit
  refine ⟨hwf.sound hs hview, hclean, ?_, ?_⟩
  · rw [hffs]
    exact nofun
  · rw [hfds]
    exact nofun

lemma Users.Reaches.inv (hwf : WellFormed disk) (h : u.Reaches disk Call.Extends) :
    ∃ O, u.Inv O := by
  induction h with
  | init h => exact ⟨∅, h.inv hwf⟩
  | step _ h ih =>
      obtain ⟨O, hu⟩ := ih
      obtain ⟨O', hu', -⟩ := hu.step h.1 h.2
      exact ⟨O', hu'⟩

/-- A run loses nothing. -/
lemma Users.Inv.run (h : u.Inv O) (hr : Reachable (· = u) (When Call.Extends Users.Step) u') :
    u.Grows O u' := by
  induction hr with
  | init h' =>
      subst h'
      exact ⟨O, h, .refl⟩
  | step _ hstep ih =>
      obtain ⟨O₁, h₁, hl₁⟩ := ih
      obtain ⟨O₂, h₂, hl₂⟩ := h₁.step hstep.1 hstep.2
      exact ⟨O₂, h₂, hl₁.trans hl₂⟩

end

/-- The files that have a name or are open. -/
def Users.Live (u : Users) (f : FileRef) : Prop :=
  u.server.view.Live { f | ∃ k ff, u.ffs k = some ff ∧ ff.file = f } f

/-- **A write never shrinks a file** when no size is asked for that is below that of the file, and
when bytes are written to regular files only: from every state that such a run reaches, whatever
goes on in it, no file gets shorter or loses a block, and no block that is in use becomes free. -/
theorem write_never_shrinks {disk : View} {u u' : Users} (hwf : WellFormed disk)
    (h : u.Reaches disk Call.Extends)
    (hr : Reachable (· = u) (When Call.Extends Users.Step) u') :
    (∀ f, u.Live f →
      (u.server.view.field f F_SIZE).toNat ≤ (u'.server.view.field f F_SIZE).toNat ∧
      ∀ sl, sl.Ok → u.server.view.num f sl ≠ 0 →
        u'.server.view.num f sl = u.server.view.num f sl) ∧
    ∀ b, b < u.server.view.nblocks → ¬ u.server.view.Free b → ¬ u'.server.view.Free b := by
  obtain ⟨O, hu⟩ := h.inv hwf
  obtain ⟨O', -, hl⟩ := hu.run hr
  refine ⟨fun f hf => ?_, fun b hb hused hfree => hused (hl.used b hb hfree)⟩
  have hf' : u.server.view.Live O f := by
    refine View.Live.mono hf ?_
    rintro - ⟨k, ff, hff, rfl⟩
    exact (hu.files k ff hff).1
  exact ⟨hl.size f hf', fun sl hsl hne => hl.num f sl hf' hsl hne⟩

/-! ## A write that cuts the file off -/

/-- Two descriptors of the file "a"; the first one has written a byte to its second page. -/
def twoWriters : List Call :=
  [.openFd 0 0 [0x61#8] false, .step 0, .openFd 1 1 [0x61#8] false, .step 1, .seek 0 4096#32,
    .write 0 [0x78#8], .step 0, .step 0, .step 0, .step 0, .step 0]

/-- `ftruncate` is not called. -/
def Call.NoTruncate : Call → Prop
  | .ftruncate _ _ => False
  | _ => True

instance (call : Call) : Decidable call.NoTruncate :=
  match call with
  | .ftruncate _ _ => inferInstanceAs (Decidable False)
  | .openFd _ _ _ _ | .share _ _ | .read _ _ | .write _ _ | .seek _ _ | .step _ =>
      inferInstanceAs (Decidable True)

/-- The second one writes a byte to the beginning, and the size becomes 1: the block with the byte
that was written before is free. -/
theorem write_shrinks : ∃ (disk : View) (u u' : Users) (f : FileRef) (b : ℕ), WellFormed disk ∧
    u.Reaches disk (fun _ call => call.NoTruncate) ∧
    Reachable (· = u) (When (fun _ call => call.NoTruncate) Users.Step) u' ∧
    u.server.view.field f F_SIZE = 4097#32 ∧ u'.server.view.field f F_SIZE = 1#32 ∧
    u.server.view.num f (.of 1) = b ∧ b < u.server.view.nblocks ∧ ¬ u.server.view.Free b ∧
    u'.server.view.Free b := by
  have hrun : ((Users.boot oneFileDisk).bind fun u₀ =>
      (twoWriters.foldlM (Users.next fun _ call => call.NoTruncate) u₀).bind fun u =>
      ([.write 1 [0x79#8], .step 1].foldlM (Users.next fun _ call => call.NoTruncate) u).map
        fun u' => decide (u.server.view.field (.entry 3 0) F_SIZE = 4097#32 ∧
          u'.server.view.field (.entry 3 0) F_SIZE = 1#32 ∧
          u.server.view.num (.entry 3 0) (.of 1) = 5 ∧ 5 < u.server.view.nblocks ∧
          ¬ u.server.view.Free 5 ∧ u'.server.view.Free 5)).any id = true := by
    decide +kernel
  obtain ⟨u, u', hu, hu', htest⟩ := Users.reaches_of_any _ _ _ hrun
  exact ⟨oneFileDisk, u, u', .entry 3 0, 5, wellFormed_oneFileDisk, hu, hu',
    decide_eq_true_iff.mp htest⟩

/-- The second one writes behind the byte, although its copy of the size is 0: the file gets longer.
-/
theorem write_never_shrinks_twoWriters : ∃ u u' : Users, u.Reaches oneFileDisk Call.Extends ∧
    Reachable (· = u) (When Call.Extends Users.Step) u' ∧
    u.server.view.field (.entry 3 0) F_SIZE = 4097#32 ∧
    u'.server.view.field (.entry 3 0) F_SIZE = 4098#32 ∧
    (∀ f, u.Live f →
      (u.server.view.field f F_SIZE).toNat ≤ (u'.server.view.field f F_SIZE).toNat ∧
      ∀ sl, sl.Ok → u.server.view.num f sl ≠ 0 →
        u'.server.view.num f sl = u.server.view.num f sl) ∧
    ∀ b, b < u.server.view.nblocks → ¬ u.server.view.Free b → ¬ u'.server.view.Free b := by
  have hrun : ((Users.boot oneFileDisk).bind fun u₀ =>
      (twoWriters.foldlM (Users.next fun u call => call.Extends u) u₀).bind fun u =>
      ([.seek 1 4097#32, .write 1 [0x79#8], .step 1, .step 1, .step 1, .step 1, .step 1].foldlM
        (Users.next fun u call => call.Extends u) u).map
        fun u' => decide (u.server.view.field (.entry 3 0) F_SIZE = 4097#32 ∧
          u'.server.view.field (.entry 3 0) F_SIZE = 4098#32)).any id = true := by
    decide +kernel
  obtain ⟨u, u', hu, hu', htest⟩ := Users.reaches_of_any _ _ _ hrun
  obtain ⟨hsize, hsize'⟩ := decide_eq_true_iff.mp htest
  exact ⟨u, u', hu, hu', hsize, hsize', write_never_shrinks wellFormed_oneFileDisk hu hu'⟩

end MosRv.Fs
