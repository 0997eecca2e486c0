import MosRv.Lib.Reach
import MosRv.Lib.Ring
import MosRv.Fs.Layout

/-!
# The disk driver (`fs/ide.c`)

`virtio_disk_rw` writes a request, notifies the device and then polls `used->idx` until the device
has counted the request there.  The device is a parameter: what it does with a request is `serve`,
and after each notification it publishes one completion, whenever it likes.

Both sides count completions in 16 bits.  The driver's test `used_idx + 1 != used->idx` is one of
`int`s: after 65535 completions it compares 65536 with 0, and the loop is never left
(`disk_completes_iff`, `disk_hangs`).

`completed` counts the calls that have returned; nothing reads it.
-/

namespace MosRv.Fs.Ide

open Reach

def NUM : ℕ := 4

instance : NeZero NUM := ⟨by decide⟩

def VIRTIO_BLK_T_IN : Word := 0
def VIRTIO_BLK_T_OUT : Word := 1
def VIRTIO_BLK_S_OK : BitVec 8 := 0
def VRING_DESC_F_NEXT : BitVec 16 := 1
def VRING_DESC_F_WRITE : BitVec 16 := 2

/-- `struct virtio_blk_req`. -/
structure VirtioBlkReq where
  type : Word
  sector : BitVec 64

/-- `struct virtq_avail`. -/
structure VirtqAvail where
  idx : BitVec 16
  ring : Fin NUM → BitVec 16

/-- `struct virtq_used`; of an element of the ring, its `id`. -/
structure VirtqUsed where
  idx : BitVec 16
  ring : Fin NUM → Word

/-- Where the server is in `virtio_disk_rw`. -/
inductive Pc
  | idle
  /-- In the loop. -/
  | waiting
  /-- A `user_assert` has failed. -/
  | panic
  deriving DecidableEq, Repr

/-- `struct _disk` with what its pointers point to, and the device, whose state is a `δ`. -/
structure Disk (δ : Type) where
  op : VirtioBlkReq
  /-- `desc[1].flags`. -/
  dataFlags : BitVec 16
  avail : VirtqAvail
  used : VirtqUsed
  usedIdx : BitVec 16
  status : BitVec 8
  diskBuf : Block
  dev : δ
  /-- The device has been notified and has not published yet. -/
  pending : Bool
  pc : Pc
  completed : ℕ

namespace Disk

variable {δ : Type}

/-- After `ide_init`. -/
structure Initial (s : Disk δ) : Prop where
  avail : s.avail = ⟨0, fun _ => 0⟩
  used : s.used = ⟨0, fun _ => 0⟩
  usedIdx : s.usedIdx = 0
  pending : s.pending = false
  pc : s.pc = .idle
  completed : s.completed = 0

/-- `virtio_disk_rw` up to the notification. -/
def request (s : Disk δ) (secno : Word) (write : Bool) : Disk δ :=
  { s with
    op := { type := if write then VIRTIO_BLK_T_OUT else VIRTIO_BLK_T_IN, sector :=
      secno.setWidth 64 }
    dataFlags := (if write then 0 else VRING_DESC_F_WRITE) ||| VRING_DESC_F_NEXT
    status := 0xff
    avail := {
      idx := s.avail.idx + 1
      ring := Function.update s.avail.ring (Ring.cell NUM s.avail.idx) 0 }
    pending := true
    pc := .waiting }

/-- The device serves the request and publishes its completion. -/
def publish (serve : VirtioBlkReq → Block → δ → Block × δ) (s : Disk δ) : Disk δ :=
  { s with
    diskBuf := (serve s.op s.diskBuf s.dev).1
    dev := (serve s.op s.diskBuf s.dev).2
    status := 0
    used := {
      idx := s.used.idx + 1
      ring := Function.update s.used.ring (Ring.cell NUM s.used.idx) 0 }
    pending := false }

/-- One round of the loop and, when it is left, the rest of `virtio_disk_rw`. -/
def poll (s : Disk δ) : Disk δ :=
  if s.usedIdx.toNat + 1 ≠ s.used.idx.toNat then s
  else if s.usedIdx + 1 ≠ s.used.idx then { s with usedIdx := s.usedIdx + 1, pc := .panic }
  else if s.used.ring (Ring.cell NUM (s.usedIdx + 1)) ≠ 0 then
    { s with usedIdx := s.usedIdx + 1, pc := .panic }
  else if s.status ≠ VIRTIO_BLK_S_OK then { s with usedIdx := s.usedIdx + 1, pc := .panic }
  else { s with usedIdx := s.usedIdx + 1, pc := .idle, completed := s.completed + 1 }

end Disk

inductive Event
  /-- `ide_write` fills `disk_buf`. -/
  | fill (blk : Block)
  | request (secno : Word) (write : Bool)
  | publish
  | poll

/-- The steps of the driver and of the device, in any order. -/
inductive Step {δ : Type} (serve : VirtioBlkReq → Block → δ → Block × δ) :
    Disk δ → Event → Disk δ → Prop
  | fill {s : Disk δ} {blk : Block} (hpc : s.pc = .idle) :
      Step serve s (.fill blk) { s with diskBuf := blk }
  | request {s : Disk δ} {secno : Word} {write : Bool} (hpc : s.pc = .idle) :
      Step serve s (.request secno write) (s.request secno write)
  | publish {s : Disk δ} (hp : s.pending = true) : Step serve s .publish (s.publish serve)
  | poll {s : Disk δ} (hpc : s.pc = .waiting) : Step serve s .poll s.poll

section

variable {δ : Type} {serve : VirtioBlkReq → Block → δ → Block × δ} {s s' : Disk δ}

abbrev Reaches (serve : VirtioBlkReq → Block → δ → Block × δ) (s : Disk δ) : Prop :=
  Reachable Disk.Initial (Step serve) s

/-! ## The two counters -/

/-- The counters are those of the completions; a request that is waited for is one that the device
has counted or has not. -/
structure Inv (s : Disk δ) : Prop where
  le : s.completed < 65536
  usedIdx : s.usedIdx = BitVec.ofNat 16 s.completed
  ring : ∀ i, s.used.ring i = 0
  noPanic : s.pc ≠ .panic
  idle : s.pc = .idle → s.pending = false ∧ s.used.idx = s.usedIdx
  pending : s.pending = true → s.used.idx = s.usedIdx
  published : s.pc = .waiting → s.pending = false →
    s.used.idx = s.usedIdx + 1 ∧ s.status = VIRTIO_BLK_S_OK

/-- The test of the loop. -/
lemma Inv.test_iff (h : Inv s) (hidx : s.used.idx = s.usedIdx + 1) :
    s.usedIdx.toNat + 1 ≠ s.used.idx.toNat ↔ s.completed = 65535 := by
  have hlt := h.le
  rw [hidx, h.usedIdx, BitVec.toNat_add, BitVec.toNat_ofNat,
    show (1 : BitVec 16).toNat = 1 from rfl]
  omega

lemma Inv.poll_stuck (h : Inv s) (hpc : s.pc = .waiting) (hpub : s.pending = false)
    (hlast : s.completed = 65535) : s.poll = s := by
  rw [Disk.poll, if_pos ((h.test_iff (h.published hpc hpub).1).mpr hlast)]

lemma Inv.poll_pending (h : Inv s) (hp : s.pending = true) : s.poll = s := by
  rw [Disk.poll, if_pos]
  rw [h.pending hp]
  omega

lemma Inv.poll_leaves (h : Inv s) (hpc : s.pc = .waiting) (hpub : s.pending = false)
    (hlast : s.completed ≠ 65535) :
    s.poll = { s with usedIdx := s.usedIdx + 1, pc := .idle, completed := s.completed + 1 } := by
  obtain ⟨hidx, hstatus⟩ := h.published hpc hpub
  rw [Disk.poll, if_neg fun hc => hlast ((h.test_iff hidx).mp hc), if_neg (not_not.mpr hidx.symm),
    if_neg (not_not.mpr (h.ring _)), if_neg (not_not.mpr hstatus)]

lemma Disk.Initial.inv (h : s.Initial) : Inv s where
  le := by rw [h.completed]; decide
  usedIdx := by rw [h.usedIdx, h.completed]; rfl
  ring i := by rw [h.used]
  noPanic := by rw [h.pc]; decide
  idle _ := ⟨h.pending, by rw [h.used, h.usedIdx]⟩
  pending hp := absurd (h.pending.symm.trans hp) nofun
  published hpc _ := absurd (h.pc.symm.trans hpc) nofun

lemma Inv.step {e : Event} (h : Inv s) (hstep : Step serve s e s') : Inv s' := by
  cases hstep with
  | fill hpc => exact ⟨h.le, h.usedIdx, h.ring, h.noPanic, h.idle, h.pending, h.published⟩
  | request hpc =>
      exact ⟨h.le, h.usedIdx, h.ring, nofun, nofun, fun _ => (h.idle hpc).2,
        fun _ hp => absurd hp nofun⟩
  | publish hp =>
      refine ⟨h.le, h.usedIdx, fun i => ?_, h.noPanic, fun hpc => ?_, fun hc => absurd hc nofun,
        fun _ _ => ⟨?_, rfl⟩⟩
      · simp only [Disk.publish, Function.update_apply]
        split_ifs
        · rfl
        · exact h.ring i
      · exact absurd ((h.idle hpc).1.symm.trans hp) nofun
      · rw [Disk.publish, h.pending hp]
  | poll hpc =>
      cases hp : s.pending with
      | true =>
          rw [h.poll_pending hp]
          exact h
      | false =>
          by_cases hlast : s.completed = 65535
          · rw [h.poll_stuck hpc hp hlast]
            exact h
          · have hlt := h.le
            rw [h.poll_leaves hpc hp hlast]
            refine ⟨by change s.completed + 1 < 65536; omega, ?_, h.ring, nofun,
              fun _ => ⟨hp, (h.published hpc hp).1⟩, fun hc =>
                absurd (hp.symm.trans hc) nofun, nofun⟩
            change s.usedIdx + 1 = BitVec.ofNat 16 (s.completed + 1)
            rw [h.usedIdx, BitVec.ofNat_add]
            rfl

lemma inv (h : Reaches serve s) : Inv s := h.invariant (fun _ h => h.inv) fun _ _ _ h => h.step

/-! ## The loop -/

/-- The next round leaves the loop, with the three assertions, and the counters agree. -/
def Completes (s : Disk δ) : Prop := s.poll.pc = .idle ∧ s.poll.usedIdx = s.poll.used.idx

/-- **A call returns**, once the device has published the completion, exactly when it is not the one
after 65535 others.  No assertion ever fails. -/
theorem disk_completes_iff (h : Reaches serve s) : s.pc ≠ .panic ∧
    (s.pc = .waiting → s.pending = false → (Completes s ↔ s.completed ≠ 65535)) := by
  have hi := inv h
  refine ⟨hi.noPanic, fun hpc hpub => ?_⟩
  by_cases hlast : s.completed = 65535
  · refine iff_of_false (fun hc => ?_) (not_not.mpr hlast)
    rw [Completes, hi.poll_stuck hpc hpub hlast, hpc] at hc
    exact absurd hc.1 nofun
  · refine iff_of_true ?_ hlast
    rw [Completes, hi.poll_leaves hpc hpub hlast]
    exact ⟨rfl, (hi.published hpc hpub).1.symm⟩

/-- A whole call. -/
lemma Reaches.call (h : Reaches serve s) (hpc : s.pc = .idle) :
    ∃ s', Reaches serve s' ∧ s'.pc = .waiting ∧ s'.pending = false ∧
      s'.completed = s.completed :=
  have hreq : Step serve s (.request 0 false) (s.request 0 false) := .request hpc
  ⟨_, (h.step hreq).step (.publish rfl), rfl, rfl, rfl⟩

/-- As many calls return as there are numbers of 16 bits, but one. -/
lemma exists_completed (serve : VirtioBlkReq → Block → δ → Block × δ) (h : s.Initial) :
    ∀ n < 65536, ∃ s', Reaches serve s' ∧ s'.pc = .idle ∧ s'.completed = n := by
  intro n
  induction n with
  | zero => exact fun _ => ⟨s, .init h, h.pc, h.completed⟩
  | succ n ih =>
      intro hn
      obtain ⟨s₁, h₁, hpc₁, hn₁⟩ := ih (by omega)
      obtain ⟨s₂, h₂, hpc₂, hpub₂, hn₂⟩ := h₁.call hpc₁
      have hleave := (inv h₂).poll_leaves hpc₂ hpub₂ (by omega)
      refine ⟨s₂.poll, h₂.step (.poll hpc₂), ?_, ?_⟩
      · rw [hleave]
      · rw [hleave]
        change s₂.completed + 1 = n + 1
        omega

/-- From the state in which call 65536 waits, nothing leads on. -/
lemma stays (h : Reaches serve s) (hpc : s.pc = .waiting) (hpub : s.pending = false)
    (hlast : s.completed = 65535) (h' : Reachable (· = s) (Step serve) s') : s' = s := by
  refine h'.invariant (I := (· = s)) (fun _ h => h) fun s₁ e s₂ h₁ hstep => ?_
  subst h₁
  cases hstep with
  | fill hc => exact absurd (hpc.symm.trans hc) nofun
  | request hc => exact absurd (hpc.symm.trans hc) nofun
  | publish hc => exact absurd (hpub.symm.trans hc) nofun
  | poll _ => exact (inv h).poll_stuck hpc hpub hlast

end

/-- A disk whose state is what its sectors hold; a request transfers a block. -/
def serveSectors (r : VirtioBlkReq) (buf : Block) (sectors : ℕ → Block) : Block × (ℕ → Block) :=
  if r.type = VIRTIO_BLK_T_OUT then (buf, Function.update sectors r.sector.toNat buf)
  else (sectors r.sector.toNat, sectors)

/-- The first state of an empty disk. -/
def blank : Disk (ℕ → Block) where
  op := ⟨0, 0⟩
  dataFlags := 0
  avail := ⟨0, fun _ => 0⟩
  used := ⟨0, fun _ => 0⟩
  usedIdx := 0
  status := 0
  diskBuf := Block.zero
  dev := fun _ => Block.zero
  pending := false
  pc := .idle
  completed := 0

lemma blank_initial : blank.Initial := ⟨rfl, rfl, rfl, rfl, rfl, rfl⟩

/-- The last call on it that returns, after 65534 others. -/
theorem disk_completes_iff_last : ∃ s, Reaches serveSectors s ∧ s.pc = .waiting ∧
    s.pending = false ∧
    s.completed = 65534 ∧ Completes s := by
  obtain ⟨s₁, h₁, hpc₁, hn₁⟩ := exists_completed serveSectors blank_initial 65534 (by decide)
  obtain ⟨s, h, hpc, hpub, hn⟩ := h₁.call hpc₁
  have hcount := hn.trans hn₁
  exact ⟨s, h, hpc, hpub, hcount, ((disk_completes_iff h).2 hpc hpub).mpr (by rw [hcount]; decide)⟩

/-- **After 65535 calls the next one never returns**, although the device has published it. -/
theorem disk_hangs : ∃ s, Reaches serveSectors s ∧ s.pc = .waiting ∧ s.pending = false ∧
    s.completed = 65535 ∧
    ∀ s', Reachable (· = s) (Step serveSectors) s' → s'.pc = .waiting ∧ ¬ Completes s' := by
  obtain ⟨s₁, h₁, hpc₁, hn₁⟩ := exists_completed serveSectors blank_initial 65535 (by decide)
  obtain ⟨s, h, hpc, hpub, hn⟩ := h₁.call hpc₁
  have hlast := hn.trans hn₁
  refine ⟨s, h, hpc, hpub, hlast, fun s' h' => ?_⟩
  obtain rfl := stays h hpc hpub hlast h'
  refine ⟨hpc, fun hc => ?_⟩
  rw [Completes, (inv h).poll_stuck hpc hpub hlast, hpc] at hc
  exact absurd hc.1 nofun

end MosRv.Fs.Ide
