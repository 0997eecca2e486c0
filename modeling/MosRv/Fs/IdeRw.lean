import MosRv.Fs.Ide
import MosRv.LibString

/-!
# Reading and writing sectors (`fs/ide.c`)

`ide_read` and `ide_write` transfer block after block, through one buffer of a page and one chain of
descriptors.  The requests complete here, so that what is left of `virtio_disk_rw` is the request
and what the device does with it (`Inv.poll_leaves` is the end of the loop).  The device moves the
4096 bytes of the buffer from or to eight consecutive sectors, and looks at the direction of the
descriptor.

The number of the first sector of a block is a sum of 32 bits.  Where it wraps around, the block
goes to the start of the disk; `ide_reads_back` is about transfers where it does not.
-/

namespace MosRv.Fs.Ide

open Prog

def BY2SECT : ℕ := 512

def SECT2BLK : ℕ := 8

/-- What the disk holds: the bytes of its sectors. -/
abbrev Sectors := ℕ → Fin BY2SECT → Byte

/-- Byte `j` behind the start of a sector. -/
def Sectors.byteAt (d : Sectors) (first j : ℕ) : Byte :=
  d (first + j / BY2SECT) ⟨j % BY2SECT, Nat.mod_lt j (by decide)⟩

/-- New data for `n` sectors. -/
def Sectors.written (d : Sectors) (secno n : ℕ) (data : ℕ → Byte) : Sectors := fun sector k =>
  if secno ≤ sector ∧ sector < secno + n then data (BY2SECT * (sector - secno) + k) else d sector k

/-- 4096 bytes are copied into a block. -/
def copyIn (blk : Block) (f : ℕ → Byte) : Block := fun w =>
  if w < 1024 then f (4 * w + 3) ++ f (4 * w + 2) ++ f (4 * w + 1) ++ f (4 * w) else blk w

/-- The device copies the buffer to eight sectors, or eight sectors to the buffer. -/
def serveEight (r : VirtioBlkReq) (buf : Block) (d : Sectors) : Block × Sectors :=
  if r.type = VIRTIO_BLK_T_OUT then (buf, d.written r.sector.toNat SECT2BLK buf.byte)
  else (copyIn buf (d.byteAt r.sector.toNat), d)

namespace Disk

/-- The direction of the data descriptor is that of the request. -/
def Directed {δ : Type} (s : Disk δ) : Prop :=
  s.op.type = VIRTIO_BLK_T_OUT ↔ s.dataFlags &&& VRING_DESC_F_WRITE = 0

instance {δ : Type} (s : Disk δ) : Decidable s.Directed := inferInstanceAs (Decidable (_ ↔ _))

/-- The driver leaves the loop. -/
def leave {δ : Type} (s : Disk δ) : Disk δ :=
  { s with usedIdx := s.usedIdx + 1, pc := .idle, completed := s.completed + 1 }

end Disk

/-- The memory of the server, apart from that of the driver, and the disk. -/
structure Server where
  mem : ByteMem 32
  disk : Disk Sectors

inductive Stop
  | assertion
  | outOfFuel

abbrev IdeM := Prog Empty Stop Server

/-- The request completes.  If the directions did not agree, the device would not say
`VIRTIO_BLK_S_OK`. -/
def virtioDiskRw (secno : Word) (write : Bool) : IdeM Unit := do
  modify fun s => { s with disk := s.disk.request secno write }
  let s ← get
  if s.disk.Directed then set { s with disk := (s.disk.publish serveEight).leave }
  else panic .assertion

/-- The bytes from an address on. -/
def bytesAt (m : ByteMem 32) (a : Word) : ℕ → Byte := fun i => m.get (a + BitVec.ofNat 32 i)

def ideRead (fuel : ℕ) (secno dst nsecs : Word) : IdeM Unit :=
  if nsecs % 8#32 ≠ 0#32 then panic .assertion
  else do
    let _ ← whileDo .outOfFuel (fun i => i < nsecs) (fun i => do
      virtioDiskRw (secno + i) false
      -- `memcpy(dst + (i * BY2SECT), disk_buf, BY2PG)`
      modify fun s => { s with
        mem := s.mem.storeBytes (dst + i * 512#32) ((List.range 4096).map s.disk.diskBuf.byte) }
      pure (i + 8#32)) fuel 0#32
    pure ()

def ideWrite (fuel : ℕ) (secno src nsecs : Word) : IdeM Unit :=
  if nsecs % 8#32 ≠ 0#32 then panic .assertion
  else do
    let _ ← whileDo .outOfFuel (fun i => i < nsecs) (fun i => do
      -- `memcpy(disk_buf, src + (i * BY2SECT), BY2PG)`
      modify fun s => { s with
        disk := { s.disk with
          diskBuf := copyIn s.disk.diskBuf (bytesAt s.mem (src + i * 512#32)) } }
      virtioDiskRw (secno + i) true
      pure (i + 8#32)) fuel 0#32
    pure ()

/-- A call of `ide_write`, and the memory at that time. -/
structure Transfer where
  mem : ByteMem 32
  secno : Word
  src : Word
  nsecs : Word

/-- Calls of `ide_write`, one after the other. -/
def ideWrites (fuel : ℕ) : List Transfer → IdeM Unit
  | [] => pure ()
  | w :: ws => do
      modify fun s => { s with mem := w.mem }
      ideWrite fuel w.secno w.src w.nsecs
      ideWrites fuel ws

/-! ## What the sectors hold -/

/-- The last data written to each sector. -/
def Sectors.lastWritten (d : Sectors) (ws : List Transfer) : Sectors :=
  ws.foldl (fun d w => d.written w.secno.toNat w.nsecs.toNat (bytesAt w.mem w.src)) d

/-- Whole blocks, in a buffer that there can be; the number of the first sector of the last block
has 32 bits. -/
structure InRange (secno nsecs : Word) : Prop where
  blocks : SECT2BLK ∣ nsecs.toNat
  buffer : nsecs.toNat * BY2SECT ≤ 2 ^ 32
  sectors : secno.toNat + nsecs.toNat < 2 ^ 32 + SECT2BLK

section

variable {fuel k n : ℕ} {secno nsecs src dst a : Word} {m : ByteMem 32} {d : Sectors} {s : Server}
  {f : ℕ → Byte} {blk : Block} {E : Empty → Server → Prop} {P : Stop → Prop}

/-! ## One block -/

lemma byte_copyIn {i : ℕ} (hi : i < 4096) : (copyIn blk f).byte i = f i := by
  unfold Block.byte copyIn
  rw [if_pos (by omega), Bits.byte_append (Nat.mod_lt i (by decide))]
  split_ifs with h0 h1 h2
  all_goals congr 1; omega

lemma wp_virtioDiskRw (secno : Word) (write : Bool) :
    wp (virtioDiskRw secno write) s (fun _ s' => s'.mem = s.mem ∧
      (s'.disk.diskBuf, s'.disk.dev) =
        serveEight ⟨if write then VIRTIO_BLK_T_OUT else VIRTIO_BLK_T_IN, secno.setWidth 64⟩
          s.disk.diskBuf s.disk.dev) E P := by
  have hflags : ∀ write : Bool, (if write then VIRTIO_BLK_T_OUT else VIRTIO_BLK_T_IN) =
    VIRTIO_BLK_T_OUT ↔
      ((if write then 0 else VRING_DESC_F_WRITE) ||| VRING_DESC_F_NEXT) &&&
        VRING_DESC_F_WRITE = 0 := by
    decide
  have hdirected : (s.disk.request secno write).Directed := hflags write
  unfold virtioDiskRw
  simp only [wp_bind, wp_modify, wp_get, wp_ite, wp_set, wp_panic]
  exact ⟨fun _ => ⟨trivial, rfl⟩, fun hno => absurd hdirected hno⟩

/-! ## The loops -/

/-- A loop over the blocks of a transfer. -/
lemma wp_blocks {body : Word → IdeM Word} (R : ℕ → Server → Prop) (hdvd : SECT2BLK ∣ nsecs.toNat)
    (hstep : ∀ k s, SECT2BLK * k < nsecs.toNat → R k s →
      wp (body (BitVec.ofNat 32 (SECT2BLK * k))) s
      (fun i s' => i = BitVec.ofNat 32 (SECT2BLK * k) + 8#32 ∧ R (k + 1) s') E P)
    (h0 : R 0 s) (hfuel : nsecs.toNat < fuel) :
    wp (whileDo .outOfFuel (fun i => i < nsecs) body fuel 0#32) s
      (fun _ s' => R (nsecs.toNat / SECT2BLK) s') E P := by
  have hlt := nsecs.isLt
  unfold SECT2BLK at hdvd hstep ⊢
  have hnat : ∀ k, 8 * k ≤ nsecs.toNat → (BitVec.ofNat 32 (8 * k)).toNat = 8 * k := by
    intro k hk
    rw [BitVec.toNat_ofNat]
    omega
  apply (wp_whileDo (fun i s' => ∃ k, 8 * k ≤ nsecs.toNat ∧ i = BitVec.ofNat 32 (8 * k) ∧ R k s')
    (fun i => nsecs.toNat - i.toNat) _ ⟨0, Nat.zero_le _, rfl, h0⟩ _).imp
  · intro _ s' h
    obtain ⟨⟨k, hk, rfl, hR⟩, hend⟩ := h
    rw [BitVec.lt_def, hnat k hk] at hend
    rwa [show nsecs.toNat / 8 = k by omega]
  · intro _ s' h hgo
    obtain ⟨k, hk, rfl, hR⟩ := h
    rw [BitVec.lt_def, hnat k hk] at hgo
    apply (hstep k s' hgo hR).imp
    intro _ s'' h
    obtain ⟨rfl, hR'⟩ := h
    have hnext : BitVec.ofNat 32 (8 * k) + 8#32 = BitVec.ofNat 32 (8 * (k + 1)) := by
      rw [Nat.mul_succ, BitVec.ofNat_add]
    have hle : 8 * (k + 1) ≤ nsecs.toNat := by omega
    rw [hnext, hnat (k + 1) hle, hnat k hk]
    refine ⟨⟨k + 1, hle, rfl, hR'⟩, ?_⟩
    omega
  · omega

/-- The first sector of a block of the transfer. -/
lemma InRange.toNat_sector (h : InRange secno nsecs) (hk : SECT2BLK * k < nsecs.toNat) :
    ((secno + BitVec.ofNat 32 (SECT2BLK * k)).setWidth 64).toNat = secno.toNat + SECT2BLK * k := by
  obtain ⟨hblocks, -, hsectors⟩ := h
  unfold SECT2BLK at hk hblocks hsectors ⊢
  rw [BitVec.toNat_setWidth, BitVec.toNat_add, BitVec.toNat_ofNat]
  omega

/-- The start of a block in the buffer. -/
lemma block_start (a : Word) (k : ℕ) :
    a + BitVec.ofNat 32 (SECT2BLK * k) * 512#32 = a + BitVec.ofNat 32 (4096 * k) := by
  congr 1
  rw [← BitVec.ofNat_mul]
  congr 1
  unfold SECT2BLK
  omega

lemma bytesAt_block (m : ByteMem 32) (a : Word) (k i : ℕ) :
    bytesAt m (a + BitVec.ofNat 32 (4096 * k)) i = bytesAt m a (4096 * k + i) := by
  unfold bytesAt
  rw [add_ofNat_add]

lemma Sectors.written_congr {secno : ℕ} {data data' : ℕ → Byte}
    (h : ∀ i < BY2SECT * n, data i = data' i) :
    d.written secno n data = d.written secno n data' := by
  funext sector j
  unfold Sectors.written
  split_ifs with hin
  · apply h
    have hj := j.isLt
    unfold BY2SECT at *
    omega
  · rfl

/-- Data can be written in two pieces. -/
lemma Sectors.written_add (secno m n : ℕ) (data : ℕ → Byte) :
    (d.written secno m data).written (secno + m) n (fun i => data (BY2SECT * m + i)) =
      d.written secno (m + n) data := by
  funext sector j
  unfold Sectors.written
  by_cases hsecond : secno + m ≤ sector ∧ sector < secno + m + n
  · have hin : secno ≤ sector ∧ sector < secno + (m + n) := by omega
    have hbyte : BY2SECT * m + (BY2SECT * (sector - (secno + m)) + j) =
        BY2SECT * (sector - secno) + j := by
      unfold BY2SECT
      omega
    rw [if_pos hsecond, if_pos hin, ← hbyte]
  · rw [if_neg hsecond]
    congr 1
    rw [eq_iff_iff]
    omega

lemma Sectors.byteAt_block (d : Sectors) (first k i : ℕ) :
    d.byteAt (first + SECT2BLK * k) i = d.byteAt first (4096 * k + i) := by
  have hsector : first + SECT2BLK * k + i / BY2SECT = first + (4096 * k + i) / BY2SECT := by
    unfold SECT2BLK BY2SECT
    omega
  have hbyte : i % BY2SECT = (4096 * k + i) % BY2SECT := by
    unfold BY2SECT
    omega
  unfold Sectors.byteAt
  simp only [hsector, hbyte]

lemma InRange.mod_eq (h : InRange secno nsecs) : nsecs % 8#32 = 0#32 := by
  apply BitVec.eq_of_toNat_eq
  rw [BitVec.toNat_umod]
  exact Nat.mod_eq_zero_of_dvd h.blocks

/-- **`ide_write`** puts the data of the buffer into the sectors. -/
lemma wp_ideWrite (h : InRange secno nsecs) (hfuel : nsecs.toNat < fuel) :
    wp (ideWrite fuel secno src nsecs) s (fun _ s' => s'.mem = s.mem ∧
      s'.disk.dev = s.disk.dev.written secno.toNat nsecs.toNat (bytesAt s.mem src)) E P := by
  unfold ideWrite
  rw [if_neg (not_not.mpr h.mod_eq), wp_bind]
  apply (wp_blocks (fun k s' => s'.mem = s.mem ∧ s'.disk.dev =
    s.disk.dev.written secno.toNat (SECT2BLK * k) (bytesAt s.mem src)) h.blocks _ _ hfuel).imp
  · intro _ s' hR
    rw [Nat.mul_div_cancel' h.blocks] at hR
    exact hR
  · intro k s₁ hk hR
    obtain ⟨hmem, hdev⟩ := hR
    rw [wp_bind, wp_modify, wp_bind]
    apply (wp_virtioDiskRw _ true).imp
    intro _ s₂ h₂
    obtain ⟨hmem₂, hserve⟩ := h₂
    refine ⟨rfl, hmem₂.trans hmem, ?_⟩
    have hdev₂ := congrArg Prod.snd hserve
    refine hdev₂.trans ?_
    unfold serveEight
    rw [if_pos rfl, h.toNat_sector hk, Nat.mul_succ, ← Sectors.written_add]
    change s₁.disk.dev.written _ _ _ = _
    rw [hdev]
    apply Sectors.written_congr
    intro i hi
    change (copyIn _ _).byte i = _
    rw [byte_copyIn (by unfold SECT2BLK BY2SECT at hi; omega), hmem, block_start, bytesAt_block]
    congr 1
    unfold SECT2BLK BY2SECT
    omega
  · refine ⟨rfl, ?_⟩
    funext sector j
    rw [Sectors.written, if_neg (by omega)]

lemma serveEight_read (sector : BitVec 64) (blk : Block) (d : Sectors) :
    serveEight ⟨VIRTIO_BLK_T_IN, sector⟩ blk d = (copyIn blk (d.byteAt sector.toNat), d) :=
  if_neg (show VIRTIO_BLK_T_IN ≠ VIRTIO_BLK_T_OUT by decide)

/-- **`ide_read`** puts the data of the sectors into the buffer. -/
lemma wp_ideRead (h : InRange secno nsecs) (hfuel : nsecs.toNat < fuel) :
    wp (ideRead fuel secno dst nsecs) s (fun _ s' => s'.disk.dev = s.disk.dev ∧
      s'.mem = s.mem.storeBytes dst
        ((List.range (nsecs.toNat * BY2SECT)).map (s.disk.dev.byteAt secno.toNat))) E P := by
  unfold ideRead
  rw [if_neg (not_not.mpr h.mod_eq), wp_bind]
  apply (wp_blocks (fun k s' => s'.disk.dev = s.disk.dev ∧ s'.mem = s.mem.storeBytes dst
    ((List.range (4096 * k)).map (s.disk.dev.byteAt secno.toNat))) h.blocks _ _ hfuel).imp
  · intro _ s' hR
    have hlength : 4096 * (nsecs.toNat / SECT2BLK) = nsecs.toNat * BY2SECT := by
      have hblocks := h.blocks
      unfold SECT2BLK BY2SECT at *
      omega
    rw [hlength] at hR
    exact hR
  · intro k s₁ hk hR
    obtain ⟨hdev, hmem⟩ := hR
    rw [wp_bind]
    apply (wp_virtioDiskRw _ false).imp
    intro _ s₂ h₂
    obtain ⟨hmem₂, hserve⟩ := h₂
    have hread := hserve.trans (serveEight_read _ _ _)
    have hdev₂ : s₂.disk.dev = s₁.disk.dev := congrArg Prod.snd hread
    have hbuf : s₂.disk.diskBuf = copyIn s₁.disk.diskBuf (s₁.disk.dev.byteAt _) :=
      congrArg Prod.fst hread
    rw [h.toNat_sector hk, hdev] at hbuf
    rw [wp_bind, wp_modify, wp_pure]
    refine ⟨rfl, hdev₂.trans hdev, ?_⟩
    dsimp only
    have hbytes : (List.range 4096).map s₂.disk.diskBuf.byte =
        ((List.range 4096).map (4096 * k + ·)).map (s.disk.dev.byteAt secno.toNat) := by
      rw [List.map_map]
      apply List.map_congr_left
      intro i hi
      rw [hbuf, byte_copyIn (List.mem_range.mp hi), Sectors.byteAt_block]
      rfl
    rw [hmem₂, hmem, hbytes, block_start, Nat.mul_succ, List.range_add, List.map_append,
      ByteMem.storeBytes_append, List.length_map, List.length_range]
  · exact ⟨rfl, rfl⟩

/-! ## Reading back -/

lemma wp_ideWrites {ws : List Transfer} (h : ∀ w ∈ ws, InRange w.secno w.nsecs)
    (hfuel : 2 ^ 32 ≤ fuel) :
    wp (ideWrites fuel ws) s (fun _ s' => s'.disk.dev = s.disk.dev.lastWritten ws) E P := by
  induction ws generalizing s with
  | nil => rfl
  | cons w ws ih =>
      have hw : w.nsecs.toNat < fuel := w.nsecs.isLt.trans_le hfuel
      unfold ideWrites
      rw [wp_bind, wp_modify, wp_bind]
      apply (wp_ideWrite (h w (List.mem_cons_self ..)) hw).imp
      intro _ s₁ h₁
      apply (ih fun w' hw' => h w' (List.mem_cons_of_mem w hw')).imp
      intro _ s₂ h₂
      rw [h₂, h₁.2]
      rfl

/-- What a read leaves in the buffer. -/
lemma get_storeBytes_byteAt {first j : ℕ} (hbuffer : n ≤ 2 ^ 32) (hj : j < n) :
    bytesAt (m.storeBytes dst ((List.range n).map (d.byteAt first))) dst j = d.byteAt first j := by
  have hlength : ((List.range n).map (d.byteAt first)).length = n := by simp
  unfold bytesAt
  rw [ByteMem.get_storeBytes_add m dst (by rw [hlength]; exact hbuffer) (by rw [hlength]; exact hj)]
  simp

/-- A sector of the transfer holds its part of the buffer. -/
lemma Sectors.byteAt_written {secno j : ℕ} {data : ℕ → Byte} (hj : j < n * BY2SECT) :
    (d.written secno n data).byteAt secno j = data j := by
  have hin : secno ≤ secno + j / BY2SECT ∧ secno + j / BY2SECT < secno + n := by
    unfold BY2SECT at *
    omega
  unfold Sectors.byteAt Sectors.written
  rw [if_pos hin]
  congr 1
  unfold BY2SECT
  dsimp only
  omega

/-- **What has been written is read back.**  A transfer is undone by the opposite one and changes no
other sectors, and after any sequence of writes a read returns the last data of each sector. -/
theorem ide_reads_back (s : Server) (secno nsecs src dst : Word) (h : InRange secno nsecs)
    (hfuel : 2 ^ 32 ≤ fuel) :
    (∃ s₁ s₂, ideWrite fuel secno src nsecs s = .ok () s₁ ∧
      ideRead fuel secno dst nsecs s₁ = .ok () s₂ ∧
      (∀ j < nsecs.toNat * BY2SECT, bytesAt s₂.mem dst j = bytesAt s.mem src j) ∧
      ∀ sector, sector < secno.toNat ∨ secno.toNat + nsecs.toNat ≤ sector →
        s₁.disk.dev sector = s.disk.dev sector) ∧
    ∀ ws : List Transfer, (∀ w ∈ ws, InRange w.secno w.nsecs) →
      ∃ s₁ s₂, ideWrites fuel ws s = .ok () s₁ ∧ ideRead fuel secno dst nsecs s₁ = .ok () s₂ ∧
        ∀ j < nsecs.toNat * BY2SECT,
          bytesAt s₂.mem dst j = (s.disk.dev.lastWritten ws).byteAt secno.toNat j := by
  have hn : nsecs.toNat < fuel := nsecs.isLt.trans_le hfuel
  have hread : ∀ s₁ : Server, ∃ s₂, ideRead fuel secno dst nsecs s₁ = .ok () s₂ ∧
      ∀ j < nsecs.toNat * BY2SECT, bytesAt s₂.mem dst j = s₁.disk.dev.byteAt secno.toNat j := by
    intro s₁
    have hwp : wp (ideRead fuel secno dst nsecs) s₁ _ _ _ :=
      wp_ideRead (E := fun _ _ => False) (P := fun _ => False) h hn
    obtain ⟨_, s₂, hrun, -, hmem⟩ := hwp.exists_ok
    refine ⟨s₂, hrun, fun j hj => ?_⟩
    rw [hmem, get_storeBytes_byteAt h.buffer hj]
  constructor
  · have hwp : wp (ideWrite fuel secno src nsecs) s _ _ _ :=
      wp_ideWrite (E := fun _ _ => False) (P := fun _ => False) h hn
    obtain ⟨_, s₁, hrun₁, -, hdev₁⟩ := hwp.exists_ok
    obtain ⟨s₂, hrun₂, hbytes⟩ := hread s₁
    refine ⟨s₁, s₂, hrun₁, hrun₂, fun j hj => ?_, fun sector hsector => ?_⟩
    · rw [hbytes j hj, hdev₁, Sectors.byteAt_written hj]
    · rw [hdev₁]
      funext j
      exact if_neg (by omega)
  · intro ws hws
    have hwp : wp (ideWrites fuel ws) s _ _ _ :=
      wp_ideWrites (E := fun _ _ => False) (P := fun _ => False) hws hfuel
    obtain ⟨_, s₁, hrun₁, hdev₁⟩ := hwp.exists_ok
    obtain ⟨s₂, hrun₂, hbytes⟩ := hread s₁
    refine ⟨s₁, s₂, hrun₁, hrun₂, fun j hj => ?_⟩
    rw [hbytes j hj, hdev₁]

end

/-- A server with an empty disk, whose memory is full of some byte. -/
def empty (b : Byte) : Server where
  mem := ⟨fun _ => b, []⟩
  disk :=
    { op := ⟨0, 0⟩
      dataFlags := 0
      avail := ⟨0, fun _ => 0⟩
      used := ⟨0, fun _ => 0⟩
      usedIdx := 0
      status := 0
      diskBuf := Block.zero
      dev := fun _ _ => 0#8
      pending := false
      pc := .idle
      completed := 0 }

/-- The transfer of the tests: 32 sectors from sector 4096 on. -/
theorem ide_reads_back_test :
    ∃ s₁ s₂, ideWrite (2 ^ 32) 4096#32 0#32 32#32 (empty 1#8) = .ok () s₁ ∧
    ideRead (2 ^ 32) 4096#32 0x8000#32 32#32 s₁ = .ok () s₂ ∧
    bytesAt s₂.mem 0x8000#32 16383 = 1#8 := by
  have h : InRange 4096#32 32#32 := ⟨by decide, by decide, by decide⟩
  obtain ⟨⟨s₁, s₂, hrun₁, hrun₂, hbytes, -⟩, -⟩ :=
    @ide_reads_back (2 ^ 32) (empty 1#8) 4096#32 32#32 0#32 0x8000#32 h le_rfl
  exact ⟨s₁, s₂, hrun₁, hrun₂, hbytes 16383 (by decide)⟩

/-- The sixteen sectors from 0xFFFFFFFC on: the second block goes to sector 4. -/
theorem ide_write_wraps : ∃ s₁, ideWrite 17 0xFFFFFFFC#32 0#32 16#32 (empty 1#8) = .ok () s₁ ∧
    4 < (0xFFFFFFFC#32).toNat ∧ s₁.disk.dev 4 ≠ (empty 1#8).disk.dev 4 := by
  refine ⟨_, rfl, by decide, fun heq => ?_⟩
  have hbyte := congrFun heq ⟨0, by decide⟩
  exact absurd hbyte (by decide)

end MosRv.Fs.Ide
