import MosRv.Start

/-!
# The segments of an ELF file (`elf_load_seg` with `load_icode_mapper`)

A segment is loaded page by page, and every call of the mapper replaces a whole page.  In an address
space that has nothing there, this builds the memory image of the segment (`Phdr.Loaded`) as long as
the loops walk from page to page: they do so from the second page on, or from the start of an
aligned segment.

A short segment that starts inside a page and goes on behind the bytes of the file is the exception:
the loop of zero pages then starts inside the first page too, replaces it, and all its later calls
are as far inside their pages.  `elf_load_seg_iff` says when the image comes out nevertheless.
-/

namespace MosRv

open Prog

namespace Phdr

/-- The place of the segment in its first page. -/
def offset (ph : Phdr) : ℕ := ph.pVaddr.toNat % 4096

/-- The address of byte `i`. -/
def va (ph : Phdr) (i : ℕ) : Word := ph.pVaddr + BitVec.ofNat 32 i

/-- **The memory image of the segment**, in the address space of `d`. -/
structure Loaded (ph : Phdr) (bin : ℕ → BitVec 8) (m : Pmap) (d : ℕ) : Prop where
  mapped : ∀ i < ph.pMemsz.toNat, m.entryAt d (ph.va i) ≠ none
  file : ∀ i < ph.pFilesz.toNat, m.userByte d (ph.va i) = some (bin i)
  zero : ∀ i, ph.pFilesz.toNat ≤ i → i < ph.pMemsz.toNat → m.userByte d (ph.va i) = some 0

/-- Byte `i` of the image. -/
def image (ph : Phdr) (bin : ℕ → BitVec 8) (i : ℕ) : BitVec 8 :=
  if i < ph.pFilesz.toNat then bin i else 0

/-- The first `n` bytes of the image are there. -/
def Upto (ph : Phdr) (bin : ℕ → BitVec 8) (m : Pmap) (d n : ℕ) : Prop :=
  ∀ i < n, m.userByte d (ph.va i) = some (ph.image bin i)

/-- The segment lies in user space, and is at least as long as its bytes in the file. -/
structure InUserSpace (ph : Phdr) : Prop where
  le : ph.pFilesz.toNat ≤ ph.pMemsz.toNat
  lt : ph.pVaddr.toNat + ph.pMemsz.toNat ≤ UTOP.toNat

end Phdr

section

variable {T : Template} {k k' : Kernel} {e d n : ℕ} {ph : Phdr} {bin : ℕ → BitVec 8} {m : Pmap}

lemma userByte_ne_none {va : Word} {b : BitVec 8} (h : m.userByte d va = some b) :
    m.entryAt d va ≠ none := by
  intro hc
  rw [Pmap.userByte, hc] at h
  cases h

lemma Phdr.InUserSpace.loaded_iff (h : ph.InUserSpace) :
    ph.Loaded bin m d ↔ ph.Upto bin m d ph.pMemsz.toNat := by
  constructor
  · intro hl i hi
    rw [Phdr.image]
    split_ifs with hf
    · exact hl.file i hf
    · exact hl.zero i (by omega) hi
  · intro hu
    refine ⟨fun i hi => userByte_ne_none (hu i hi), fun i hi => ?_, fun i hf hi => ?_⟩
    · rw [hu i (hi.trans_le h.le), Phdr.image, if_pos hi]
    · rw [hu i hi, Phdr.image, if_neg (by omega)]

/-! ## Addresses in the segment -/

/-- Addresses up to the end of user space do not wrap. -/
lemma Phdr.va_toNat {i : ℕ} (h : ph.pVaddr.toNat + i ≤ UTOP.toNat) :
    (ph.va i).toNat = ph.pVaddr.toNat + i := by
  rw [UTOP_toNat] at h
  rw [Phdr.va, BitVec.toNat_add, BitVec.toNat_ofNat]
  omega

lemma Phdr.va_lt_iff {i : ℕ} (h : ph.pVaddr.toNat + i ≤ UTOP.toNat) :
    ph.va i < UTOP ↔ ph.pVaddr.toNat + i < UTOP.toNat := by
  rw [BitVec.lt_def, va_toNat h]

/-- Two addresses in the segment are in one page. -/
lemma Phdr.VPN_va_eq_iff {i j : ℕ} (hi : ph.pVaddr.toNat + i ≤ UTOP.toNat)
    (hj : ph.pVaddr.toNat + j ≤ UTOP.toNat) :
    VPN (ph.va i) = VPN (ph.va j) ↔ (ph.offset + i) / 4096 = (ph.offset + j) / 4096 := by
  rw [← BitVec.toNat_inj, VPN_toNat, VPN_toNat, va_toNat hi, va_toNat hj, offset]
  omega

/-! ## One call of the mapper -/

/-- The mapper has mapped a page at `va`, of these bytes, and nothing else. -/
def Kernel.PageAdded (k k' : Kernel) (e : ℕ) (va : Word) (byte : ℕ → BitVec 8) : Prop :=
  ∀ va' < UTOP, k'.pm.userByte (k.envs e).envPgdir va' =
    if VPN va' = VPN va then some (byte (va'.toNat % 4096))
    else k.pm.userByte (k.envs e).envPgdir va'

/-- The states that loading goes through. -/
def Loading (T : Template) (k₀ k : Kernel) : Prop := KInv T k ∧ ∃ m, k = { k₀ with pm := m }

lemma Loading.refl (h : KInv T k) : Loading T k k := ⟨h, k.pm, rfl⟩

lemma Loading.envs {k₀ : Kernel} (h : Loading T k₀ k) : k.envs = k₀.envs := by
  obtain ⟨-, m, rfl⟩ := h
  rfl

/-- `load_icode_mapper`, when it returns 0. -/
lemma Loading.wp_mapper {k₀ : Kernel} (h : Loading T k₀ k) (he : (k₀.envs e).envStatus ≠ .free)
    {va perm : Word} (hva : va < UTOP) (hperm : perm < 0x400) (offset : ℕ)
    (src : Option (ℕ → BitVec 8)) (len : ℕ) :
    wp (loadIcodeMapper e va offset perm src len) k
      (fun _ k' => Loading T k₀ k' ∧ k.PageAdded k' e va fun x => copied offset src len x 0)
      (fun _ _ => True) fun _ => True := by
  have he' : (k.envs e).envStatus ≠ .free := by rwa [h.envs]
  refine (h.1.wp_loadIcodeMapper he' hva hperm offset src len).mono ?_ (fun _ _ _ => trivial)
    fun _ _ => trivial
  rintro - - ⟨hk, m, rfl, -, -, hbyte⟩
  obtain ⟨-, m₀, rfl⟩ := h
  exact ⟨⟨hk, m, rfl⟩, hbyte⟩

/-- **One more page of the image**, where the image so far ends at a page boundary. -/
lemma Phdr.Upto.page (hu : ph.Upto bin k.pm (k.envs e).envPgdir n) {byte : ℕ → BitVec 8}
    (hadd : k.PageAdded k' e (ph.va n) byte) (halign : (ph.offset + n) % 4096 = 0)
    (hlt : ph.pVaddr.toNat + n < UTOP.toNat) (hbyte : ∀ x < 4096, byte x = ph.image bin (n + x)) :
    ph.Upto bin k'.pm (k.envs e).envPgdir (n + 4096) := by
  have hA : ph.offset = ph.pVaddr.toNat % 4096 := rfl
  have hU := UTOP_toNat
  intro i hi
  have hle : ph.pVaddr.toNat + i < UTOP.toNat := by
    rw [hU] at hlt ⊢
    omega
  rw [hadd _ ((va_lt_iff hle.le).mpr hle)]
  simp only [VPN_va_eq_iff hle.le hlt.le]
  by_cases hn : i < n
  · rw [if_neg (by omega), hu i hn]
  · rw [if_pos (by omega), va_toNat hle.le]
    have hx : (ph.pVaddr.toNat + i) % 4096 = i - n := by omega
    rw [hx, hbyte _ (by omega), Nat.add_sub_cancel' (by omega)]

/-! ## The segment -/

/-- The end of a loop over pages. -/
lemma le_rounds (i bound : ℕ) : bound ≤ i + rounds i bound * 4096 := by
  rw [rounds]
  omega

lemma Phdr.start_eq (ph : Phdr) :
    ph.start = if ph.offset = 0 then 0 else min ph.pFilesz.toNat (4096 - ph.offset) := rfl

/-- The partial page at the start. -/
lemma Loading.wp_loadHead {k₀ : Kernel} (h : Loading T k₀ k) (he : (k₀.envs e).envStatus ≠ .free)
    (hs : ph.InUserSpace) :
    wp (ph.loadHead bin (loadIcodeMapper e)) k
      (fun _ k' => Loading T k₀ k' ∧ ph.Upto bin k'.pm (k.envs e).envPgdir ph.start ∧
        ∀ va < UTOP, VPN va ≠ VPN ph.pVaddr →
          k'.pm.userByte (k.envs e).envPgdir va = k.pm.userByte (k.envs e).envPgdir va)
      (fun _ _ => True) fun _ => True := by
  have hle := hs.le
  have hlt := hs.lt
  have hA : ph.offset = ph.pVaddr.toNat % 4096 := rfl
  have hU := UTOP_toNat
  rw [Phdr.loadHead]
  change wp (if ph.offset ≠ 0 then _ else _) k _ _ _
  rw [wp_ite]
  refine ⟨fun h0 => ?_, fun h0 => ?_⟩
  · have hva : ph.pVaddr < UTOP := by
      rw [BitVec.lt_def]
      omega
    refine (h.wp_mapper he hva ph.perm_lt _ _ _).mono ?_ (fun _ _ h => h) fun _ h => h
    rintro - k' ⟨hk', hadd⟩
    refine ⟨hk', fun i hi => ?_, fun va hva hne => ?_⟩
    · rw [Phdr.start_eq, if_neg h0, lt_min_iff] at hi
      have hlei : ph.pVaddr.toNat + i < UTOP.toNat := by omega
      have hvpn : VPN (ph.va i) = VPN ph.pVaddr := by
        rw [← BitVec.toNat_inj, VPN_toNat, VPN_toNat, Phdr.va_toNat hlei.le]
        omega
      have hx : (ph.pVaddr.toNat + i) % 4096 = ph.offset + i := by omega
      rw [hadd _ ((Phdr.va_lt_iff hlei.le).mpr hlei), if_pos hvpn,
        Phdr.va_toNat hlei.le, hx, Phdr.image,
        if_pos hi.1]
      change some (if ph.offset ≤ ph.offset + i ∧ ph.offset + i < ph.offset +
        min ph.pFilesz.toNat (4096 - ph.offset) then bin (ph.offset + i - ph.offset) else 0) = _
      rw [if_pos ⟨by omega, by omega⟩, Nat.add_sub_cancel_left]
    · rw [hadd va hva, if_neg hne]
  · refine ⟨h, fun i hi => ?_, fun _ _ _ => rfl⟩
    rw [Phdr.start_eq, if_pos (not_not.mp h0)] at hi
    omega

/-- The loop over the bytes of the file. -/
lemma Loading.wp_loadFile {k₀ : Kernel} (h : Loading T k₀ k) (he : (k₀.envs e).envStatus ≠ .free)
    (hs : ph.InUserSpace) (hu : ph.Upto bin k.pm (k.envs e).envPgdir ph.start) :
    wp (forRange (fun r => loadIcodeMapper e (ph.va (ph.start + r * 4096)) 0 ph.perm
        (some fun j => bin (ph.start + r * 4096 + j))
        (min (ph.pFilesz.toNat - (ph.start + r * 4096)) 4096)) 0
          (rounds ph.start ph.pFilesz.toNat)) k
      (fun _ k' => Loading T k₀ k' ∧ ph.Upto bin k'.pm (k.envs e).envPgdir
        (ph.start + rounds ph.start ph.pFilesz.toNat * 4096)) (fun _ _ => True) fun _ => True := by
  have hle := hs.le
  have hlt := hs.lt
  have hA : ph.offset = ph.pVaddr.toNat % 4096 := rfl
  refine (wp_forRange (fun r k' => Loading T k₀ k' ∧
    ph.Upto bin k'.pm (k.envs e).envPgdir (ph.start + r * 4096)) _ 0 ⟨h, by simpa using hu⟩ ?_).mono
    (fun _ k' h' => by simpa using h') (fun _ _ h => h) fun _ h => h
  rintro r k₁ - hr ⟨h₁, hu₁⟩
  rw [Nat.zero_add] at hr
  have hr' := lt_of_lt_rounds hr
  -- there are file bytes left, so the first page has been filled up
  have halign : (ph.offset + (ph.start + r * 4096)) % 4096 = 0 := by
    have hstart := ph.start_eq
    split_ifs at hstart <;> omega
  have henvs : k₁.envs e = k.envs e := by rw [h₁.envs, h.envs]
  rw [← henvs] at hu₁ ⊢
  refine (h₁.wp_mapper he ((Phdr.va_lt_iff (by omega)).mpr (by omega)) ph.perm_lt _ _ _).mono ?_
    (fun _ _ h => h) fun _ h => h
  rintro - k₂ ⟨h₂, hadd⟩
  refine ⟨h₂, ?_⟩
  have hu₂ := hu₁.page hadd halign (by omega) fun x hx => by
    simp only [copied, Phdr.image, Nat.zero_le, true_and, Nat.zero_add, Nat.sub_zero]
    have hiff : x < min (ph.pFilesz.toNat - (ph.start + r * 4096)) 4096 ↔
        ph.start + r * 4096 + x < ph.pFilesz.toNat := by omega
    simp only [hiff]
  rwa [show ph.start + (r + 1) * 4096 = ph.start + r * 4096 + 4096 by omega]

/-- The loop over the pages of zeros, from a page boundary on. -/
lemma Loading.wp_loadZero {k₀ : Kernel} (h : Loading T k₀ k) (he : (k₀.envs e).envStatus ≠ .free)
    (hs : ph.InUserSpace) {i₁ : ℕ} (hu : ph.Upto bin k.pm (k.envs e).envPgdir i₁)
    (hi₁ : ph.pFilesz.toNat ≤ i₁) (halign : i₁ < ph.pMemsz.toNat → (ph.offset + i₁) % 4096 = 0)
    (len : ℕ → ℕ) :
    wp (forRange (fun r => loadIcodeMapper e (ph.va (i₁ + r * 4096)) 0 ph.perm none (len r)) 0
        (rounds i₁ ph.pMemsz.toNat)) k
      (fun _ k' => ph.Upto bin k'.pm (k.envs e).envPgdir ph.pMemsz.toNat) (fun _ _ => True)
      fun _ => True := by
  have hlt := hs.lt
  refine (wp_forRange (fun r k' => Loading T k₀ k' ∧
    ph.Upto bin k'.pm (k.envs e).envPgdir (i₁ + r * 4096)) _ 0 ⟨h, by simpa using hu⟩ ?_).mono ?_
    (fun _ _ h => h) fun _ h => h
  · rintro r k₁ - hr ⟨h₁, hu₁⟩
    rw [Nat.zero_add] at hr
    have hr' := lt_of_lt_rounds hr
    have hal := halign (by omega)
    have henvs : k₁.envs e = k.envs e := by rw [h₁.envs, h.envs]
    rw [← henvs] at hu₁ ⊢
    refine (h₁.wp_mapper he ((Phdr.va_lt_iff (by omega)).mpr (by omega)) ph.perm_lt _ _ _).mono ?_
      (fun _ _ h => h) fun _ h => h
    rintro - k₂ ⟨h₂, hadd⟩
    refine ⟨h₂, ?_⟩
    have hu₂ := hu₁.page hadd (by omega) (by omega) fun x hx => by
      rw [Phdr.image, if_neg (by omega)]
      rfl
    rwa [show i₁ + (r + 1) * 4096 = i₁ + r * 4096 + 4096 by omega]
  · rintro - k' ⟨-, hu'⟩ i hi
    have := le_rounds i₁ ph.pMemsz.toNat
    exact hu' i (by omega)

/-- The loops meet the pages at their boundaries. -/
def Phdr.PageWise (ph : Phdr) : Prop :=
  ph.offset = 0 ∨ 4096 ≤ ph.offset + ph.pFilesz.toNat ∨ ph.pFilesz = ph.pMemsz

/-- **The image is there**, if the loops meet the pages at their boundaries. -/
lemma KInv.wp_elfLoadSeg_pageWise (h : KInv T k) (he : (k.envs e).envStatus ≠ .free)
    (hs : ph.InUserSpace) (hpage : ph.PageWise) :
    wp (elfLoadSeg ph bin (loadIcodeMapper e)) k
      (fun _ k' => ph.Upto bin k'.pm (k.envs e).envPgdir ph.pMemsz.toNat) (fun _ _ => True)
      fun _ => True := by
  rw [elfLoadSeg, wp_bind]
  refine ((Loading.refl h).wp_loadHead he hs).mono ?_ (fun _ _ h => h) fun _ h => h
  rintro - k₁ ⟨h₁, hu₁, -⟩
  rw [wp_bind]
  rw [← h₁.envs] at hu₁ ⊢
  refine (h₁.wp_loadFile he hs hu₁).mono ?_ (fun _ _ h => h) fun _ h => h
  rintro - k₂ ⟨h₂, hu₂⟩
  rw [h₁.envs, ← h₂.envs] at hu₂ ⊢
  have hstart := ph.start_eq
  have hle := le_rounds ph.start ph.pFilesz.toNat
  have hoff : ph.offset < 4096 := Nat.mod_lt _ (by decide)
  refine h₂.wp_loadZero he hs hu₂ hle (fun hlt => ?_) _
  rcases hpage with h0 | hfull | heq
  · rw [if_pos h0] at hstart
    omega
  · split_ifs at hstart <;> omega
  · rw [heq] at hle hlt
    omega

/-! ## The short segment -/

/-- The pages of the segment below page `r` are zero, the others are empty, the first apart. -/
def Phdr.Cleared (ph : Phdr) (m : Pmap) (d r : ℕ) : Prop :=
  ∀ i < ph.pMemsz.toNat, ((ph.offset + i) / 4096 < r → m.userByte d (ph.va i) = some 0) ∧
    (r ≤ (ph.offset + i) / 4096 → 0 < (ph.offset + i) / 4096 → m.userByte d (ph.va i) = none)

/-- The loop over the pages of zeros, from inside the first page. -/
lemma Loading.wp_loadCleared {k₀ : Kernel} (h : Loading T k₀ k) (he : (k₀.envs e).envStatus ≠ .free)
    (hs : ph.InUserSpace) (hshort : ph.offset + ph.pFilesz.toNat < 4096)
    (hc : ph.Cleared k.pm (k.envs e).envPgdir 0) (len : ℕ → ℕ) :
    wp (forRange (fun r => loadIcodeMapper e (ph.va (ph.pFilesz.toNat + r * 4096)) 0 ph.perm none
        (len r)) 0 (rounds ph.pFilesz.toNat ph.pMemsz.toNat)) k
      (fun _ k' => ph.Cleared k'.pm (k.envs e).envPgdir (rounds ph.pFilesz.toNat ph.pMemsz.toNat))
      (fun _ _ => True) fun _ => True := by
  have hlt := hs.lt
  refine (wp_forRange (fun r k' => Loading T k₀ k' ∧ ph.Cleared k'.pm (k.envs e).envPgdir r) _ 0
    ⟨h, hc⟩ ?_).mono (fun _ k' h' => by simpa using h'.2) (fun _ _ h => h) fun _ h => h
  rintro r k₁ - hr ⟨h₁, hc₁⟩
  rw [Nat.zero_add] at hr
  have hr' := lt_of_lt_rounds hr
  have henvs : k₁.envs e = k.envs e := by rw [h₁.envs, h.envs]
  rw [← henvs] at hc₁ ⊢
  refine (h₁.wp_mapper he ((Phdr.va_lt_iff (by omega)).mpr (by omega)) ph.perm_lt _ _ _).mono ?_
    (fun _ _ h => h) fun _ h => h
  rintro - k₂ ⟨h₂, hadd⟩
  refine ⟨h₂, fun i hi => ?_⟩
  -- the call is about page `r` of the segment
  have hr_eq : (ph.offset + (ph.pFilesz.toNat + r * 4096)) / 4096 = r := by omega
  have hi' : ph.pVaddr.toNat + i < UTOP.toNat := by omega
  have hvpn := Phdr.VPN_va_eq_iff hi'.le
    (show ph.pVaddr.toNat + (ph.pFilesz.toNat + r * 4096) ≤ UTOP.toNat by omega)
  rw [hadd _ ((Phdr.va_lt_iff hi'.le).mpr hi')]
  simp only [hvpn, hr_eq]
  obtain ⟨hz, hn⟩ := hc₁ i hi
  refine ⟨fun hlt' => ?_, fun hge hpos => ?_⟩
  · by_cases heq : (ph.offset + i) / 4096 = r
    · rw [if_pos heq]
      rfl
    · rw [if_neg heq]
      exact hz (by omega)
  · rw [if_neg (by omega)]
    exact hn (by omega) hpos

/-- The image of a short segment comes out if the bytes of the file are zeros and there are as many
pages of zeros as the segment has pages. -/
def Phdr.Unharmed (ph : Phdr) (bin : ℕ → BitVec 8) : Prop :=
  (∀ i < ph.pFilesz.toNat, bin i = 0) ∧
    (ph.offset + ph.pMemsz.toNat - 1) / 4096 < rounds ph.pFilesz.toNat ph.pMemsz.toNat

lemma Phdr.Cleared.upto_iff (hshort : ph.offset + ph.pFilesz.toNat < 4096)
    (hlt : ph.pFilesz.toNat < ph.pMemsz.toNat)
    (hc : ph.Cleared m d (rounds ph.pFilesz.toNat ph.pMemsz.toNat)) :
    ph.Upto bin m d ph.pMemsz.toNat ↔ ph.Unharmed bin := by
  have hpos : 0 < rounds ph.pFilesz.toNat ph.pMemsz.toNat := by
    rw [rounds]
    omega
  constructor
  · intro hu
    refine ⟨fun i hi => ?_, ?_⟩
    · have hz := (hc i (by omega)).1 (by omega)
      rw [hu i (by omega), image, if_pos hi] at hz
      exact Option.some.inj hz
    · by_contra hno
      have hn := (hc (ph.pMemsz.toNat - 1) (by omega)).2 (by omega) (by omega)
      rw [hu _ (by omega)] at hn
      cases hn
  · rintro ⟨hzero, hcover⟩ i hi
    rw [(hc i hi).1 (by omega), image]
    split_ifs with hf
    · rw [hzero i hf]
    · rfl

/-- **A short segment** that goes on behind the bytes of the file. -/
lemma KInv.wp_elfLoadSeg_short (h : KInv T k) (he : (k.envs e).envStatus ≠ .free)
    (hs : ph.InUserSpace) (hshort : ph.offset + ph.pFilesz.toNat < 4096) (h0 : ph.offset ≠ 0)
    (hlt : ph.pFilesz.toNat < ph.pMemsz.toNat)
    (hempty : ∀ i < ph.pMemsz.toNat, k.pm.entryAt (k.envs e).envPgdir (ph.va i) = none) :
    wp (elfLoadSeg ph bin (loadIcodeMapper e)) k
      (fun _ k' => ph.Upto bin k'.pm (k.envs e).envPgdir ph.pMemsz.toNat ↔ ph.Unharmed bin)
      (fun _ _ => True) fun _ => True := by
  have hlt' := hs.lt
  have hA : ph.offset = ph.pVaddr.toNat % 4096 := rfl
  have hstart : ph.start = ph.pFilesz.toNat := by
    rw [Phdr.start_eq, if_neg h0]
    omega
  have hrounds : rounds ph.start ph.pFilesz.toNat = 0 := by
    rw [hstart, rounds]
    omega
  rw [elfLoadSeg, wp_bind]
  refine ((Loading.refl h).wp_loadHead he hs).mono ?_ (fun _ _ h => h) fun _ h => h
  rintro - k₁ ⟨h₁, -, hrest⟩
  rw [wp_bind, hrounds, forRange_zero, wp_pure, hstart, Nat.zero_mul, Nat.add_zero, ← h₁.envs]
  have hc : ph.Cleared k₁.pm (k₁.envs e).envPgdir 0 := by
    refine fun i hi => ⟨fun hc => absurd hc (Nat.not_lt_zero _), fun _ hpos => ?_⟩
    have hi' : ph.pVaddr.toNat + i < UTOP.toNat := by omega
    have hvpn : VPN (ph.va i) ≠ VPN ph.pVaddr := by
      rw [ne_eq, ← BitVec.toNat_inj, VPN_toNat, VPN_toNat, Phdr.va_toNat hi'.le]
      omega
    rw [h₁.envs, hrest _ ((Phdr.va_lt_iff hi'.le).mpr hi') hvpn, Pmap.userByte, hempty i hi]
    rfl
  refine (h₁.wp_loadCleared he hs hshort hc _).mono (fun _ k' hc' => ?_)
    (fun _ _ h => h) fun _ h => h
  exact hc'.upto_iff hshort hlt

/-- **What `elf_load_seg` builds is the memory image of the segment**, in an address space with
nothing there, exactly if the loops meet the pages at their boundaries or the first page holds
nothing to lose. -/
theorem elf_load_seg_iff (h : KInv T k) (he : (k.envs e).envStatus ≠ .free) (hs : ph.InUserSpace)
    (hempty : ∀ i < ph.pMemsz.toNat, k.pm.entryAt (k.envs e).envPgdir (ph.va i) = none)
    (hrun : elfLoadSeg ph bin (loadIcodeMapper e) k = .ok () k') :
    ph.Loaded bin k'.pm (k.envs e).envPgdir ↔ ph.PageWise ∨ ph.Unharmed bin := by
  rw [hs.loaded_iff]
  by_cases hpage : ph.PageWise
  · exact iff_of_true ((h.wp_elfLoadSeg_pageWise he hs hpage).of_ok hrun) (.inl hpage)
  · obtain ⟨h0, hshort, hne⟩ : ph.offset ≠ 0 ∧ ¬ 4096 ≤ ph.offset + ph.pFilesz.toNat ∧
        ph.pFilesz ≠ ph.pMemsz := by
      simpa only [Phdr.PageWise, not_or] using hpage
    have hlt : ph.pFilesz.toNat < ph.pMemsz.toNat :=
      lt_of_le_of_ne hs.le fun hc => hne (BitVec.eq_of_toNat_eq hc)
    rw [(h.wp_elfLoadSeg_short he hs (by omega) h0 hlt hempty).of_ok hrun]
    exact ⟨.inr, fun hc => hc.resolve_left hpage⟩

/-! ## Two segments of eight bytes -/

/-- Eight bytes at `va`, the first four of which are in the file. -/
def eightBytes (va : Word) : Phdr where
  pType := PT_LOAD
  pOffset := 0
  pVaddr := va
  pFilesz := 4
  pMemsz := 8
  pFlags := PF_W

lemma exists_room : ∃ T k, Reaches (smallMachine false) (fun _ _ => True) k ∧ KInv T k ∧
    (k.envs 0).envStatus = .runnable ∧ 4 ≤ k.pm.pageFreeList.length ∧
    ∀ va < UTOP, VPN va ≠ VPN ecallVa → k.pm.entryAt (k.envs 0).envPgdir va = none := by
  obtain ⟨k₀, T, k, hk₀, hfrom, -, -, hpop⟩ := exists_populated false (C := fun _ _ => True)
    (fun _ _ => trivial) 1 (by decide)
  refine ⟨T, k, hfrom.reaches hk₀, hpop.kInv, ?_, ?_, hpop.empty 0 (by decide)⟩
  · exact (hpop.born 0 (by decide)).1
  · have hfix := smallMachine_room false (c := 2) (by decide)
    have hlen := hpop.room
    omega

/-- Loaded at a page boundary, the bytes are there. -/
theorem elf_load_seg_iff_aligned : ∃ k k', elfLoadSeg (eightBytes 0x10000000) (fun _ => 1)
    (loadIcodeMapper 0) k = .ok () k' ∧
    (eightBytes 0x10000000).Loaded (fun _ => 1) k'.pm (k.envs 0).envPgdir := by
  obtain ⟨T, k, -, h, hrunnable, hroom, hempty⟩ := exists_room
  have he : (k.envs 0).envStatus ≠ .free := by
    rw [hrunnable]
    decide
  have hwp : wp (elfLoadSeg (eightBytes 0x10000000) (fun _ => 1) (loadIcodeMapper 0)) k
      (fun _ _ => True) (fun _ _ => False) fun _ => False := by
    rw [wp_elfLoadSeg_page (by decide) (by decide) (by decide) (by decide)]
    refine (h.wp_loadIcodeMapper he (by decide) (Phdr.perm_lt _) _ _ _).mono
      (fun _ _ _ => trivial) ?_
      fun _ h => h
    rintro c - ⟨-, hlt⟩
    omega
  obtain ⟨⟨⟩, k', hrun, -⟩ := hwp.exists_ok
  refine ⟨k, k', hrun, (elf_load_seg_iff h he ⟨by decide, by decide⟩ ?_ hrun).mpr (.inl (.inl rfl))⟩
  have hva : ∀ i < 8, (eightBytes 0x10000000).va i < UTOP ∧
      VPN ((eightBytes 0x10000000).va i) ≠ VPN ecallVa := by decide
  exact fun i hi => hempty _ (hva i hi).1 (hva i hi).2

/-- **In the middle of a page, the bytes of the file are lost.** -/
theorem short_segment_lost : ∃ k k', Reaches (smallMachine false) (fun _ _ => True) k ∧
    (k.envs 0).envStatus = .runnable ∧ (eightBytes 0x10000800).InUserSpace ∧
    elfLoadSeg (eightBytes 0x10000800) (fun _ => 1) (loadIcodeMapper 0) k = .ok () k' ∧
    (∀ i < 8, k.pm.entryAt (k.envs 0).envPgdir ((eightBytes 0x10000800).va i) = none) ∧
    ¬ (eightBytes 0x10000800).Loaded (fun _ => 1) k'.pm (k.envs 0).envPgdir := by
  obtain ⟨T, k, hk, h, hrunnable, hroom, hempty⟩ := exists_room
  have he : (k.envs 0).envStatus ≠ .free := by
    rw [hrunnable]
    decide
  have hwp : wp (elfLoadSeg (eightBytes 0x10000800) (fun _ => 1) (loadIcodeMapper 0)) k
      (fun _ _ => True) (fun _ _ => False) fun _ => False := by
    have hstart : (eightBytes 0x10000800).start = 4 := by decide
    have hfile : rounds 4 (eightBytes 0x10000800).pFilesz.toNat = 0 := by decide
    have hzero : rounds (4 + 0 * 4096) (eightBytes 0x10000800).pMemsz.toNat = 1 := by decide
    rw [elfLoadSeg, hstart, wp_bind, Phdr.loadHead, if_pos (by decide)]
    refine (h.wp_loadIcodeMapper he (by decide) (Phdr.perm_lt _) _ _ _).mono ?_ ?_ fun _ h => h
    · rintro - - ⟨h₁, m, rfl, hlen, -⟩
      rw [wp_bind, hfile, forRange_zero, wp_pure]
      change wp (forRange _ 0 (rounds (4 + 0 * 4096) _)) _ _ _ _
      simp only [hzero, forRange_succ, forRange_zero, wp_bind, wp_pure]
      refine (h₁.wp_loadIcodeMapper he (by decide) (Phdr.perm_lt _) _ _ _).mono
        (fun _ _ _ => trivial) ?_ fun _ h => h
      rintro c - ⟨-, hlt⟩
      change m.pageFreeList.length < 2 at hlt
      omega
    · rintro c - ⟨-, hlt⟩
      omega
  obtain ⟨⟨⟩, k', hrun, -⟩ := hwp.exists_ok
  have hva : ∀ i < 8, (eightBytes 0x10000800).va i < UTOP ∧
      VPN ((eightBytes 0x10000800).va i) ≠ VPN ecallVa := by decide
  have hnone : ∀ i < 8, k.pm.entryAt (k.envs 0).envPgdir ((eightBytes 0x10000800).va i) = none :=
    fun i hi => hempty _ (hva i hi).1 (hva i hi).2
  have hs : (eightBytes 0x10000800).InUserSpace := ⟨by decide, by decide⟩
  refine ⟨k, k', hk, hrunnable, hs, hrun, hnone, fun hl => ?_⟩
  have hiff := (h.wp_elfLoadSeg_short he hs (by decide) (by decide) (by decide) hnone).of_ok hrun
  have hzero := (hiff.mp (hs.loaded_iff.mp hl)).1 0 (by decide)
  exact absurd hzero (by decide)

end

end MosRv
