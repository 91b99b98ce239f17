import SmcPkg.InBand.Smi

/-!
# Files staged in the ROM hole by the SMI

A download takes the size of its file from the header that the caller wrote, and adds the
header and the checksum to it in 32 bits. A sum that wraps around looks small.
-/

namespace SmcPkg.Smi

open Bytes Card Download RomHole

/-- The region that a file type is staged in, and the bytes behind the payload. -/
def destination (areaType : UInt8) : Option (Region × UInt32) :=
  if areaType = 0 then some (.inBand, 1)
  else if areaType = 2 then some (.currentSmbios, 0)
  else none

/-- The bytes of an image: header, payload, and what is behind the payload. -/
def imageSize (file : Memory) (behind : UInt32) : Nat :=
  18 + (headerFileSize file).toNat + behind.toNat

/-- The image that a download finds once it has cleared `ReturnStatus`. -/
def offered (header : UInt64) (space : Space) : Memory :=
  let cleared := setReturnStatus space header 0
  view cleared (dataBufferAddress cleared header)

/-- A part of the handler writes the ROM hole. -/
def Writes (outcome : Outcome) (hole : Memory) : Prop :=
  outcome.hole ≠ hole ∨ ∃ start count, Action.copyIn start count ∈ outcome.actions

/-- A part of the handler refuses its data. -/
def Refuses (outcome : Outcome) (header : UInt64) (hole : Memory) : Prop :=
  view outcome.space header 8 = 1 ∧ outcome.hole = hole

/-- A download writes a region only if the image fits, and refuses it otherwise. -/
def Guarded (handler : Handler) (header : UInt64) (areaType : UInt8) (space : Space)
    (hole : Memory) : Prop :=
  let outcome := downloadDataFromRAM handler header areaType space hole
  match destination areaType with
  | none => ¬ Writes outcome hole
  | some (region, behind) =>
    (Writes outcome hole → imageSize (offered header space) behind ≤ smcRomHoleSize region) ∧
      (smcRomHoleSize region < imageSize (offered header space) behind →
        Refuses outcome header hole)

section Stage

variable {handler : Handler} {header : UInt64} {region : Region} {behind : UInt32}
  {space : Space} {hole : Memory}

/-- The byte that was set is read back. -/
theorem view_setReturnStatus (status : UInt8) :
    view (setReturnStatus space header status) header 8 = status := by
  have place : header + UInt64.ofNat 8 - (header + 8) = 0 := by
    rw [show UInt64.ofNat 8 = 8 from rfl, UInt64.sub_self]
  rw [view, setReturnStatus, store, place, if_pos (by decide)]

/-- The 32-bit size is the size of the image as long as the sum stays in range. -/
theorem totalLength_exact {file : Memory} (inRange : imageSize file behind < 2 ^ 32) :
    (headerFileSize file + 18 + behind).toNat = imageSize file behind := by
  have eighteen : (18 : UInt32).toNat = 18 := rfl
  rw [imageSize] at inRange ⊢
  rw [UInt32.toNat_add, UInt32.toNat_add, eighteen]
  omega

/-- A sum that wraps around is less than what was added to the payload. -/
theorem totalLength_wrapped {file : Memory} (wrapped : 2 ^ 32 ≤ imageSize file behind)
    (few : behind.toNat ≤ 1) : (headerFileSize file + 18 + behind).toNat ≤ 18 := by
  have eighteen : (18 : UInt32).toNat = 18 := rfl
  have bound := (headerFileSize file).toNat_lt
  rw [imageSize] at wrapped
  rw [UInt32.toNat_add, UInt32.toNat_add, eighteen]
  omega

/-- A stage that is entered leaves the memory as it was. -/
theorem stageFile_space
    (small : (headerFileSize (view space (dataBufferAddress space header)) + 18 + behind).toNat ≤
      smcRomHoleSize region) :
    (stageFile handler header region behind space hole).space = space := by
  rw [stageFile, if_pos small]

/-- A file that is larger than its region is refused, and the region stays. -/
theorem stageFile_refused
    (large : smcRomHoleSize region <
      (headerFileSize (view space (dataBufferAddress space header)) + 18 + behind).toNat) :
    stageFile handler header region behind space hole =
      ⟨setReturnStatus space header 1, hole,
        headerFileSize (view space (dataBufferAddress space header)) + 18 + behind,
        [.access (header + 9) 8, .access (dataBufferAddress space header + 6) 4,
          .report header 1]⟩ := by
  simp only [stageFile, Nat.not_le.mpr large, if_false]

/-- A stage is guarded exactly when the size of the image is computed without wrapping
around. -/
theorem stageFile_guarded_iff (few : behind.toNat ≤ 1) (roomy : 18 < smcRomHoleSize region)
    (roofed : smcRomHoleSize region < 2 ^ 32) (cleared : view space header 8 = 0)
    {outcome branch : Outcome}
    (taken : branch = stageFile handler header region behind space hole)
    (ran : outcome = { branch with actions := .report header 0 :: branch.actions }) :
    ((Writes outcome hole →
        imageSize (view space (dataBufferAddress space header)) behind ≤ smcRomHoleSize region) ∧
      (smcRomHoleSize region < imageSize (view space (dataBufferAddress space header)) behind →
        Refuses outcome header hole)) ↔
      imageSize (view space (dataBufferAddress space header)) behind < 2 ^ 32 := by
  constructor
  · rintro ⟨_, refuses⟩
    apply Nat.lt_of_not_le
    intro wrapped
    have small := totalLength_wrapped wrapped few
    have refused := (refuses (Nat.lt_of_lt_of_le roofed wrapped)).1
    rw [ran] at refused
    change view branch.space header 8 = 1 at refused
    rw [taken, stageFile_space (small.trans roomy.le), cleared] at refused
    exact absurd refused (by decide)
  · intro inRange
    have exact := totalLength_exact inRange
    have refuses : smcRomHoleSize region <
        imageSize (view space (dataBufferAddress space header)) behind →
        Refuses outcome header hole ∧ ¬ Writes outcome hole := by
      intro large
      have refusal : stageFile handler header region behind space hole = _ :=
        stageFile_refused (by rw [exact]; exact large)
      rw [taken, refusal] at ran
      constructor
      · rw [ran]
        exact ⟨view_setReturnStatus 1, rfl⟩
      · rintro (changed | ⟨start, count, member⟩)
        · rw [ran] at changed
          exact changed rfl
        · rw [ran] at member
          simp at member
    constructor
    · intro writes
      by_contra large
      exact (refuses (Nat.not_le.mp large)).2 writes
    · intro large
      exact (refuses large).1

end Stage

/-- The size of every image that is staged is computed without wrapping around. -/
def InRange (header : UInt64) (areaType : UInt8) (space : Space) : Prop :=
  ∀ region behind, destination areaType = some (region, behind) →
    imageSize (offered header space) behind < 2 ^ 32

/-- A download keeps to the size of its region exactly when the size of the image, as the header
claims it, stays in 32 bits. Memory, the region and the answers of the flash are arbitrary, and an
area type without a region is in range. -/
theorem guarded_iff (handler : Handler) (header : UInt64) (areaType : UInt8) (space : Space)
    (hole : Memory) :
    Guarded handler header areaType space hole ↔ InRange header areaType space := by
  have cleared : view (setReturnStatus space header 0) header 8 = 0 := view_setReturnStatus 0
  by_cases biosCfg : areaType = 0
  · have place : destination areaType = some (.inBand, 1) := if_pos biosCfg
    simp only [Guarded, InRange, place, Option.some.injEq, Prod.mk.injEq]
    apply (stageFile_guarded_iff (by decide) (by decide : 18 < smcRomHoleSize .inBand) (by decide) cleared
      (if_pos biosCfg) rfl).trans
    constructor
    · rintro inRange region behind ⟨rfl, rfl⟩
      exact inRange
    · intro inRange
      exact inRange _ _ ⟨rfl, rfl⟩
  by_cases smbios : areaType = 2
  · have place : destination areaType = some (.currentSmbios, 0) := by
      rw [destination, if_neg biosCfg, if_pos smbios]
    simp only [Guarded, InRange, place, Option.some.injEq, Prod.mk.injEq]
    apply (stageFile_guarded_iff (by decide) (by decide : 18 < smcRomHoleSize .currentSmbios)
      (by decide) cleared ((if_neg biosCfg).trans (if_pos smbios)) rfl).trans
    constructor
    · rintro inRange region behind ⟨rfl, rfl⟩
      exact inRange
    · intro inRange
      exact inRange _ _ ⟨rfl, rfl⟩
  · have place : destination areaType = none := by
      rw [destination, if_neg biosCfg, if_neg smbios]
    simp only [Guarded, InRange, place]
    have idle : ¬ Writes (downloadDataFromRAM handler header areaType space hole) hole := by
      rw [downloadDataFromRAM, downloadBranch, if_neg biosCfg, if_neg smbios]
      simp [Writes]
    exact iff_of_true idle (by simp)

/-- A flash that does what it is asked, and no checks. -/
def plainHandler : Handler where
  validate := fun _ _ => efiSuccess
  smram := 0x80000000
  flash := ⟨true, efiSuccess, efiSuccess, efiSuccess, efiSuccess, efiSuccess, fun _ => 0xFF⟩
  flags := ⟨1, 0, Vector.replicate 24 0⟩

/-- A configuration at the second page that claims the largest size. -/
def wrappingSpace : Space :=
  fun place =>
    if place.toNat < 0x2000 then
      memoryOf [17, 0, 1, 0, 0, 0, 0, 0, 0, 0, 0x20, 0, 0, 0, 0, 0, 0] (fun _ => 0)
        (place - 0x1000).toNat
    else
      memoryOf [0x24, 0x42, 0x43, 0x46, 0, 0, 0xFF, 0xFF, 0xFF, 0xFF] (fun _ => 0)
        (place - 0x2000).toNat

/-- An image of four gigabytes is written to a region of twelve kilobytes. -/
theorem not_guarded_wrapping :
    ¬ ∀ handler header areaType space hole, Guarded handler header areaType space hole := by
  intro guarded
  have kept := guarded plainHandler 0x1000 0 wrappingSpace (fun _ => 0xFF)
  have size : imageSize (offered 0x1000 wrappingSpace) 1 = 2 ^ 32 + 18 := by decide +kernel
  have place : destination 0 = some (.inBand, 1) := rfl
  simp only [Guarded, place] at kept
  have refused := (kept.2 (by rw [size]; decide)).1
  have reported : view (downloadDataFromRAM plainHandler 0x1000 0 wrappingSpace
      (fun _ => 0xFF)).space 0x1000 8 = 0 := by decide +kernel
  rw [reported] at refused
  exact absurd refused (by decide)

end SmcPkg.Smi
