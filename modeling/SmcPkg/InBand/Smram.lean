import SmcPkg.InBand.Smi

/-!
# The pool in SMRAM

Three sub-areas lie side by side in one pool. The E8 SMI copies a file into each of them,
and takes the size from the header of the file; an upload of the E6 SMI takes the size
from the header in the pool.

The place of the pool is arbitrary, and so is what the caller has put into the transfer buffer.
-/

namespace SmcPkg.Smram

open Bytes Card Download RomHole Smi Upload

section Map

/-- `SMC_OOB_SMRAM_TOTAL_SIZE`. -/
def smramTotalSize : Nat := 1024 * 1024

/-- The sub-areas of the pool. -/
inductive Area
  | hii
  | fullSmbios
  | biosCfg
  deriving DecidableEq, Repr

/-- `SMC_OOB_SMRAM_HII_OFFSET` and its siblings. -/
def Area.offset : Area → Nat
  | .hii => smramHiiOffset
  | .fullSmbios => smramFullSmbiosOffset
  | .biosCfg => smramBiosCfgOffset

/-- `SMC_OOB_SMRAM_HII_SIZE` and its siblings. -/
def Area.size : Area → Nat
  | .hii => 384 * 1024
  | .fullSmbios => 256 * 1024
  | .biosCfg => 384 * 1024

/-- A checksum is at the end of the BIOS configuration. -/
def Area.behind : Area → UInt32
  | .hii => 0
  | .fullSmbios => 0
  | .biosCfg => 1

/-- The place in the pool that an address is, as the distance from its start. -/
def poolPlace (handler : Handler) (place : UInt64) : Nat := (place - handler.smram).toNat

/-- The bytes of a sub-area. -/
def Area.Holds (area : Area) (handler : Handler) (place : UInt64) : Prop :=
  area.offset ≤ poolPlace handler place ∧ poolPlace handler place < area.offset + area.size

instance (area : Area) (handler : Handler) (place : UInt64) :
    Decidable (area.Holds handler place) := inferInstanceAs (Decidable (_ ∧ _))

/-- The areas follow each other without a gap, and fill the pool. -/
theorem area_cover (handler : Handler) (place : UInt64) :
    poolPlace handler place < smramTotalSize ↔ ∃ area : Area, area.Holds handler place := by
  constructor
  · intro inside
    by_cases first : poolPlace handler place < 384 * 1024
    · exact ⟨.hii, Nat.zero_le _, first⟩
    by_cases second : poolPlace handler place < 640 * 1024
    · exact ⟨.fullSmbios, Nat.not_lt.mp first, second⟩
    · exact ⟨.biosCfg, Nat.not_lt.mp second, inside⟩
  · rintro ⟨area, _, below⟩
    cases area
    · exact Nat.lt_trans below (by decide)
    · exact Nat.lt_trans below (by decide)
    · exact below

end Map

section Combine

/-- What an SMI leaves: the memory, and the ranges that are written in it. -/
structure Combined where
  space : Space
  written : List (UInt64 × Nat)

/-- A file of the transfer buffer is copied to its place in the pool. -/
def copyFile (handler : Handler) (pBuffer : UInt64) (area : Area) (space : Space) : Combined :=
  let source := pBuffer + UInt64.ofNat area.offset
  let destination := handler.smram + UInt64.ofNat area.offset
  let count := (headerFileSize (view space source)).toNat + 18 + area.behind.toNat
  ⟨store space destination count (view space source), [(destination, count)]⟩

/-- The switch over `DataPort`. -/
def areaOfPort (dataPort : UInt8) : Option Area :=
  if dataPort = 1 then some .hii
  else if dataPort = 2 then some .fullSmbios
  else if dataPort = 3 then some .biosCfg
  else none

/-- `SmcInBandSwSmiE8Handler`. -/
def smcInBandSwSmiE8Handler (handler : Handler) (pBuffer : UInt64) (dataPort : UInt8)
    (space : Space) : Combined :=
  match areaOfPort dataPort with
  | some area => copyFile handler pBuffer area space
  | none => ⟨space, []⟩

end Combine

end SmcPkg.Smram
