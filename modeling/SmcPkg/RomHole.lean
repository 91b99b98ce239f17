import SmcPkg.Lib.Bytes

/-!
# The ROM hole

A part of the flash holds data of the module in fixed regions. A region is always
read and written as a whole.

The offsets and sizes are those of the tables of the source. A hole that is read back has the
bytes that were written last; wear and power failures are not covered.
-/

namespace SmcPkg.RomHole

open Bytes

/-- `SMC_ROMHOLE_MEMBER`. -/
inductive Region
  | full
  | oa3
  | oa2
  | smbiosForBmc
  | afuCmd
  | inBand
  | currentSmbios
  | previousSmbios
  deriving DecidableEq, Repr

/-- `SMC_ROM_HOLE_SIZE`. -/
def romHoleSize : Nat := 0x10000

/-- `SmcRomHoleSize`, and the size the accesses use for the full region. -/
def smcRomHoleSize : Region → Nat
  | .full => romHoleSize
  | .oa3 => 2 * 1024
  | .oa2 => 2 * 1024
  | .smbiosForBmc => 4 * 1024
  | .afuCmd => 4 * 1024
  | .inBand => 12 * 1024
  | .currentSmbios => 4 * 1024
  | .previousSmbios => 4 * 1024

/-- `SmcRomHoleOffset`, by the order of the members of `SMC_ROM_HOLE_MAP`. -/
def smcRomHoleOffset : Region → Nat
  | .full => 0
  | .oa3 => 0
  | .oa2 => 2 * 1024
  | .smbiosForBmc => 4 * 1024
  | .afuCmd => 8 * 1024
  | .inBand => 12 * 1024
  | .currentSmbios => 24 * 1024
  | .previousSmbios => 28 * 1024

/-- What `SmcRomHoleReadRegion` reads. -/
def readRegion (hole : Memory) (region : Region) : Memory :=
  shifted (smcRomHoleOffset region) hole

/-- The hole after `SmcRomHoleWriteRegion`. -/
def writeRegion (hole : Memory) (region : Region) (data : Memory) : Memory :=
  overlayAt (smcRomHoleOffset region) (smcRomHoleSize region) data hole

variable {hole data : Memory} {region : Region} {i : Nat}

/-- A region holds what was written to it last. -/
theorem readRegion_writeRegion (inside : i < smcRomHoleSize region) :
    readRegion (writeRegion hole region data) region i = data i := by
  rw [readRegion, writeRegion, shifted, overlayAt_inside (by omega) (by omega)]
  congr 1
  omega

/-- Each region lies in the full one. -/
theorem smcRomHole_inside (region : Region) :
    smcRomHoleOffset region + smcRomHoleSize region ≤ romHoleSize := by
  cases region <;> decide

/-- A write of the full region gives every region its part. -/
theorem readRegion_writeFull (inside : i < smcRomHoleSize region) :
    readRegion (writeRegion hole .full data) region i = readRegion data region i := by
  have bound := smcRomHole_inside region
  have size : smcRomHoleSize .full = romHoleSize := rfl
  have offset : smcRomHoleOffset .full = 0 := rfl
  rw [readRegion, writeRegion, shifted, overlayAt_inside (by omega) (by omega)]
  rfl

/-- Two regions share no byte. -/
def Apart (region other : Region) : Prop :=
  smcRomHoleOffset region + smcRomHoleSize region ≤ smcRomHoleOffset other ∨
    smcRomHoleOffset other + smcRomHoleSize other ≤ smcRomHoleOffset region

/-- A write leaves the other regions alone. -/
theorem readRegion_apart {other : Region} (apart : Apart region other)
    (inside : i < smcRomHoleSize other) :
    readRegion (writeRegion hole region data) other i = readRegion hole other i := by
  rw [readRegion, writeRegion, shifted, overlayAt_outside]
  · rfl
  · rcases apart with before | behind
    · exact Or.inr (by omega)
    · exact Or.inl (by omega)

end SmcPkg.RomHole
