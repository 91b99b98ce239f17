import SmcPkg.InBand.DmiNvram

/-!
# The preserved DMI values

`SmcEDMIInit` keeps a copy of the DMI values in the ROM hole. The copy is a table with a
count and one record for each value: the entry of the list, a size of eight bytes, and the
data. If the flag in the table is set the values are restored from the copy, otherwise the
copy is made again and written if its checksum differs from the one that is stored.

The reads of the variables and the writes of the restore may fail. The other calls of
`SmcEDMIInit` (the lookup of the protocol, the pool, and the read of the ROM hole) are assumed
to succeed, and the model has no branch for their failures.
-/

namespace SmcPkg.Preserve

open Bytes Card RaidCmd RomHole Smbios Dmi

section Table

/-- `SmcRomHoleSize(SMBIOS_FOR_BMC_REGION)`. -/
def regionSize : Nat := smcRomHoleSize .smbiosForBmc

/-- `sizeof(SMC_PRESERVE_TABLE)`. -/
def tableSize : Nat := 16

/-- The signature `$SMC`. -/
def smcSignature : List UInt8 := [0x24, 0x53, 0x4D, 0x43]

/-- A 64-bit number as it lies in memory. -/
def le64 (value : Nat) : List UInt8 := le32 value ++ le32 (value / 2 ^ 32)

/-- `DMI_VAR` as it lies in memory. -/
def entryBytes (entry : DmiVar) : List UInt8 :=
  entry.type :: (le16 entry.handle.toNat ++ [entry.offset, entry.flags])

/-- A value with its entry. -/
abbrev Value := DmiVar × List UInt8

/-- The record of a value. -/
def recordBytes (value : Value) : List UInt8 :=
  entryBytes value.1 ++ (le64 value.2.length ++ value.2)

/-- `Count`. -/
def tableCount (region : List UInt8) : UInt8 := region.getD 5 0

/-- `CHK`. -/
def tableCheck (region : List UInt8) : UInt16 := word16 (memoryOf region (fun _ => 0)) 8

/-- `Flags`. -/
def tableFlags (region : List UInt8) : UInt8 := region.getD 10 0

/-- The region with other `Flags`. -/
def withFlags (region : List UInt8) (flags : UInt8) : List UInt8 := region.set 10 flags

/-- Whether the values are to be restored. -/
def restorePending (region : List UInt8) : Bool :=
  region.take 4 = smcSignature && tableFlags region = 1

/-- The 16-bit sum of bytes. -/
def sum16 (bytes : List UInt8) : UInt16 := bytes.foldl (fun sum byte => sum + byte.toUInt16) 0

/-- The checksum of records. The index of the loop has one byte, and so has the bound. -/
def checkOf (records : List UInt8) : UInt16 :=
  sum16 (records.take ((tableSize + records.length) % 256 - tableSize))

/-- The image of records. -/
def imageOf (count : UInt8) (records : List UInt8) : List UInt8 :=
  smcSignature ++ ([0xFF, count] ++ (le16 (tableSize + records.length) ++
    (le16 (checkOf records).toNat ++ (List.replicate 6 0xFF ++ (records ++
      List.replicate (regionSize - (tableSize + records.length)) 0xFF)))))

/-- The image without `DmiArray`. -/
def noImage : List UInt8 := smcSignature ++ List.replicate (regionSize - 4) 0xFF

end Table

section Save

variable (array : DmiArray) (read : UInt8 → DmiVar → Option (List UInt8))

/-- The loop over the entries, with what `GetVariable` gives for the entry at an index. A read
that fails takes one from the count. -/
def saveLoop : Nat → UInt8 → UInt8 → List UInt8 → Checked (UInt8 × List UInt8)
  | 0, _, _, _ => .error .outOfFuel
  | rounds + 1, index, count, records =>
    if index < count then
      let entry := array.entry (index + 1)
      match read index entry with
      | none => saveLoop rounds (index + 1) (count - 1) records
      | some data =>
        let records := records ++ recordBytes (entry, data)
        if regionSize < tableSize + records.length then .error .overflow
        else saveLoop rounds (index + 1) count records
    else .ok (count, records)

end Save

section Init

variable (found : Option DmiArray) (read : UInt8 → DmiVar → Option (List UInt8))

/-- The image that the values are saved in, if the list is not wrong. -/
def saveImage : Checked (Option (List UInt8)) :=
  match found with
  | none => .ok (some noImage)
  | some array =>
    if array.count = 0 ∨ array.count = 0xFF then .ok none
    else do
      let (count, records) ← saveLoop array read 256 0 array.count []
      .ok (some (imageOf count records))

/-- The region after the branch that saves the values. -/
def save (region : List UInt8) : Checked (List UInt8) := do
  match ← saveImage found read with
  | none => .ok region
  | some image => if tableCheck image ≠ tableCheck region then .ok image else .ok region

/-- The entry at a place of the region. -/
def entryAt (region : List UInt8) (offset : Nat) : DmiVar :=
  ⟨region.getD offset 0, word16 (memoryOf region (fun _ => 0)) (offset + 1),
    region.getD (offset + 3) 0, region.getD (offset + 4) 0⟩

/-- What fails while the values are restored. -/
structure RestoreFailures where
  setVar : UInt8 → Option Failure
  setArray : Option Failure

/-- Nothing fails. -/
def RestoreFailures.none : RestoreFailures := ⟨fun _ => .none, .none⟩

variable (failures : RestoreFailures) (region : List UInt8)

/-- The loop over the records. The size of a value is read as one byte. -/
def restoreLoop : Nat → UInt8 → Nat → DmiArray → Nvram → Checked (DmiArray × Nvram)
  | 0, _, _, _, _ => .error .outOfFuel
  | rounds + 1, index, offset, array, nvram =>
    if index < array.count then
      let entry := entryAt region offset
      let size := (region.getD (offset + 5) 0).toNat
      if offset + 5 < regionSize ∧ (size ≠ 0 → offset + 13 + size ≤ regionSize) then
        let array := array.withEntry (index + 1) entry
        let (status, nvram) := setDmiVar ⟨.none, .none, .none, failures.setVar index⟩ entry
          (bytesAt region (offset + 13) size) nvram
        if status = efiSuccess then
          restoreLoop rounds (index + 1) (offset + 13 + size) array nvram
        else .ok (array, nvram)
      else .error .overflow
    else .ok (array, nvram)

/-- The branch that restores the values: the variables and the region after it. -/
def restore (nvram : Nvram) : Checked (Nvram × List UInt8) :=
  let count := tableCount region
  if count = 0 ∨ count = 0xFF then .ok (nvram, withFlags region 0)
  else do
    let (array, nvram) ←
      restoreLoop failures region 256 0 tableSize (noEntries.withCount count) nvram
    let (_, nvram) := setDmiArray ⟨.none, .none, failures.setArray, .none⟩ array nvram
    .ok (nvram, withFlags region 0)

/-- `SmcEDMIInit`. -/
def smcEdmiInit (nvram : Nvram) : Checked (Nvram × List UInt8) :=
  if restorePending region then restore failures region nvram
  else do
    let region ← save found read region
    .ok (nvram, region)

end Init

end SmcPkg.Preserve
