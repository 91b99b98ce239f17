import SmcPkg.OutBand.Download
import SmcPkg.RomHole

/-!
# The SMBIOS image

`CombineSmbios` reads the structures of six types and writes one record for each value
that may be edited: the type, the handle, the offset of the value in the structure, and
the value with a zero behind it. `InBandUpdateSmbios` walks over the records of an image
that a user has sent and over the previous image at once, and hands on what differs. The
width of a value is not in the record. Both sides take it from the type and the offset,
and a value without a width is a string.

The structures come from `SmbiosReadStrucByType`, a parameter of which nothing is assumed. An
image is the list of all bytes that are read of it, the previous one too: where a walk reads
behind its last byte the list has zeros.
-/

namespace SmcPkg.Smbios

open Bytes Card RaidCmd Download RomHole

section Tables

/-- `TypeNumber`. -/
def typeNumbers : List UInt8 := [0, 1, 2, 3, 11, 39]

/-- `Type00` to `Type39`: the offsets that are combined. -/
def combinedOffsets (type : UInt8) : List UInt8 :=
  if type = 0 then [0x05, 0x08]
  else if type = 1 then [0x04, 0x05, 0x06, 0x07, 0x08, 0x19, 0x1A]
  else if type = 2 then [0x04, 0x05, 0x06, 0x07, 0x08]
  else if type = 3 then [0x04, 0x05, 0x06, 0x07, 0x08, 0x0D]
  else if type = 11 then [0x01, 0x02]
  else if type = 39 then
    [0x04, 0x05, 0x06, 0x07, 0x08, 0x09, 0x0A, 0x0B, 0x0C, 0x0E, 0x10, 0x12, 0x14]
  else []

/-- The switch of `CombineSmbios`: the width of a value, or no width for a string. -/
def combineWidth (type offset : UInt8) : Nat :=
  if type = 0 then
    if offset ∈ [0x06, 0x12] then 2
    else if offset ∈ [0x09, 0x14, 0x15, 0x16, 0x17] then 1
    else if offset = 0x0A then 8
    else 0
  else if type = 1 then
    if offset = 0x08 then 16
    else if offset = 0x18 then 1
    else 0
  else if type = 2 then
    if offset ∈ [0x09, 0x0D, 0x0E] then 1
    else if offset = 0x0B then 2
    else 0
  else if type = 3 then
    if offset ∈ [0x05, 0x09, 0x0A, 0x0B, 0x0C, 0x11, 0x12, 0x13, 0x14, 0x15] then 1
    else if offset = 0x0D then 4
    else 0
  else if type = 11 then 0
  else if type = 39 then
    if offset = 0x04 then 1
    else if offset ∈ [0x0C, 0x0E, 0x10, 0x12, 0x14] then 2
    else 0
  else 0

/-- The switch of `InBandUpdateSmbios`. -/
def updateWidth (type offset : UInt8) : Nat :=
  if type = 0 then
    if offset ∈ [0x06, 0x12] then 2
    else if offset ∈ [0x09, 0x14, 0x15, 0x16, 0x17] then 1
    else if offset = 0x0A then 8
    else 0
  else if type = 1 then
    if offset = 0x08 then 16
    else if offset = 0x18 then 1
    else 0
  else if type = 2 then
    if offset ∈ [0x09, 0x0D, 0x0E] then 1
    else if offset = 0x0B then 2
    else 0
  else if type = 3 then
    if offset ∈ [0x05, 0x09, 0x0A, 0x0B, 0x0C, 0x11, 0x12, 0x13, 0x14, 0x15] then 1
    else if offset = 0x0D then 4
    else 0
  else if type = 11 then 0
  else if type = 39 then
    if offset = 0x04 then 1
    else if offset ∈ [0x0C, 0x0E, 0x10, 0x12, 0x14] then 2
    else 0
  else 0

end Tables

section Combine

/-- A string up to its end. -/
def cString (text : List UInt8) : List UInt8 := text.takeWhile (· ≠ 0)

/-- What `SmbiosReadStrucByType` gives: the memory from the structure on, and the size. Only
the lower half of the size is written, the upper half is what it was before. -/
structure Structure where
  tempBuff : List UInt8
  tempBuffSize : UInt32

/-- A byte of the memory. -/
def Structure.byte (struct : Structure) (place : Nat) : UInt8 :=
  struct.tempBuff.getD place 0

/-- `structHandle`. -/
def Structure.handle (struct : Structure) : UInt16 :=
  word16 (memoryOf struct.tempBuff (fun _ => 0)) 2

/-- A record of the image. -/
structure Record where
  type : UInt8
  handle : UInt16
  offset : UInt8
  value : List UInt8
  deriving DecidableEq

/-- The bytes of a record. -/
def Record.bytes (record : Record) : List UInt8 :=
  record.type :: (le16 record.handle.toNat ++ (record.offset :: (record.value ++ [0])))

/-- `IsVisibleString`. -/
def isVisibleString (text : List UInt8) : Bool :=
  ((cString text).take 0xFFFF).all (fun c => 0x20 ≤ c && c ≤ 0x7E)

/-- The loop of `GetOffsetString`: the string with a number, from a place on. A string that
is not visible or not there is empty. -/
def offsetString (tempBuff : List UInt8) (tempBuffSize : Nat) : Nat → Nat → List UInt8
  | 0, _ => []
  | 1, place =>
    if place < tempBuffSize then
      if isVisibleString (tempBuff.drop place) then cString (tempBuff.drop place) else []
    else []
  | number + 2, place =>
    if place < tempBuffSize then
      offsetString tempBuff tempBuffSize (number + 1)
        (place + (cString (tempBuff.drop place)).length + 1)
    else []

/-- `GetOffsetVaries`. -/
def getOffsetVaries (type : UInt8) (struct : Structure) (offset : UInt8) (width : Nat) :
    Record :=
  ⟨type, struct.handle, offset,
    (List.range width).map (fun i => struct.byte (offset.toNat + i))⟩

/-- `GetOffsetString`. -/
def getOffsetString (type : UInt8) (struct : Structure) (offset number : UInt8) : Record :=
  ⟨type, struct.handle, offset, offsetString struct.tempBuff
    struct.tempBuffSize.toNat number.toNat (struct.byte 1).toNat⟩

/-- The number of a string: the byte at its offset, and the offset itself in OEM strings. -/
def stringNumber (type : UInt8) (struct : Structure) (offset : UInt8) : UInt8 :=
  if type = 11 then offset else struct.byte offset.toNat

/-- The record for an offset of a structure, if there is one. -/
def combineOffset (type : UInt8) (struct : Structure) (offset : UInt8) : List Record :=
  if combineWidth type offset ≠ 0 then
    [getOffsetVaries type struct offset (combineWidth type offset)]
  else if stringNumber type struct offset ≠ 0 then
    [getOffsetString type struct offset (stringNumber type struct offset)]
  else []

/-- The records of a structure. -/
def combineStructure (type : UInt8) (struct : Structure) : List Record :=
  (combinedOffsets type).flatMap (combineOffset type struct)

/-- The instances that the loop over a type asks for: its counter has one byte. -/
def instances : List UInt8 := (List.range 256).map (fun i => UInt8.ofNat (i + 1))

/-- The loop over the structures of a type. After the last instance it would start again. -/
def readStructures (read : UInt8 → Status × Structure) : List UInt8 → Option (List Structure)
  | [] => none
  | index :: indices =>
    let (status, struct) := read index
    if efiError status then some []
    else if status ≠ efiSuccess then readStructures read indices
    else (readStructures read indices).map (struct :: ·)

/-- The records of the types. -/
def combineTypes (read : UInt8 → UInt8 → Status × Structure) : List UInt8 → Option (List Record)
  | [] => some []
  | type :: types => do
    let structures ← readStructures (read type) instances
    let records ← combineTypes read types
    some (structures.flatMap (combineStructure type) ++ records)

/-- The signature `_SMB`. -/
def smbSignature : List UInt8 := [0x5F, 0x53, 0x4D, 0x42]

/-- The records as they lie in the image. -/
def payload (records : List Record) : List UInt8 := records.flatMap Record.bytes

/-- The 8-bit sum of bytes. -/
def sumOf (bytes : List UInt8) : UInt8 := bytes.foldl (· + ·) 0

/-- `InBand_Smbios_Data_Header`. -/
def smbHeader (version : UInt16) (fileSize : Nat) (checksum source : UInt8) : List UInt8 :=
  smbSignature ++ (le16 version.toNat ++ (le32 fileSize ++ [checksum, source, 0, 0, 0, 0, 0, 0]))

/-- The image of records. -/
def imageOf (version : UInt16) (source : UInt8) (records : List Record) : List UInt8 :=
  smbHeader version (payload records).length (sumOf (payload records)) source ++ payload records

/-- The size of the region. -/
def regionSize : Nat := smcRomHoleSize .currentSmbios

/-- The region with an image and filled up. -/
def regionOf (image : List UInt8) : List UInt8 :=
  image ++ List.replicate (regionSize - image.length) 0xFF

/-- `CombineSmbios`: what is written to both regions, if anything is. The size of the image
is tested when it has been written to its buffer. -/
def combineSmbios (version : UInt16) (read : UInt8 → UInt8 → Status × Structure) :
    Checked (Option (List UInt8)) :=
  match combineTypes read typeNumbers with
  | none => .error .outOfFuel
  | some records =>
    if payload records = [] then .ok none
    else if (imageOf version 0 records).length ≤ regionSize then
      .ok (some (regionOf (imageOf version 0 records)))
    else .error .overflow

end Combine

section Update

/-- `InBandSmbiosHeader->FileSize`. -/
def fileSize (data : List UInt8) : Nat := (headerFileSize (memoryOf data (fun _ => 0))).toNat

/-- The test of the signature. -/
def signatureAccepted (data : List UInt8) : Bool := data.take 4 = smbSignature

/-- The test of `Source`. -/
def sourceAccepted (data : List UInt8) : Bool := data.getD 11 0 ≠ 0

/-- The bytes from a place on, with zeros behind the last one. -/
def bytesAt (data : List UInt8) (place count : Nat) : List UInt8 :=
  (List.range count).map (fun i => data.getD (place + i) 0)

/-- The test of the checksum. -/
def checksumAccepted (data : List UInt8) : Bool :=
  sumOf (bytesAt data headerSize (fileSize data)) = data.getD 10 0

/-- What `UpdateToNVRAM` is called with. A string has no size. -/
structure Handed where
  type : UInt8
  handle : UInt16
  offset : UInt8
  data : List UInt8
  dataSize : UInt8
  deriving DecidableEq

/-- The indices of the two images. -/
structure Cursors where
  current : Nat
  previous : Nat
  deriving DecidableEq

/-- The value of the record at a place, with or without a width. -/
def valueAt (data : List UInt8) (place width : Nat) : List UInt8 :=
  if width ≠ 0 then bytesAt data (place + 4) width else cString (data.drop (place + 4))

/-- The record at a place. -/
def recordAt (data : List UInt8) (place : Nat) : Record :=
  let type := data.getD place 0
  let offset := data.getD (place + 3) 0
  ⟨type, word16 (memoryOf data (fun _ => 0)) (place + 1), offset,
    valueAt data place (updateWidth type offset)⟩

/-- The size of the array `Data`. -/
def dataCapacity : Nat := 0x400

/-- The offset that is handed on: strings of the types 11 and 12 are counted from zero. -/
def handedOffset (type offset : UInt8) (width : Nat) : UInt8 :=
  if width = 0 ∧ (type = 11 ∨ type = 12) then offset - 1 else offset

/-- `UpdateOffsetData`: what is handed on for a record, if its value is not the one at the
place in the previous image. -/
def updateOffsetData (width : Nat) (record : Record) (old : List UInt8) :
    Checked (Option Handed) :=
  if old = record.value then .ok none
  else if width = 0 ∧ dataCapacity ≤ record.value.length then .error .overflow
  else .ok (some ⟨record.type, record.handle, handedOffset record.type record.offset width,
    record.value, UInt8.ofNat width⟩)

/-- The loop of `InBandUpdateSmbios`, with the records it comes to and what is handed on for
each. -/
def updateLoop (current previous : List UInt8) (last : Nat) :
    Nat → Cursors → Checked (List (Record × Option Handed) × Cursors)
  | 0, _ => .error .outOfFuel
  | rounds + 1, cursors =>
    if cursors.current < last then do
      let record := recordAt current cursors.current
      let width := updateWidth record.type record.offset
      let old := valueAt previous cursors.previous width
      let handed ← updateOffsetData width record old
      let (later, ending) ← updateLoop current previous last rounds
        ⟨cursors.current + 4 + record.value.length + 1, cursors.previous + 4 + old.length + 1⟩
      .ok ((record, handed) :: later, ending)
    else .ok ([], cursors)

/-- The walk over the records of an image. -/
def walk (current previous : List UInt8) : Checked (List (Record × Option Handed) × Cursors) :=
  updateLoop current previous (fileSize current + headerSize) (fileSize current + 1)
    ⟨headerSize, headerSize⟩

/-- `InBandUpdateSmbios`: the records and what is handed on, if the image is accepted. -/
def inBandUpdateSmbios (current previous : List UInt8) :
    Checked (Option (List (Record × Option Handed))) :=
  if signatureAccepted current && sourceAccepted current && checksumAccepted current then do
    let (walked, _) ← walk current previous
    .ok (some walked)
  else .ok none

end Update

end SmcPkg.Smbios
