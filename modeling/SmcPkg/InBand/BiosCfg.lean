import SmcPkg.OutBand.Download

/-!
# The BIOS configuration image

`CombineBiosCfg` writes the variables of the system into an image: a header, one record
for each variable, and a checksum as the last byte. `UpdateBiosCfgToSystem` walks over
the records of an image and hands each on. A record is the length of the name in one
byte, the name in one byte for each character, the GUID, the size of the data in two
bytes, and the data.

Pools without room are not covered. A name is a list of characters without a zero, as the
variable services keep it.
-/

namespace SmcPkg.BiosCfg

open Bytes Card Download

section Image

/-- A GUID as it lies in memory. -/
abbrev Guid := Vector UInt8 16

/-- A variable that is emitted: its name is a string of at most 255 characters, and the
size of its data is a 16-bit word. -/
structure EfiVar where
  name : List UInt16
  guid : Guid
  data : List UInt8
  nonzero : ∀ c ∈ name, c ≠ 0
  nameShort : name.length ≤ 255
  dataShort : data.length ≤ 65535

/-- What `UnicodeStrToAsciiStr` writes for the characters of a name. -/
def lowBytes (name : List UInt16) : List UInt8 := name.map UInt16.toUInt8

/-- `CombineVariable`: the record that is appended. -/
def combineVariable (var : EfiVar) : List UInt8 :=
  UInt8.ofNat var.name.length :: (lowBytes var.name ++ (var.guid.toList ++
    (le16 var.data.length ++ var.data)))

/-- The records of a list of variables. -/
def payload (vars : List EfiVar) : List UInt8 := vars.flatMap combineVariable

/-- The variables that `CombineBiosCfg` meets: those of the system, each with the answer
whether `GetVariable` could read it, and those of the RAID driver. -/
structure Inventory where
  scan : List (EfiVar × Bool)
  raid : List EfiVar

/-- The variables that are emitted, in their order. -/
def Inventory.vars (inventory : Inventory) : List EfiVar :=
  (inventory.scan.filter Prod.snd).map Prod.fst ++ inventory.raid

/-- An inventory whose image can be emitted: the cursor is a 32-bit word. -/
structure Emission extends Inventory where
  fits : headerSize + (payload toInventory.vars).length < 2 ^ 32

/-- The signature `_BIN`. -/
def binSignature : List UInt8 := [0x5F, 0x42, 0x49, 0x4E]

/-- The header that `CombineBiosCfg` fills in. -/
def biosCfgHeader (version : UInt16) (fileSize : Nat) (checksum : UInt8) : List UInt8 :=
  binSignature ++ (le16 version.toNat ++ (le32 fileSize ++ [checksum, 0, 0, 0, 0, 0, 0, 0]))

/-- `CombineBiosCfg`: the buffer after the image was written to it. -/
def combineBiosCfg (version : UInt16) (vars : List EfiVar) (buffer : Memory) : Memory :=
  let records := payload vars
  let data := overlayAt headerSize records.length (memoryOf records (fun _ => 0)) buffer
  let checksum := byteSum data headerSize records.length
  let image := overlayAt 0 headerSize
    (memoryOf (biosCfgHeader version records.length checksum) (fun _ => 0)) data
  let total := headerSize + records.length
  setMem total 1 (byteSum image 0 total) image

end Image

section Walk

/-- What is handed on for a record: the name as a string, the GUID, and the data with its
size. -/
structure Visit where
  name : List UInt16
  guid : Guid
  size : UInt16
  data : List UInt8
  deriving DecidableEq

/-- The variable as it should be handed on. -/
def visitOf (var : EfiVar) : Visit :=
  ⟨var.name, var.guid, UInt16.ofNat var.data.length, var.data⟩

/-- The size of the local array `VariableName`. -/
def nameCapacity : Nat := 50

/-- The name that is copied from the buffer, with its end. -/
def nameAt (memory : Memory) (i : UInt32) (nameSize : UInt8) : List UInt16 :=
  ((List.range nameSize.toNat).map
    (fun si => (memory (i + UInt32.ofNat si).toNat).toUInt16)).takeWhile (· ≠ 0)

/-- The GUID that is copied from the buffer. -/
def guidAt (memory : Memory) (place : Nat) : Guid := Vector.ofFn (fun k => memory (place + k.val))

/-- The record at the cursor, and the cursor behind it. -/
def visitAt (memory : Memory) (cursor : UInt32) : Visit × UInt32 :=
  let nameSize := memory cursor.toNat
  let atName := cursor + 1
  let atGuid := atName + nameSize.toUInt32
  let atSize := atGuid + 16
  let size := word16 memory atSize.toNat
  let atData := atSize + 2
  (⟨nameAt memory atName nameSize, guidAt memory atGuid.toNat, size,
    bytesOf (shifted atData.toNat memory) size.toNat⟩, atData + size.toUInt32)

/-- How the walk over the records stands: it goes on, a name has been written over the
end of its array, or the cursor has reached the end. -/
inductive Ending
  | running
  | overrun
  | stopped (cursor : UInt32)
  deriving DecidableEq

/-- The loop of `UpdateBiosCfgToSystem`, for a number of rounds. -/
def updateLoop (memory : Memory) (totalSize : UInt32) : Nat → UInt32 → List Visit × Ending
  | 0, _ => ([], .running)
  | rounds + 1, cursor =>
    if cursor < totalSize then
      if (memory cursor.toNat).toNat < nameCapacity then
        let (visit, next) := visitAt memory cursor
        let (visits, ending) := updateLoop memory totalSize rounds next
        (visit :: visits, ending)
      else ([], .overrun)
    else ([], .stopped cursor)

/-- `UpdateBiosCfgToSystem`: the records that are handed on. -/
def updateBiosCfgToSystem (memory : Memory) (rounds : Nat) : List Visit × Ending :=
  updateLoop memory (headerFileSize memory + 18) rounds 18

end Walk

end SmcPkg.BiosCfg
