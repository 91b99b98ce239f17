import SmcPkg.InBand.SmbiosString
import SmcPkg.SmBios.Buffer

/-!
# The structure of a power supply

`SmBiosType39Update` asks the BMC for the FRU data of a power supply and puts the strings of it
behind the location string of the structure. A type code of the FRU data ends a string, inserts
`"N/A"` or stops the copy; a byte below them is copied. The place in the structure is counted in
8 bits. Behind what was copied the buffer holds what it held before, and a byte of that decides
how many zeros close the strings.

The replies of the BMC and the contents of the FRU are arbitrary, and so is what the buffer
holds before the call. The table of the SMBIOS driver is not part of the model here.
-/

namespace SmcPkg.PowerSupply

open Bytes Buffer Card RaidCmd StringSet SmbiosString

section Model

/-- What `SMC_IPMICmd30_A1` leaves for a block: its status and the 32 bytes of the block. -/
structure Block where
  status : Status
  data : Memory

/-- The loop over the FRU blocks of one try, up to a block. The first status that is not
`EFI_SUCCESS` is returned. -/
def readBlocks (blocks : Nat → Block) : Nat → Except Status Memory
  | 0 => .ok fun _ => 0
  | i + 1 => do
    let fruBlockData ← readBlocks blocks i
    if (blocks i).status ≠ efiSuccess then .error (blocks i).status
    else .ok (overlayAt (32 * i) 32 (blocks i).data fruBlockData)

/-- The loops over the checksums, from a byte on. -/
def sumFrom (fruBlockData : Memory) : Nat → Nat → UInt8 → Checked UInt8
  | _, 0, cksum => .ok cksum
  | i, count + 1, cksum => do
    let byte ← read 128 fruBlockData i
    sumFrom fruBlockData (i + 1) count (cksum + byte)

/-- `PLength` before the 5 is added. -/
def pLength (length : UInt8) : Nat :=
  if length < 6 ∨ 10 < length then 88 else 24 + length.toNat * 8

/-- `cksum1` and `cksum2`. -/
def checksums (fruBlockData : Memory) : Checked (UInt8 × UInt8) := do
  let length ← read 128 fruBlockData 25
  let cksum1 ← sumFrom fruBlockData 24 (pLength length - 24) 0
  let cksum2 ← read 128 fruBlockData (pLength length + 3)
  let cksum2 ← sumFrom fruBlockData (pLength length + 5) 24 cksum2
  return (cksum1, cksum2)

/-- The body of the loop that reads the FRU data: the data and whether its checksums are right,
or the status of a block. -/
def tryFru (blocks : Nat → Block) : Checked (Except Status (Memory × Bool)) :=
  match readBlocks blocks 4 with
  | .error status => .ok (.error status)
  | .ok fruBlockData => do
    let (cksum1, cksum2) ← checksums fruBlockData
    return .ok (fruBlockData, decide (cksum1 = 0 ∧ cksum2 = 0))

/-- The loop around its body, with the retries that are left. After the last one the data is used
as it is. -/
def retryFru (body : Nat → Checked (Except Status (Memory × Bool))) :
    Nat → Nat → Checked (Except Status Memory)
  | 0, n => (body n).map fun result => result.map (·.1)
  | retries + 1, n =>
    match body n with
    | .error fault => .error fault
    | .ok (.error status) => .ok (.error status)
    | .ok (.ok (fruBlockData, right)) =>
      if right then .ok (.ok fruBlockData) else retryFru body retries (n + 1)

/-- The six reads of the FRU data at most. -/
def readFru (tries : Nat → Nat → Block) : Checked (Except Status Memory) :=
  retryFru (fun n => tryFru (tries n)) 5 0

/-- `while(UpdateBuffer[j++])`, with a bound for its steps. -/
def bypass (size : Nat) (updateBuffer : Memory) : Nat → UInt8 → Checked UInt8
  | 0, _ => .error .outOfFuel
  | steps + 1, j => do
    let byte ← read size updateBuffer j.toNat
    if byte = 0 then .ok (j + 1) else bypass size updateBuffer steps (j + 1)

/-- `"N/A"` with the zero before it. -/
def notAvailable : List UInt8 := le32 0x412f4e00

/-- The loop that copies the strings, with the bytes that are left of it. -/
def copyFru (size : Nat) (fruBlockData : Memory) :
    Nat → Nat → Nat → UInt8 → Memory → Checked (UInt8 × Memory)
  | 0, _, _, j, updateBuffer => .ok (j, updateBuffer)
  | count + 1, i, k, j, updateBuffer => do
    let fruBlockChar ← read 128 fruBlockData i
    if fruBlockChar < 0xc0 then
      let updateBuffer ← write size updateBuffer j.toNat [fruBlockChar]
      copyFru size fruBlockData count (i + 1) k (j + 1) updateBuffer
    else if 0xc2 ≤ fruBlockChar ∧ fruBlockChar ≤ 0xdf then
      let updateBuffer ← write size updateBuffer j.toNat [0]
      if 7 ≤ k + 1 then .ok (j + 1, updateBuffer)
      else copyFru size fruBlockData count (i + 1) (k + 1) (j + 1) updateBuffer
    else if fruBlockChar = 0xc0 then
      let updateBuffer ← write size updateBuffer j.toNat notAvailable
      if 7 ≤ k + 1 then .ok (j + 4, updateBuffer)
      else copyFru size fruBlockData count (i + 1) (k + 1) (j + 4) updateBuffer
    else .ok (j, updateBuffer)

/-- The zeros behind the strings. -/
def closeStrings (size : Nat) (j : UInt8) (updateBuffer : Memory) :
    Checked (UInt8 × Memory) := do
  let byte ← read size updateBuffer j.toNat
  let (j, updateBuffer) ←
    if byte ≠ 0 then (write size updateBuffer j.toNat [0]).map fun written => (j + 1, written)
    else .ok (j, updateBuffer)
  let updateBuffer ← write size updateBuffer j.toNat [0]
  return (j + 1, updateBuffer)

/-- What a call leaves. -/
structure Updated where
  status : Status
  updateBuffer : Memory
  updateBufferSize : UInt16

/-- The power supply is marked as unknown and not present. -/
def markAbsent (size : Nat) (updateBuffer : Memory) : Checked Memory :=
  write size updateBuffer 0x0e (le16 (word16 updateBuffer 0x0e &&& 0xFD7D).toNat)

/-- The fields before the strings: `PwrSupplyChar` and the numbers of the strings. -/
def fillFields (size : Nat) (updateBuffer : Memory) : Checked Memory := do
  let updateBuffer ←
    write size updateBuffer 0x0e (le16 (word16 updateBuffer 0x0e ||| 0x0082).toNat)
  let updateBuffer ← write size updateBuffer 6 (le16 0x0203)
  write size updateBuffer 8 (le32 0x05040706)

/-- `SmBiosType39Update`. The caller has allocated 256 bytes more than the structure has. -/
def smBiosType39Update (tries : Nat → Nat → Block) (steps : Nat) (updateBuffer : Memory)
    (updateBufferSize : UInt16) : Checked Updated := do
  let size := updateBufferSize.toNat + 0x100
  let absent ← markAbsent size updateBuffer
  match ← readFru tries with
  | .error status => return ⟨status, absent, updateBufferSize⟩
  | .ok fruBlockData =>
    let filled ← fillFields size absent
    let j ← bypass size filled steps 23
    let (j, copied) ← copyFru size fruBlockData 65 0x1c 2 j filled
    let (j, closed) ← closeStrings size j copied
    let low ← read 128 fruBlockData 0x5d
    let high ← read 128 fruBlockData 0x5e
    let finished ← write size closed 0x0c [low, high]
    return ⟨efiSuccess, finished, j.toUInt16⟩

end Model

section Result

/-- The structure of a power supply: 22 bytes and then its strings, of which the first is that of
the location. The numbers in the other string fields are those of strings. -/
structure PwrSupply extends SmbiosStructure where
  size : formatted.length = 22
  location : List UInt8
  others : List (List UInt8)
  first : strings = location :: others
  numbered : ∀ field, 6 ≤ field → field < 12 → (formatted.getD field 0).toNat ≤ strings.length

/-- A structure lies at the start of a buffer and ends at a size. -/
def PwrSupply.Fills (supply : PwrSupply) (buffer : Memory) (size : UInt16) : Prop :=
  Stored buffer 0 supply.bytes ∧ size.toNat = supply.bytes.length

/-- The buffer of a call, with what the memory held behind the structure. -/
def PwrSupply.buffer (supply : PwrSupply) (tail : Memory) : Memory :=
  memoryOf supply.bytes tail

/-- The 8-bit sums of the two areas are 0. -/
def Sums (fruBlockData : Memory) : Prop :=
  let pLength := pLength (fruBlockData 25)
  byteSum fruBlockData 24 (pLength - 24) = 0 ∧
    fruBlockData (pLength + 3) + byteSum fruBlockData (pLength + 5) 24 = 0

/-- A try that has failed by its checksums. -/
def Spoiled (blocks : Nat → Block) : Prop :=
  ∃ fruBlockData, readBlocks blocks 4 = .ok fruBlockData ∧ ¬ Sums fruBlockData

/-- The call ends without an access outside of `FRUBlockData` and the buffer. It leaves a structure
with the location of before, and data whose checksums fail in every try is not in it. -/
def Lawful (supply : PwrSupply) (tail : Memory) (tries : Nat → Nat → Block) : Prop :=
  let size := UInt16.ofNat supply.bytes.length
  ∃ steps updated, smBiosType39Update tries steps (supply.buffer tail) size = .ok updated ∧
    (∃ produced : PwrSupply, produced.Fills updated.updateBuffer updated.updateBufferSize ∧
      produced.location = supply.location) ∧
    ((∀ n ≤ 5, Spoiled (tries n)) →
      updated.updateBufferSize = size ∧
        markAbsent (size.toNat + 0x100) (supply.buffer tail) = .ok updated.updateBuffer)

end Result

section Condition

/-- A type code that ends a string. -/
def Ends (byte : UInt8) : Prop := 0xc2 ≤ byte ∧ byte ≤ 0xdf

instance (byte : UInt8) : Decidable (Ends byte) :=
  inferInstanceAs (Decidable (_ ∧ _))

/-- Bytes of the FRU data from one on. -/
def window (fruBlockData : Memory) : Nat → Nat → List UInt8
  | _, 0 => []
  | i, count + 1 => fruBlockData i :: window fruBlockData (i + 1) count

/-- The bytes up to the last type code that is used, of which a number is left. -/
def used : Nat → List UInt8 → List UInt8
  | _, [] => []
  | left, byte :: rest =>
    if byte < 0xc0 then byte :: used left rest
    else if Ends byte ∨ byte = 0xc0 then
      if left ≤ 1 then [byte] else byte :: used (left - 1) rest
    else []

/-- The room that bytes take in the structure. -/
def room (bytes : List UInt8) : Nat :=
  (bytes.map fun byte => if byte = 0xc0 then 4 else 1).sum

/-- Whether a string has begun behind bytes, and has not ended. -/
def begun : Bool → List UInt8 → Bool
  | before, [] => before
  | _, byte :: rest => begun (decide (¬ (byte = 0 ∨ Ends byte))) rest

/-- No string is empty: a zero and a type code stand behind a byte of a string or behind the type
code for which `"N/A"` is inserted. -/
def Spaced : Bool → List UInt8 → Prop
  | _, [] => True
  | before, byte :: rest =>
    (byte = 0 ∨ byte = 0xc0 ∨ Ends byte → before = true) ∧
      Spaced (decide (¬ (byte = 0 ∨ Ends byte))) rest

/-- The strings in bytes. -/
def stringCount (bytes : List UInt8) : Nat :=
  bytes.countP (fun byte => byte = 0 ∨ byte = 0xc0 ∨ Ends byte) +
    if begun false bytes then 1 else 0

/-- The FRU data has six strings or more, none of them empty. They fit behind the location, and the
byte behind them is zero before the call if and only if the last of them has ended. -/
def Fillable (supply : PwrSupply) (tail : Memory) (fruBlockData : Memory) : Prop :=
  let bytes := used 5 (window fruBlockData 0x1c 65)
  let last := 23 + supply.location.length + room bytes
  Spaced false bytes ∧ 6 ≤ stringCount bytes ∧
    (supply.buffer tail last = 0 ↔ begun false bytes = false) ∧
    last + (if begun false bytes then 2 else 1) ≤ 255

/-- The data of a try is read to its end, and its product area is not the longest one. -/
structure Readable (blocks : Nat → Block) (fruBlockData : Memory) : Prop where
  read : readBlocks blocks 4 = .ok fruBlockData
  short : fruBlockData 25 ≠ 10

/-- One of the six tries ends the reading, by a status or by data with right checksums that can be
filled in. -/
def Answered (supply : PwrSupply) (tail : Memory) (tries : Nat → Nat → Block) : Prop :=
  ∃ n ≤ 5, (∀ m < n, ∃ fruBlockData, Readable (tries m) fruBlockData ∧ ¬ Sums fruBlockData) ∧
    ((∃ status, readBlocks (tries n) 4 = .error status) ∨
      ∃ fruBlockData, Readable (tries n) fruBlockData ∧ Sums fruBlockData ∧
        Fillable supply tail fruBlockData)

end Condition

end SmcPkg.PowerSupply
