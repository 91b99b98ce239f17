import SmcPkg.InBand.Smbios
import SmcPkg.InBand.VarUpdate

/-!
# The DMI variables

A value that was edited lies in a variable of its own, and the variable `DmiArray` lists
which of them there are: its first entry counts the others. `UpdateToNVRAM` stores a value
and appends it to the list if it is new, or deletes a value and takes it from the list.
The two variables are written one after the other, and each call of the variable services
may fail.
-/

namespace SmcPkg.Dmi

open Bytes Card RaidCmd BiosCfg Smbios

section Variables

/-- `DMI_VAR`: an entry of the list, which is also what the name of its variable is made
of. -/
structure DmiVar where
  type : UInt8
  handle : UInt16
  offset : UInt8
  flags : UInt8
  deriving DecidableEq

/-- `DMI_ARRAY_COUNT`. -/
def dmiArrayCount : Nat := 256

/-- A byte indexes the array of the list. -/
theorem index_lt (index : UInt8) : index.toNat < dmiArrayCount := index.toNat_lt

/-- The variable `DmiArray`. -/
abbrev DmiArray := Vector DmiVar dmiArrayCount

/-- An array of zeros. -/
def noEntries : DmiArray := Vector.replicate dmiArrayCount ⟨0, 0, 0, 0⟩

/-- The count in the first entry. -/
def DmiArray.count (array : DmiArray) : UInt8 := (array.get ⟨0, by decide⟩).type

/-- The array with another count. -/
def DmiArray.withCount (array : DmiArray) (count : UInt8) : DmiArray :=
  array.set 0 { array.get ⟨0, by decide⟩ with type := count } (by decide)

/-- The entry at an 8-bit index. -/
def DmiArray.entry (array : DmiArray) (index : UInt8) : DmiVar :=
  array.get ⟨index.toNat, index_lt index⟩

/-- The array with an entry at an 8-bit index. -/
def DmiArray.withEntry (array : DmiArray) (index : UInt8) (entry : DmiVar) : DmiArray :=
  array.set index.toNat entry (index_lt index)

/-- The entries that the count covers. -/
def DmiArray.listed (array : DmiArray) : List DmiVar :=
  (array.toList.drop 1).take array.count.toNat

/-- The variables of the DMI values. A variable without data does not exist. -/
structure Nvram where
  dmiArray : Option DmiArray
  dmiVar : DmiVar → Option (List UInt8)
  nonempty : ∀ name, dmiVar name ≠ some []

/-- Before any value was edited. -/
def Nvram.empty : Nvram := ⟨none, fun _ => none, by simp⟩

/-- The variables with a DMI value set, or deleted if there is no data. -/
def Nvram.write (nvram : Nvram) (name : DmiVar) (data : List UInt8) : Nvram where
  dmiArray := nvram.dmiArray
  dmiVar := Function.update nvram.dmiVar name (if data = [] then none else some data)
  nonempty := by
    intro other
    by_cases same : other = name
    · subst same
      rw [Function.update_self]
      split_ifs with none
      · simp
      · simpa using none
    · rw [Function.update_of_ne same]
      exact nvram.nonempty other

/-- An error code of a call that fails. -/
abbrev Failure := { status : Status // efiError status = true }

/-- The calls of the variable services that fail while a value is stored or deleted: each
is made at most once. -/
structure Failures where
  getArray : Option Failure
  getVar : Option Failure
  setArray : Option Failure
  setVar : Option Failure

/-- Nothing fails. -/
def Failures.none : Failures := ⟨.none, .none, .none, .none⟩

/-- The size of the array `Buffer`. -/
def bufferSize : Nat := 0x400

variable (failures : Failures)

/-- `GetVariable` for `DmiArray`, into an array of zeros. -/
def getDmiArray (nvram : Nvram) : Status × DmiArray :=
  match failures.getArray with
  | some failure => (failure.val, noEntries)
  | .none =>
    match nvram.dmiArray with
    | some array => (efiSuccess, array)
    | .none => (efiNotFound, noEntries)

/-- The status of `GetVariable` for a DMI value. -/
def getDmiVar (nvram : Nvram) (name : DmiVar) : Status :=
  match failures.getVar with
  | some failure => failure.val
  | .none =>
    match nvram.dmiVar name with
    | some data => if data.length ≤ bufferSize then efiSuccess else efiBufferTooSmall
    | .none => efiNotFound

/-- `SetVariable` for `DmiArray`. -/
def setDmiArray (array : DmiArray) (nvram : Nvram) : Status × Nvram :=
  match failures.setArray with
  | some failure => (failure.val, nvram)
  | .none => (efiSuccess, { nvram with dmiArray := some array })

/-- `SetVariable` for a DMI value. -/
def setDmiVar (name : DmiVar) (data : List UInt8) (nvram : Nvram) : Status × Nvram :=
  match failures.setVar with
  | some failure => (failure.val, nvram)
  | .none =>
    if data = [] ∧ nvram.dmiVar name = .none then (efiNotFound, nvram)
    else (efiSuccess, nvram.write name data)

end Variables

section Update

/-- The first loop of `UpdateToNVRAM`: the index of the entry for a value. It is counted in
one byte, so after 256 rounds it has come to every entry. -/
def findEntry (array : DmiArray) (name : DmiVar) : Nat → UInt8 → Checked UInt8
  | 0, _ => .error .outOfFuel
  | rounds + 1, index =>
    if index ≤ array.count then
      let entry := array.entry index
      if entry.type = name.type ∧ entry.handle = name.handle ∧ entry.offset = name.offset then
        .ok index
      else findEntry array name rounds (index + 1)
    else .ok index

/-- The second loop: the entries behind an index move forward. -/
def shiftEntries : Nat → UInt8 → DmiArray → Checked DmiArray
  | 0, _, _ => .error .outOfFuel
  | rounds + 1, index, array =>
    if index ≤ array.count then
      if inside : index.toNat + 1 < dmiArrayCount then
        shiftEntries rounds (index + 1) (array.withEntry index (array.get ⟨_, inside⟩))
      else .error .overflow
    else .ok array

/-- The variable of a record that is handed on. -/
def nameOf (handed : Handed) : DmiVar := ⟨handed.type, handed.handle, handed.offset, 0⟩

/-- A string that starts with 0xFE asks for the default. -/
def asksDefault (handed : Handed) : Bool :=
  handed.dataSize = 0 && handed.data.getD 0 0 = 0xFE

/-- `DataSize` when the value is written: the size of a string in one byte, and its end. -/
def writtenSize (handed : Handed) : UInt8 :=
  if handed.dataSize = 0 then UInt8.ofNat (cString handed.data).length + 1 else handed.dataSize

/-- The data that is written. -/
def writtenData (handed : Handed) : List UInt8 :=
  bytesAt handed.data 0 (writtenSize handed).toNat

variable (failures : Failures)

/-- `UpdateToNVRAM` for a default. -/
def deleteValue (name : DmiVar) (nvram : Nvram) : Checked Nvram :=
  if getDmiVar failures nvram name = efiNotFound then .ok nvram
  else do
    let (_, nvram) := setDmiVar failures name [] nvram
    let (_, array) := getDmiArray failures nvram
    let index ← findEntry array name 256 1
    let array ← shiftEntries 256 index array
    let (_, nvram) := setDmiArray failures (array.withCount (array.count - 1)) nvram
    .ok nvram

/-- The array with an entry for a value behind the ones it has, and not counted yet. -/
def placeEntry (name : DmiVar) (found : Status × DmiArray) : DmiArray :=
  let index := if found.1 = efiSuccess then found.2.count + 1 else 1
  found.2.withEntry index name

/-- `UpdateToNVRAM` for a value. -/
def storeValue (name : DmiVar) (data : List UInt8) (nvram : Nvram) : Nvram :=
  let array := placeEntry name (getDmiArray failures nvram)
  let status := getDmiVar failures nvram name
  let (status, nvram) :=
    if status = efiNotFound then setDmiArray failures (array.withCount (array.count + 1)) nvram
    else (status, nvram)
  if status = efiBufferTooSmall ∨ status = efiSuccess then (setDmiVar failures name data nvram).2
  else nvram

/-- `UpdateToNVRAM`. -/
def updateToNvram (handed : Handed) (nvram : Nvram) : Checked Nvram :=
  if asksDefault handed then deleteValue failures (nameOf handed) nvram
  else .ok (storeValue failures (nameOf handed) (writtenData handed) nvram)

end Update

section Runs

/-- A call of `UpdateToNVRAM`, and what fails meanwhile. -/
structure Call where
  handed : Handed
  failures : Failures

/-- Calls of `UpdateToNVRAM`, one after the other. -/
def runCalls : List Call → Nvram → Checked Nvram
  | [], nvram => .ok nvram
  | call :: calls, nvram => do
    let nvram ← updateToNvram call.failures call.handed nvram
    runCalls calls nvram

end Runs

end SmcPkg.Dmi
