import SmcPkg.RaidOob.SupGray

/-!
# The walk over the SMBIOS structures

At the end of the boot the structures of some types are updated, each by the function that a
table names for its type. The structures of a type are read by number, from 1 on. What is read
is written back, left, or deleted, and what was behind a deleted structure moves up, so the
function that deletes takes one from the number. A second count tells the position that the
structure had at first, by which the functions for memory arrays and memory devices look up
whether the board has the slots.

The services are those of the SMBIOS driver, which keeps the structures in a table of a fixed size
once the drivers are connected: it does not let the table grow any more. A structure that has
room is changed where it is. One that has no room is taken out of the table, and then there is no
room to add it either, which the driver does not report. Only of a table in the segment E000
nothing is taken out: the write is refused. The statuses of the services, and of the allocations
in them, are inputs, and such a refusal is one of them. Structures of type 4 are written as all
others; the driver treats them apart, and the update table of the source does not name them.
-/

namespace SmcPkg.UpdateWalk

open Card RaidCmd SupGray

section Table

/-- A structure of the SMBIOS table, with what lies behind its header. -/
structure Structure where
  type : UInt8
  handle : UInt16
  body : List UInt8
  deriving DecidableEq

/-- `GetStructureLength`: the header has 4 bytes. -/
def Structure.getStructureLength (found : Structure) : Nat := 4 + found.body.length

/-- The SMBIOS table: its structures in order, each with a handle of its own, and the one that
ends it. Of the structures that the update functions add, which no row of the update table is
for, only the room that they take is kept. -/
structure Smbios where
  structures : List Structure
  added : Nat
  endOfTable : Structure
  maximumTableSize : Nat
  smbiosTableAtE000 : Bool
  distinct : (structures.map (·.handle)).Nodup

/-- The structures of a type. -/
def Smbios.ofType (smbios : Smbios) (type : UInt8) : List Structure :=
  smbios.structures.filter (fun s => s.type = type)

/-- The handles of the structures of a type. -/
def Smbios.handlesOf (smbios : Smbios) (type : UInt8) : List UInt16 :=
  (smbios.ofType type).map (·.handle)

/-- `GetTotalStructureSize`. -/
def Smbios.getTotalStructureSize (smbios : Smbios) : Nat :=
  (smbios.structures.map (·.getStructureLength)).sum + smbios.added +
    smbios.endOfTable.getStructureLength

/-- `SmbiosReadStrucByType`. The number is counted down to 0 in 8 bits, so that 0 stands for the
256th structure. The end of the table is found under any number. -/
def Smbios.readStrucByType (smbios : Smbios) (type inst : UInt8) : Option Structure :=
  if type = 127 then some smbios.endOfTable else (smbios.ofType type)[(inst - 1).toNat]?

/-- A structure with other bytes behind its header. -/
def Smbios.overwrite (smbios : Smbios) (handle : UInt16) (buffer : List UInt8) : Smbios where
  structures := smbios.structures.map fun s =>
    if s.handle = handle then { s with body := buffer } else s
  added := smbios.added
  endOfTable := smbios.endOfTable
  maximumTableSize := smbios.maximumTableSize
  smbiosTableAtE000 := smbios.smbiosTableAtE000
  distinct := by
    have handles : (fun s : Structure => s.handle) ∘
        (fun s => if s.handle = handle then { s with body := buffer } else s) = (·.handle) := by
      funext s
      simp only [Function.comp_apply]
      split <;> rfl
    rw [List.map_map, handles]
    exact smbios.distinct

/-- `DeleteStructureByHandle`, for a handle that is there. -/
def Smbios.deleteStructureByHandle (smbios : Smbios) (handle : UInt16) : Smbios where
  structures := smbios.structures.filter (fun s => s.handle ≠ handle)
  added := smbios.added
  endOfTable := smbios.endOfTable
  maximumTableSize := smbios.maximumTableSize
  smbiosTableAtE000 := smbios.smbiosTableAtE000
  distinct := (List.filter_sublist.map _).nodup smbios.distinct

/-- `AddStructure`, of a structure that no row of the update table is for. -/
def Smbios.addStructure (smbios : Smbios) (size : Nat) : Smbios :=
  if size + smbios.getTotalStructureSize ≤ smbios.maximumTableSize then
    { smbios with added := smbios.added + size }
  else smbios

/-- What the services answer in one round: the allocation of the buffer, the write, the allocation
of the copy of the table in it, and the deletion. -/
structure Answer where
  allocatePool : Status
  writeStructure : Status
  tableCopy : Status
  deleteStructure : Status

/-- `WriteStructureByHandle`, for the structure that has just been read. It is refused for what is
written, and in the segment E000 without room. Elsewhere the structure is deleted without room,
before the copy of the table is allocated, and `AddStructureByHandle` finds no room for it either:
its status is dropped. -/
def writeStructureByHandle (answer : Answer) (smbios : Smbios) (found : Structure)
    (buffer : List UInt8) : Status × Smbios :=
  let size := smbios.getTotalStructureSize - found.getStructureLength
  if efiError answer.writeStructure then (answer.writeStructure, smbios)
  else if smbios.smbiosTableAtE000 ∨ 4 + buffer.length + size ≤ smbios.maximumTableSize then
    if efiError answer.tableCopy then (efiOutOfResources, smbios)
    else (efiSuccess, smbios.overwrite found.handle buffer)
  else if efiError answer.tableCopy then
    (efiOutOfResources, smbios.deleteStructureByHandle found.handle)
  else (efiSuccess, smbios.deleteStructureByHandle found.handle)

end Table

section Model

/-- `CPU1_DIMM_NUM` and `CPU2_DIMM_NUM`: the slots that each channel of a controller has. -/
structure ImcDimm where
  cpu1 : Nat → UInt8
  cpu2 : Nat → UInt8

/-- `IMC_DIMM`, which has an entry for each of two controllers of two processors. -/
def ImcDimm.dimmNum (imc : ImcDimm) (entry channel : Nat) : UInt8 :=
  if entry < 2 then imc.cpu1 channel else imc.cpu2 channel

/-- A read of `IMC_DIMM`. -/
def ImcDimm.read (imc : ImcDimm) (entry channel : Nat) : Checked UInt8 :=
  if entry < 4 ∧ channel < 3 then .ok (imc.dimmNum entry channel) else .error .overflow

/-- `SMB_Func`. -/
inductive SmbFunc where
  | skipStructure
  | writeStructure
  | deleteStructure
  deriving DecidableEq

/-- What an update function leaves in its buffer and in the variables, and the size of what it
adds to the table. -/
structure Updated where
  smbFunc : SmbFunc
  inst : UInt8
  tempInstance : UInt8
  buffer : List UInt8
  adds : Nat

/-- `SmBiosUpdateFn`. The function for memory devices writes the structure of a slot that it
keeps if it has a manufacturer's name to put into it. All functions but those for memory arrays
and memory devices write what they have made of the structure. What some of them add to the
table before is of type 40, for which the source names no function: it takes room. -/
inductive UpdateFn where
  | type16
  | type17 (manufacturer : Structure → Option (List UInt8))
  | other (update : Structure → List UInt8) (adds : Structure → Nat)

/-- What is done with the structure at a position that has slots or has none. -/
def slotsUpdated (keeps : Bool) (manufacturer : Option (List UInt8)) (inst tempInstance : UInt8)
    (found : Structure) : Updated :=
  if keeps then
    match manufacturer with
    | some buffer => ⟨.writeStructure, inst, tempInstance + 1, buffer, 0⟩
    | none => ⟨.skipStructure, inst, tempInstance + 1, found.body, 0⟩
  else ⟨.deleteStructure, inst - 1, tempInstance + 1, found.body, 0⟩

/-- `SmBiosType16Update`. -/
def smBiosType16Update (imc : ImcDimm) (inst tempInstance : UInt8) (found : Structure) :
    Checked Updated := do
  let first ← imc.read tempInstance.toNat 0
  let second ← imc.read tempInstance.toNat 1
  let third ← imc.read tempInstance.toNat 2
  let keeps := decide (0 + first + second + third ≠ 0 ∨ 4 < tempInstance)
  return slotsUpdated keeps none inst tempInstance found

/-- `SmBiosType17Update`, for three channels with two slots each. -/
def smBiosType17Update (imc : ImcDimm) (manufacturer : Structure → Option (List UInt8))
    (inst tempInstance : UInt8) (found : Structure) : Checked Updated := do
  let i := tempInstance / 6
  let j := (tempInstance - i * 6) / 2
  let k := tempInstance - i * 6 - j * 2
  let dimmNum ← imc.read i.toNat j.toNat
  let keeps := decide (k < dimmNum ∨ 24 < tempInstance)
  return slotsUpdated keeps (manufacturer found) inst tempInstance found

/-- A call of an update function. -/
def UpdateFn.call (imc : ImcDimm) (updateFn : UpdateFn) (inst tempInstance : UInt8)
    (found : Structure) : Checked Updated :=
  match updateFn with
  | .type16 => smBiosType16Update imc inst tempInstance found
  | .type17 manufacturer => smBiosType17Update imc manufacturer inst tempInstance found
  | .other update adds => .ok ⟨.writeStructure, inst, tempInstance, update found, adds found⟩

/-- An entry of `SmcSmBiosUpdateTable`, which ends with a row of type 255. -/
structure Entry where
  smBiosUpdateType : UInt8
  smBiosUpdateFn : UpdateFn
  notLast : smBiosUpdateType ≠ 0xff

/-- What is done with a structure after its update function, and the status of it. -/
def service (answer : Answer) (updated : Updated) (found : Structure) (smbios : Smbios) :
    Status × Smbios :=
  match updated.smbFunc with
  | .skipStructure => (efiSuccess, smbios)
  | .writeStructure => writeStructureByHandle answer smbios found updated.buffer
  | .deleteStructure =>
    (answer.deleteStructure,
      if efiError answer.deleteStructure then smbios
      else smbios.deleteStructureByHandle found.handle)

/-- What the walk over a type leaves: the structures that the update function was called for, by
their handles, the table, and whether a service has failed. -/
structure Walked where
  called : List UInt16
  smbios : Smbios
  failed : Bool

/-- A walk with one more call before it. -/
def calledFirst (handle : UInt16) (rest : Option (Checked Walked)) : Option (Checked Walked) :=
  rest.map fun result => result.map fun walked =>
    { walked with called := handle :: walked.called }

/-- The inner loop of `SmcSmBiosInit` from a round on, with a bound for the rounds. -/
def walk (imc : ImcDimm) (entry : Entry) (answers : Nat → Answer) :
    Nat → Nat → UInt8 → UInt8 → Smbios → Option (Checked Walked)
  | 0, _, _, _, _ => none
  | rounds + 1, round, inst, tempInstance, smbios =>
    match smbios.readStrucByType entry.smBiosUpdateType inst with
    | none => some (.ok ⟨[], smbios, false⟩)
    | some found =>
      if efiError (answers round).allocatePool then some (.ok ⟨[], smbios, true⟩)
      else
        match entry.smBiosUpdateFn.call imc inst tempInstance found with
        | .error fault => some (.error fault)
        | .ok updated =>
          let (status, after) :=
            service (answers round) updated found (smbios.addStructure updated.adds)
          if efiError status then some (.ok ⟨[found.handle], after, true⟩)
          else
            calledFirst found.handle (walk imc entry answers rounds (round + 1)
              (updated.inst + 1) updated.tempInstance after)

/-- What happened for an entry of the update table. -/
structure Report where
  entry : Entry
  called : List UInt16
  failed : Bool
  after : Smbios

/-- What the walks of an entry and of those behind it come to. -/
def reportFirst (entry : Entry) (walked : Walked) (rest : Option (Checked (List Report))) :
    Option (Checked (List Report)) :=
  rest.map fun result => result.map fun reports =>
    ⟨entry, walked.called, walked.failed, walked.smbios⟩ :: reports

/-- The outer loop of `SmcSmBiosInit` from a pass on, once the protocol is located, with bounds for
the passes and the rounds of each. The row is counted in 8 bits. -/
def smcSmBiosInit (imc : ImcDimm) (table : List Entry) (answers : Nat → Nat → Answer)
    (rounds : Nat) : Nat → Nat → UInt8 → Smbios → Option (Checked (List Report))
  | 0, _, _, _ => none
  | passes + 1, pass, i, smbios =>
    match table[i.toNat]? with
    | none => some (.ok [])
    | some entry =>
      match walk imc entry (answers pass) rounds 0 1 0 smbios with
      | none => none
      | some (.error fault) => some (.error fault)
      | some (.ok walked) =>
        reportFirst entry walked
          (smcSmBiosInit imc table answers rounds passes (pass + 1) (i + 1) walked.smbios)

end Model

section Result

/-- Keep what is at the marked positions, and what is beyond the size of the marks. -/
def keepMarked {α : Type} (marks : Nat → Bool) (size : Nat) : Nat → List α → List α
  | _, [] => []
  | position, x :: xs =>
    if marks position ∨ size ≤ position then x :: keepMarked marks size (position + 1) xs
    else keepMarked marks size (position + 1) xs

/-- Whether a memory array is populated: a channel of its controller has slots. -/
def ImcDimm.marks16 (imc : ImcDimm) (position : Nat) : Bool :=
  (List.range 3).any fun channel => imc.dimmNum position channel ≠ 0

/-- Whether the slot of a memory device is there. -/
def ImcDimm.marks17 (imc : ImcDimm) (position : Nat) : Bool :=
  position % 2 < (imc.dimmNum (position / 6) (position % 6 / 2)).toNat

/-- The structures of a type that should remain. -/
def remaining (imc : ImcDimm) (updateFn : UpdateFn) (handles : List UInt16) : List UInt16 :=
  match updateFn with
  | .type16 => keepMarked imc.marks16 4 0 handles
  | .type17 _ => keepMarked imc.marks17 24 0 handles
  | .other _ _ => handles

/-- Every service succeeds. -/
def Succeeds (answers : Nat → Answer) : Prop :=
  ∀ round, efiError (answers round).allocatePool = false ∧
    efiError (answers round).writeStructure = false ∧
    efiError (answers round).tableCopy = false ∧
    efiError (answers round).deleteStructure = false

/-- The table at the end. -/
def finalTable (smbios : Smbios) (reports : List Report) : Smbios :=
  (reports.getLast?.map (·.after)).getD smbios

/-- The handles that an update function was called for, over the whole walk. -/
def allCalled (reports : List Report) : List UInt16 := reports.flatMap (·.called)

/-- The walk is done: the update functions were called for structures of their types and, over
the whole walk, for none twice. If no service has failed, they were called for every structure of
a listed type, and those remain that should. -/
structure Done (imc : ImcDimm) (table : List Entry) (smbios : Smbios) (reports : List Report) :
    Prop where
  rows : reports.map (·.entry) = table
  ofType : ∀ report ∈ reports, ∀ handle ∈ report.called,
    handle ∈ smbios.handlesOf report.entry.smBiosUpdateType
  once : (allCalled reports).Nodup
  all : (∀ report ∈ reports, report.failed = false) → ∀ entry ∈ table,
    ∀ handle ∈ smbios.handlesOf entry.smBiosUpdateType, handle ∈ allCalled reports
  remain : (∀ report ∈ reports, report.failed = false) → ∀ entry ∈ table,
    (finalTable smbios reports).handlesOf entry.smBiosUpdateType =
      remaining imc entry.smBiosUpdateFn (smbios.handlesOf entry.smBiosUpdateType)

/-- The walk ends without an access outside `IMC_DIMM` and is done. -/
def Lawful (imc : ImcDimm) (table : List Entry) (smbios : Smbios)
    (answers : Nat → Nat → Answer) : Prop :=
  ∃ passes rounds reports,
    smcSmBiosInit imc table answers rounds passes 0 0 smbios = some (.ok reports) ∧
      Done imc table smbios reports

/-- The counts of a controller do not add up to 0 in 8 bits unless all of them are 0. -/
def ImcDimm.NoWrap (imc : ImcDimm) (position : Nat) : Prop :=
  imc.dimmNum position 0 + imc.dimmNum position 1 + imc.dimmNum position 2 = 0 →
    imc.marks16 position = false

/-- An entry has no more structures than its function and the number can tell apart. -/
def Fits (imc : ImcDimm) (smbios : Smbios) (entry : Entry) : Prop :=
  let count := (smbios.handlesOf entry.smBiosUpdateType).length
  entry.smBiosUpdateType ≠ 127 ∧
    match entry.smBiosUpdateFn with
    | .type16 => count ≤ 4 ∧ ∀ position < count, imc.NoWrap position
    | .type17 _ => count ≤ 24
    | .other _ _ => count ≤ 255

/-- No type that is listed twice has structures. -/
def Apart (smbios : Smbios) (table : List Entry) : Prop :=
  table.Pairwise fun entry other => entry.smBiosUpdateType = other.smBiosUpdateType →
    smbios.handlesOf entry.smBiosUpdateType = []

/-- Whether the structure at a position is kept. -/
def UpdateFn.keeps (imc : ImcDimm) (updateFn : UpdateFn) (position : Nat) : Bool :=
  match updateFn with
  | .type16 =>
    imc.dimmNum position 0 + imc.dimmNum position 1 + imc.dimmNum position 2 ≠ 0
  | .type17 _ => imc.marks17 position
  | .other _ _ => true

/-- What is written for a structure that is kept, if it is written. -/
def UpdateFn.written (updateFn : UpdateFn) (found : Structure) : Option (List UInt8) :=
  match updateFn with
  | .type16 => none
  | .type17 manufacturer => manufacturer found
  | .other update _ => some (update found)

/-- The size of what an update function adds to the table. -/
def UpdateFn.adds (updateFn : UpdateFn) (found : Structure) : Nat :=
  match updateFn with
  | .other _ adds => adds found
  | _ => 0

/-- The size of the table behind what is done with a structure at a position, if what is written
has room. What is deleted leaves room. -/
def UpdateFn.sizeServed (imc : ImcDimm) (maximum : Nat) (updateFn : UpdateFn) (position : Nat)
    (found : Structure) (size : Nat) : Option Nat :=
  let others := size - found.getStructureLength
  if updateFn.keeps imc position then
    match updateFn.written found with
    | none => some size
    | some buffer =>
      if 4 + buffer.length + others ≤ maximum then some (4 + buffer.length + others) else none
  else some others

/-- The size of the table with what is added, which is added if it has room. -/
def UpdateFn.sizeAdded (maximum : Nat) (updateFn : UpdateFn) (found : Structure) (size : Nat) :
    Nat :=
  if updateFn.adds found + size ≤ maximum then size + updateFn.adds found else size

/-- The size of the table behind the structures of a type, if what is written has room. -/
def UpdateFn.sizeAfter (imc : ImcDimm) (maximum : Nat) (updateFn : UpdateFn) :
    Nat → List Structure → Nat → Option Nat
  | _, [], size => some size
  | position, found :: rest, size =>
    (updateFn.sizeServed imc maximum position found (updateFn.sizeAdded maximum found size)).bind
      (updateFn.sizeAfter imc maximum (position + 1) rest)

/-- The size of the table behind all entries, if what is written has room. -/
def tableAfter (imc : ImcDimm) (smbios : Smbios) : List Entry → Nat → Option Nat
  | [], size => some size
  | entry :: table, size =>
    (entry.smBiosUpdateFn.sizeAfter imc smbios.maximumTableSize 0
      (smbios.ofType entry.smBiosUpdateType) size).bind (tableAfter imc smbios table)

/-- Whatever is written has room: from row to row and structure to structure, what is added,
changed and deleted does not make the table longer than it may be. In the segment E000 a write
without room is refused. -/
def HasRoom (imc : ImcDimm) (table : List Entry) (smbios : Smbios) : Prop :=
  smbios.smbiosTableAtE000 = true ∨
    tableAfter imc smbios table smbios.getTotalStructureSize ≠ none

end Result

end SmcPkg.UpdateWalk
