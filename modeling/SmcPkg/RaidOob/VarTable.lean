import SmcPkg.Lib.Buckets
import SmcPkg.RaidOob.CmdParse

/-!
# The variable tables of a card

Every variable of a card is a heap node in two intrusive hash tables, one by name
and one by varstore identifier. Addresses are numbers. `AllocatePool` hands out
the next unused address or fails, and nothing is freed while a card is worked on.
Buffers live in a heap of their own, since a node may point to a buffer that the
caller owns.

A loop over a chain gets fuel, and running out of it is the outcome `outOfFuel`:
a loop that runs out for every amount of fuel does not end. Writing behind the
end of a name or of a buffer is `overflow`.

The pool may be out of room at any allocation. Two calls at once are not covered: the tables are
used by one caller at a time.
-/

namespace SmcPkg.VarTable

open RaidCmd Buckets

/-- `EFI_GUID`, sixteen bytes compared as a whole. -/
abbrev Guid := BitVec 128

/-- `NAME_LENGTH`. -/
def nameLength : Nat := 0x80

/-- `VAR_UNUSED_SPACE`. -/
def varUnusedSpace : Nat := 0x100

/-- `VAR_HASH_NUM`. -/
def varHashNum : Nat := 0x1F

/-- `SMC_RAID_VAR`. -/
structure RaidVar where
  raidVarName : List UInt8
  raidVarGuid : Guid
  raidVarId : UInt16
  raidVarSize : UInt16
  raidVarBuffer : Option Nat

/-- A node as `MemSet` leaves it. -/
def RaidVar.zero : RaidVar := ⟨[], 0, 0, 0, none⟩

/-- The two tables of a card with the heaps they point into. -/
structure VarTables where
  node : Nat → RaidVar
  nodes : Nat
  buffer : Nat → List UInt8
  buffers : Nat
  byName : Links Nat
  byId : Links Nat

/-- Tables without entries, over a given heap of buffers. -/
def VarTables.initial (buffer : Nat → List UInt8) (buffers : Nat) : VarTables :=
  ⟨fun _ => .zero, 0, buffer, buffers, .empty, .empty⟩

/-- `VarHashByName`: the sum of the characters in sixteen bits. -/
def varHashByName (name : List UInt8) : Nat :=
  (name.foldl (fun hashval c => hashval + c.toUInt16) (0 : UInt16)).toNat % varHashNum

/-- `VarHashById`. -/
def varHashById (varId : UInt16) : Nat := varId.toNat % varHashNum

/-- A bounded loop that ran out of its bound. -/
def fueled {β : Type} : Option β → Checked β
  | some result => .ok result
  | none => .error .outOfFuel

/-- The test of `SearchLsiVarByName`; a NULL GUID fits every variable. -/
def matchesName (tables : VarTables) (name : List UInt8) (guid : Option Guid) (a : Nat) : Bool :=
  (tables.node a).raidVarName = name &&
    (guid = none || guid = some (tables.node a).raidVarGuid)

/-- `SearchLsiVarByName`. -/
def searchLsiVarByName (fuel : Nat) (tables : VarTables) (name : List UInt8)
    (guid : Option Guid) : Checked (Option Nat) :=
  fueled (tables.byName.search fuel (varHashByName name) (matchesName tables name guid))

/-- `SearchLsiVarById`. -/
def searchLsiVarById (fuel : Nat) (tables : VarTables) (varId : UInt16) : Checked (Option Nat) :=
  fueled (tables.byId.search fuel (varHashById varId)
    (fun a => (tables.node a).raidVarId = varId))

/-- `AddLsiVarByName`. -/
def addLsiVarByName (fuel : Nat) (tables : VarTables) (var : Nat) : Checked VarTables :=
  match tables.byName.append fuel (varHashByName (tables.node var).raidVarName) var with
  | some links => .ok { tables with byName := links }
  | none => .error .outOfFuel

/-- `AddLsiVarByVId`. -/
def addLsiVarByVId (fuel : Nat) (tables : VarTables) (var : Nat) : Checked VarTables :=
  match tables.byId.append fuel (varHashById (tables.node var).raidVarId) var with
  | some links => .ok { tables with byId := links }
  | none => .error .outOfFuel

/-- `AddLsiVarToTable`. -/
def addLsiVarToTable (fuel : Nat) (tables : VarTables) (var : Nat) : Checked VarTables := do
  addLsiVarByVId fuel (← addLsiVarByName fuel tables var) var

/-- Change the fields of one node. -/
def VarTables.setNode (tables : VarTables) (a : Nat) (var : RaidVar) : VarTables :=
  { tables with node := Function.update tables.node a var }

/-- What an add is about: the parameters common to the three functions, and
whether the pool still has room for a node. -/
structure AddKey where
  name : List UInt8
  guid : Guid
  varId : UInt16
  varSize : UInt16
  allocated : Bool

/-- Write one node and clear both of its links. -/
def VarTables.resetNode (tables : VarTables) (a : Nat) (var : RaidVar) : VarTables :=
  { tables.setNode a var with
    byName := tables.byName.clear a
    byId := tables.byId.clear a }

/-- The fields `VarInitial` sets. -/
def AddKey.assign (key : AddKey) (var : RaidVar) : RaidVar :=
  { var with
    raidVarName := key.name
    raidVarGuid := key.guid
    raidVarSize := key.varSize
    raidVarId := key.varId }

/-- `VarInitial`. Both links are cleared, whether the node is new or not. -/
def varInitial (tables : VarTables) (a : Nat) (key : AddKey) : Checked VarTables :=
  if key.name.length ≥ nameLength then .error .overflow
  else .ok (tables.resetNode a (key.assign (tables.node a)))

/-- Allocate a node and zero it. -/
def VarTables.allocateNode (tables : VarTables) : VarTables :=
  { tables.resetNode tables.nodes .zero with nodes := tables.nodes + 1 }

/-- The node an add works on: the one already there, or a new one. `none` when the
pool is exhausted. -/
def takeNode (fuel : Nat) (tables : VarTables) (key : AddKey) :
    Checked (Option (Nat × VarTables)) := do
  match ← searchLsiVarByName fuel tables key.name (some key.guid) with
  | some a => .ok (some (a, tables))
  | none =>
    if key.allocated then .ok (some (tables.nodes, tables.allocateNode)) else .ok none

/-- Allocate a zeroed buffer for a node. -/
def VarTables.allocateBuffer (tables : VarTables) (a size : Nat) : VarTables :=
  { tables.setNode a { tables.node a with raidVarBuffer := some tables.buffers } with
    buffer := Function.update tables.buffer tables.buffers (List.replicate size 0)
    buffers := tables.buffers + 1 }

/-- The buffer of a node, allocated with the given size when it has none. -/
def ensureBuffer (tables : VarTables) (a size : Nat) : Nat × VarTables :=
  match (tables.node a).raidVarBuffer with
  | some p => (p, tables)
  | none => (tables.buffers, tables.allocateBuffer a size)

/-- Replace the contents of a buffer. -/
def VarTables.setBuffer (tables : VarTables) (p : Nat) (bytes : List UInt8) : VarTables :=
  { tables with buffer := Function.update tables.buffer p bytes }

/-- Write the front of a buffer. -/
def writeBuffer (tables : VarTables) (p : Nat) (bytes : List UInt8) : Checked VarTables :=
  if (tables.buffer p).length < bytes.length then .error .overflow
  else .ok (tables.setBuffer p (bytes ++ (tables.buffer p).drop bytes.length))

/-- The first bytes of the memory behind a pointer. -/
def readMemory (source : Nat → UInt8) (size : Nat) : List UInt8 := (List.range size).map source

/-- `SetLsiVarBuffer`. A NULL source changes nothing. Comparing before copying does
not change the outcome, so the copy is made at once. -/
def setLsiVarBuffer (tables : VarTables) (a : Nat) (source : Option (Nat → UInt8)) :
    Checked VarTables :=
  match source with
  | none => .ok tables
  | some memory =>
    let size := (tables.node a).raidVarSize.toNat
    let (p, tables) := ensureBuffer tables a size
    writeBuffer tables p (readMemory memory size)

/-- The outcome of an add: the variable, or the code passed to
`SettingErrorStatus` with NULL. -/
inductive AddResult
  | added (var : Nat)
  | failed (code : Nat)
  deriving DecidableEq, Repr

/-- The beginning that the three functions share: take a node and initialise it. -/
def withNode (fuel : Nat) (key : AddKey) (tables : VarTables)
    (finish : Nat → VarTables → Checked (AddResult × VarTables)) :
    Checked (AddResult × VarTables) := do
  match ← takeNode fuel tables key with
  | none => .ok (.failed 0x30, tables)
  | some (a, tables) => finish a (← varInitial tables a key)

/-- `AddLsiVarByBuffer`. The test of `SetLsiVarBuffer`'s result takes a pointer for
a status and never sees an error, so a NULL buffer is added like any other. -/
def addLsiVarByBuffer (fuel : Nat) (key : AddKey) (source : Option (Nat → UInt8))
    (tables : VarTables) : Checked (AddResult × VarTables) :=
  withNode fuel key tables (fun a tables => do
    let tables ← setLsiVarBuffer tables a source
    let tables ← addLsiVarToTable fuel tables a
    .ok (.added a, tables))

/-- `AddLsiVarByBuffer2`: the node points to the caller's buffer. -/
def addLsiVarByBuffer2 (fuel : Nat) (key : AddKey) (pBuffer : Option Nat)
    (tables : VarTables) : Checked (AddResult × VarTables) :=
  withNode fuel key tables (fun a tables => do
    let tables := tables.setNode a { tables.node a with raidVarBuffer := pBuffer }
    let tables ← addLsiVarToTable fuel tables a
    .ok (.added a, tables))

/-- What the driver and the routing protocol answer to `AddLsiVar`: an error from
`ExtractConfig`, an error from `ConfigToBlock`, or the block. -/
inductive ConfigAnswer
  | extractError
  | blockError
  | block (bytes : List UInt8)

/-- `SetLsiVarBuffer_byString`. The buffer is zeroed before `ConfigToBlock` writes
into it, which it does up to the size it is given, and is zero again when the
conversion fails. -/
def setLsiVarBufferByString (tables : VarTables) (a : Nat) (block : Option (List UInt8)) :
    Checked VarTables := do
  let varDataSize := (tables.node a).raidVarSize.toNat + varUnusedSpace
  let (p, tables) := ensureBuffer tables a varDataSize
  let tables ← writeBuffer tables p (List.replicate varDataSize 0)
  writeBuffer tables p ((block.getD []).take varDataSize)

/-- `AddLsiVar`: the contents come from the driver's current configuration. -/
def addLsiVar (fuel : Nat) (key : AddKey) (config : ConfigAnswer) (tables : VarTables) :
    Checked (AddResult × VarTables) :=
  withNode fuel key tables (fun a tables =>
    match config with
    | .extractError => .ok (.failed 0x31, tables)
    | .blockError => do .ok (.failed 0x32, ← setLsiVarBufferByString tables a none)
    | .block bytes => do
      let tables ← setLsiVarBufferByString tables a (some bytes)
      let tables ← addLsiVarToTable fuel tables a
      .ok (.added a, tables))

/-- One call of the three functions. -/
inductive Request
  | addLsiVar (key : AddKey) (config : ConfigAnswer)
  | addLsiVarByBuffer (key : AddKey) (source : Option (Nat → UInt8))
  | addLsiVarByBuffer2 (key : AddKey) (pBuffer : Option Nat)

/-- Perform one call. -/
def step (fuel : Nat) (request : Request) (tables : VarTables) :
    Checked (AddResult × VarTables) :=
  match request with
  | .addLsiVar key config => addLsiVar fuel key config tables
  | .addLsiVarByBuffer key source => addLsiVarByBuffer fuel key source tables
  | .addLsiVarByBuffer2 key pBuffer => addLsiVarByBuffer2 fuel key pBuffer tables

/-- Perform calls one after the other. -/
def run (fuel : Nat) : List Request → VarTables → Checked VarTables
  | [], tables => .ok tables
  | request :: requests, tables => do
    let (_, tables) ← step fuel request tables
    run fuel requests tables

end SmcPkg.VarTable
