import SmcPkg.Lib.Folds
import SmcPkg.RaidOob.Card
import SmcPkg.RaidOob.VarTableRuns

/-!
# Applying collected variables to a card

A variable handed in from outside is kept as a changed variable of its card. Before
anything is applied, `CheckChangeableItemsInChangedVar` compares the changeable
items of the inventory one by one and marks a changed variable when one of its
items differs. `ChangedVarToOOBVarBuffer` then copies every marked variable as a
whole into the buffer of the card. The marks are never taken back.

The inventory and the collected variables are arbitrary. What the driver does with the buffers
afterwards is not part of this step.
-/

namespace SmcPkg.ApplyData

open RaidCmd VarTable Card

section Check

/-- `SMC_CHANGED_VAR_SET`. The buffer is allocated with `ChangedVarLength` bytes, so
its length stands for that field. -/
structure ChangedVar where
  changedVarName : List UInt8
  changedVarGuid : Guid
  changedVarBuffer : List UInt8
  beUpdated : Bool
  deriving DecidableEq, Repr

/-- `SMC_RAID_CHRECORD_SET`, without the target text that only the download reads. -/
structure ChRecord where
  chRFrom : String
  targetOpCode : UInt8
  targetQId : UInt16
  beAccessed : Bool
  deriving DecidableEq, Repr

/-- The lists of a card that the check marks. -/
structure Marks where
  changed : List ChangedVar
  records : List ChRecord
  deriving DecidableEq, Repr

/-- The test of `SearchSmcRaidVarInChangedVar`. -/
def ofRaidVar (var : RaidVar) (entry : ChangedVar) : Bool :=
  entry.changedVarName = var.raidVarName && entry.changedVarGuid = var.raidVarGuid &&
    entry.changedVarBuffer.length = var.raidVarSize.toNat

/-- `SearchSmcRaidVarInChangedVar`: the first entry that fits, with its position. -/
def searchSmcRaidVarInChangedVar (changed : List ChangedVar) (var : RaidVar) :
    Option (Nat × ChangedVar) :=
  (changed.findIdx? (ofRaidVar var)).bind (fun position =>
    changed[position]?.map (fun entry => (position, entry)))

/-- `StrCmp` of two wide strings, as far as it reads. -/
def strCmp : List UInt8 → List UInt8 → Checked Bool
  | low :: high :: rest, low' :: high' :: rest' =>
    if low ≠ low' ∨ high ≠ high' then .ok true
    else if low = 0 ∧ high = 0 then .ok false
    else strCmp rest rest'
  | _, _ => .error .overflow

/-- Compare a number of bytes at an offset. -/
def bytesDiffer (offset width : Nat) (ori ch : List UInt8) : Checked Bool :=
  if offset + width > ori.length ∨ offset + width > ch.length then .error .overflow
  else .ok ((ori.drop offset).take width ≠ (ch.drop offset).take width)

/-- `EFI_IFR_NUMERIC_SIZE` of a question: one, two, four or eight bytes. -/
def numericWidth (op : IfrOp) : Nat := 2 ^ (op.flags &&& 3).toNat

/-- `CheckTheItemAlreadyBeChagned`: whether the value of an item differs between the
buffer of its variable, which may be NULL, and the submitted one. -/
def checkTheItemAlreadyBeChagned (op : IfrOp) (ori : Option (List UInt8)) (ch : List UInt8) :
    Checked Bool :=
  let compare (differ : List UInt8 → Checked Bool) : Checked Bool :=
    match ori with
    | none => .error .nullDeref
    | some bytes => differ bytes
  match op.opCode with
  | .string => compare (fun bytes => strCmp (bytes.drop op.varOffset) (ch.drop op.varOffset))
  | .oneOf => compare (fun bytes => bytesDiffer op.varOffset (numericWidth op) bytes ch)
  | .numeric => compare (fun bytes => bytesDiffer op.varOffset (numericWidth op) bytes ch)
  | .checkbox => compare (fun bytes => bytesDiffer op.varOffset 1 bytes ch)
  | _ => .ok false

/-- The types of items that may be changed from outside. -/
def isChangeable (itemsType : ItemsType) : Bool :=
  itemsType = .changeable || itemsType = .smcCmd

/-- `SearchSmcRaidAccessInChangedRecord`: the position of the record of a form. -/
def searchSmcRaidAccessInChangedRecord (records : List ChRecord) (form : String) : Option Nat :=
  records.findIdx? (fun record =>
    record.targetOpCode ≠ 0 && record.targetQId ≠ 0 && record.chRFrom = form)

/-- Mark an entry to be updated. -/
def markUpdated (entry : ChangedVar) : ChangedVar := { entry with beUpdated := true }

/-- Mark what an item that differs asks for: its entry, and for a changeable item the
record of its form. -/
def markItem (set : ItemsSet) (position : Nat) (marks : Marks) : Marks where
  changed := marks.changed.modify position markUpdated
  records :=
    if set.raidItemsType = .changeable then
      match searchSmcRaidAccessInChangedRecord marks.records set.lsiItemForm with
      | none => marks.records
      | some place => marks.records.modify place (fun record => { record with beAccessed := true })
    else marks.records

/-- One round of `CheckChangeableItemsInChangedVar`. -/
def checkItem (fuel : Nat) (tables : VarTables) (marks : Marks) (item : ItemsSet × ItemsBody) :
    Checked Marks :=
  if isChangeable item.1.raidItemsType then do
    match ← searchLsiVarById fuel tables item.2.smcLsiVarId with
    | none => .ok marks
    | some a =>
      match searchSmcRaidVarInChangedVar marks.changed (tables.node a) with
      | none => .ok marks
      | some (position, entry) => do
        let differs ← checkTheItemAlreadyBeChagned item.2.lsiItemOp
          ((tables.node a).raidVarBuffer.map tables.buffer) entry.changedVarBuffer
        .ok (if differs then markItem item.1 position marks else marks)
  else .ok marks

/-- The items of an inventory, each with its set. -/
def itemsOf (items : List ItemsSet) : List (ItemsSet × ItemsBody) :=
  items.flatMap (fun set => set.itemsBody.map (fun body => (set, body)))

/-- `CheckChangeableItemsInChangedVar`. -/
def checkChangeableItemsInChangedVar (fuel : Nat) (tables : VarTables) (items : List ItemsSet)
    (marks : Marks) : Checked Marks :=
  (itemsOf items).foldlM (checkItem fuel tables) marks

end Check

section Copy

/-- `SetLsiVarBuffer` from an entry, which is read up to the size of the variable. -/
def copyEntry (tables : VarTables) (a : Nat) (entry : ChangedVar) : Checked VarTables :=
  if entry.changedVarBuffer.length < (tables.node a).raidVarSize.toNat then .error .overflow
  else setLsiVarBuffer tables a (some (fun i => entry.changedVarBuffer.getD i 0))

/-- One round of `ChangedVarToOOBVarBuffer`. -/
def applyEntry (fuel : Nat) (tables : VarTables) (entry : ChangedVar) : Checked VarTables :=
  if entry.beUpdated then do
    match ← searchLsiVarByName fuel tables entry.changedVarName (some entry.changedVarGuid) with
    | none => .ok tables
    | some a => copyEntry tables a entry
  else .ok tables

/-- `ChangedVarToOOBVarBuffer`. -/
def changedVarToOOBVarBuffer (fuel : Nat) (changed : List ChangedVar) (tables : VarTables) :
    Checked VarTables :=
  changed.foldlM (applyEntry fuel) tables

/-- The two functions one after the other, as `HandleData` calls them. -/
def applyData (fuel : Nat) (items : List ItemsSet) (marks : Marks) (tables : VarTables) :
    Checked (Marks × VarTables) := do
  let marks ← checkChangeableItemsInChangedVar fuel tables items marks
  let tables ← changedVarToOOBVarBuffer fuel marks.changed tables
  .ok (marks, tables)

end Copy

end SmcPkg.ApplyData
