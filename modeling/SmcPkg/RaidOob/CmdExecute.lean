import SmcPkg.Lib.Traced
import SmcPkg.RaidOob.CmdTables

/-!
# Carrying out a command

A command is carried out against a driver that is free to do anything: it answers
every callback with any status, changes its own state and the variable buffers at
will, and exports another package whenever it is asked. A run writes down every
callback, every drive that was selected, the status of every table row and the
tables that were played to their end.

The package of an export is freed when the next item is looked up. An item
remembers the export it belongs to, and reading an item of an older one is
`useAfterFree`.
-/

namespace SmcPkg.CmdExecute

open CString RaidCmd VarTable Card CmdTables Traced

/-- `EFI_BROWSER_ACTION`, as far as it is used. -/
inductive BrowserAction
  | changing
  | changed
  deriving DecidableEq, Repr

/-- The value passed to a callback with its type. `CallbackForTargetProcessing` has
no case for the type of a string and for a reference, so these carry nothing. -/
inductive TypeValue
  | numSize8 (value : UInt8)
  | boolean (value : Bool)
  | action (text : UInt16)
  | string
  | ref
  deriving DecidableEq, Repr

/-- One callback. -/
structure Call where
  action : BrowserAction
  questionId : UInt16
  typeValue : TypeValue
  deriving DecidableEq, Repr

/-- What a run leaves behind for an observer. -/
inductive Event
  | called (table : Table) (row : ProcessingMap) (call : Call) (status : Status)
  | selected (table : Table) (drive : GroupHdd)
  | stepped (table : Table) (row : ProcessingMap) (status : Status)
  | finished (table : Table)
  deriving DecidableEq, Repr

/-- The driver of a card, over a state of its own. `formBuffer` is what the
uninitialised buffer for the title of the current form happens to hold. -/
structure Driver (σ : Type) where
  configAccess : Bool
  packageForm : σ → Option (List IfrOp) × σ
  getHiiString : σ → UInt16 → Option String
  newHiiString : σ → List UInt8 → UInt16 × σ
  callback : Call → σ → VarTables → Status × σ × VarTables
  formBuffer : σ → String

/-- What changes while a command is carried out: the state of the driver, the
variables of the card, the number of package exports asked for, and whether the
command is still enabled. -/
structure Machine (σ : Type) where
  driver : σ
  tables : VarTables
  generation : Nat
  cmdEnable : Bool

/-- What stays the same: the driver, the card, the command, and a bound on the
length of a chain of variables. -/
structure Env (σ : Type) where
  driver : Driver σ
  raidCardType : RaidType
  raidCmdSection : List CmdSection
  fuel : Nat

/-- A part of a run. -/
abbrev Run (σ : Type) := Traced Event (Machine σ) Fault

/-- `RAID_CMD_PROCESSING_ITEM`: an opcode of an export with the opcodes behind it. -/
structure Item where
  generation : Nat
  op : IfrOp
  following : List IfrOp

variable {σ : Type}

section Menus

/-- `TEMP_FORM_STRING`. -/
def tempFormString : Nat := 512

/-- The form an opcode stands in: the title and the identifier of the last form
opcode. -/
def currentForm (strings : UInt16 → Option String) (op : IfrOp) (form : String × UInt16) :
    Checked (String × UInt16) :=
  if op.opCode = .form then
    match strings op.prompt with
    | none => .error .nullDeref
    | some title => if title.length ≥ tempFormString then .error .overflow else .ok (title, op.formId)
  else .ok form

/-- The test of an opcode against a row, inside a given form. -/
def matchesRow (strings : UInt16 → Option String) (row : ProcessingMap) (form : String × UInt16)
    (op : IfrOp) : Bool :=
  op.opCode = row.cmdProcessTargetOpCode &&
    (row.cmdProcessLastForm = form.1 || form.2 = row.lastFormId) &&
    match strings op.prompt with
    | none => false
    | some text => op.questionId ≥ row.cmdProcessLimitQId || row.cmdProcessTargetName = text

/-- The loop of `SmcLsiRaidOOB_GetTargetItemOpHeader` over a package. -/
def collectItems (strings : UInt16 → Option String) (row : ProcessingMap) (generation : Nat) :
    List IfrOp → String × UInt16 → Checked (List Item)
  | [], _ => .ok []
  | op :: following, form => do
    let form ← currentForm strings op form
    let items ← collectItems strings row generation following form
    .ok (if matchesRow strings row form op then ⟨generation, op, following⟩ :: items else items)

/-- `SmcLsiRaidOOB_GetTargetItemOpHeader`. The previous export is freed first. -/
def getTargetItemOpHeader (env : Env σ) (row : ProcessingMap) : Run σ (List Item) := do
  update (fun machine => { machine with generation := machine.generation + 1 })
  if row.cmdProcessSet.cmdProcess = .nonAction then pure []
  else do
    let machine ← current
    let (package, driver) := env.driver.packageForm machine.driver
    update (fun machine => { machine with driver := driver })
    match package with
    | none => pure []
    | some ops =>
      lift (collectItems (env.driver.getHiiString driver) row machine.generation ops
        (env.driver.formBuffer driver, 0))

/-- Read an item. -/
def readItem (item : Item) : Run σ Item := do
  let machine ← current
  if item.generation = machine.generation then pure item else fail .useAfterFree

/-- `GetHiiString`. -/
def getHiiString (env : Env σ) (text : UInt16) : Run σ (Option String) := do
  let machine ← current
  pure (env.driver.getHiiString machine.driver text)

/-- `CallbackForTargetProcessing`. -/
def callbackForTargetProcessing (env : Env σ) (table : Table) (row : ProcessingMap) (call : Call) :
    Run σ Status :=
  if env.driver.configAccess then do
    let machine ← current
    let (status, driver, tables) := env.driver.callback call machine.driver machine.tables
    update (fun machine => { machine with driver := driver, tables := tables })
    emit (.called table row call status)
    pure status
  else pure efiInvalidParameter

/-- The two callbacks of a change: CHANGING, and unless it fails a write of the
caller's own and CHANGED. -/
def changeItem (env : Env σ) (table : Table) (row : ProcessingMap) (questionId : UInt16)
    (typeValue : TypeValue) (write : Run σ Unit) : Run σ Status := do
  let status ← callbackForTargetProcessing env table row ⟨.changing, questionId, typeValue⟩
  if efiError status then pure status
  else do
    write
    callbackForTargetProcessing env table row ⟨.changed, questionId, typeValue⟩

end Menus

section Buffers

/-- The buffer of a variable. -/
def bufferOf (tables : VarTables) (a : Nat) : Checked Nat :=
  match (tables.node a).raidVarBuffer with
  | none => .error .nullDeref
  | some p => .ok p

/-- The bytes of a variable from an offset on. -/
def bytesFrom (tables : VarTables) (a offset : Nat) : Checked (List UInt8) := do
  let p ← bufferOf tables a
  .ok ((tables.buffer p).drop offset)

/-- Read one byte of a variable. -/
def readByte (tables : VarTables) (a offset : Nat) : Checked UInt8 := do
  match ← bytesFrom tables a offset with
  | [] => .error .overflow
  | byte :: _ => .ok byte

/-- Write bytes into a variable. -/
def writeBytes (tables : VarTables) (a offset : Nat) (bytes : List UInt8) : Checked VarTables := do
  let p ← bufferOf tables a
  let old := tables.buffer p
  if offset + bytes.length > old.length then .error .overflow
  else .ok (tables.setBuffer p (old.take offset ++ bytes ++ old.drop (offset + bytes.length)))

/-- A wide string, up to its terminator. -/
def wideString : List UInt8 → Checked (List UInt16)
  | low :: high :: rest =>
    if low = 0 ∧ high = 0 then .ok []
    else do .ok ((low.toUInt16 + 256 * high.toUInt16) :: (← wideString rest))
  | _ => .error .overflow

/-- The bytes of a wide string with its terminator. -/
def wideBytes (text : List UInt16) : List UInt8 :=
  text.flatMap (fun c => [c.toUInt8, (c / 256).toUInt8]) ++ [0, 0]

/-- Change the variables of the card. -/
def changeTables (change : VarTables → Checked VarTables) : Run σ Unit := do
  let machine ← current
  let tables ← lift (change machine.tables)
  update (fun machine => { machine with tables := tables })

/-- Read the variables of the card. -/
def readTables {α : Type} (read : VarTables → Checked α) : Run σ α := do
  let machine ← current
  lift (read machine.tables)

/-- `SearchLsiVarById` for the variable of a question. -/
def getLsiVar (env : Env σ) (op : IfrOp) : Run σ (Option Nat) :=
  readTables (fun tables => searchLsiVarById env.fuel tables op.varStoreId)

end Buffers

section Settings

/-- `mSmcRaidTypeToValueMapTable`, the same for both cards that have one. -/
def raidTypeToValue : List (Nat × UInt8) :=
  [(0, 0), (1, 1), (5, 5), (6, 6), (100, 0x64), (10, 0x0A), (50, 0x32), (60, 0x3C)]

/-- `SearchCmdRaidTypeToValue`. -/
def searchCmdRaidTypeToValue (card : RaidType) (level : Nat) : Option UInt8 :=
  if card = .raid3108 ∨ card = .raid2208 then raidTypeToValue.lookup level else none

/-- The loops over the options of a question: they stop at the first opcode that
is no option, or at the first option that is wanted. -/
def findOption (wanted : IfrOp → Checked Bool) : List IfrOp → Checked (Option IfrOp)
  | [] => .error .overflow
  | op :: following =>
    if op.opCode = .oneOfOption then do
      if ← wanted op then .ok (some op) else findOption wanted following
    else .ok none

/-- Set a byte question: nothing happens when the byte is there already. -/
def changeByte (env : Env σ) (table : Table) (row : ProcessingMap) (op : IfrOp) (a : Nat)
    (value : UInt8) : Run σ Status :=
  changeItem env table row op.questionId (.numSize8 value)
    (changeTables (fun tables => writeBytes tables a op.varOffset [value]))

/-- `HandleRaidCmdSub_ChangeRaidType`. -/
def changeRaidType (env : Env σ) (table : Table) (row : ProcessingMap) (item : Item) :
    Run σ Status :=
  match searchRaidType env.raidCmdSection with
  | none => pure efiSuccess
  | some level =>
    match searchCmdRaidTypeToValue env.raidCardType level with
    | none => pure efiNotFound
    | some raidValue => do
      match ← getLsiVar env item.op with
      | none => pure efiNotFound
      | some a =>
        if (← readTables (fun tables => readByte tables a item.op.varOffset)) = raidValue then
          pure efiSuccess
        else do
          match ← lift (findOption (fun op => .ok (op.value = raidValue)) item.following) with
          | none => pure efiNotFound
          | some _ => changeByte env table row item.op a raidValue

/-- The size of `aOptionS`. -/
def optionCapacity : Nat := 20

/-- Whether an option names a given unit of size. -/
def namesUnit (strings : UInt16 → Option String) (unit : RaidSizeType) (op : IfrOp) :
    Checked Bool :=
  match strings op.prompt with
  | none => .error .nullDeref
  | some text =>
    if text.length ≥ optionCapacity then .error .overflow
    else
      let found := (searchRaidSizeType (ascii text.toList)).1
      .ok (found ≠ .non && found = unit)

/-- `TES_CHANGE_RAIDSIZE_UNIT`. -/
def changeSizeUnit (env : Env σ) (table : Table) (row : ProcessingMap) (item : Item)
    (unit : RaidSizeType) : Run σ Status := do
  let machine ← current
  match ← lift (findOption (namesUnit (env.driver.getHiiString machine.driver) unit)
      item.following) with
  | none => pure efiNotFound
  | some choice =>
    match ← getLsiVar env item.op with
    | none => pure efiNotFound
    | some a =>
      if (← readTables (fun tables => readByte tables a item.op.varOffset)) = choice.value then
        pure efiSuccess
      else changeByte env table row item.op a choice.value

/-- The text of a string question. -/
def stringAt (tables : VarTables) (a offset : Nat) : Checked (List UInt16) := do
  wideString (← bytesFrom tables a offset)

/-- The size as a wide string. Eighty characters leave no room for its terminator. -/
def sizeText (context : List UInt8) : Checked (List UInt16) :=
  if context.length ≥ raidSizeCapacity then .error .overflow
  else .ok (context.map UInt8.toUInt16)

/-- Clear the text of a string question and write another. -/
def replaceText (a offset : Nat) (text : List UInt16) (tables : VarTables) :
    Checked VarTables := do
  let old ← stringAt tables a offset
  let tables ← writeBytes tables a offset (List.replicate (2 * (old.length + 1)) 0)
  writeBytes tables a offset (wideBytes text)

/-- `TES_CHANGE_RAIDSIZE_SIZE`. The text is compared again after the callbacks. -/
def changeSizeSize (env : Env σ) (table : Table) (row : ProcessingMap) (item : Item)
    (context : List UInt8) : Run σ Status := do
  match ← getLsiVar env item.op with
  | none => pure efiNotFound
  | some a =>
    let old ← readTables (fun tables => stringAt tables a item.op.varOffset)
    let text ← lift (sizeText context)
    if old = text then pure efiSuccess
    else do
      let machine ← current
      let (newString, driver) := env.driver.newHiiString machine.driver context
      update (fun machine => { machine with driver := driver })
      if newString = 0 then pure efiInvalidParameter
      else do
        let status ← callbackForTargetProcessing env table row
          ⟨.changing, item.op.questionId, .string⟩
        if efiError status then pure status
        else do
          changeTables (replaceText a item.op.varOffset text)
          let status ← callbackForTargetProcessing env table row
            ⟨.changed, item.op.questionId, .string⟩
          let now ← readTables (fun tables => stringAt tables a item.op.varOffset)
          pure (if now = text then status else efiInvalidParameter)

/-- Whether an option deletes a volume. -/
def namesDelete (strings : UInt16 → Option String) (op : IfrOp) : Checked Bool :=
  match strings op.prompt with
  | none => .error .nullDeref
  | some text => .ok (decide ("Delete".toList <:+: text.toList))

/-- `TES_DELETE_RAID_DRIVE` of a setting. -/
def changeToDelete (env : Env σ) (table : Table) (row : ProcessingMap) (item : Item) :
    Run σ Status := do
  match ← getLsiVar env item.op with
  | none => pure efiNotFound
  | some a =>
    let machine ← current
    match ← lift (findOption (namesDelete (env.driver.getHiiString machine.driver))
        item.following) with
    | none => pure efiNotFound
    | some choice => changeByte env table row item.op a choice.value

/-- `HandleRaidCmdSub_ChangeSetting`. -/
def changeSetting (env : Env σ) (table : Table) (row : ProcessingMap) :
    Option Item → Run σ Status
  | none => pure efiInvalidParameter
  | some item =>
    match row.cmdProcessSet.typeEnum with
    | .size =>
      match searchSize env.raidCmdSection with
      | none => pure efiSuccess
      | some (unit, context) =>
        match row.cmdProcessSet.typeEnumSub with
        | .changeRaidSizeUnit => changeSizeUnit env table row item unit
        | .changeRaidSizeSize => changeSizeSize env table row item context
        | _ => pure efiNotFound
    | .command =>
      if row.cmdProcessSet.typeEnumSub = .deleteRaidDrive then changeToDelete env table row item
      else pure efiNotFound
    | .raidType => changeRaidType env table row item
    | _ => pure efiNotFound

end Settings

section Rows

/-- `HandleRaidCmdSub_EnterForm`. -/
def enterForm (env : Env σ) (table : Table) (row : ProcessingMap) : Option Item → Run σ Status
  | none => pure efiInvalidParameter
  | some item =>
    callbackForTargetProcessing env table row ⟨.changing, item.op.questionId, .ref⟩

/-- `HandleRaidCmdSub_Confirm`. -/
def confirm (env : Env σ) : Option Item → Run σ Status
  | none => pure efiInvalidParameter
  | some item => do
    match ← getLsiVar env item.op with
    | none => pure efiNotFound
    | some a =>
      changeTables (fun tables => writeBytes tables a item.op.varOffset [1])
      pure efiSuccess

/-- `HandleRaidCmdSub_PressAction`, the only handler without a test of its item. -/
def pressAction (env : Env σ) (table : Table) (row : ProcessingMap) : Option Item → Run σ Status
  | none => fail .nullDeref
  | some item =>
    changeItem env table row item.op.questionId (.action item.op.questionConfig) (pure ())

/-- `SearchHddNameInCmdProcessingItem`. -/
def searchHddName (env : Env σ) (name : String) : List Item → Run σ (Option Item)
  | [] => pure none
  | item :: items => do
    let item ← readItem item
    match ← getHiiString env item.op.prompt with
    | none => fail .nullDeref
    | some text => if name = text then pure (some item) else searchHddName env name items

/-- `SearchHddNameInCmdProcessingItem` for a drive that may lack a name. -/
def searchHdd (env : Env σ) (items : List Item) (drive : GroupHdd) : Run σ (Option Item) :=
  match drive.hdHame with
  | none => pure none
  | some name => searchHddName env name items

/-- Choose one drive by its checkbox. -/
def chooseDrive (env : Env σ) (table : Table) (row : ProcessingMap) (drive : GroupHdd)
    (item : Item) : Run σ Status := do
  match ← getLsiVar env item.op with
  | none => pure efiNotFound
  | some a =>
    let status ← changeItem env table row item.op.questionId (.boolean true)
      (changeTables (fun tables => writeBytes tables a item.op.varOffset [1]))
    if efiError status then pure status
    else do
      emit (.selected table drive)
      pure status

/-- What happens to one drive of a group, and what became of it. -/
inductive Choice
  | missing
  | refused
  | chosen (status : Status)

/-- One round of the loop of `HandleRaidCmdSub_ChoiceHdds`. A table that deletes
hands the drive on, any other ticks its checkbox. -/
def chooseHdd (env : Env σ) (deleteDrive : GroupHdd → Run σ Status) (table : Table)
    (row : ProcessingMap) (items : List Item) (drive : GroupHdd) : Run σ Choice := do
  match ← searchHdd env items drive with
  | none => pure .missing
  | some item =>
    if getHddTypeByCmd env.raidCmdSection = .hdg ∧ drive.hddType ≠ .hdg then pure .refused
    else if row.cmdProcessSet.typeEnumSub = .deleteRaidDrive then do
      pure (.chosen (← deleteDrive drive))
    else do
      pure (.chosen (← chooseDrive env table row drive item))

/-- The loop of `HandleRaidCmdSub_ChoiceHdds`: the status, and whether a drive was
chosen. A missing drive ends the loop of a BUILD command and is passed over by
any other. -/
def choiceLoop (env : Env σ) (deleteDrive : GroupHdd → Run σ Status) (table : Table)
    (row : ProcessingMap) (items : List Item) :
    List GroupHdd → Status → Bool → Run σ (Status × Bool)
  | [], status, hddBeChoiced => pure (status, hddBeChoiced)
  | drive :: drives, status, hddBeChoiced => do
    match ← chooseHdd env deleteDrive table row items drive with
    | .missing =>
      match searchSpecie env.raidCmdSection with
      | none => fail .nullDeref
      | some .build => pure (efiNotFound, hddBeChoiced)
      | some _ => choiceLoop env deleteDrive table row items drives status hddBeChoiced
    | .refused => pure (efiNotFound, hddBeChoiced)
    | .chosen status =>
      if efiError status then pure (status, true)
      else choiceLoop env deleteDrive table row items drives status true

/-- `HandleRaidCmdSub_ChoiceHdds`. Without a group it takes the first of the command. -/
def choiceHdds (env : Env σ) (deleteDrive : GroupHdd → Run σ Status) (table : Table)
    (row : ProcessingMap) (group : Option (List GroupHdd)) (items : List Item) : Run σ Status :=
  match group.orElse (fun _ => searchGroup env.raidCmdSection) with
  | none => pure efiNotFound
  | some drives => do
    let (status, hddBeChoiced) ← choiceLoop env deleteDrive table row items drives efiSuccess false
    pure (if hddBeChoiced then status else efiUnsupported)

/-- The switch of `HandleRaidCmdSub`. A row that only tests for its item keeps the
status. -/
def handleRow (env : Env σ) (deleteDrive : GroupHdd → Run σ Status) (table : Table)
    (group : Option (List GroupHdd)) (row : ProcessingMap) (items : List Item)
    (status : Status) : Run σ Status :=
  match row.cmdProcessSet.cmdProcess with
  | .changeSetting => changeSetting env table row items.head?
  | .enterForm => enterForm env table row items.head?
  | .pressAction => pressAction env table row items.head?
  | .confirm => confirm env items.head?
  | .choiceHdd => choiceHdds env deleteDrive table row group items
  | .getTestFormItems => pure status
  | .nonAction => pure status

/-- The loop of `HandleRaidCmdSub`. A row whose item is not found ends it: with an
error, or quietly when it is the last row. -/
def playRows (env : Env σ) (deleteDrive : GroupHdd → Run σ Status) (table : Table)
    (group : Option (List GroupHdd)) : List ProcessingMap → Status → Run σ Status
  | [], _ => fail .overflow
  | row :: rows, status => do
    match ← getTargetItemOpHeader env row with
    | [] =>
      if row.cmdProcessSet.cmdProcess = .nonAction then do
        emit (.finished table)
        pure status
      else do
        emit (.stepped table row efiNotFound)
        pure efiNotFound
    | items => do
      let status ← handleRow env deleteDrive table group row
        (items.drop row.tableItemIndex.toNat) status
      emit (.stepped table row status)
      if efiError status then pure status
      else playRows env deleteDrive table group rows status

/-- The end of `HandleRaidCmdSub`: a failed table disables its command. -/
def playTable (env : Env σ) (deleteDrive : GroupHdd → Run σ Status) (table : Table)
    (group : Option (List GroupHdd)) (rows : Option (List ProcessingMap)) : Run σ Status :=
  match rows with
  | none => pure efiInvalidParameter
  | some rows => do
    let status ← playRows env deleteDrive table group rows efiSuccess
    if efiError status then do
      update (fun machine => { machine with cmdEnable := false })
      pure status
    else pure status

/-- Delete one volume with the patched table. That table chooses no drives, so the
recursion of the source ends here. -/
def deleteDrive (env : Env σ) (drive : GroupHdd) : Run σ Status :=
  match drive.hdHame, getRaidProcessingMap env.raidCardType (.raidRef (drive.hdHame.getD "")) with
  | some name, some rows =>
    if name.length ≥ nameLength then fail .overflow
    else playTable env (fun _ => fail .outOfFuel) (.raidRef name) none (some rows)
  | _, _ => fail .nullDeref

/-- `HandleRaidCmdSub`. -/
def handleRaidCmdSub (env : Env σ) (table : Table) (group : Option (List GroupHdd))
    (rows : Option (List ProcessingMap)) : Run σ Status :=
  playTable env (deleteDrive env) table group rows

/-- `HandleRaidCmdSub` on a table that is looked up. -/
def playMap (env : Env σ) (table : Table) (group : Option (List GroupHdd)) : Run σ Status :=
  handleRaidCmdSub env table group (getRaidProcessingMap env.raidCardType table)

/-- `HandleRaidCmdSub` on a table that is named directly. -/
def playStatic (env : Env σ) (table : Table) : Run σ Status :=
  handleRaidCmdSub env table none (some (table.rows env.raidCardType))

end Rows

section Commands

/-- Go on unless the status is an error. -/
def onSuccess (first next : Run σ Status) : Run σ Status := do
  let status ← first
  if efiError status then pure status else next

/-- Add one span and fill it. A missing group section is read only after the span
has been added. -/
def spanRound (env : Env σ) (spans : UInt8) (group : Option (List GroupHdd)) : Run σ Status :=
  onSuccess (playMap env .second none)
    (onSuccess (playMap env (.third spans) none)
      (match group with
      | none => fail .nullDeref
      | some drives => playMap env .forth (some drives)))

/-- The loop over the groups; its body runs at least once. -/
def spanLoop (env : Env σ) : UInt8 → List (List GroupHdd) → Run σ Status
  | spans, [] => spanRound env spans none
  | spans, [group] => spanRound env spans (some group)
  | spans, group :: groups =>
    onSuccess (spanRound env spans (some group)) (spanLoop env (spans + 1) groups)

/-- `HandleBuildRaidCmd` before it clears up. Spans are counted from one, since a
span starts with the second drive selection. -/
def buildRaid (env : Env σ) : Run σ Status :=
  if raidLevel env.raidCmdSection < raidTypeR10 then playMap env .single none
  else
    onSuccess (playMap env .first none)
      (onSuccess (spanLoop env 1 (searchGroups env.raidCmdSection)) (playMap env .fifth none))

/-- `HandleBuildRaidCmd`. The status of the clearing table is dropped. -/
def handleBuildRaidCmd (env : Env σ) : Run σ Status := do
  let status ← buildRaid env
  let _ ← playStatic env .clearBuild
  pure status

/-- `HandleBuildRaidCmd_D`. -/
def handleBuildRaidCmdD (env : Env σ) : Run σ Status := do
  let status ← playStatic env .delete
  let _ ← playStatic env .clearDelete
  pure status

/-- `HandleOtherRaidCmd`. Without an action the table pointer stays NULL, and the
status of the table is dropped. -/
def handleOtherRaidCmd (env : Env σ) : Run σ Status := do
  match searchJbod env.raidCmdSection with
  | none => pure efiSuccess
  | some .make => do
    let _ ← playMap env .makeJbod none
    pure efiSuccess
  | some .unconfig => do
    let _ ← playMap env .unConfigJbod none
    pure efiSuccess
  | some .non => do
    let _ ← handleRaidCmdSub env .makeJbod none none
    pure efiSuccess

end Commands

end SmcPkg.CmdExecute
