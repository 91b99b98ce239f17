import SmcPkg.RaidOob.Card

/-!
# The processing tables

A command is carried out by playing a table of rows on the menus of the card's
driver. A row names the form it expects, the item it works on, and what to do
with it. Every table ends with a row without an action. Two tables are patched
before they are used: the row that enters the drive selection of a span, and the
rows that delete one volume.
-/

namespace SmcPkg.CmdTables

open Card

/-- `RAID_CMD_PROCESSING_ENUM`. -/
inductive CmdProcess
  | enterForm
  | choiceHdd
  | changeSetting
  | confirm
  | pressAction
  | getTestFormItems
  | nonAction
  deriving DecidableEq, Repr

/-- `SMC_RAID_CMD_TYPE_ENUM`. -/
inductive TypeEnum
  | group
  | raidType
  | size
  | command
  | jbod
  | non
  deriving DecidableEq, Repr

/-- `SMC_RAID_CMD_TYPE_ENUM_SUB`. -/
inductive TypeEnumSub
  | changeRaidSizeUnit
  | changeRaidSizeSize
  | changeRaidSizeEnd
  | deleteRaidDrive
  | buildSpansRaid
  | non
  deriving DecidableEq, Repr

/-- `RAID_CMD_PROCESSING`. -/
structure CmdProcessing where
  cmdProcess : CmdProcess
  typeEnum : TypeEnum
  typeEnumSub : TypeEnumSub
  deriving DecidableEq, Repr

/-- `RAID_CMD_PROCESSING_MAP`, one row of a table. -/
structure ProcessingMap where
  cmdProcessSet : CmdProcessing
  cmdProcessLastForm : String
  lastFormId : UInt16
  cmdProcessTargetName : String
  cmdProcessLimitQId : UInt16
  cmdProcessTargetOpCode : OpCode
  tableItemIndex : UInt8
  deriving DecidableEq, Repr

/-- `P_ENUM_ENTERFORM_SET`. -/
def enterFormSet : CmdProcessing := ⟨.enterForm, .non, .non⟩

/-- `P_ENUM_CHOICEHDD_SET`. -/
def choiceHddSet : CmdProcessing := ⟨.choiceHdd, .command, .non⟩

/-- `P_ENUM_CHOICEHDD_SET_DELRAID`. -/
def choiceHddSetDelRaid : CmdProcessing := ⟨.choiceHdd, .command, .deleteRaidDrive⟩

/-- `P_ENUM_CONFIRM_SET`. -/
def confirmSet : CmdProcessing := ⟨.confirm, .non, .non⟩

/-- `P_ENUM_PRESSACTION_SET`. -/
def pressActionSet : CmdProcessing := ⟨.pressAction, .non, .non⟩

/-- `P_ENUM_CHANGESETTING_SET_SIZE_UNIT`. -/
def changeSettingSizeUnit : CmdProcessing := ⟨.changeSetting, .size, .changeRaidSizeUnit⟩

/-- `P_ENUM_CHANGESETTING_SET_SIZE_SIZE`. -/
def changeSettingSizeSize : CmdProcessing := ⟨.changeSetting, .size, .changeRaidSizeSize⟩

/-- `P_ENUM_CHANGESETTING_SET_RAIDTYPE`. -/
def changeSettingRaidType : CmdProcessing := ⟨.changeSetting, .raidType, .non⟩

/-- `P_ENUM_CHANGESETTING_SET_DELRAID`. -/
def changeSettingDelRaid : CmdProcessing := ⟨.changeSetting, .command, .deleteRaidDrive⟩

/-- `P_ENUM_TEST_FORMITEMS`. -/
def testFormItems : CmdProcessing := ⟨.getTestFormItems, .non, .non⟩

/-- The row that ends a table. -/
def endRow : ProcessingMap := ⟨⟨.nonAction, .non, .non⟩, "", 0xFFFF, "", 0xFFFF, .other 0xFF, 0⟩

/-- The form in which a command is confirmed: found by its title on a 3108, by its
identifier on a 2208. -/
def warning : RaidType → String × UInt16
  | .raid2208 => ("", 0x29)
  | _ => ("Warning", 0xFFFF)

/-- The two rows that confirm a command. -/
def confirmRows (card : RaidType) : List ProcessingMap :=
  [⟨confirmSet, (warning card).1, (warning card).2, "Confirm", 0xFFFF, .checkbox, 0⟩,
   ⟨pressActionSet, (warning card).1, (warning card).2, "Yes", 0xFFFF, .action, 0⟩]

/-- The two rows that set the size of a volume. -/
def sizeRows : List ProcessingMap :=
  [⟨changeSettingSizeUnit, "Create Virtual Drive", 0xFFFF, "Virtual Drive Size Unit", 0xFFFF,
    .oneOf, 0⟩,
   ⟨changeSettingSizeSize, "Create Virtual Drive", 0xFFFF, "Virtual Drive Size", 0xFFFF,
    .string, 0⟩]

/-- The row that saves a volume. -/
def saveRow : ProcessingMap :=
  ⟨enterFormSet, "Create Virtual Drive", 0xFFFF, "Save Configuration", 0xFFFF, .ref, 0⟩

/-- The row that opens the creation of a volume. -/
def createRow : ProcessingMap :=
  ⟨enterFormSet, "Configuration Management", 0xFFFF, "Create Virtual Drive", 0xFFFF, .ref, 0⟩

/-- The row that sets the RAID level. -/
def raidLevelRow (tableItemIndex : UInt8) : ProcessingMap :=
  ⟨changeSettingRaidType, "Create Virtual Drive", 0xFFFF, "Select RAID Level", 0xFFFF, .oneOf,
    tableItemIndex⟩

/-- The row that enters a drive selection. -/
def selectDrivesRow (tableItemIndex : UInt8) : ProcessingMap :=
  ⟨enterFormSet, "Create Virtual Drive", 0xFFFF, "Select Drives", 0xFFFF, .ref, tableItemIndex⟩

/-- The row that chooses the drives. -/
def choiceHddRow : ProcessingMap :=
  ⟨choiceHddSet, "Select Drives", 0xFFFF, "Choice Hdd", 0xA700, .checkbox, 0⟩

/-- The row that applies a drive selection. -/
def applyChangesRow : ProcessingMap :=
  ⟨enterFormSet, "Select Drives", 0xFFFF, "Apply Changes", 0xFFFF, .ref, 0⟩

/-- The row that makes sure that a drive selection was applied. -/
def successRow : ProcessingMap :=
  ⟨testFormItems, "Success", 0xFFFF, "OK", 0xFFFF, .ref, 0⟩

/-- The row that adds a span. -/
def addSpanRow : ProcessingMap :=
  ⟨pressActionSet, "Create Virtual Drive", 0xFFFF, "Add More Spans", 0xFFFF, .action, 0⟩

/-- `RaidCmdProcessMapTable_B_3108` and `RaidCmdProcessMapTable_B_2208`. -/
def buildTable (card : RaidType) : List ProcessingMap :=
  [createRow, raidLevelRow 1, selectDrivesRow 0, choiceHddRow, applyChangesRow] ++ sizeRows ++
    [saveRow] ++ confirmRows card ++ [endRow]

/-- `RaidCmdProcessMapTable_B_Span_3108_First`. -/
def spanFirst : List ProcessingMap := [createRow, raidLevelRow 0, endRow]

/-- `RaidCmdProcessMapTable_B_Span_3108_Second`. -/
def spanSecond : List ProcessingMap := [addSpanRow, endRow]

/-- `RaidCmdProcessMapTable_B_Span_3108_Third`, with the index patched into its
first row. -/
def spanThird (spans : UInt8) : List ProcessingMap := [selectDrivesRow spans, endRow]

/-- `RaidCmdProcessMapTable_B_Span_3108_Forth`. -/
def spanForth : List ProcessingMap :=
  [choiceHddRow, applyChangesRow, successRow, endRow]

/-- `RaidCmdProcessMapTable_B_Span_3108_Fifth` and
`RaidCmdProcessMapTable_B_Span_2208_Fifth`. -/
def spanFifth (card : RaidType) : List ProcessingMap :=
  sizeRows ++ [saveRow] ++ confirmRows card ++ [endRow]

/-- `RaidCmdProcessClearMapTable_B_3108`. -/
def clearBuildTable : List ProcessingMap := [createRow, endRow]

/-- `RaidCmdProcessMapTable_D_3108`. -/
def deleteTable : List ProcessingMap :=
  [⟨enterFormSet, "Main Menu", 0xFFFF, "Virtual Drive Management", 0xFFFF, .ref, 0⟩,
   ⟨choiceHddSetDelRaid, "Virtual Drive Management", 0xFFFF, "Choice Raid Drive", 0xA000, .ref, 0⟩,
   endRow]

/-- `RaidCmdProcessClearMapTable_D_3108`. -/
def clearDeleteTable : List ProcessingMap :=
  [⟨enterFormSet, "Main Menu", 0xFFFF, "Virtual Drive Management", 0xFFFF, .ref, 0⟩, endRow]

/-- `D_3108_RAIDREF_GO_QID`. -/
def raidRefGoQId : UInt16 := 0x15C

/-- `RaidCmdProcessMapTable_D_3108_RaidRef` and `RaidCmdProcessMapTable_D_2208_RaidRef`,
with the name of the volume patched into the first three rows and the question
limit into the third. -/
def raidRefTable (card : RaidType) (name : String) : List ProcessingMap :=
  [⟨enterFormSet, "Virtual Drive Management", 0xFFFF, name, 0xFFFF, .ref, 0⟩,
   ⟨changeSettingDelRaid, name, 0xFFFF, "Operation", 0xFFFF, .oneOf, 0⟩,
   ⟨enterFormSet, name, 0xFFFF, "Use QId find Go Form", raidRefGoQId, .ref, 0⟩] ++
    confirmRows card ++ [endRow]

/-- The tables that turn drives into JBOD and back differ in the form and in the
first question of its checkboxes. -/
def jbodTable (card : RaidType) (form : String) (limit : UInt16) : List ProcessingMap :=
  [⟨enterFormSet, "Configuration Management", 0xFFFF, form, 0xFFFF, .ref, 0⟩,
   ⟨choiceHddSet, form, 0xFFFF, "Choice Hdd", limit, .checkbox, 0⟩,
   ⟨enterFormSet, form, 0xFFFF, "OK", 0xFFFF, .ref, 0⟩] ++ confirmRows card ++ [endRow]

/-- `RaidCmdProcessMapTable_MakeJbod` and `RaidCmdProcessMapTable_2208_MakeJbod`. -/
def makeJbodTable (card : RaidType) : List ProcessingMap := jbodTable card "Make JBOD" 0xAD00

/-- `RaidCmdProcessMapTable_UnConfigJbod` and `RaidCmdProcessMapTable_2208_UnConfigJbod`. -/
def unConfigJbodTable (card : RaidType) : List ProcessingMap :=
  jbodTable card "Make Unconfigured Good" 0xAB00

/-- The tables by name: `RAID_TYPE_CMD_PROCESSING_SPECIE_MAP`, with the values patched
into a table, and the tables that are used without a lookup. -/
inductive Table
  | single
  | first
  | second
  | third (spans : UInt8)
  | forth
  | fifth
  | raidRef (name : String)
  | makeJbod
  | unConfigJbod
  | delete
  | clearBuild
  | clearDelete
  deriving DecidableEq, Repr

/-- The rows of a table on a card that has it. -/
def Table.rows (card : RaidType) : Table → List ProcessingMap
  | .single => buildTable card
  | .first => spanFirst
  | .second => spanSecond
  | .third spans => spanThird spans
  | .forth => spanForth
  | .fifth => spanFifth card
  | .raidRef name => raidRefTable card name
  | .makeJbod => makeJbodTable card
  | .unConfigJbod => unConfigJbodTable card
  | .delete => deleteTable
  | .clearBuild => clearBuildTable
  | .clearDelete => clearDeleteTable

/-- `GetRaidProcessingMap`: only the 3108 and the 2208 have tables. -/
def getRaidProcessingMap (card : RaidType) (table : Table) : Option (List ProcessingMap) :=
  if card = .raid3108 ∨ card = .raid2208 then some (table.rows card) else none

/-- The row that presses Yes. -/
def ProcessingMap.pressesYes (row : ProcessingMap) : Bool :=
  row.cmdProcessSet.cmdProcess = .pressAction && row.cmdProcessTargetName = "Yes"

end SmcPkg.CmdTables
