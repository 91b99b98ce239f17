import SmcPkg.RaidOob.VarTable

/-!
# Cards, their inventory and their commands

What the command code reads of a card: the opcodes of its forms, the inventory of
items collected from them, and the list of parsed commands. A status is a 64-bit
word whose top bit marks an error, so a warning counts as success everywhere.
-/

namespace SmcPkg.Card

open RaidCmd VarTable

/-- `EFI_STATUS`. -/
abbrev Status := BitVec 64

/-- `EFI_ERROR`. -/
def efiError (status : Status) : Bool := status.msb

/-- `EFI_SUCCESS`. -/
def efiSuccess : Status := 0

/-- An error code: the number with the top bit set. -/
def errorCode (number : Nat) : Status := BitVec.ofNat 64 (2 ^ 63 + number)

/-- `EFI_LOAD_ERROR`. -/
def efiLoadError : Status := errorCode 1

/-- `EFI_INVALID_PARAMETER`. -/
def efiInvalidParameter : Status := errorCode 2

/-- `EFI_UNSUPPORTED`. -/
def efiUnsupported : Status := errorCode 3

/-- `EFI_NOT_FOUND`. -/
def efiNotFound : Status := errorCode 14

/-- `SMC_LSI_RAID_TYPE`. -/
inductive RaidType
  | raid3108
  | raid9260
  | raid2208
  | raidRste
  | raidNull
  deriving DecidableEq, Repr

/-- The opcodes the module distinguishes. -/
inductive OpCode
  | form
  | ref
  | checkbox
  | oneOf
  | oneOfOption
  | numeric
  | string
  | action
  | varStore
  | other (code : UInt8)
  deriving DecidableEq, Repr

/-- One opcode of a form package. The code reads every opcode through the header
of a question, so the fields of all kinds stand side by side: `prompt` is the
title of a form and the text of an option, `value` the value of an option. -/
structure IfrOp where
  opCode : OpCode
  prompt : UInt16
  questionId : UInt16
  varStoreId : UInt16
  varOffset : Nat
  flags : UInt8
  formId : UInt16
  value : UInt8
  questionConfig : UInt16
  deriving DecidableEq, Repr

/-- `SMC_RAID_ITEMS_BODY`. -/
structure ItemsBody where
  smcLsiVarId : UInt16
  hdNum : Nat
  lsiItemOp : IfrOp
  deriving DecidableEq, Repr

/-- `SMC_RAID_ITEMS_SET` with its header. -/
structure ItemsSet where
  lsiItemForm : String
  lsiItemName : String
  raidItemsType : ItemsType
  itemsBody : List ItemsBody
  deriving DecidableEq, Repr

/-- `SMC_RAID_CMD_SET`, with the string it was parsed from. -/
structure CmdSet where
  cmdString : List UInt16
  raidCmdSection : List CmdSection
  cmdEnable : Bool
  deriving DecidableEq, Repr

/-- `SearchForCmdSectionBody` for a command. -/
def searchSpecie (sections : List CmdSection) : Option CmdSpecie :=
  sections.findSome? (fun part => match part with | .command specie => some specie | _ => none)

/-- `SearchForCmdSectionBody` for a JBOD action. -/
def searchJbod (sections : List CmdSection) : Option CmdJbod :=
  sections.findSome? (fun part => match part with | .jbod action => some action | _ => none)

/-- `SearchForCmdSectionBody` for a RAID level. -/
def searchRaidType (sections : List CmdSection) : Option Nat :=
  sections.findSome? (fun part => match part with | .raidType level => some level | _ => none)

/-- `SearchForCmdSectionBody` for a size. -/
def searchSize (sections : List CmdSection) : Option (RaidSizeType × List UInt8) :=
  sections.findSome? (fun part => match part with
    | .size unit context => some (unit, context)
    | _ => none)

/-- `SearchForCmdSectionList` for groups: the drives of every group, in order. -/
def searchGroups (sections : List CmdSection) : List (List GroupHdd) :=
  sections.filterMap (fun part => match part with | .group drives => some drives | _ => none)

/-- `SearchForCmdSectionBody` for a group: the drives of the first one. -/
def searchGroup (sections : List CmdSection) : Option (List GroupHdd) :=
  (searchGroups sections).head?

/-- The RAID level of a command, level 0 when none is given. -/
def raidLevel (sections : List CmdSection) : Nat := (searchRaidType sections).getD 0

/-- `SMC_CMD_RAIDTYPE_NOSPAN`. -/
def raidTypeNoSpan : Nat := 9

/-- `SMC_CMD_RAIDTYPE_R10`. -/
def raidTypeR10 : Nat := 10

/-- `GetHddTypeByCmd`. -/
def getHddTypeByCmd (sections : List CmdSection) : ItemsType :=
  match searchSpecie sections with
  | some .build => .hdg
  | some .delete => .rdg
  | some .other => if (searchJbod sections).isSome then .jbod else .null
  | _ => .null

end SmcPkg.Card
