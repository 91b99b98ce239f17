import SmcPkg.RaidOob.CmdExamine

/-!
# The inventory of a card and its drive numbers

One scan of the form package puts the questions into the item sets of the card and numbers
those of the three sets of drives. Users name drives by these numbers, and the commands are
resolved with a table that is gathered from the sets once more.

The form package is any sequence of opcodes that ends. Which of its items stand for drives is
told by the tables of the card's type.
-/

namespace SmcPkg.DriveItems

open RaidCmd Card CmdExamine

section Table

/-- The names of the sets of drives: `HARD_DRIVES_GROUP`, `RAID_DRIVES_GROUP` and
`JBOD_DRIVES_GROUP`. -/
def driveNames : List String := ["HARD DRIVES GROUP", "RAID DRIVES GROUP", "JBOD DRIVES GROUP"]

/-- The types of the sets of drives. -/
def driveTypes : List ItemsType := [.hdg, .rdg, .jbod]

/-- `SMC_RAID_ITEMS_HEADER`, for one type of cards. -/
structure ItemsHeader where
  lsiItemForm : String
  lsiItemName : String
  lsiItemId : UInt16
  raidItemsType : ItemsType
  deriving DecidableEq, Repr

/-- The sets of a card. The sets with a name of drives are those with a type of drives. -/
structure ItemsTable where
  headers : List ItemsHeader
  named : ∀ header ∈ headers, header.lsiItemName ∈ driveNames ↔ header.raidItemsType ∈ driveTypes

/-- An entry of `mSmcLsiItemsTable` for information. -/
def informationEntry (form name : String) : ItemsHeader := ⟨form, name, 0xFFFF, .information⟩

/-- An entry of `mSmcLsiItemsTable` for a setting. -/
def changeableEntry (name : String) : ItemsHeader :=
  ⟨"Advanced Controller Properties", name, 0xFFFF, .changeable⟩

/-- The entries of `mSmcLsiItemsTable` for a 3108, which are also those for a 2208. -/
def megaRaidHeaders : List ItemsHeader :=
  [informationEntry "Dashboard View" "Status",
    informationEntry "Controller Management" "Product Name",
    informationEntry "Controller Management" "Serial Number",
    informationEntry "Controller Management" "Controller Status",
    informationEntry "Controller Management" "PCI ID",
    informationEntry "Controller Management" "PCI Slot Number",
    informationEntry "Controller Management" "Package Version",
    informationEntry "Controller Management" "Firmware Version",
    informationEntry "Controller Management" "Connector Count",
    informationEntry "Controller Management" "Drive Count",
    informationEntry "Controller Management" "Virtual Drive Count",
    informationEntry "Dashboard View" "MegaRAID RAID6",
    informationEntry "Dashboard View" "MegaRAID RAID5",
    ⟨"Select Drives", "HARD DRIVES GROUP", 0xA700, .hdg⟩,
    ⟨"Virtual Drive Management", "RAID DRIVES GROUP", 0xA000, .rdg⟩,
    ⟨"Make Unconfigured Good", "JBOD DRIVES GROUP", 0xAB00, .jbod⟩,
    changeableEntry "Boot Mode", changeableEntry "JBOD Mode", changeableEntry "Write Verify",
    changeableEntry "Large IO Support"]

/-- `mSmcLsiItemsTable` for a type of cards. -/
def itemsTable : RaidType → ItemsTable
  | .raid3108 => ⟨megaRaidHeaders, by decide⟩
  | .raid2208 => ⟨megaRaidHeaders, by decide⟩
  | .raidRste => ⟨[⟨"Intel(R) RSTe", "HARD DRIVES GROUP", 0xFFFF, .hdg⟩], by decide⟩
  | .raid9260 => ⟨[], by decide⟩
  | .raidNull => ⟨[], by decide⟩

end Table

section Scan

/-- A set of items while it is filled. -/
structure FilledSet where
  itemsHeader : ItemsHeader
  itemsBody : List ItemsBody

/-- The set as the other functions see it. -/
def FilledSet.itemsSet (set : FilledSet) : ItemsSet :=
  ⟨set.itemsHeader.lsiItemForm, set.itemsHeader.lsiItemName, set.itemsHeader.raidItemsType,
    set.itemsBody⟩

/-- What the scan carries from opcode to opcode. -/
structure ScanState where
  currentFormString : String
  hddNum : UInt16
  sets : List FilledSet

/-- `TEMP_FORM_STRING`. -/
def tempFormString : Nat := 512

/-- The opcodes that are taken as questions. -/
def isQuestion (code : OpCode) : Bool :=
  code = .string || code = .oneOf || code = .numeric || code = .checkbox || code = .ref

/-- The question belongs to a set: it is in the form of the set, and its id has reached the
limit of the set or its text is the name of the set. -/
def belongs (form text : String) (op : IfrOp) (header : ItemsHeader) : Bool :=
  header.lsiItemForm = form && (header.lsiItemId ≤ op.questionId || header.lsiItemName = text)

/-- Put an item behind the items of a set. -/
def FilledSet.append (body : ItemsBody) (set : FilledSet) : FilledSet :=
  { set with itemsBody := set.itemsBody ++ [body] }

/-- The set at a place has a name of drives. -/
def namesDrives (sets : List FilledSet) (place : Nat) : Bool :=
  match sets[place]? with
  | some set => set.itemsHeader.lsiItemName ∈ driveNames
  | none => false

/-- A question with a text goes to the first set that it belongs to. -/
def addItem (op : IfrOp) (text : String) (state : ScanState) : ScanState :=
  match state.sets.findIdx? fun set => belongs state.currentFormString text op set.itemsHeader with
  | none => state
  | some place =>
    if namesDrives state.sets place then
      { state with
          hddNum := state.hddNum + 1
          sets := state.sets.modify place (FilledSet.append ⟨0, (state.hddNum + 1).toNat, op⟩) }
    else
      { state with sets := state.sets.modify place (FilledSet.append ⟨0, 0xFFFF, op⟩) }

/-- One opcode of `SmcLsiRaidOOB_CollectInformation_Items`. The title of a form is copied
without a test for NULL to an array of fixed size. -/
def scanOp (strings : Strings) (state : ScanState) (op : IfrOp) : Checked ScanState :=
  if op.opCode = .form then
    match strings op.prompt with
    | none => .error .nullDeref
    | some title =>
      if title.length < tempFormString then .ok { state with currentFormString := title }
      else .error .overflow
  else if isQuestion op.opCode then
    match strings op.prompt with
    | none => .ok state
    | some text => .ok (addItem op text state)
  else .ok state

/-- `SmcLsiRaidOOB_CollectInformation_Items`, over the opcodes of the form package. The array
of the current form holds anything before the first form. -/
def collectInformationItems (table : ItemsTable) (strings : Strings) (before : String)
    (ops : List IfrOp) : Checked (List ItemsSet) := do
  let state ← ops.foldlM (scanOp strings)
    ⟨before, 0, table.headers.map (fun header => ⟨header, []⟩)⟩
  .ok (state.sets.map FilledSet.itemsSet)

end Scan

section Meaning

/-- A recognised question: the place of the first set that it belongs to, and its opcode. -/
abbrev Recognised := Nat × IfrOp

/-- The recognised questions of a package, in their order. -/
def recognised (table : ItemsTable) (strings : Strings) : String → List IfrOp → List Recognised
  | _, [] => []
  | form, op :: ops =>
    if op.opCode = .form then recognised table strings ((strings op.prompt).getD form) ops
    else
      let place := if isQuestion op.opCode then
          (strings op.prompt).bind (fun text => table.headers.findIdx? (belongs form text op))
        else none
      match place with
      | none => recognised table strings form ops
      | some place => (place, op) :: recognised table strings form ops

/-- The type of the set at a place. -/
def typeAt (table : ItemsTable) (place : Nat) : ItemsType :=
  match table.headers[place]? with
  | some header => header.raidItemsType
  | none => .null

/-- The set at a place is a set of drives. -/
def holdsDrives (table : ItemsTable) (place : Nat) : Bool := typeAt table place ∈ driveTypes

/-- The questions of the sets of drives. -/
def driveQuestions (table : ItemsTable) (questions : List Recognised) : List Recognised :=
  questions.filter (fun question => holdsDrives table question.1)

/-- The question is a reference or a checkbox. -/
def standsForDrive (question : Recognised) : Bool :=
  question.2.opCode = .ref || question.2.opCode = .checkbox

/-- The drive with a number: the references and checkboxes are drives, and all questions of
the three sets are counted. -/
def driveNumbered (table : ItemsTable) (questions : List Recognised) (number : Nat) :
    Option Recognised :=
  if number = 0 then none
  else ((driveQuestions table questions)[number - 1]?).filter standsForDrive

/-- The questions are in the sets that they belong to first, and those of the sets of drives
are numbered from 1 on in their order. -/
def Numbered (table : ItemsTable) (questions : List Recognised) (sets : List ItemsSet) : Prop :=
  ∃ items : List (Nat × ItemsBody),
    items.map (fun item => (item.1, item.2.lsiItemOp)) = questions ∧
    sets = table.headers.mapIdx (fun place header =>
      (⟨header, (items.filter (fun item => item.1 = place)).map Prod.snd⟩ : FilledSet).itemsSet) ∧
    (items.filter (fun item => holdsDrives table item.1)).map (fun item => item.2.hdNum) =
      List.range' 1 (driveQuestions table questions).length

/-- A drive of a group, with the name of the drive that has its number. -/
def nameDrive (table : ItemsTable) (strings : Strings) (questions : List Recognised)
    (type : ItemsType) (drive : GroupHdd) : GroupHdd :=
  match driveNumbered table questions drive.hdNum with
  | none => ⟨drive.hdNum, .null, drive.hdHame⟩
  | some question =>
    ⟨drive.hdNum, if typeAt table question.1 = type then type else .null,
      strings question.2.prompt⟩

/-- A command whose drives have their names. -/
def nameDrives (table : ItemsTable) (strings : Strings) (questions : List Recognised)
    (cmd : CmdSet) : CmdSet :=
  { cmd with raidCmdSection := cmd.raidCmdSection.map (fun part => match part with
      | .group drives => .group (drives.map
          (nameDrive table strings questions (getHddTypeByCmd cmd.raidCmdSection)))
      | part => part) }

/-- The scan numbers the drives, and every list of commands is resolved by these numbers. -/
def Consistent (table : ItemsTable) (strings : Strings) (before : String) (ops : List IfrOp) :
    Prop :=
  let questions := recognised table strings before ops
  ∃ sets, collectInformationItems table strings before ops = .ok sets ∧
    Numbered table questions sets ∧
    ∀ commands, collectCfgCmdData strings sets commands =
      .ok (commands.map (nameDrives table strings questions))

/-- Every form has a title that fits. -/
def Titled (strings : Strings) (ops : List IfrOp) : Prop :=
  ∀ op ∈ ops, op.opCode = .form →
    ∃ title, strings op.prompt = some title ∧ title.length < tempFormString

end Meaning

end SmcPkg.DriveItems
