import SmcPkg.Lib.Traced
import SmcPkg.RaidOob.IfrPackage

/-!
# The forms of the cards

For every card a reference, a form and variable stores are put into the form package of
the setup page. The opcodes are made from the inventory of the card, whose items point
into the form package of the card itself. Six functions put in one run of opcodes each;
labels that one function leaves are the places where the next one goes on.
-/

namespace SmcPkg.SetupForms

open Bytes RaidCmd Card Traced

section Data

/-- A body of an item: the opcode of the card and the opcodes behind it. -/
structure ItemsBody where
  op : Op
  rest : List Op
  smcLsiVarId : UInt16
  hdNum : UInt16
  itemsName : String

/-- `SMC_RAID_ITEMS_SET`. -/
structure ItemsSet where
  lsiItemName : String
  raidItemsType : ItemsType
  itemsBody : List ItemsBody

/-- A setup variable. Its name was put together in an array of `NAME_LENGTH` bytes. -/
structure SetupVar where
  raidVarName : List UInt8
  raidVarGuid : Vector UInt8 16
  raidVarId : UInt16
  raidVarSize : UInt16
  short : raidVarName.length < 128

/-- What is fixed of a card: its items, which point into its form package or are the
command strings that the module has made, and its setup variables. -/
structure Inventory where
  source : List Op
  closed : WellScoped (source.map Op.bytes)
  raidCardInfItems : List ItemsSet
  pointed : ∀ set ∈ raidCardInfItems, set.raidItemsType ≠ .smcCmd →
    ∀ body ∈ set.itemsBody, body.op :: body.rest <:+ source
  commands : ∀ set ∈ raidCardInfItems, set.raidItemsType = .smcCmd →
    ∀ body ∈ set.itemsBody, opCode body.op.bytes = 0x1C ∧ hasScope body.op.bytes = false
  raidSetupVarSet : List SetupVar
  raidCardType : RaidType
  raidCardIndex : UInt8
  hiiString : UInt16 → String

/-- A card with the ids and labels that the functions hand on to each other. -/
structure CardForms extends Inventory where
  smcFormId : UInt16
  smcFormTitleId : UInt16
  changeItemsLabel : UInt16
  hdgLabel : UInt16
  buildCfgLabel : UInt16

/-- What the module gets from outside: the id of a new string, the memory behind an opcode
or a structure, and the types and titles that the loop over the groups of drives meets. -/
structure FormsEnv where
  newString : Nat → String → UInt16
  behind : Memory
  groups : List (ItemsType × String)

/-- How many strings were made, and the counters of the private data. -/
structure Counters where
  strings : Nat
  qIdStart : UInt16
  formIdStart : UInt16
  otherLabelStart : UInt16

/-- A run that fills an items buffer. -/
abbrev Emission := Traced (List UInt8) Counters Empty

end Data

section Items

variable (env : FormsEnv)

/-- `NewHiiString`. -/
def newHiiString (text : String) : Emission UInt16 := do
  let counters ← current
  update (fun counters => { counters with strings := counters.strings + 1 })
  pure (env.newString counters.strings text)

/-- `GetQIdStart`. -/
def getQIdStart : Emission UInt16 := do
  update (fun counters => { counters with qIdStart := counters.qIdStart + 1 })
  let counters ← current
  pure counters.qIdStart

/-- `GetFormIdStart`. -/
def getFormIdStart : Emission UInt16 := do
  update (fun counters => { counters with formIdStart := counters.formIdStart + 1 })
  let counters ← current
  pure counters.formIdStart

/-- `GetOtherLableStart`. -/
def getOtherLableStart : Emission UInt16 := do
  update (fun counters => { counters with otherLabelStart := counters.otherLabelStart + 1 })
  let counters ← current
  pure counters.otherLabelStart

/-- `Cte_Buffer` of a structure. -/
def put (item : List UInt8) : Emission Unit := emit (cteBuffer (memoryOf item env.behind))

/-- The memory of an item of a card. -/
def itemMemory (op : Op) (rest : List Op) : Memory :=
  memoryOf (op.bytes ++ (rest.map Op.bytes).flatten) env.behind

/-- `CreateGuidLabel`. -/
def createGuidLabel (label : UInt16) : List UInt8 :=
  [ifrGuidOp, 21] ++ (ifrTianoGuid ++ (0 :: le16 label.toNat))

/-- A statement header with the same text twice. -/
def statement (prompt : UInt16) : List UInt8 := le16 prompt.toNat ++ le16 prompt.toNat

/-- `CreateSubTitle`. -/
def createSubTitle (text : String) : Emission (List UInt8) := do
  let prompt ← newHiiString env text
  pure ([0x02, 7] ++ (statement prompt ++ [1]))

/-- `CreateEndItem`. -/
def createEndItem : List UInt8 := [ifrEndOp, 2]

/-- Where `MINMAXSTEP_DATA` has its step, and the step 1, by the size of the values. -/
def stepOne (flags : UInt8) : Nat × List UInt8 :=
  if flags &&& 3 = 0 then (2, [1])
  else if flags &&& 3 = 1 then (4, le16 1)
  else if flags &&& 3 = 2 then (8, le32 1)
  else (16, le32 1 ++ le32 0)

/-- `MINMAXSTEP_DATA` with the step set to 1. -/
def minMaxStep (source : Memory) : List UInt8 :=
  let (place, one) := stepOne (source 13)
  bytesOf (overlayAt place one.length (memoryOf one (fun _ => 0)) (shifted 14 source)) 24

/-- A question with the header of the original, a text and a question id of its own. -/
def copyQuestion (name : String) (source : Memory) (varId : UInt16) : Emission (List UInt8) := do
  let prompt ← newHiiString env name
  let qId ← getQIdStart
  pure ([source 0, source 1] ++ (statement prompt ++ (le16 qId.toNat ++ (le16 varId.toNat ++
    ([source 10, source 11, source 12, source 13] ++ minMaxStep source)))))

/-- `CopyOneOfItems`. -/
def copyOneOfItems (name : String) (source : Memory) (varId : UInt16) : Emission (List UInt8) :=
  copyQuestion env name source varId

/-- `CopyOneOfOptionItems`. -/
def copyOneOfOptionItems (card : CardForms) (source : Memory) (defaultFlag : UInt8) :
    Emission (List UInt8) := do
  let option ← newHiiString env (card.hiiString (word16 source 2))
  pure ([source 0, source 1] ++ (le16 option.toNat ++ ([source 4 ||| defaultFlag, source 5] ++
    bytesOf (shifted 6 source) 22)))

/-- `RecurseOneOfOption` over the opcodes behind an opcode. The scope is counted in one
byte, and the scope of an option is not counted. -/
def recurseOneOfOption (card : CardForms) : List Op → UInt8 → UInt8 → Emission Unit
  | [], _, _ => pure ()
  | op :: rest, defaultFlag, oneOfScope =>
    if oneOfScope = 0 then pure ()
    else if opCode op.bytes = 0x09 then do
      let option ← copyOneOfOptionItems env card (itemMemory env op rest) defaultFlag
      put env option
      recurseOneOfOption card rest 0 oneOfScope
    else if opCode op.bytes = ifrEndOp then
      recurseOneOfOption card rest defaultFlag (oneOfScope - 1)
    else if hasScope op.bytes then recurseOneOfOption card rest defaultFlag (oneOfScope + 1)
    else recurseOneOfOption card rest defaultFlag oneOfScope

/-- `EFI_IFR_OPTION_DEFAULT`. -/
def optionDefault : UInt8 := 0x10

/-- The copy of a ONE_OF with its options. The END is put behind it in any case. -/
def insertOneOf (card : CardForms) (set : ItemsSet) (body : ItemsBody) : Emission Unit := do
  let oneOf ← copyOneOfItems env set.lsiItemName (itemMemory env body.op body.rest)
    body.smcLsiVarId
  put env oneOf
  recurseOneOfOption env card body.rest optionDefault (if hasScope body.op.bytes then 1 else 0)
  put env createEndItem

/-- The copy of a STRING. -/
def insertString (set : ItemsSet) (body : ItemsBody) : Emission Unit := do
  let source := itemMemory env body.op body.rest
  let prompt ← newHiiString env set.lsiItemName
  let qId ← getQIdStart
  put env ([0x1C, 16] ++ (statement prompt ++ (le16 qId.toNat ++ (le16 body.smcLsiVarId.toNat ++
    [source 10, source 11, source 12, source 13, source 14, source 15]))))

/-- The least value of a NUMERIC, as eight bytes. -/
def minValue (source : Memory) : List UInt8 :=
  let size := if source 13 &&& 3 = 0 then 1 else if source 13 &&& 3 = 1 then 2
    else if source 13 &&& 3 = 2 then 4 else 8
  bytesOf (shifted 14 source) size ++ List.replicate (8 - size) 0

/-- The copy of a NUMERIC, a DEFAULT, and an END if the opcode is not zero. Only the first
eight bytes of the value of the DEFAULT are set. -/
def insertNumeric (set : ItemsSet) (body : ItemsBody) : Emission Unit := do
  let source := itemMemory env body.op body.rest
  let numeric ← copyQuestion env set.lsiItemName source body.smcLsiVarId
  put env numeric
  put env ([0x5B, 27] ++ (le16 0 ++ ((source 13 &&& 3) :: (minValue source ++
    bytesOf env.behind 14))))
  if opCode body.op.bytes ≠ 0 then put env createEndItem else pure ()

end Items

section Functions

variable (env : FormsEnv) (card : CardForms)

/-- The runs over the bodies of the items of a type. -/
def forItems (type : ItemsType) (insert : ItemsSet → ItemsBody → Emission Unit) :
    Emission Unit :=
  (card.raidCardInfItems.filter (fun set => set.raidItemsType = type)).forM (fun set =>
    set.itemsBody.forM (insert set))

/-- The variable store of a setup variable. Its length is counted in one byte, and seven
bits of it are kept. -/
def varStore (var : SetupVar) : List UInt8 :=
  let varStoreLength := UInt8.ofNat (23 + var.raidVarName.length)
  [0x24, varStoreLength &&& 0x7F] ++ (var.raidVarGuid.toList ++ (le16 var.raidVarId.toNat ++
    (le16 var.raidVarSize.toNat ++ (var.raidVarName ++ [0]))))

/-- The run of `InsertRaidSetupVariable`. -/
def variableItems : Emission Unit :=
  card.raidSetupVarSet.forM (fun var => put env (varStore var))

/-- The names of `SmcLsiRaidNameTable`. -/
def formRaidName : RaidType → String
  | .raid3108 => "AVAGO MegaRAID <AVAGO 3108 MegaRAID>"
  | .raid2208 => "AVAGO MegaRAID <LSI 2208 MegaRAID>"
  | .raidRste => "Intel RSTe SATA Controller"
  | .raid9260 => "UNKNOWN RAID CARD"
  | .raidNull => ""

/-- The run of `InsertRaidSetupFormGoto`, with the id of the title and the form. -/
def formGotoItems : Emission (UInt16 × UInt16) := do
  let text := toString card.raidCardIndex.toNat ++ ". " ++ formRaidName card.raidCardType
  let prompt ← newHiiString env text
  let help ← newHiiString env text
  let qId ← getQIdStart
  let formId ← getFormIdStart
  put env ([0x0F, 15] ++ (le16 prompt.toNat ++ (le16 help.toNat ++ (le16 qId.toNat ++
    (le16 0 ++ (le16 0xFFFF ++ (0x04 :: le16 formId.toNat)))))))
  pure (prompt, formId)

/-- An item of the information form. -/
def informationItem (set : ItemsSet) (body : ItemsBody) : Emission Unit :=
  if opCode body.op.bytes = 0x1C then insertString env set body
  else if opCode body.op.bytes = 0x05 then insertOneOf env card set body
  else if opCode body.op.bytes = 0x07 then insertNumeric env set body
  else pure ()

/-- The run of `InsertRaidSetupFormItems`, with the label for the next one. -/
def formItems : Emission UInt16 := do
  put env ([ifrFormOp, 0x86] ++ (le16 card.smcFormId.toNat ++ le16 card.smcFormTitleId.toNat))
  put env (← createSubTitle env " ==== RAID CARD Informations ==== ")
  forItems card .information (informationItem env card)
  let label ← getOtherLableStart
  put env (createGuidLabel label)
  put env createEndItem
  pure label

/-- The run of `InsertRaidSetupChangeItems`, with the label for the next one. -/
def changeItems : Emission UInt16 := do
  put env (← createSubTitle env " ==== RAID CARD Changedable Items ==== ")
  forItems card .changeable (fun set body =>
    if opCode body.op.bytes = 0x05 then insertOneOf env card set body else pure ())
  let label ← getOtherLableStart
  put env (createGuidLabel label)
  pure label

/-- The text for a drive. -/
def driveItem (type : ItemsType) (body : ItemsBody) : Emission Unit := do
  if opCode body.op.bytes = 0x06 ∨ opCode body.op.bytes = 0x0F then
    if type = .hdg ∨ type = .rdg ∨ type = .jbod then do
      let name := card.hiiString (word16 (itemMemory env body.op body.rest) 2)
      let prompt ← newHiiString env ("Num[" ++ toString body.hdNum.toNat ++ "] :: " ++ name)
      let help ← newHiiString env ""
      put env ([0x03, 8] ++ (le16 prompt.toNat ++ statement help))
    else pure ()
  else pure ()

/-- `CreateRaid_Hdg_Rdg_Jbod_TypeItems`. -/
def createTypeItems (type : ItemsType) (subName : String) : Emission Unit :=
  (card.raidCardInfItems.filter (fun set => set.raidItemsType = type)).forM (fun set => do
    put env (← createSubTitle env (" ---- " ++ subName ++ " Groups :: "))
    set.itemsBody.forM (driveItem env card type))

/-- The run of `InsertRaidSetupHDGItems`, with the label for the next one. -/
def hdgItems : Emission UInt16 := do
  put env (← createSubTitle env " ==== RAID CARD Hard Drives Information ==== ")
  env.groups.forM (fun group => createTypeItems env card group.1 group.2)
  let label ← getOtherLableStart
  put env (createGuidLabel label)
  pure label

/-- A command string with its text. -/
def commandItem (body : ItemsBody) : Emission Unit := do
  let prompt ← newHiiString env body.itemsName
  emit (cteBuffer (overlayAt 2 4 (memoryOf (statement prompt) (fun _ => 0))
    (itemMemory env body.op body.rest)))

/-- The run of `InsertRaidSetupSmcCmdsAndItems`. -/
def smcCmdsItems : Emission Unit := do
  put env (← createSubTitle env " ==== RAID Cfg Commands ==== ")
  forItems card .smcCmd (fun _ body => commandItem env body)

end Functions

section Steps

/-- The setup data of the protocol, and the opcodes that were put into it so far. -/
structure Protocol where
  smcLsiCurrRAIDSetupData : List UInt8
  smcLsiCurrRAIDSetupDataAddedSize : UInt32
  counters : Counters
  inserted : List (List UInt8)

/-- The bytes that a run copies to its items buffer. -/
def itemsBuffer (events : List (List UInt8)) : Checked ItemsMem :=
  events.foldlM copyAndExtMem newItemsMem

/-- Put the items of a run into the setup data at a place. -/
def insertItems {α : Type} (place : Nat) (emission : Emission α) (protocol : Protocol) :
    Checked (α × Protocol) :=
  let ran := emission protocol.counters
  match ran.value with
  | .error impossible => nomatch impossible
  | .ok value => do
    let items ← itemsBuffer ran.events
    let data ← replaceBuffer protocol.smcLsiCurrRAIDSetupData place items.buffer
    .ok (value,
      { smcLsiCurrRAIDSetupData := data
        smcLsiCurrRAIDSetupDataAddedSize :=
          protocol.smcLsiCurrRAIDSetupDataAddedSize + UInt32.ofNat items.buffer.length
        counters := ran.state
        inserted := protocol.inserted ++ ran.events })

/-- The place behind an opcode. -/
def behindOp (data : List UInt8) (place : Nat) : Nat :=
  place + opLength (packageMemory data (place + 1))

/-- What a function leaves. -/
abbrev Loaded := Checked (Status × Protocol × CardForms)

variable (env : FormsEnv)

/-- `InsertRaidSetupVariable`. -/
def insertRaidSetupVariable (protocol : Protocol) (card : CardForms) : Loaded :=
  let data := protocol.smcLsiCurrRAIDSetupData
  match searchOpCodeInFormData data ifrFormSetOp 0 with
  | none => .ok (efiLoadError, protocol, card)
  | some place => do
    let (_, protocol) ← insertItems (behindOp data place) (variableItems env card) protocol
    .ok (efiSuccess, protocol, card)

/-- `SMC_LSI_OOB_FORM_GOTO_LABEL`. -/
def formGoToLabel : UInt16 := 0x1000

/-- `InsertRaidSetupFormGoto`. -/
def insertRaidSetupFormGoto (protocol : Protocol) (card : CardForms) : Loaded :=
  match searchOpCodeInFormData protocol.smcLsiCurrRAIDSetupData ifrGuidOp formGoToLabel with
  | none => .ok (efiLoadError, protocol, card)
  | some place => do
    let ((title, formId), protocol) ← insertItems place (formGotoItems env card) protocol
    .ok (efiSuccess, protocol, { card with smcFormId := formId, smcFormTitleId := title })

/-- `SMC_LSI_OOB_FORM_LABEL`. -/
def formLabel : UInt16 := 0x1500

/-- The card has no form yet. -/
def noForm (card : CardForms) : Bool := card.smcFormId = 0 || card.smcFormTitleId = 0

/-- `InsertRaidSetupFormItems`. -/
def insertRaidSetupFormItems (protocol : Protocol) (card : CardForms) : Loaded :=
  match searchOpCodeInFormData protocol.smcLsiCurrRAIDSetupData ifrFormOp formLabel with
  | none => .ok (efiLoadError, protocol, card)
  | some place =>
    if noForm card then .ok (efiLoadError, protocol, card)
    else do
      let (label, protocol) ← insertItems place (formItems env card) protocol
      .ok (efiSuccess, protocol, { card with changeItemsLabel := label })

/-- What the last three functions share: they go on behind a label of the function before. -/
def insertBehindLabel {α : Type} (label : UInt16) (emission : Emission α)
    (update : α → CardForms → CardForms) (protocol : Protocol) (card : CardForms) : Loaded :=
  if noForm card then .ok (efiNotFound, protocol, card)
  else
    let data := protocol.smcLsiCurrRAIDSetupData
    match searchOpCodeInFormData data ifrGuidOp label with
    | none => .ok (efiNotFound, protocol, card)
    | some place => do
      let (value, protocol) ← insertItems (behindOp data place) emission protocol
      .ok (efiSuccess, protocol, update value card)

/-- `InsertRaidSetupChangeItems`. -/
def insertRaidSetupChangeItems (protocol : Protocol) (card : CardForms) : Loaded :=
  insertBehindLabel card.changeItemsLabel (changeItems env card)
    (fun label card => { card with hdgLabel := label }) protocol card

/-- `InsertRaidSetupHDGItems`. -/
def insertRaidSetupHDGItems (protocol : Protocol) (card : CardForms) : Loaded :=
  insertBehindLabel card.hdgLabel (hdgItems env card)
    (fun label card => { card with buildCfgLabel := label }) protocol card

/-- `InsertRaidSetupSmcCmdsAndItems`. -/
def insertRaidSetupSmcCmdsAndItems (protocol : Protocol) (card : CardForms) : Loaded :=
  insertBehindLabel card.buildCfgLabel (smcCmdsItems env card) (fun _ card => card) protocol card

/-- `mSmcLsiInsideLoadFunc`, the functions that change the setup data. -/
def insideLoadFunc : List (FormsEnv → Protocol → CardForms → Loaded) :=
  [insertRaidSetupVariable, insertRaidSetupFormGoto, insertRaidSetupFormItems,
    insertRaidSetupChangeItems, insertRaidSetupHDGItems, insertRaidSetupSmcCmdsAndItems]

/-- The functions for a card, up to the first one that fails. -/
def loadCard : List (FormsEnv → Protocol → CardForms → Loaded) → Protocol → CardForms → Loaded
  | [], protocol, card => .ok (efiSuccess, protocol, card)
  | func :: funcs, protocol, card => do
    let (status, protocol, card) ← func env protocol card
    if efiError status then .ok (status, protocol, card) else loadCard funcs protocol card

/-- The cards of `SmcLsiRaidLib_AddDynamicItems`, up to the first one that fails. -/
def loadCards : List CardForms → Protocol → Checked (Status × Protocol)
  | [], protocol => .ok (efiSuccess, protocol)
  | card :: cards, protocol =>
    if card.raidCardType = .raidNull then .ok (efiSuccess, protocol)
    else do
      let (status, protocol, _) ← loadCard env insideLoadFunc protocol card
      if efiError status then .ok (status, protocol) else loadCards cards protocol

/-- `EFI_HII_PACKAGE_FORMS`. -/
def packageForms : UInt8 := 0x02

/-- `InitialSmcRaidSetupPageData`, from the packages of the setup page. -/
def initialSmcRaidSetupPageData (packages : List (List UInt8)) (counters : Counters) :
    Checked (Status × Option Protocol) :=
  match packages.find? (fun package => packageType package = packageForms) with
  | none => .ok (efiLoadError, none)
  | some package =>
    if packageLength package ≤ maxHpkListSize then
      .ok (efiSuccess, some ⟨package.take (packageLength package), 0, counters, []⟩)
    else .error .overflow

/-- `SmcLsiRaidLib_AddDynamicItems`, up to the update of the packages. -/
def addDynamicItems (packages : List (List UInt8)) (counters : Counters) (cards : List CardForms) :
    Checked (Status × Option Protocol) := do
  match ← initialSmcRaidSetupPageData packages counters with
  | (status, none) => .ok (status, none)
  | (_, some protocol) =>
    let (status, protocol) ← loadCards env cards protocol
    .ok (status, some protocol)

end Steps

end SmcPkg.SetupForms
