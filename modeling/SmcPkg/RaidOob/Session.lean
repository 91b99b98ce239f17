import SmcPkg.RaidOob.ApplyData
import SmcPkg.RaidOob.BrowserHook
import SmcPkg.RaidOob.CmdExamine
import SmcPkg.RaidOob.CmdExecute

/-!
# Submitting data to the cards

`SmcLsiRaidLib_CollectData` files a submitted variable with its card, and
`SmcLsiRaidLib_HandleData` then takes the cards one after the other through a table
of steps: apply what differs, let the driver act on it, parse the commands that
stand in the submitted variables, and carry them out. What a card holds survives
from call to call. A run writes down every list of commands that is parsed into and
every command that is carried out.
-/

namespace SmcPkg.Session

open RaidCmd VarTable Card CmdExamine ApplyData BrowserHook Traced
open CmdExecute (Driver Machine Call handleBuildRaidCmd handleBuildRaidCmdD handleOtherRaidCmd)

section State

/-- What the module gets from the protocol and the firmware: the fronts of its
variable names, the answers to locate requests, and a bound on the length of a
chain of variables. -/
structure Firmware where
  raidVarName : List UInt8
  smcItemsVarName : List UInt8
  locateProtocol : Nat → Status
  fuel : Nat

/-- `SMC_LSI_HII_HANDLE`: a card with its driver, its variables, its inventory, the
changed variables and records collected for it, and its commands. -/
structure CardState (σ : Type) where
  access : Driver σ
  raidCardType : RaidType
  raidCardInfItems : List ItemsSet
  tables : VarTables
  marks : Marks
  raidCmdSet : List CmdSet
  driver : σ
  generation : Nat

/-- What a step of the table works on. -/
structure Working (σ : Type) where
  card : CardState σ
  browser : Browser

/-- The protocol with its cards and the browser. -/
structure Protocol (σ : Type) where
  cards : List (CardState σ)
  smcLsiHaveNvData : Bool
  browser : Browser

/-- What a run leaves behind for an observer: the commands of a card before and after
parsing with the new ones among them, and a command that is carried out. -/
inductive Event
  | parsed (card : Nat) (raidCardType : RaidType) (before accepted after : List CmdSet)
  | executed (card : Nat) (cmd : CmdSet)
  deriving DecidableEq, Repr

/-- A step on a card. -/
abbrev Step (σ : Type) := Traced Event (Working σ) Fault

variable {σ : Type}

/-- Change the card. -/
def changeCard (change : CardState σ → CardState σ) : Step σ Unit :=
  update (fun working => { working with card := change working.card })

end State

section Apply

variable {σ : Type}

/-- The row `CheckChangeableItemsInChangedVar`. -/
def checkRow (firmware : Firmware) : Step σ Status := do
  let working ← current
  let marks ← lift (checkChangeableItemsInChangedVar firmware.fuel working.card.tables
    working.card.raidCardInfItems working.card.marks)
  changeCard (fun card => { card with marks := marks })
  pure efiSuccess

/-- The row `ChangedVarToOOBVarBuffer`. -/
def copyRow (firmware : Firmware) : Step σ Status := do
  let working ← current
  let tables ← lift (changedVarToOOBVarBuffer firmware.fuel working.card.marks.changed
    working.card.tables)
  changeCard (fun card => { card with tables := tables })
  pure efiSuccess

/-- The row `SmcLsiHookBrowser2Protocol`. -/
def hookRow (firmware : Firmware) : Step σ Status := do
  let working ← current
  let (status, browser) := smcLsiHookBrowser2Protocol firmware.locateProtocol working.browser
  update (fun working => { working with browser := browser })
  pure status

/-- `EFI_IFR_REF_OP`. -/
def efiIfrRefOp : UInt8 := 0x0F

/-- The callback for a record. Only a reference has a type of its own; everything
else is passed as a number of eight bits. -/
def recordCall (record : ChRecord) : Call :=
  ⟨.changing, record.targetQId, if record.targetOpCode = efiIfrRefOp then .ref else .numSize8 0⟩

/-- One round of `AccessRAIDRecordtoChangeSetting`. The status of the callback is
dropped. -/
def accessRecord (record : ChRecord) : Step σ Unit := do
  if record.beAccessed then do
    let working ← current
    if working.card.access.configAccess then
      let (_, driver, tables) := working.card.access.callback (recordCall record)
        working.card.driver working.card.tables
      changeCard (fun card => { card with driver := driver, tables := tables })
    else fail .nullDeref
  else pure ()

/-- The rounds of `AccessRAIDRecordtoChangeSetting`. -/
def accessRecords : List ChRecord → Step σ Unit
  | [] => pure ()
  | record :: records => do
    accessRecord record
    accessRecords records

/-- The row `AccessRAIDRecordtoChangeSetting`. -/
def accessRow : Step σ Status := do
  let working ← current
  accessRecords working.card.marks.records
  pure efiSuccess

end Apply

section Parse

variable {σ : Type}

/-- The wide string at the front of a buffer, up to its terminator. -/
def wideString : List UInt8 → Checked (List UInt16)
  | low :: high :: rest =>
    if low = 0 ∧ high = 0 then .ok []
    else do .ok ((low.toUInt16 ||| high.toUInt16 <<< 8) :: (← wideString rest))
  | _ => .error .overflow

/-- `SMC_RAID_CMD_FORM_STRING`. -/
def smcRaidCmdFormString : String := "CMDFORM"

/-- The string a command item stands for, when its variable is among the changed
ones. A missing variable is dereferenced as soon as there are changed ones. -/
def commandString (fuel : Nat) (card : CardState σ) (op : IfrOp) :
    Checked (Option (List UInt16)) := do
  match ← searchLsiVarById fuel card.tables op.varStoreId with
  | none => if card.marks.changed = [] then .ok none else .error .nullDeref
  | some a =>
    match searchSmcRaidVarInChangedVar card.marks.changed (card.tables.node a) with
    | none => .ok none
    | some _ =>
      match (card.tables.node a).raidVarBuffer with
      | none => .error .nullDeref
      | some p => do .ok (some (← wideString ((card.tables.buffer p).drop op.varOffset)))

/-- The command of an item, if its string is accepted. -/
def parseItem (fuel : Nat) (card : CardState σ) (op : IfrOp) : Checked (Option CmdSet) := do
  match ← commandString fuel card op with
  | none => .ok none
  | some cmdCfgString =>
    match ← analysisAndParseCmdString cmdCfgString with
    | none => .ok none
    | some sections => .ok (some ⟨cmdCfgString, sections, true⟩)

/-- The opcodes of the command items of an inventory. -/
def commandItems (items : List ItemsSet) : List IfrOp :=
  (items.filter (fun set => set.raidItemsType = .smcCmd &&
    set.lsiItemName = smcRaidCmdFormString)).flatMap
      (fun set => set.itemsBody.map ItemsBody.lsiItemOp)

/-- The accepted commands of a card, in the order of their items. -/
def acceptedCommands (fuel : Nat) (card : CardState σ) : List IfrOp → Checked (List CmdSet)
  | [] => .ok []
  | op :: ops => do
    let cmd ← parseItem fuel card op
    let cmds ← acceptedCommands fuel card ops
    .ok (cmd.toList ++ cmds)

/-- Link a new command behind the cursor, which then moves to it. What was linked
there before is no longer reached. -/
def linkCommand (list : List CmdSet × Option Nat) (cmd : CmdSet) : List CmdSet × Option Nat :=
  match list.2 with
  | none => ([cmd], some 0)
  | some cursor => (list.1.take (cursor + 1) ++ [cmd], some (cursor + 1))

/-- Link the accepted commands. The cursor starts at the head of the list. -/
def linkCommands (commands accepted : List CmdSet) : List CmdSet :=
  (accepted.foldl linkCommand (commands, if commands = [] then none else some 0)).1

/-- The row `ParseRaidCfgCmdString`. -/
def parseRow (firmware : Firmware) (index : Nat) : Step σ Status := do
  let working ← current
  let commands := working.card.raidCmdSet
  let accepted ← lift (acceptedCommands firmware.fuel working.card
    (commandItems working.card.raidCardInfItems))
  emit (.parsed index working.card.raidCardType commands accepted (linkCommands commands accepted))
  changeCard (fun card => { card with raidCmdSet := linkCommands commands accepted })
  pure efiSuccess

/-- The row `CollectCfgCmdData`. -/
def collectRow : Step σ Status := do
  let working ← current
  let commands ← lift (collectCfgCmdData (working.card.access.getHiiString working.card.driver)
    working.card.raidCardInfItems working.card.raidCmdSet)
  changeCard (fun card => { card with raidCmdSet := commands })
  pure efiSuccess

/-- The row `ExamineBasicForCmdRequire`. -/
def examineRow : Step σ Status := do
  changeCard (fun card => { card with raidCmdSet := examineBasicForCmdRequire card.raidCmdSet })
  pure efiSuccess

end Parse

section Carry

variable {σ : Type}

/-- `SmcLsiRaidCmdFunctionMapTable`: the function for a specie on a type of card. -/
def raidCmdFunction (raidCardType : RaidType) (specie : CmdSpecie) :
    Option (CmdExecute.Env σ → CmdExecute.Run σ Status) :=
  if raidCardType = .raid3108 ∨ raidCardType = .raid2208 then
    match specie with
    | .build => some handleBuildRaidCmd
    | .delete => some handleBuildRaidCmdD
    | .other => some handleOtherRaidCmd
    | .non => none
  else none

/-- Carry out a command on the card of a step. Its status is dropped. -/
def runFunction (firmware : Firmware) (function : CmdExecute.Env σ → CmdExecute.Run σ Status)
    (cmd : CmdSet) : Step σ CmdSet := fun working =>
  let card := working.card
  let outcome := function ⟨card.access, card.raidCardType, cmd.raidCmdSection, firmware.fuel⟩
    ⟨card.driver, card.tables, card.generation, cmd.cmdEnable⟩
  let card := { card with
    driver := outcome.state.driver
    tables := outcome.state.tables
    generation := outcome.state.generation }
  ⟨[], { working with card := card },
    outcome.value.map (fun _ => { cmd with cmdEnable := outcome.state.cmdEnable })⟩

/-- One round of `HandleRaidCfgCmdString`. -/
def handleCommand (firmware : Firmware) (index : Nat) (cmd : CmdSet) : Step σ CmdSet := do
  let working ← current
  if cmd.cmdEnable then
    match (searchSpecie cmd.raidCmdSection).bind (raidCmdFunction working.card.raidCardType) with
    | none => pure cmd
    | some function => do
      emit (.executed index cmd)
      runFunction firmware function cmd
  else pure cmd

/-- The loop of `HandleRaidCfgCmdString`. -/
def handleCommands (firmware : Firmware) (index : Nat) : List CmdSet → Step σ (List CmdSet)
  | [] => pure []
  | cmd :: commands => do
    let cmd ← handleCommand firmware index cmd
    let commands ← handleCommands firmware index commands
    pure (cmd :: commands)

/-- The row `HandleRaidCfgCmdString`. -/
def handleRow (firmware : Firmware) (index : Nat) : Step σ Status := do
  let working ← current
  let commands ← handleCommands firmware index working.card.raidCmdSet
  changeCard (fun card => { card with raidCmdSet := commands })
  pure efiSuccess

end Carry

section Calls

variable {σ : Type}

/-- The functions of `mSmcLsiInsideChangeFunc`. -/
inductive ChangeFunc
  | initialLsiVarHashTable
  | checkChangeableItemsInChangedVar
  | changedVarToOOBVarBuffer
  | hookBrowser2Protocol
  | accessRAIDRecordtoChangeSetting
  | parseRaidCfgCmdString
  | collectCfgCmdData
  | examineBasicForCmdRequire
  | handleRaidCfgCmdString
  deriving DecidableEq, Repr

/-- `mSmcLsiInsideChangeFunc`. -/
def mSmcLsiInsideChangeFunc : List ChangeFunc :=
  [.initialLsiVarHashTable, .checkChangeableItemsInChangedVar, .changedVarToOOBVarBuffer,
    .hookBrowser2Protocol, .accessRAIDRecordtoChangeSetting, .hookBrowser2Protocol,
    .parseRaidCfgCmdString, .collectCfgCmdData, .examineBasicForCmdRequire,
    .hookBrowser2Protocol, .handleRaidCfgCmdString, .hookBrowser2Protocol]

/-- One row of the table. `InitialLsiVarHashTable` only selects the tables of the
card. -/
def ChangeFunc.func (firmware : Firmware) (index : Nat) : ChangeFunc → Step σ Status
  | .initialLsiVarHashTable => pure efiSuccess
  | .checkChangeableItemsInChangedVar => checkRow firmware
  | .changedVarToOOBVarBuffer => copyRow firmware
  | .hookBrowser2Protocol => hookRow firmware
  | .accessRAIDRecordtoChangeSetting => accessRow
  | .parseRaidCfgCmdString => parseRow firmware index
  | .collectCfgCmdData => collectRow
  | .examineBasicForCmdRequire => examineRow
  | .handleRaidCfgCmdString => handleRow firmware index

/-- The loop over the table, which ends at the first error. -/
def changeRows (firmware : Firmware) (index : Nat) : Status → List ChangeFunc → Step σ Status
  | status, [] => pure status
  | _, row :: rows => do
    let status ← row.func firmware index
    if efiError status then pure status else changeRows firmware index status rows

/-- The table on a card, in a loop that hands the browser on. -/
def onCard (firmware : Firmware) (index : Nat) (status : Status) (card : CardState σ) :
    Traced Event Browser Fault (Status × CardState σ) := fun browser =>
  let outcome := changeRows firmware index status mSmcLsiInsideChangeFunc ⟨card, browser⟩
  ⟨outcome.events, outcome.state.browser,
    outcome.value.map (fun status => (status, outcome.state.card))⟩

/-- The loop of `SmcLsiRaidLib_HandleData` over the cards. -/
def handleCards (firmware : Firmware) :
    Nat → Status → List (CardState σ) → Traced Event Browser Fault (Status × List (CardState σ))
  | _, status, [] => pure (status, [])
  | index, status, card :: cards =>
    if card.raidCardType = .raidNull then pure (status, card :: cards)
    else do
      let (status, card) ← onCard firmware index status card
      if efiError status then pure (status, card :: cards)
      else do
        let (status, cards) ← handleCards firmware (index + 1) status cards
        pure (status, card :: cards)

/-- `SmcLsiRaidLib_HandleData`. -/
def smcLsiRaidLibHandleData (firmware : Firmware) : Traced Event (Protocol σ) Fault Status :=
  fun protocol =>
    if protocol.smcLsiHaveNvData then
      let outcome := handleCards firmware 0 efiSuccess protocol.cards protocol.browser
      match outcome.value with
      | .error fault => ⟨outcome.events, { protocol with browser := outcome.state }, .error fault⟩
      | .ok (status, cards) => ⟨outcome.events, ⟨cards, false, outcome.state⟩, .ok status⟩
    else ⟨[], protocol, .ok efiNotFound⟩

/-- `SearchHiiHandleTableByVarName`: the position of the first card that knows the
variable. The search ends at a card of type RAID_NULL, which is then returned. -/
def searchHiiHandleTableByVarName (fuel : Nat) (name : List UInt8) (guid : Guid) :
    List (CardState σ) → Checked (Option Nat)
  | [] => .ok none
  | card :: cards =>
    if card.raidCardType = .raidNull then .ok (some 0)
    else do
      match ← searchLsiVarByName fuel card.tables name (some guid) with
      | some _ => .ok (some 0)
      | none => do
        .ok ((← searchHiiHandleTableByVarName fuel name guid cards).map (· + 1))

/-- `AsciiStrToUnicodeStr`. -/
def asciiStrToUnicodeStr (name : List UInt8) : List UInt16 := name.map UInt8.toUInt16

/-- A wide name starts with one of the two fronts. -/
def hasFront (firmware : Firmware) (variableName : List UInt16) : Bool :=
  (asciiStrToUnicodeStr firmware.raidVarName).isPrefixOf variableName ||
    (asciiStrToUnicodeStr firmware.smcItemsVarName).isPrefixOf variableName

/-- File a changed variable with a card. -/
def CardState.file (card : CardState σ) (entry : ChangedVar) : CardState σ :=
  { card with marks := { card.marks with changed := card.marks.changed ++ [entry] } }

/-- `SmcLsiRaidLib_CollectData`. The contents are passed with their size. -/
def smcLsiRaidLibCollectData (firmware : Firmware) (variableName : List UInt16)
    (variableGuid : Guid) (variable_ : List UInt8) (protocol : Protocol σ) :
    Checked (Status × Protocol σ) :=
  if !hasFront firmware variableName then .ok (efiUnsupported, protocol)
  else if (unicodeStrToAsciiStr variableName).length ≥ nameLength then .error .overflow
  else do
    let name := unicodeStrToAsciiStr variableName
    match ← searchHiiHandleTableByVarName firmware.fuel name variableGuid protocol.cards with
    | none => .ok (efiNotFound, protocol)
    | some index =>
      match protocol.cards[index]? with
      | none => .ok (efiNotFound, protocol)
      | some card =>
        match ← searchLsiVarByName firmware.fuel card.tables name (some variableGuid) with
        | none => .ok (efiNotFound, protocol)
        | some a =>
          if (card.tables.node a).raidVarSize.toNat ≠ variable_.length then
            .ok (efiNotFound, protocol)
          else
            let entry := ⟨name, variableGuid, variable_, false⟩
            .ok (efiSuccess, { protocol with
              cards := protocol.cards.set index (card.file entry)
              smcLsiHaveNvData := true })

end Calls

section Runs

variable {σ : Type}

/-- A call of the module. -/
inductive Request
  | collectData (variableName : List UInt16) (variableGuid : Guid) (variable_ : List UInt8)
  | handleData

/-- Perform a call. -/
def perform (firmware : Firmware) (request : Request) : Traced Event (Protocol σ) Fault Status :=
  match request with
  | .collectData name guid contents => fun protocol =>
    match smcLsiRaidLibCollectData firmware name guid contents protocol with
    | .error fault => ⟨[], protocol, .error fault⟩
    | .ok (status, later) => ⟨[], later, .ok status⟩
  | .handleData => smcLsiRaidLibHandleData firmware

/-- The events of every call of a run, which ends with a fault. -/
def runCalls (firmware : Firmware) : List Request → Protocol σ → List (List Event)
  | [], _ => []
  | request :: requests, protocol =>
    match perform firmware request protocol with
    | ⟨events, _, .error _⟩ => [events]
    | ⟨events, later, .ok _⟩ => events :: runCalls firmware requests later

end Runs

end SmcPkg.Session
