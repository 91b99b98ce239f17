import SmcPkg.RaidOob.Session

/-!
# Setup variables of the cards

Every variable store that a question of a card belongs to is shown to the outside as
a setup variable. Its name is put together from a fixed front, the name of the
store, the type of the card and the index of the card among the cards of its type;
all setup variables share one GUID. A further variable of every card holds its
commands. The card of a variable that comes back is found by its name.

Allocations are assumed to succeed. The counters of the cards have eight bits and go round.
-/

namespace SmcPkg.SetupVars

open CString RaidCmd VarTable Card ApplyData BrowserHook Session

section Names

/-- `FOR_RAID_ITEMS_VAR_NAME`. -/
def forRaidItemsVarName : List UInt8 := ascii ['S', 'M', 'C', 'R']

/-- `FOR_SMC_ITEMS_VAR_NAME`. -/
def forSmcItemsVarName : List UInt8 :=
  ascii ['S', 'M', 'C', 'W', '_', 'I', 'T', 'E', 'M', 'S', '_', 'V', 'A', 'R']

/-- The values of `SMC_LSI_RAID_TYPE`. -/
def typeCode : RaidType → UInt8
  | .raid3108 => 0
  | .raid9260 => 1
  | .raid2208 => 2
  | .raidRste => 3
  | .raidNull => 0xFF

/-- A hexadecimal digit. -/
def hexDigit (value : UInt8) : UInt8 :=
  if value < 10 then char8 '0' + value else char8 'a' + (value - 10)

/-- `%x` of a number below 256. -/
def hex (value : UInt8) : List UInt8 :=
  if value < 16 then [hexDigit value] else [hexDigit (value / 16), hexDigit (value % 16)]

/-- The end of a setup name, `_%x_%x`. -/
def cardSuffix (raidCardType : RaidType) (index : UInt8) : List UInt8 :=
  char8 '_' :: hex (typeCode raidCardType) ++ char8 '_' :: hex index

/-- The name of a setup variable, `%s_%s_%x_%x`. -/
def raidItemsVarName (raidCardType : RaidType) (index : UInt8) (name : List UInt8) : List UInt8 :=
  forRaidItemsVarName ++ char8 '_' :: name ++ cardSuffix raidCardType index

/-- The name of the variable for commands, `%s_%x_%x`. -/
def smcItemsVarName (raidCardType : RaidType) (index : UInt8) : List UInt8 :=
  forSmcItemsVarName ++ cardSuffix raidCardType index

/-- The static counters of `GetRaidIndex`. -/
structure Counters where
  raid3108Index : UInt8
  raid9260Index : UInt8
  raid2208Index : UInt8
  deriving DecidableEq, Repr

/-- `GetRaidIndex`. A type without a counter always has index 0. -/
def getRaidIndex (raidCardType : RaidType) (counters : Counters) : UInt8 × Counters :=
  match raidCardType with
  | .raid3108 =>
    (counters.raid3108Index, { counters with raid3108Index := counters.raid3108Index + 1 })
  | .raid9260 =>
    (counters.raid9260Index, { counters with raid9260Index := counters.raid9260Index + 1 })
  | .raid2208 =>
    (counters.raid2208Index, { counters with raid2208Index := counters.raid2208Index + 1 })
  | _ => (0, counters)

end Names

section Build

variable {σ : Type}

/-- A card with its index and its setup variables, `RaidSetupVarSet`. -/
structure SetupCard (σ : Type) where
  state : CardState σ
  raidCardIndex : UInt8
  raidSetupVarSet : List RaidVar

/-- `AddSmcLsiHiiHandle` for cards one after the other. -/
def addSmcLsiHiiHandles : Counters → List (CardState σ) → List (SetupCard σ)
  | _, [] => []
  | counters, card :: cards =>
    let (index, counters) := getRaidIndex card.raidCardType counters
    ⟨card, index, []⟩ :: addSmcLsiHiiHandles counters cards

/-- What the module gets from its private data: the GUID of its variables, and a
bound on the length of a chain of variables. -/
structure SetupEnv where
  varGuid : Guid
  fuel : Nat

/-- The counters `VarIdStart` and `QIdStart`. -/
structure Starts where
  varIdStart : UInt16
  qIdStart : UInt16
  deriving DecidableEq, Repr

/-- What the two functions change: the variables of the card, its setup variables, the
`SmcLsiVarId` given to its items so far, its inventory, and the counters. -/
structure Setup where
  tables : VarTables
  raidSetupVarSet : List RaidVar
  assigned : List UInt16
  items : List ItemsSet
  starts : Starts

/-- The opcodes of an inventory. -/
def itemOps (items : List ItemsSet) : List IfrOp :=
  items.flatMap (fun set => set.itemsBody.map ItemsBody.lsiItemOp)

/-- Use a setup variable for an item, and make it if it is not there yet. The pool
is taken to have room. -/
def takeSetupVar (env : SetupEnv) (name : List UInt8) (store : RaidVar) (setup : Setup) :
    Checked Setup := do
  match ← searchLsiVarByName env.fuel setup.tables name (some env.varGuid) with
  | some c =>
    .ok { setup with assigned := setup.assigned ++ [(setup.tables.node c).raidVarId] }
  | none =>
    let varId := setup.starts.varIdStart + 1
    match ← addLsiVarByBuffer2 env.fuel ⟨name, env.varGuid, varId, store.raidVarSize, true⟩
        store.raidVarBuffer setup.tables with
    | (.failed _, _) => .error .nullDeref
    | (.added c, tables) =>
      .ok { setup with
        tables := tables
        raidSetupVarSet := setup.raidSetupVarSet ++ [tables.node c]
        assigned := setup.assigned ++ [(tables.node c).raidVarId]
        starts := { setup.starts with varIdStart := varId } }

/-- The loop of `SmcLsiSetSmcLsiVariableTable` over the opcodes of the items, with the
list of setup variables empty at its start. References are passed over, and an item
of an unknown store ends the loop with EFI_NOT_FOUND. -/
def setSmcLsiVariableTable (env : SetupEnv) (raidCardType : RaidType) (index : UInt8) :
    List IfrOp → Setup → Checked (Status × Setup)
  | [], setup => .ok (efiSuccess, setup)
  | op :: ops, setup =>
    if op.opCode = .ref then setSmcLsiVariableTable env raidCardType index ops setup
    else do
      match ← searchLsiVarById env.fuel setup.tables op.varStoreId with
      | none => .ok (efiNotFound, setup)
      | some r =>
        let store := setup.tables.node r
        let name := raidItemsVarName raidCardType index store.raidVarName
        if name.length ≥ nameLength then .error .overflow
        else do
          let setup ← takeSetupVar env name store setup
          setSmcLsiVariableTable env raidCardType index ops setup

/-- `SMC_ITEM_CMD_STRING_SIZE`. -/
def smcItemCmdStringSize : Nat := 255

/-- `GetSmcRaidCmdOffset`: where the three command strings stand. -/
def smcRaidCmdOffset : List Nat :=
  [0, 2 * smcItemCmdStringSize, 4 * smcItemCmdStringSize]

/-- `GetSmcRaidVarSize`, the size of `SMC_ITEMS_VAR_DATA`. -/
def smcRaidVarSize : Nat := 6 * smcItemCmdStringSize + 128

/-- A command string that holds a pair of braces. -/
def emptyCommand : List UInt8 :=
  [char8 '\x7b', 0, char8 '\x7d', 0] ++ List.replicate (2 * smcItemCmdStringSize - 4) 0

/-- The contents of a new variable for commands. -/
def newCommands : List UInt8 :=
  emptyCommand ++ emptyCommand ++ emptyCommand ++ List.replicate 128 0

/-- A new buffer with the given contents. -/
def allocatePool (tables : VarTables) (bytes : List UInt8) : Nat × VarTables :=
  (tables.buffers, { tables with
    buffer := Function.update tables.buffer tables.buffers bytes
    buffers := tables.buffers + 1 })

/-- The items for the command strings. -/
def commandBodies (varId : UInt16) : UInt16 → List Nat → List ItemsBody
  | _, [] => []
  | qId, offset :: offsets =>
    ⟨varId, 0, ⟨.string, 0, qId + 1, varId, offset, 0, 0, 0, 0⟩⟩ ::
      commandBodies varId (qId + 1) offsets

/-- `SmcLsiCreateSmcRaidVarAndItems`. Its outcome is always EFI_SUCCESS. -/
def createSmcRaidVarAndItems (env : SetupEnv) (raidCardType : RaidType) (index : UInt8)
    (setup : Setup) : Checked Setup :=
  if setup.items = [] ∨ setup.raidSetupVarSet = [] then .ok setup
  else do
    let (pool, tables) := allocatePool setup.tables newCommands
    let varId := setup.starts.varIdStart + 1
    match ← addLsiVarByBuffer2 env.fuel ⟨smcItemsVarName raidCardType index, env.varGuid, varId,
        UInt16.ofNat smcRaidVarSize, true⟩ (some pool) tables with
    | (.failed _, tables) =>
      .ok { setup with tables := tables, starts := { setup.starts with varIdStart := varId } }
    | (.added c, tables) =>
      let var := tables.node c
      .ok { setup with
        tables := tables
        raidSetupVarSet := setup.raidSetupVarSet ++ [var]
        items := setup.items ++ [⟨smcRaidCmdFormString, smcRaidCmdFormString, .smcCmd,
          commandBodies var.raidVarId setup.starts.qIdStart smcRaidCmdOffset⟩]
        starts := ⟨varId, setup.starts.qIdStart + 3⟩ }

/-- The state of the two functions before a card. -/
def Setup.start (card : CardState σ) (starts : Starts) : Setup :=
  ⟨card.tables, [], [], card.raidCardInfItems, starts⟩

/-- A card after the two functions. -/
def SetupCard.finish (card : SetupCard σ) (setup : Setup) : SetupCard σ :=
  ⟨{ card.state with tables := setup.tables, raidCardInfItems := setup.items },
    card.raidCardIndex, setup.raidSetupVarSet⟩

/-- The rows `SmcLsiSetSmcLsiVariableTable` and `SmcLsiCreateSmcRaidVarAndItems` of the
download of the cards. -/
def setUpCards (env : SetupEnv) : Starts → List (SetupCard σ) → Checked (List (SetupCard σ))
  | _, [] => .ok []
  | starts, card :: cards =>
    if card.state.raidCardType = .raidNull then .ok (card :: cards)
    else do
      let (status, setup) ← setSmcLsiVariableTable env card.state.raidCardType card.raidCardIndex
        (itemOps card.state.raidCardInfItems) (Setup.start card.state starts)
      if efiError status then .ok (card.finish setup :: cards)
      else do
        let setup ← createSmcRaidVarAndItems env card.state.raidCardType card.raidCardIndex setup
        .ok (card.finish setup :: (← setUpCards env setup.starts cards))

end Build

section Enumerate

variable {σ : Type}

/-- What `SmcLsiRaidLib_ParseNvData` hands out, with the position of its card. -/
structure NvData where
  card : Nat
  smcRaidVarName : List UInt16
  smcRaidVarGuid : Guid
  smcRaidVarBuffer : List UInt8
  deriving DecidableEq

/-- The static variables of `SmcLsiRaidLib_ParseNvData` and the current card: the cards
still to come with their positions, and the setup variables still to be handed out
with the card they belong to. -/
structure NvCursor (σ : Type) where
  reNewVar : Bool
  cards : List (Nat × SetupCard σ)
  vars : List (Nat × CardState σ × RaidVar)

/-- The setup variables of a card. -/
def nvVars (card : Nat × SetupCard σ) : List (Nat × CardState σ × RaidVar) :=
  card.2.raidSetupVarSet.map (fun var => (card.1, card.2.state, var))

/-- The search for the next card that has setup variables. -/
def nextVars : List (Nat × SetupCard σ) →
    List (Nat × CardState σ × RaidVar) × List (Nat × SetupCard σ)
  | [] => ([], [])
  | card :: cards => if nvVars card = [] then nextVars cards else (nvVars card, cards)

/-- The bytes of a setup variable. -/
def readVar (tables : VarTables) (var : RaidVar) : Checked (List UInt8) :=
  match var.raidVarBuffer with
  | none => .error .nullDeref
  | some p =>
    if (tables.buffer p).length < var.raidVarSize.toNat then .error .overflow
    else .ok ((tables.buffer p).take var.raidVarSize.toNat)

/-- `SmcLsiRaidLib_ParseNvData`, without the argument that starts over. The size is the
length of the buffer, and EFI_NO_MEDIA is `none`. -/
def smcLsiRaidLibParseNvData (cards : List (SetupCard σ)) (cursor : NvCursor σ) :
    Checked (Option NvData × NvCursor σ) :=
  let cursor := if cursor.reNewVar then ⟨true, cards.zipIdx.map Prod.swap, []⟩ else cursor
  let (vars, rest) := if cursor.vars = [] then nextVars cursor.cards else (cursor.vars, cursor.cards)
  match vars with
  | [] => .ok (none, ⟨true, rest, []⟩)
  | (index, card, var) :: vars => do
    let bytes ← readVar card.tables var
    .ok (some ⟨index, asciiStrToUnicodeStr var.raidVarName, var.raidVarGuid, bytes⟩, ⟨false, rest, vars⟩)

/-- What a number of calls one after the other hand out. -/
def parseNvCalls (cards : List (SetupCard σ)) : Nat → NvCursor σ → Checked (List NvData)
  | 0, _ => .ok []
  | calls + 1, cursor => do
    let (data, cursor) ← smcLsiRaidLibParseNvData cards cursor
    match data with
    | none => .ok []
    | some data => do .ok (data :: (← parseNvCalls cards calls cursor))

end Enumerate

end SmcPkg.SetupVars
