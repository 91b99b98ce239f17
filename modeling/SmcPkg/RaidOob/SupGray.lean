import SmcPkg.Lib.Bytes
import SmcPkg.RaidOob.Card

/-!
# The suppress and gray-out evaluator

The conditions of a form are expressions in postfix form over a stack of typed values.
Each opcode has a handler in `SuppressifAndGrayOutFuncTable`, which is searched by
halving; a handler takes its operands from the stack or from the questions of the form
and puts its result on the stack.

`OpHeader` and `ExpreStack` in the handlers are read as the parameters `InOpHeader` and
`pExpreStack` of the macro that declares them, and `PopData->data` as `PopData.data`.
-/

namespace SmcPkg.SupGray

open Bytes Card

section Stack

/-- `EFI_IFR_TYPE_…`. -/
def typeNumSize8 : UInt8 := 0
def typeNumSize16 : UInt8 := 1
def typeNumSize32 : UInt8 := 2
def typeNumSize64 : UInt8 := 3
def typeBoolean : UInt8 := 4
def typeString : UInt8 := 7
def typeUndefined : UInt8 := 9

/-- `EFI_IFR_NUMERIC_SIZE`. -/
def numericSize : UInt8 := 3

def efiOutOfResources : Status := errorCode 9

/-- `SMC_RAID_STACK_BODY`. -/
structure StackBody where
  data : UInt64
  dataType : UInt8
deriving DecidableEq

/-- `SMC_RAID_STACK` from the top on, with the number of sets that `AllocatePool` still
    grants. -/
structure ExpreStack where
  bodies : List StackBody
  pool : Nat
deriving DecidableEq

/-- What ends a handler before it returns: a store through a pointer that was not set, a
    division by zero, or a shift by the width of the operand or more. -/
inductive Fault
  | nullStore
  | divideByZero
  | wideShift
deriving DecidableEq

/-- The outcome of a handler: its status and the stack. -/
abbrev Handled := Except Fault (Status × ExpreStack)

/-- `SmcStackPush`: the new set is cleared before the status of `AllocatePool` is seen. -/
def smcStackPush (input : UInt64) (inDataType : UInt8) (stack : ExpreStack) : Handled :=
  match stack.pool with
  | 0 => .error .nullStore
  | pool + 1 => .ok (efiSuccess, ⟨⟨input, inDataType⟩ :: stack.bodies, pool⟩)

/-- `SmcStackPop`. -/
def smcStackPop (stack : ExpreStack) : Except Status (StackBody × ExpreStack) :=
  match stack.bodies with
  | [] => .error efiOutOfResources
  | body :: rest => .ok (body, { stack with bodies := rest })

/-- `POP_CHECK_VALUE`, and what follows it. -/
def popCheckValue (stack : ExpreStack) (next : StackBody → ExpreStack → Handled) : Handled :=
  match smcStackPop stack with
  | .error status => .ok (status, stack)
  | .ok (body, left) => next body left

/-- A push whose status is not read, and the return. -/
def pushAndReturn (input : UInt64) (inDataType : UInt8) (stack : ExpreStack) : Handled := do
  let pushed ← smcStackPush input inDataType stack
  .ok (efiSuccess, pushed.2)

end Stack

section Questions

/-- `ITEMS_QID_HASH_NUM`. -/
def itemsQIdHashNum : UInt16 := 0x2F

/-- `ITEMS_QID_VAL`: what the evaluator reads of a question. -/
structure ItemsQIdVal where
  iqvQId : UInt16
  iqvVId : UInt16
  iqvVOff : UInt16
  iqvFlags : UInt8

/-- The question table with its chains, the buffers of the variables by their id, and the
    memory in which they lie. -/
structure QuestionTable where
  raidLsiItemsQidTable : UInt16 → List ItemsQIdVal
  raidVarBuffer : UInt16 → Option Nat
  memory : Memory

/-- `ItemsQIdHashByQId`. -/
def itemsQIdHashByQId (qId : UInt16) : UInt16 := qId % itemsQIdHashNum

variable (table : QuestionTable)

/-- `SearchItemsQIdValByQId`. -/
def searchItemsQIdValByQId (qId : UInt16) : Option ItemsQIdVal :=
  (table.raidLsiItemsQidTable (itemsQIdHashByQId qId)).find? (·.iqvQId = qId)

/-- `GetQIdValue`: where the value of a question lies. -/
def getQIdValue (qId : UInt16) : Option Nat := do
  let item ← searchItemsQIdValByQId table qId
  let buffer ← table.raidVarBuffer item.iqvVId
  some (buffer + item.iqvVOff.toNat)

/-- The numbers of the four sizes in memory. -/
def numericAt (memory : Memory) (place : Nat) (flags : UInt8) : Option UInt64 :=
  if flags = typeNumSize8 then some (memory place).toUInt64
  else if flags = typeNumSize16 then some (word16 memory place).toUInt64
  else if flags = typeNumSize32 then some (word32 memory place).toUInt64
  else if flags = typeNumSize64 then some (word64 memory place)
  else none

/-- `GetQIdNumericValue`, with `(UINT64)-1` for no value. -/
def getQIdNumericValue (item : ItemsQIdVal) : UInt64 :=
  match getQIdValue table item.iqvQId with
  | none => -1
  | some place => (numericAt table.memory place item.iqvFlags).getD (-1)

end Questions

section OpCodes

/-- `EFI_IFR_…_OP`. -/
def eqIdValOp : UInt8 := 0x12
def eqIdIdOp : UInt8 := 0x13
def eqIdValListOp : UInt8 := 0x14
def andOp : UInt8 := 0x15
def orOp : UInt8 := 0x16
def notOp : UInt8 := 0x17
def equalOp : UInt8 := 0x2F
def notEqualOp : UInt8 := 0x30
def greaterThanOp : UInt8 := 0x31
def greaterEqualOp : UInt8 := 0x32
def lessThanOp : UInt8 := 0x33
def lessEqualOp : UInt8 := 0x34
def bitwiseAndOp : UInt8 := 0x35
def bitwiseOrOp : UInt8 := 0x36
def bitwiseNotOp : UInt8 := 0x37
def shiftLeftOp : UInt8 := 0x38
def shiftRightOp : UInt8 := 0x39
def addOp : UInt8 := 0x3A
def subtractOp : UInt8 := 0x3B
def multiplyOp : UInt8 := 0x3C
def divideOp : UInt8 := 0x3D
def moduloOp : UInt8 := 0x3E
def questionRef1Op : UInt8 := 0x40
def questionRef2Op : UInt8 := 0x41
def uint8Op : UInt8 := 0x42
def uint16Op : UInt8 := 0x43
def uint32Op : UInt8 := 0x44
def uint64Op : UInt8 := 0x45
def trueOp : UInt8 := 0x46
def falseOp : UInt8 := 0x47

end OpCodes

section Handlers

/-- `HANDLE_HII_OPCODE_FUNCTION`: the question table, the bytes from `InOpHeader` on, and the
    stack. -/
abbrev Handler := QuestionTable → Memory → ExpreStack → Handled

/-- `OpCodeFuncEQIDVAL`. -/
def opCodeFuncEqIdVal : Handler := fun table inOpHeader stack =>
  let questionId := word16 inOpHeader 2
  match searchItemsQIdValByQId table questionId with
  | none => .ok (efiNotFound, stack)
  | some item =>
    if item.iqvFlags > numericSize then pushAndReturn 0 typeUndefined stack
    else
      match getQIdValue table questionId with
      | none => .ok (efiNotFound, stack)
      | some place =>
        pushAndReturn (word16 inOpHeader 4 == word16 table.memory place).toUInt64 typeBoolean stack

/-- `OpCodeFuncEQIDID`. -/
def opCodeFuncEqIdId : Handler := fun table inOpHeader stack =>
  match searchItemsQIdValByQId table (word16 inOpHeader 2),
    searchItemsQIdValByQId table (word16 inOpHeader 4) with
  | some item1, some item2 =>
    if (item1.iqvFlags > numericSize ∨ item2.iqvFlags > numericSize) ∧
        item1.iqvFlags ≠ item2.iqvFlags then
      pushAndReturn 0 typeUndefined stack
    else if item1.iqvFlags ≤ numericSize then
      let value1 := getQIdNumericValue table item1
      let value2 := getQIdNumericValue table item2
      if value1 = -1 ∨ value2 = -1 then .ok (efiNotFound, stack)
      else pushAndReturn (value1 == value2).toUInt64 typeBoolean stack
    -- Not handled yet, the source says here.
    else .ok (efiSuccess, stack)
  | _, _ => .ok (efiNotFound, stack)

/-- `OpCodeFuncEQIDVALLIST`. -/
def opCodeFuncEqIdValList : Handler := fun table inOpHeader stack =>
  match getQIdValue table (word16 inOpHeader 2) with
  | none => .ok (efiNotFound, stack)
  | some place =>
    let searchFind := (List.range (word16 inOpHeader 4).toNat).any fun valIndex =>
      word16 table.memory place == word16 inOpHeader (6 + 2 * valIndex)
    pushAndReturn searchFind.toUInt64 typeBoolean stack

/-- `OpCodeFuncAND_OR`. -/
def opCodeFuncAndOr : Handler := fun _ inOpHeader stack =>
  popCheckValue stack fun and1 stack =>
  popCheckValue stack fun and2 stack =>
    if and1.dataType ≠ typeBoolean ∨ and1.dataType ≠ typeBoolean then
      pushAndReturn 0 typeUndefined stack
    else
      let tempResult :=
        if inOpHeader 0 = andOp then and1.data ≠ 0 && and2.data ≠ 0
        else if inOpHeader 0 = orOp then and1.data ≠ 0 || and2.data ≠ 0
        else false
      pushAndReturn tempResult.toUInt64 typeBoolean stack

/-- `OpCodeFuncNOT`. -/
def opCodeFuncNot : Handler := fun _ _ stack =>
  popCheckValue stack fun and1 stack => do
    let checked ←
      if and1.dataType ≠ typeBoolean then smcStackPush 0 typeUndefined stack
      else .ok (efiSuccess, stack)
    pushAndReturn (and1.data == 0).toUInt64 typeBoolean checked.2

/-- A type that the comparisons take. -/
def comparable (dataType : UInt8) : Bool :=
  dataType = typeBoolean || dataType = typeString || dataType ≤ numericSize

/-- `OpCodeFuncEQ_SERIALIZE`. -/
def opCodeFuncEqSerialize : Handler := fun _ inOpHeader stack =>
  popCheckValue stack fun rightVal stack =>
  popCheckValue stack fun leftVal stack =>
    let opCode := inOpHeader 0
    if !comparable rightVal.dataType || !comparable leftVal.dataType then
      pushAndReturn 0 typeUndefined stack
    else if rightVal.dataType ≠ leftVal.dataType then pushAndReturn 0 typeUndefined stack
    else if opCode = equalOp then
      pushAndReturn (leftVal.data == rightVal.data).toUInt64 typeBoolean stack
    else if opCode = notEqualOp then
      pushAndReturn (leftVal.data != rightVal.data).toUInt64 typeBoolean stack
    else if opCode = greaterThanOp then
      pushAndReturn (decide (leftVal.data > rightVal.data)).toUInt64 typeBoolean stack
    else if opCode = greaterEqualOp then
      pushAndReturn (decide (leftVal.data ≥ rightVal.data)).toUInt64 typeBoolean stack
    else if opCode = lessThanOp then
      pushAndReturn (decide (leftVal.data < rightVal.data)).toUInt64 typeBoolean stack
    else if opCode = lessEqualOp then
      pushAndReturn (decide (leftVal.data ≤ rightVal.data)).toUInt64 typeBoolean stack
    else .ok (efiSuccess, stack)

/-- The handlers that take two numbers to a third, which may fail. -/
def numericHandler (tempData : UInt8 → UInt64 → UInt64 → Except Fault UInt64) : Handler :=
  fun _ inOpHeader stack =>
    popCheckValue stack fun rightVal stack =>
    popCheckValue stack fun leftVal stack =>
      if rightVal.dataType > numericSize ∨ leftVal.dataType > numericSize then
        pushAndReturn 0 typeUndefined stack
      else do
        let data ← tempData (inOpHeader 0) leftVal.data rightVal.data
        pushAndReturn data typeNumSize64 stack

/-- `OpCodeFuncBITWISE_AND_OR`. -/
def opCodeFuncBitwiseAndOr : Handler :=
  numericHandler fun opCode left right =>
    if opCode = bitwiseAndOp then .ok (left &&& right)
    else if opCode = bitwiseOrOp then .ok (left ||| right)
    else .ok 0

/-- `OpCodeFuncSHIFT_LEFT_RIGHT`. -/
def opCodeFuncShiftLeftRight : Handler :=
  numericHandler fun opCode left right =>
    if opCode = shiftLeftOp then
      if right < 64 then .ok (left <<< right) else .error .wideShift
    else if opCode = shiftRightOp then
      if right < 64 then .ok (left >>> right) else .error .wideShift
    else .ok 0

/-- `OpCodeFuncADD_SUB_MULTI_DIV_MOD`. -/
def opCodeFuncAddSubMultiDivMod : Handler :=
  numericHandler fun opCode left right =>
    if opCode = addOp then .ok (left + right)
    else if opCode = subtractOp then .ok (left - right)
    else if opCode = multiplyOp then .ok (right * left)
    else if opCode = divideOp then
      if right = 0 then .error .divideByZero else .ok (left / right)
    else if opCode = moduloOp then
      if right = 0 then .error .divideByZero else .ok (left % right)
    else .ok 0

/-- `OpCodeFuncSub_QUESTION_REF`. A string is pushed as the lower half of its address. -/
def opCodeFuncSubQuestionRef (table : QuestionTable) (qId : UInt16) (stack : ExpreStack) :
    Handled :=
  match searchItemsQIdValByQId table qId with
  | none => pushAndReturn 0 typeUndefined stack
  | some item =>
    match getQIdValue table item.iqvQId with
    | none => pushAndReturn 0 typeUndefined stack
    | some place =>
      match numericAt table.memory place item.iqvFlags with
      | some value => pushAndReturn value item.iqvFlags stack
      | none =>
        if item.iqvFlags = typeString then
          pushAndReturn (UInt32.ofNat place).toUInt64 typeString stack
        else pushAndReturn 0 typeUndefined stack

/-- `OpCodeFuncQUESTION_REF2`. -/
def opCodeFuncQuestionRef2 : Handler := fun table _ stack =>
  popCheckValue stack fun popData stack =>
    if popData.dataType > numericSize ∨ popData.data > 0xFFFF then
      pushAndReturn 0 typeUndefined stack
    else opCodeFuncSubQuestionRef table popData.data.toUInt16 stack

/-- `OpCodeFuncQUESTION_REF1`. -/
def opCodeFuncQuestionRef1 : Handler := fun table inOpHeader stack =>
  opCodeFuncSubQuestionRef table (word16 inOpHeader 2) stack

/-- `OpCodeFuncU8_U16_U32_U64`. -/
def opCodeFuncU8U16U32U64 : Handler := fun _ inOpHeader stack =>
  let opCode := inOpHeader 0
  if opCode = uint8Op then smcStackPush (inOpHeader 2).toUInt64 typeNumSize8 stack
  else if opCode = uint16Op then smcStackPush (word16 inOpHeader 2).toUInt64 typeNumSize16 stack
  else if opCode = uint32Op then smcStackPush (word32 inOpHeader 2).toUInt64 typeNumSize32 stack
  else if opCode = uint64Op then smcStackPush (word64 inOpHeader 2) typeNumSize64 stack
  else .ok (efiSuccess, stack)

/-- `OpCodeFuncBITWISE_NOT`. -/
def opCodeFuncBitwiseNot : Handler := fun _ _ stack =>
  popCheckValue stack fun rightVal stack =>
    if rightVal.dataType > numericSize then pushAndReturn 0 typeUndefined stack
    else pushAndReturn (~~~rightVal.data) typeNumSize64 stack

/-- `OpCodeFuncTRUE_FALSE`. -/
def opCodeFuncTrueFalse : Handler := fun _ inOpHeader stack =>
  smcStackPush (inOpHeader 0 == trueOp).toUInt64 typeBoolean stack

end Handlers

section Search

/-- `HII_OPCODE_FUNCTIONS`. -/
structure HiiOpcodeFunctions where
  opCode : UInt8
  handleHiiOpCodeFunc : Handler

/-- `SuppressifAndGrayOutFuncTable`. -/
def suppressifAndGrayOutFuncTable : List HiiOpcodeFunctions :=
  [⟨eqIdValOp, opCodeFuncEqIdVal⟩,
    ⟨eqIdIdOp, opCodeFuncEqIdId⟩,
    ⟨eqIdValListOp, opCodeFuncEqIdValList⟩,
    ⟨andOp, opCodeFuncAndOr⟩,
    ⟨orOp, opCodeFuncAndOr⟩,
    ⟨notOp, opCodeFuncNot⟩,
    ⟨equalOp, opCodeFuncEqSerialize⟩,
    ⟨notEqualOp, opCodeFuncEqSerialize⟩,
    ⟨greaterThanOp, opCodeFuncEqSerialize⟩,
    ⟨greaterEqualOp, opCodeFuncEqSerialize⟩,
    ⟨lessThanOp, opCodeFuncEqSerialize⟩,
    ⟨lessEqualOp, opCodeFuncEqSerialize⟩,
    ⟨bitwiseAndOp, opCodeFuncBitwiseAndOr⟩,
    ⟨bitwiseOrOp, opCodeFuncBitwiseAndOr⟩,
    ⟨bitwiseNotOp, opCodeFuncBitwiseNot⟩,
    ⟨shiftLeftOp, opCodeFuncShiftLeftRight⟩,
    ⟨shiftRightOp, opCodeFuncShiftLeftRight⟩,
    ⟨addOp, opCodeFuncAddSubMultiDivMod⟩,
    ⟨subtractOp, opCodeFuncAddSubMultiDivMod⟩,
    ⟨multiplyOp, opCodeFuncAddSubMultiDivMod⟩,
    ⟨divideOp, opCodeFuncAddSubMultiDivMod⟩,
    ⟨moduloOp, opCodeFuncAddSubMultiDivMod⟩,
    ⟨questionRef1Op, opCodeFuncQuestionRef1⟩,
    ⟨questionRef2Op, opCodeFuncQuestionRef2⟩,
    ⟨uint8Op, opCodeFuncU8U16U32U64⟩,
    ⟨uint16Op, opCodeFuncU8U16U32U64⟩,
    ⟨uint32Op, opCodeFuncU8U16U32U64⟩,
    ⟨uint64Op, opCodeFuncU8U16U32U64⟩,
    ⟨trueOp, opCodeFuncTrueFalse⟩,
    ⟨falseOp, opCodeFuncTrueFalse⟩]

/-- `SearchHiiOpCodeFunc` between two places of a table. -/
def searchHiiOpCodeFunc (table : List HiiOpcodeFunctions) (opCode : UInt8)
    (tableStartIndex tableEndIndex : Nat) (ordered : tableStartIndex ≤ tableEndIndex) :
    Option Handler :=
  let tableSearchIndex := (tableStartIndex + tableEndIndex) / 2
  match table[tableSearchIndex]? with
  | none => none
  | some entry =>
    if entry.opCode = opCode then some entry.handleHiiOpCodeFunc
    else if stop : tableSearchIndex = tableEndIndex ∨ tableSearchIndex = tableStartIndex then none
    else if entry.opCode > opCode then
      searchHiiOpCodeFunc table opCode (tableSearchIndex + 1) tableEndIndex (by omega)
    else searchHiiOpCodeFunc table opCode tableStartIndex tableSearchIndex (by omega)
termination_by tableEndIndex - tableStartIndex

/-- The search as the evaluator makes it, over the whole table. -/
def handlerFound (opCode : UInt8) : Option Handler :=
  searchHiiOpCodeFunc suppressifAndGrayOutFuncTable opCode 0 29 (by decide)

end Search

end SmcPkg.SupGray
