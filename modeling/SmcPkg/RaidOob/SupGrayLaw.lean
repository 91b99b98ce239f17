import SmcPkg.RaidOob.SupGray

/-!
# Stack discipline of the evaluator

An operator has a fixed number of operands on the stack and accepts operands of certain
types. A handler keeps the discipline if it fails, or takes these operands and leaves one
result for them, of no type where an operand has a type that is not accepted.

Each handler is compared with its operator here, and the search of the table with the
table: halved into the wrong part, it finds the entry in the middle and no other.
-/

namespace SmcPkg.SupGray

open Bytes Card

section Purpose

inductive Operator
  | eqIdVal
  | eqIdId
  | eqIdValList
  | logic
  | negation
  | comparison
  | word
  | complement
  | shift
  | sum
  | division
  | questionRef1
  | questionRef2
  | constant
deriving DecidableEq

/-- The operator of an opcode of the table. -/
def operatorOf (opCode : UInt8) : Operator :=
  if opCode = eqIdValOp then .eqIdVal
  else if opCode = eqIdIdOp then .eqIdId
  else if opCode = eqIdValListOp then .eqIdValList
  else if opCode ∈ [andOp, orOp] then .logic
  else if opCode = notOp then .negation
  else if opCode ∈
      [equalOp, notEqualOp, greaterThanOp, greaterEqualOp, lessThanOp, lessEqualOp] then
    .comparison
  else if opCode ∈ [bitwiseAndOp, bitwiseOrOp] then .word
  else if opCode = bitwiseNotOp then .complement
  else if opCode ∈ [shiftLeftOp, shiftRightOp] then .shift
  else if opCode ∈ [addOp, subtractOp, multiplyOp] then .sum
  else if opCode ∈ [divideOp, moduloOp] then .division
  else if opCode = questionRef1Op then .questionRef1
  else if opCode = questionRef2Op then .questionRef2
  else .constant

/-- The number of operands on the stack. -/
def Operator.operands : Operator → Nat
  | .eqIdVal | .eqIdId | .eqIdValList | .questionRef1 | .constant => 0
  | .negation | .complement | .questionRef2 => 1
  | .logic | .comparison | .word | .shift | .sum | .division => 2

/-- The types that an operator accepts. -/
def Operator.accepts : Operator → UInt8 → Bool
  | .logic | .negation => fun dataType => dataType = typeBoolean
  | .comparison => comparable
  | .questionRef1 => fun dataType => dataType ≤ numericSize || dataType = typeString
  | _ => fun dataType => dataType ≤ numericSize

variable (table : QuestionTable) (inOpHeader : Memory)

/-- The type of a question, where there is one. -/
def questionType (qId : UInt16) : List UInt8 :=
  (searchItemsQIdValByQId table qId).toList.map (·.iqvFlags)

/-- The types of the operands, on the stack or among the questions. -/
def operandTypes (bodies : List StackBody) : Operator → List UInt8
  | .eqIdVal | .eqIdValList | .questionRef1 => questionType table (word16 inOpHeader 2)
  | .eqIdId =>
    questionType table (word16 inOpHeader 2) ++ questionType table (word16 inOpHeader 4)
  | operator => (bodies.take operator.operands).map (·.dataType)

/-- An operand has a type that is not accepted. -/
def Rejected (bodies : List StackBody) (operator : Operator) : Prop :=
  ∃ dataType ∈ operandTypes table inOpHeader bodies operator, ¬ operator.accepts dataType

/-- One result for a number of operands, of no type if one is rejected, or an error. -/
def Kept (operands : Nat) (rejected : Prop) (bodies : List StackBody) : Handled → Prop
  | .error _ => False
  | .ok (status, left) => efiError status ∨ operands ≤ bodies.length ∧
      ∃ result, left.bodies = result :: bodies.drop operands ∧
        (rejected → result.dataType = typeUndefined)

/-- What a handler does for an operator. -/
def Disciplined (operator : Operator) (stack : ExpreStack) (handler : Handler) : Prop :=
  Kept operator.operands (Rejected table inOpHeader stack.bodies operator) stack.bodies
    (handler table inOpHeader stack)

end Purpose

section Conditions

variable (table : QuestionTable) (inOpHeader : Memory)

/-- Nothing can be computed: an operand is missing, or a question, or its value. -/
def Missing (bodies : List StackBody) : Operator → Prop
  | .eqIdVal =>
    match searchItemsQIdValByQId table (word16 inOpHeader 2) with
    | none => True
    | some item =>
      item.iqvFlags ≤ numericSize ∧ getQIdValue table (word16 inOpHeader 2) = none
  | .eqIdId =>
    match searchItemsQIdValByQId table (word16 inOpHeader 2),
      searchItemsQIdValByQId table (word16 inOpHeader 4) with
    | some item1, some item2 =>
      item1.iqvFlags ≤ numericSize ∧ item2.iqvFlags ≤ numericSize ∧
        (getQIdNumericValue table item1 = -1 ∨ getQIdNumericValue table item2 = -1)
    | _, _ => True
  | .eqIdValList => getQIdValue table (word16 inOpHeader 2) = none
  | operator => bodies.length < operator.operands

/-- What the handlers do not look at: for a list of values the type of the question, for two
    questions that both are no numbers, for AND and OR the type of the second operand, for
    NOT what to do with another type, the width of a shift and the divisor. -/
def Suitable (bodies : List StackBody) : Operator → Prop
  | .eqIdId =>
    ∀ item1 ∈ searchItemsQIdValByQId table (word16 inOpHeader 2),
      ∀ item2 ∈ searchItemsQIdValByQId table (word16 inOpHeader 4),
        item1.iqvFlags = item2.iqvFlags → item1.iqvFlags ≤ numericSize
  | .eqIdValList =>
    ∀ item ∈ searchItemsQIdValByQId table (word16 inOpHeader 2), item.iqvFlags ≤ numericSize
  | .logic => ∀ and1 and2 rest, bodies = and1 :: and2 :: rest →
      and1.dataType = typeBoolean → and2.dataType = typeBoolean
  | .negation => ∀ and1 rest, bodies = and1 :: rest → and1.dataType = typeBoolean
  | .shift => ∀ right left rest, bodies = right :: left :: rest →
      right.dataType ≤ numericSize → left.dataType ≤ numericSize → right.data < 64
  | .division => ∀ right left rest, bodies = right :: left :: rest →
      right.dataType ≤ numericSize → left.dataType ≤ numericSize → right.data ≠ 0
  | _ => True

/-- An operand is missing, or there is room for the result and the operands suit. -/
def WellUsed (operator : Operator) (stack : ExpreStack) : Prop :=
  Missing table inOpHeader stack.bodies operator ∨
    0 < stack.pool ∧ Suitable table inOpHeader stack.bodies operator

end Conditions

section Pushing

variable {operands : Nat} {rejected : Prop} {bodies : List StackBody} {stack : ExpreStack}
  {input : UInt64} {dataType : UInt8}

/-- The status of a push is returned as it is, so the handler ends as the push does. -/
theorem pushAndReturn_eq :
    pushAndReturn input dataType stack = smcStackPush input dataType stack := by
  unfold pushAndReturn smcStackPush
  cases stack.pool <;> rfl

/-- A push in place of the operands. -/
theorem kept_push (enough : operands ≤ bodies.length)
    (popped : stack.bodies = bodies.drop operands) :
    Kept operands rejected bodies (smcStackPush input dataType stack) ↔
      0 < stack.pool ∧ (rejected → dataType = typeUndefined) := by
  unfold smcStackPush
  cases stack.pool with
  | zero => simp [Kept]
  | succ pool => simp [Kept, popped, enough, efiError, efiSuccess]

/-- A handler that fails has not to keep anything: the search stops at the expression. -/
theorem kept_error {status : Status} (failed : efiError status = true) :
    Kept operands rejected bodies (.ok (status, stack)) :=
  Or.inl failed

/-- The operand on the top is taken, whatever is done with it next. -/
theorem popCheckValue_cons {pool : Nat} {body : StackBody} {rest : List StackBody}
    {next : StackBody → ExpreStack → Handled} :
    popCheckValue ⟨body :: rest, pool⟩ next = next body ⟨rest, pool⟩ := rfl

end Pushing

section Shapes

variable {table : QuestionTable} {inOpHeader : Memory} {operator : Operator} {stack : ExpreStack}
  {handler : Handler}

/-- A handler that takes one operand from the stack. -/
theorem disciplined_one {next : StackBody → ExpreStack → Handled}
    (one : operator.operands = 1)
    (missing : Missing table inOpHeader stack.bodies operator ↔ stack.bodies.length < 1)
    (shape : handler table inOpHeader stack = popCheckValue stack next)
    (step : ∀ body rest pool, stack = ⟨body :: rest, pool⟩ →
      (Kept 1 (Rejected table inOpHeader (body :: rest) operator) (body :: rest)
          (next body ⟨rest, pool⟩) ↔
        0 < pool ∧ Suitable table inOpHeader (body :: rest) operator)) :
    Disciplined table inOpHeader operator stack handler ↔
      WellUsed table inOpHeader operator stack := by
  rw [Disciplined, WellUsed, missing, shape, one]
  obtain ⟨bodies, pool⟩ := stack
  cases bodies with
  | nil => exact iff_of_true (kept_error rfl) (Or.inl Nat.zero_lt_one)
  | cons body rest =>
    rw [popCheckValue_cons, step body rest pool rfl, or_iff_right (by simp)]

/-- A handler that takes two operands from the stack. -/
theorem disciplined_two {next : StackBody → StackBody → ExpreStack → Handled}
    (two : operator.operands = 2)
    (missing : Missing table inOpHeader stack.bodies operator ↔ stack.bodies.length < 2)
    (shape : handler table inOpHeader stack =
      popCheckValue stack fun first stack => popCheckValue stack fun second stack =>
        next first second stack)
    (step : ∀ first second rest pool, stack = ⟨first :: second :: rest, pool⟩ →
      (Kept 2 (Rejected table inOpHeader (first :: second :: rest) operator)
          (first :: second :: rest) (next first second ⟨rest, pool⟩) ↔
        0 < pool ∧ Suitable table inOpHeader (first :: second :: rest) operator)) :
    Disciplined table inOpHeader operator stack handler ↔
      WellUsed table inOpHeader operator stack := by
  rw [Disciplined, WellUsed, missing, shape, two]
  obtain ⟨bodies, pool⟩ := stack
  match bodies with
  | [] => exact iff_of_true (kept_error rfl) (Or.inl Nat.two_pos)
  | [_] => exact iff_of_true (kept_error rfl) (Or.inl Nat.one_lt_two)
  | first :: second :: rest =>
    rw [popCheckValue_cons, popCheckValue_cons, step first second rest pool rfl,
      or_iff_right (by simp)]

/-- A push in place of two operands. -/
theorem kept_two {rejected : Prop} {first second : StackBody} {rest : List StackBody} {pool : Nat}
    {input : UInt64} {dataType : UInt8} :
    Kept 2 rejected (first :: second :: rest) (pushAndReturn input dataType ⟨rest, pool⟩) ↔
      0 < pool ∧ (rejected → dataType = typeUndefined) := by
  rw [pushAndReturn_eq]
  exact kept_push (by simp) rfl

/-- With one operand taken, a push keeps the discipline exactly if there is a place in the pool
and a rejected operand is answered with an undefined value. -/
theorem kept_one {rejected : Prop} {body : StackBody} {rest : List StackBody} {pool : Nat}
    {input : UInt64} {dataType : UInt8} :
    Kept 1 rejected (body :: rest) (pushAndReturn input dataType ⟨rest, pool⟩) ↔
      0 < pool ∧ (rejected → dataType = typeUndefined) := by
  rw [pushAndReturn_eq]
  exact kept_push (by simp) rfl

/-- A push of a handler that takes nothing from the stack. -/
theorem kept_none {rejected : Prop} {input : UInt64} {dataType : UInt8} :
    Kept 0 rejected stack.bodies (pushAndReturn input dataType stack) ↔
      0 < stack.pool ∧ (rejected → dataType = typeUndefined) := by
  rw [pushAndReturn_eq]
  exact kept_push (Nat.zero_le _) rfl

/-- A handler of two numbers, with what its operation needs of them. -/
theorem disciplined_numeric {tempData : UInt8 → UInt64 → UInt64 → Except Fault UInt64}
    (two : operator.operands = 2)
    (missing : Missing table inOpHeader stack.bodies operator ↔ stack.bodies.length < 2)
    (rejected : ∀ right left rest,
      Rejected table inOpHeader (right :: left :: rest) operator ↔
        right.dataType > numericSize ∨ left.dataType > numericSize)
    (suits : ∀ right left rest, Suitable table inOpHeader (right :: left :: rest) operator ↔
      (right.dataType ≤ numericSize → left.dataType ≤ numericSize →
        ∃ data, tempData (inOpHeader 0) left.data right.data = .ok data)) :
    Disciplined table inOpHeader operator stack (numericHandler tempData) ↔
      WellUsed table inOpHeader operator stack := by
  refine disciplined_two two missing rfl fun right left rest pool _ => ?_
  rw [rejected, suits]
  by_cases other : right.dataType > numericSize ∨ left.dataType > numericSize
  · have suited : right.dataType ≤ numericSize → left.dataType ≤ numericSize →
        ∃ data, tempData (inOpHeader 0) left.data right.data = .ok data := by
      intro rightNumber leftNumber
      exact absurd other (not_or.mpr ⟨UInt8.not_lt.mpr rightNumber, UInt8.not_lt.mpr leftNumber⟩)
    rw [if_pos other, kept_two]
    exact and_congr_right fun _ => iff_of_true (fun _ => rfl) suited
  · obtain ⟨rightNumber, leftNumber⟩ := not_or.mp other
    rw [if_neg other]
    cases result : tempData (inOpHeader 0) left.data right.data with
    | error fault =>
      have faulted : ¬ ∃ data, (Except.error fault : Except Fault UInt64) = .ok data :=
        fun ⟨_, same⟩ => nomatch same
      refine iff_of_false id fun both => faulted (both.2 ?_ ?_)
      · exact UInt8.not_lt.mp rightNumber
      · exact UInt8.not_lt.mp leftNumber
    | ok data =>
      refine kept_two.trans ?_
      simp [other]

end Shapes

section Handlers

variable {table : QuestionTable} {inOpHeader : Memory} {stack : ExpreStack}

/-- What is rejected of the operands on the stack. -/
theorem rejected_one {bodies : List StackBody} {body : StackBody} {rest : List StackBody}
    {operator : Operator} (shape : bodies = body :: rest)
    (types : operandTypes table inOpHeader bodies operator = (bodies.take 1).map (·.dataType)) :
    Rejected table inOpHeader bodies operator ↔ ¬ operator.accepts body.dataType := by
  rw [Rejected, types, shape]
  simp

/-- Of two operands an operator rejects the pair exactly if it does not accept one of them. -/
theorem rejected_two {bodies : List StackBody} {first second : StackBody}
    {rest : List StackBody} {operator : Operator} (shape : bodies = first :: second :: rest)
    (types : operandTypes table inOpHeader bodies operator = (bodies.take 2).map (·.dataType)) :
    Rejected table inOpHeader bodies operator ↔
      ¬ operator.accepts first.dataType ∨ ¬ operator.accepts second.dataType := by
  rw [Rejected, types, shape]
  simp

/-- An operator on numbers rejects the pair exactly if one of the types lies above those of the
numbers. -/
theorem rejected_numbers {right left : StackBody} {rest : List StackBody} {operator : Operator}
    (types : operandTypes table inOpHeader (right :: left :: rest) operator =
      ((right :: left :: rest).take 2).map (·.dataType))
    (numbers : operator.accepts = fun dataType => dataType ≤ numericSize) :
    Rejected table inOpHeader (right :: left :: rest) operator ↔
      right.dataType > numericSize ∨ left.dataType > numericSize := by
  rw [rejected_two rfl types, numbers]
  simp

/-- AND and OR keep the discipline exactly where they are well used. -/
theorem andOr_disciplined :
    Disciplined table inOpHeader .logic stack opCodeFuncAndOr ↔
      WellUsed table inOpHeader .logic stack := by
  refine disciplined_two rfl Iff.rfl rfl fun and1 and2 rest pool _ => ?_
  have suits : Suitable table inOpHeader (and1 :: and2 :: rest) .logic ↔
      (and1.dataType = typeBoolean → and2.dataType = typeBoolean) :=
    ⟨fun all => all and1 and2 rest rfl, by
      rintro only _ _ _ ⟨⟩
      exact only⟩
  rw [rejected_two rfl rfl, suits]
  by_cases boolean : and1.dataType = typeBoolean
  · have untyped : ¬ typeBoolean = typeUndefined := by decide
    rw [if_neg (by simp [boolean]), kept_two]
    simp [Operator.accepts, boolean, untyped]
  · rw [if_pos (Or.inl boolean), kept_two]
    simp [boolean]

/-- NOT keeps the discipline exactly where it is well used. -/
theorem not_disciplined :
    Disciplined table inOpHeader .negation stack opCodeFuncNot ↔
      WellUsed table inOpHeader .negation stack := by
  refine disciplined_one rfl Iff.rfl rfl fun and1 rest pool _ => ?_
  have suits : Suitable table inOpHeader (and1 :: rest) .negation ↔
      and1.dataType = typeBoolean :=
    ⟨fun all => all and1 rest rfl, by
      rintro only _ _ ⟨⟩
      exact only⟩
  rw [rejected_one rfl rfl, suits]
  by_cases boolean : and1.dataType = typeBoolean
  · rw [if_neg (not_not.mpr boolean)]
    refine kept_one.trans ?_
    simp [Operator.accepts, boolean]
  · -- The result that is not defined is followed by a second one.
    rw [if_pos boolean]
    refine iff_of_false ?_ fun both => boolean both.2
    cases pool with
    | zero => exact id
    | succ pool =>
      change ¬ Kept _ _ _ (pushAndReturn _ _ ⟨⟨0, typeUndefined⟩ :: rest, pool⟩)
      rw [pushAndReturn_eq]
      cases pool with
      | zero => exact id
      | succ pool => simp [smcStackPush, Kept, efiError, efiSuccess]

/-- The six comparisons share a handler, which looks at the opcode for the relation only. -/
theorem eqSerialize_disciplined (code : inOpHeader 0 ∈ [equalOp, notEqualOp, greaterThanOp,
    greaterEqualOp, lessThanOp, lessEqualOp]) :
    Disciplined table inOpHeader .comparison stack opCodeFuncEqSerialize ↔
      WellUsed table inOpHeader .comparison stack := by
  refine disciplined_two rfl Iff.rfl rfl fun right left rest pool _ => ?_
  rw [rejected_two rfl rfl]
  simp only [Operator.accepts, Suitable, and_true]
  by_cases other : (!comparable right.dataType || !comparable left.dataType) = true
  · rw [if_pos other, kept_two]
    simp
  · have accepted : comparable right.dataType = true ∧ comparable left.dataType = true := by
      simpa using other
    rw [if_neg other]
    split
    · rw [kept_two]
      simp
    · simp only [List.mem_cons, List.not_mem_nil, or_false] at code
      split_ifs with equal notEqual greater greaterEqual less lessEqual
      case neg =>
        simp [equal, notEqual, greater, greaterEqual, less, lessEqual] at code
      all_goals
        rw [kept_two]
        simp [accepted]

/-- The bitwise AND and OR keep the discipline exactly where they are well used. -/
theorem bitwiseAndOr_disciplined :
    Disciplined table inOpHeader .word stack opCodeFuncBitwiseAndOr ↔
      WellUsed table inOpHeader .word stack := by
  refine disciplined_numeric rfl Iff.rfl (fun _ _ _ => rejected_numbers rfl rfl) ?_
  intro right left rest
  refine iff_of_true trivial fun _ _ => ?_
  split_ifs <;> exact ⟨_, rfl⟩

/-- The bitwise NOT keeps the discipline exactly where it is well used. -/
theorem bitwiseNot_disciplined :
    Disciplined table inOpHeader .complement stack opCodeFuncBitwiseNot ↔
      WellUsed table inOpHeader .complement stack := by
  refine disciplined_one rfl Iff.rfl rfl fun right rest pool _ => ?_
  rw [rejected_one rfl rfl]
  simp only [Suitable, and_true]
  by_cases other : right.dataType > numericSize
  · rw [if_pos other, kept_one]
    simp
  · rw [if_neg other, kept_one]
    simp [Operator.accepts, UInt8.not_lt.mp other]

/-- The two shifts share a handler, which takes any count. -/
theorem shiftLeftRight_disciplined (code : inOpHeader 0 ∈ [shiftLeftOp, shiftRightOp]) :
    Disciplined table inOpHeader .shift stack opCodeFuncShiftLeftRight ↔
      WellUsed table inOpHeader .shift stack := by
  refine disciplined_numeric rfl Iff.rfl (fun _ _ _ => rejected_numbers rfl rfl) ?_
  intro right left rest
  have narrow : (∃ data, (if inOpHeader 0 = shiftLeftOp then
        if right.data < 64 then .ok (left.data <<< right.data) else .error .wideShift
      else if inOpHeader 0 = shiftRightOp then
        if right.data < 64 then .ok (left.data >>> right.data) else .error .wideShift
      else .ok 0 : Except Fault UInt64) = .ok data) ↔ right.data < 64 := by
    simp only [List.mem_cons, List.not_mem_nil, or_false] at code
    split_ifs <;> simp_all
  rw [narrow]
  constructor
  · exact fun all => all right left rest rfl
  · rintro only _ _ _ ⟨⟩
    exact only

/-- Sum, difference and product share a handler with the two divisions, and never divide. -/
theorem sum_disciplined (code : inOpHeader 0 ∈ [addOp, subtractOp, multiplyOp]) :
    Disciplined table inOpHeader .sum stack opCodeFuncAddSubMultiDivMod ↔
      WellUsed table inOpHeader .sum stack := by
  refine disciplined_numeric rfl Iff.rfl (fun _ _ _ => rejected_numbers rfl rfl) ?_
  intro right left rest
  refine iff_of_true trivial fun _ _ => ?_
  simp only [List.mem_cons, List.not_mem_nil, or_false] at code
  obtain add | subtract | multiply := code
  · exact ⟨_, if_pos add⟩
  · rw [subtract]
    exact ⟨_, rfl⟩
  · rw [multiply]
    exact ⟨_, rfl⟩

/-- Quotient and remainder are well used only where the divisor is not zero: the handler divides
without a test. -/
theorem division_disciplined (code : inOpHeader 0 ∈ [divideOp, moduloOp]) :
    Disciplined table inOpHeader .division stack opCodeFuncAddSubMultiDivMod ↔
      WellUsed table inOpHeader .division stack := by
  refine disciplined_numeric rfl Iff.rfl (fun _ _ _ => rejected_numbers rfl rfl) ?_
  intro right left rest
  have suits : Suitable table inOpHeader (right :: left :: rest) .division ↔
      (right.dataType ≤ numericSize → left.dataType ≤ numericSize → right.data ≠ 0) :=
    ⟨fun all => all right left rest rfl, by
      rintro only _ _ _ ⟨⟩
      exact only⟩
  rw [suits]
  refine imp_congr_right fun _ => imp_congr_right fun _ => ?_
  simp only [List.mem_cons, List.not_mem_nil, or_false] at code
  obtain divide | modulo := code
  · simp only [divide]
    by_cases zero : right.data = 0 <;> simp [zero, divideOp, addOp, subtractOp, multiplyOp]
  · simp only [modulo]
    by_cases zero : right.data = 0 <;>
      simp [zero, moduloOp, divideOp, addOp, subtractOp, multiplyOp]

/-- Constants are pushed. -/
theorem constant_disciplined {input : UInt64} {dataType : UInt8} {handler : Handler}
    (shape : handler table inOpHeader stack = smcStackPush input dataType stack) :
    Disciplined table inOpHeader .constant stack handler ↔
      WellUsed table inOpHeader .constant stack := by
  have unrejected : ¬ Rejected table inOpHeader stack.bodies .constant := by
    rintro ⟨dataType, inside, -⟩
    exact nomatch inside
  rw [Disciplined, WellUsed, shape]
  refine (kept_push (Nat.zero_le _) rfl).trans ?_
  simp [Missing, Suitable, Operator.operands, unrejected]

/-- The two truth values are constants without operands. -/
theorem trueFalse_disciplined :
    Disciplined table inOpHeader .constant stack opCodeFuncTrueFalse ↔
      WellUsed table inOpHeader .constant stack :=
  constant_disciplined rfl

/-- The constants of the four widths share a handler, which reads as many bytes as the opcode
says. -/
theorem u8U16U32U64_disciplined (code : inOpHeader 0 ∈ [uint8Op, uint16Op, uint32Op, uint64Op]) :
    Disciplined table inOpHeader .constant stack opCodeFuncU8U16U32U64 ↔
      WellUsed table inOpHeader .constant stack := by
  simp only [List.mem_cons, List.not_mem_nil, or_false] at code
  obtain code | code | code | code := code <;>
    exact constant_disciplined (by unfold opCodeFuncU8U16U32U64; rw [code]; rfl)

end Handlers

section Questions

variable {table : QuestionTable} {inOpHeader : Memory} {stack : ExpreStack}

/-- A question is compared with a number of its opcode. -/
theorem eqIdVal_disciplined :
    Disciplined table inOpHeader .eqIdVal stack opCodeFuncEqIdVal ↔
      WellUsed table inOpHeader .eqIdVal stack := by
  rw [Disciplined, WellUsed, Rejected, operandTypes, questionType, Missing, opCodeFuncEqIdVal]
  cases found : searchItemsQIdValByQId table (word16 inOpHeader 2) with
  | none => exact iff_of_true (kept_error rfl) (Or.inl trivial)
  | some item =>
    dsimp only
    by_cases other : item.iqvFlags > numericSize
    · rw [if_pos other]
      refine kept_none.trans ?_
      simp [Suitable, UInt8.not_le.mpr other]
    · rw [if_neg other]
      cases value : getQIdValue table (word16 inOpHeader 2) with
      | none => exact iff_of_true (kept_error rfl) (Or.inl ⟨UInt8.not_lt.mp other, rfl⟩)
      | some place =>
        refine kept_none.trans ?_
        simp [Suitable, Operator.accepts, UInt8.not_lt.mp other]

/-- A question is compared with a list of numbers of its opcode. -/
theorem eqIdValList_disciplined :
    Disciplined table inOpHeader .eqIdValList stack opCodeFuncEqIdValList ↔
      WellUsed table inOpHeader .eqIdValList stack := by
  rw [Disciplined, WellUsed, Rejected, operandTypes, questionType, Missing, Suitable,
    opCodeFuncEqIdValList]
  cases value : getQIdValue table (word16 inOpHeader 2) with
  | none => exact iff_of_true (kept_error rfl) (Or.inl rfl)
  | some place =>
    have untyped : ¬ typeBoolean = typeUndefined := by decide
    refine kept_none.trans ?_
    simp [Operator.accepts, untyped]

/-- A question is compared with a second one, which may be missing as the first one may. -/
theorem eqIdId_disciplined :
    Disciplined table inOpHeader .eqIdId stack opCodeFuncEqIdId ↔
      WellUsed table inOpHeader .eqIdId stack := by
  rw [Disciplined, WellUsed, Rejected, operandTypes, questionType, questionType, Missing, Suitable,
    opCodeFuncEqIdId]
  cases searchItemsQIdValByQId table (word16 inOpHeader 2) with
  | none => exact iff_of_true (kept_error rfl) (Or.inl trivial)
  | some item1 =>
    cases searchItemsQIdValByQId table (word16 inOpHeader 4) with
    | none => exact iff_of_true (kept_error rfl) (Or.inl trivial)
    | some item2 =>
      dsimp only
      by_cases differ : (item1.iqvFlags > numericSize ∨ item2.iqvFlags > numericSize) ∧
          item1.iqvFlags ≠ item2.iqvFlags
      · have notBoth : ¬ (item1.iqvFlags ≤ numericSize ∧ item2.iqvFlags ≤ numericSize) := by
          rintro ⟨number1, number2⟩
          obtain above | above := differ.1
          · exact UInt8.not_lt.mpr number1 above
          · exact UInt8.not_lt.mpr number2 above
        rw [if_pos differ, ← and_assoc, or_iff_right (fun missing => notBoth missing.1)]
        refine kept_none.trans ?_
        simp [differ.2]
      · rw [if_neg differ]
        by_cases number1 : item1.iqvFlags ≤ numericSize
        · have number2 : item2.iqvFlags ≤ numericSize := by
            by_contra above
            refine differ ⟨Or.inr (UInt8.not_le.mp above), fun same => above ?_⟩
            rw [← same]
            exact number1
          rw [if_pos number1]
          by_cases valueless : getQIdNumericValue table item1 = -1 ∨
              getQIdNumericValue table item2 = -1
          · rw [if_pos valueless]
            exact iff_of_true (kept_error rfl) (Or.inl ⟨number1, number2, valueless⟩)
          · rw [if_neg valueless, or_iff_right (fun missing => valueless missing.2.2)]
            refine kept_none.trans ?_
            simp [Operator.accepts, number1, number2]
        · -- Two questions of one type that is no number: nothing is pushed.
          have same : item1.iqvFlags = item2.iqvFlags := by
            by_contra other
            exact differ ⟨Or.inl (UInt8.not_le.mp number1), other⟩
          rw [if_neg number1]
          refine iff_of_false ?_ ?_
          · rintro (failed | ⟨-, result, grown, -⟩)
            · exact nomatch failed
            · exact absurd (congrArg List.length grown) (by simp [Operator.operands])
          · rintro (missing | ⟨-, suits⟩)
            · exact number1 missing.1
            · exact number1 (suits item1 rfl item2 rfl same)

/-- What is read of a question with a width has the type of that width. -/
theorem numericAt_number {memory : Memory} {place : Nat} {flags : UInt8} {value : UInt64}
    (found : numericAt memory place flags = some value) : flags ≤ numericSize := by
  unfold numericAt at found
  split_ifs at found with size8 size16 size32 size64
  · rw [size8]
    decide
  · rw [size16]
    decide
  · rw [size32]
    decide
  · rw [size64]
    decide

/-- A reference pushes once, and nothing of a type for a question of another type than a number
    or a string. -/
theorem subQuestionRef_pushes (qId : UInt16) :
    ∃ input dataType, opCodeFuncSubQuestionRef table qId stack = smcStackPush input dataType stack ∧
      ∀ item ∈ searchItemsQIdValByQId table qId,
        ¬ (item.iqvFlags ≤ numericSize ∨ item.iqvFlags = typeString) →
          dataType = typeUndefined := by
  unfold opCodeFuncSubQuestionRef
  simp only [pushAndReturn_eq]
  cases searchItemsQIdValByQId table qId with
  | none => exact ⟨_, _, rfl, fun _ _ _ => rfl⟩
  | some item =>
    dsimp only
    cases getQIdValue table item.iqvQId with
    | none => exact ⟨_, _, rfl, fun _ _ _ => rfl⟩
    | some place =>
      dsimp only
      cases value : numericAt table.memory place item.iqvFlags with
      | some value =>
        refine ⟨_, _, rfl, ?_⟩
        rintro _ ⟨⟩ other
        exact absurd (Or.inl (numericAt_number ‹_›)) other
      | none =>
        dsimp only
        split
        case isTrue text =>
          refine ⟨_, _, rfl, ?_⟩
          rintro _ ⟨⟩ other
          exact absurd (Or.inr text) other
        case isFalse => exact ⟨_, _, rfl, fun _ _ _ => rfl⟩

/-- The value of a question that the opcode names is pushed. -/
theorem questionRef1_disciplined :
    Disciplined table inOpHeader .questionRef1 stack opCodeFuncQuestionRef1 ↔
      WellUsed table inOpHeader .questionRef1 stack := by
  obtain ⟨input, dataType, pushed, typed⟩ :=
    @subQuestionRef_pushes table stack (word16 inOpHeader 2)
  have untyped : Rejected table inOpHeader stack.bodies .questionRef1 →
      dataType = typeUndefined := by
    rintro ⟨other, inside, refused⟩
    rw [operandTypes, questionType] at inside
    simp only [List.mem_map, Option.mem_toList] at inside
    obtain ⟨item, found, rfl⟩ := inside
    exact typed item found (by simpa [Operator.accepts] using refused)
  rw [Disciplined, WellUsed, opCodeFuncQuestionRef1, pushed]
  refine (kept_push (Nat.zero_le _) rfl).trans ?_
  simp only [Missing, Suitable, Operator.operands, Nat.not_lt_zero, false_or]
  exact and_congr_right fun _ => iff_of_true untyped trivial

/-- The value of a question that an operand names is pushed in place of the operand. -/
theorem questionRef2_disciplined :
    Disciplined table inOpHeader .questionRef2 stack opCodeFuncQuestionRef2 ↔
      WellUsed table inOpHeader .questionRef2 stack := by
  refine disciplined_one rfl Iff.rfl rfl fun popData rest pool _ => ?_
  rw [rejected_one rfl rfl]
  simp only [Suitable, and_true]
  by_cases other : popData.dataType > numericSize ∨ popData.data > 0xFFFF
  · rw [if_pos other, kept_one]
    simp
  · obtain ⟨input, dataType, pushed, -⟩ :=
      @subQuestionRef_pushes table ⟨rest, pool⟩ popData.data.toUInt16
    have number := UInt8.not_lt.mp (not_or.mp other).1
    rw [if_neg other, pushed]
    refine (kept_push (by simp) rfl).trans ?_
    simp [Operator.accepts, number]

end Questions

section Search

variable {entries : List HiiOpcodeFunctions} {opCode : UInt8} {first last : Nat}
  {ordered : first ≤ last} {handler : Handler}

/-- What is found is an entry of the part that is searched. -/
theorem search_entry
    (found : searchHiiOpCodeFunc entries opCode first last ordered = some handler) :
    ∃ place entry, first ≤ place ∧ place ≤ last ∧ entries[place]? = some entry ∧
      entry.opCode = opCode ∧ entry.handleHiiOpCodeFunc = handler := by
  fun_induction searchHiiOpCodeFunc entries opCode first last ordered with
  | case1 => exact nomatch found
  | case2 first last ordered middle entry inside same =>
    exact ⟨middle, entry, by omega, by omega, inside, same, Option.some.inj found⟩
  | case3 => exact nomatch found
  | case4 first last ordered middle entry _ _ stop _ inductionHypothesis =>
    obtain ⟨place, entry, above, below, found⟩ := inductionHypothesis found
    exact ⟨place, entry, by omega, below, found⟩
  | case5 first last ordered middle entry _ _ stop _ inductionHypothesis =>
    obtain ⟨place, entry, above, below, found⟩ := inductionHypothesis found
    exact ⟨place, entry, above, by omega, found⟩

/-- In a table in ascending order the search goes where the opcode is not: it finds the middle
    or nothing. -/
theorem search_middle (ascending : entries.Pairwise (·.opCode < ·.opCode))
    (found : searchHiiOpCodeFunc entries opCode first last ordered = some handler) :
    ∃ entry, entries[(first + last) / 2]? = some entry ∧ entry.opCode = opCode ∧
      entry.handleHiiOpCodeFunc = handler := by
  have increasing {i j : Nat} {lower upper : HiiOpcodeFunctions} (less : i < j)
      (low : entries[i]? = some lower) (high : entries[j]? = some upper) :
      lower.opCode < upper.opCode := by
    obtain ⟨below, rfl⟩ := List.getElem?_eq_some_iff.mp low
    obtain ⟨inside, rfl⟩ := List.getElem?_eq_some_iff.mp high
    exact List.pairwise_iff_getElem.mp ascending i j below inside less
  rw [searchHiiOpCodeFunc] at found
  cases middle : entries[(first + last) / 2]? with
  | none =>
    simp only [middle] at found
    exact nomatch found
  | some entry =>
    simp only [middle] at found
    split_ifs at found with same stop greater
    · exact ⟨entry, rfl, same, Option.some.inj found⟩
    · obtain ⟨place, other, above, -, lies, equal, -⟩ := search_entry found
      have later := increasing (Nat.lt_of_lt_of_le (Nat.lt_succ_self _) above) middle lies
      rw [equal] at later
      exact absurd later (UInt8.lt_asymm greater)
    · obtain ⟨place, other, -, below, lies, equal, -⟩ := search_entry found
      obtain before | here := Nat.lt_or_eq_of_le below
      · have earlier := increasing before lies middle
        rw [equal] at earlier
        exact absurd (UInt8.lt_of_le_of_ne (UInt8.not_lt.mp greater) same) (UInt8.lt_asymm earlier)
      · rw [here, middle] at lies
        rw [← Option.some.inj lies] at equal
        exact absurd equal same

/-- `SuppressifAndGrayOutFuncTable` is in ascending order. -/
theorem table_ascending : suppressifAndGrayOutFuncTable.Pairwise (·.opCode < ·.opCode) := by
  rw [← List.pairwise_map]
  decide

/-- One opcode is found. -/
theorem handlerFound_iff {code : UInt8} {handler : Handler} :
    handlerFound code = some handler ↔ code = bitwiseNotOp ∧ opCodeFuncBitwiseNot = handler := by
  constructor
  · intro found
    obtain ⟨entry, middle, same, handled⟩ := search_middle table_ascending found
    obtain rfl := Option.some.inj middle
    exact ⟨same.symm, handled⟩
  · rintro ⟨rfl, rfl⟩
    rw [handlerFound, searchHiiOpCodeFunc]
    rfl

end Search

section Discipline

/-- An opcode of the table and the bytes from it on. -/
structure SupportedOp where
  inOpHeader : Memory
  supported : inOpHeader 0 ∈ suppressifAndGrayOutFuncTable.map (·.opCode)

/-- The handler that the table has for an opcode. -/
def tableHandler (opCode : UInt8) : Option Handler :=
  (suppressifAndGrayOutFuncTable.find? (·.opCode = opCode)).map (·.handleHiiOpCodeFunc)

variable (table : QuestionTable) (op : SupportedOp) (stack : ExpreStack)

/-- There is a handler, and it keeps the discipline. -/
def DisciplinedBy (handler : Option Handler) : Prop :=
  ∃ found, handler = some found ∧
    Disciplined table op.inOpHeader (operatorOf (op.inOpHeader 0)) stack found

/-- The inputs on which the handler of the table keeps the discipline. -/
def SupportedOp.WellUsed : Prop :=
  SupGray.WellUsed table op.inOpHeader (operatorOf (op.inOpHeader 0)) stack

variable {table} {stack} in
/-- Each entry of the table for the operator of its opcode. -/
theorem entry_disciplined {inOpHeader : Memory} :
    ∀ entry ∈ suppressifAndGrayOutFuncTable, inOpHeader 0 = entry.opCode →
      (Disciplined table inOpHeader (operatorOf entry.opCode) stack entry.handleHiiOpCodeFunc ↔
        SupGray.WellUsed table inOpHeader (operatorOf entry.opCode) stack) := by
  refine List.forall_iff_forall_mem.mp ⟨?eqIdVal, ?eqIdId, ?eqIdValList, ?and, ?or, ?not, ?equal,
    ?notEqual, ?greater, ?greaterEqual, ?less, ?lessEqual, ?bitwiseAnd, ?bitwiseOr, ?bitwiseNot,
    ?shiftLeft, ?shiftRight, ?add, ?subtract, ?multiply, ?divide, ?modulo, ?questionRef1,
    ?questionRef2, ?uint8, ?uint16, ?uint32, ?uint64, ?true, ?false⟩
  case eqIdVal => exact fun _ => eqIdVal_disciplined
  case eqIdId => exact fun _ => eqIdId_disciplined
  case eqIdValList => exact fun _ => eqIdValList_disciplined
  case and | or => exact fun _ => andOr_disciplined
  case not => exact fun _ => not_disciplined
  case equal | notEqual | greater | greaterEqual | less | lessEqual =>
    exact fun code => eqSerialize_disciplined (by rw [code]; decide)
  case bitwiseAnd | bitwiseOr => exact fun _ => bitwiseAndOr_disciplined
  case bitwiseNot => exact fun _ => bitwiseNot_disciplined
  case shiftLeft | shiftRight =>
    exact fun code => shiftLeftRight_disciplined (by rw [code]; decide)
  case add | subtract | multiply => exact fun code => sum_disciplined (by rw [code]; decide)
  case divide | modulo => exact fun code => division_disciplined (by rw [code]; decide)
  case questionRef1 => exact fun _ => questionRef1_disciplined
  case questionRef2 => exact fun _ => questionRef2_disciplined
  case uint8 | uint16 | uint32 | uint64 =>
    exact fun code => u8U16U32U64_disciplined (by rw [code]; decide)
  case true | false => exact fun _ => trueFalse_disciplined

/-- The search of the table finds each of its entries: no opcode is listed twice. -/
theorem tableHandler_entry :
    ∀ entry ∈ suppressifAndGrayOutFuncTable,
      tableHandler entry.opCode = some entry.handleHiiOpCodeFunc := by
  have all : suppressifAndGrayOutFuncTable.Forall fun entry =>
      tableHandler entry.opCode = some entry.handleHiiOpCodeFunc := by
    repeat' constructor
  exact List.forall_iff_forall_mem.mp all

/-- Whatever the opcode is, the handler that the table has for it keeps the discipline exactly
if the opcode is well used; one that the table does not have is refused. -/
theorem tableHandler_disciplined :
    DisciplinedBy table op stack (tableHandler (op.inOpHeader 0)) ↔ op.WellUsed table stack := by
  obtain ⟨entry, inside, same⟩ := List.mem_map.mp op.supported
  have found := tableHandler_entry entry inside
  have kept := @entry_disciplined table stack op.inOpHeader entry inside same.symm
  rw [same] at found kept
  rw [DisciplinedBy, SupportedOp.WellUsed, ← kept, found]
  constructor
  · rintro ⟨_, ⟨⟩, disciplined⟩
    exact disciplined
  · exact fun disciplined => ⟨_, rfl, disciplined⟩

/-- The handler that the table has keeps the discipline exactly where the operands suit, and the
search finds one handler of all. The second part is about the same opcodes as they are really
handled: the search stops at its first row. -/
theorem discipline_iff :
    (DisciplinedBy table op stack (tableHandler (op.inOpHeader 0)) ↔ op.WellUsed table stack) ∧
    (DisciplinedBy table op stack (handlerFound (op.inOpHeader 0)) ↔
      op.inOpHeader 0 = bitwiseNotOp ∧ op.WellUsed table stack) := by
  have kept := tableHandler_disciplined table op stack
  refine ⟨kept, ?_⟩
  rw [← kept]
  constructor
  · rintro ⟨handler, found, disciplined⟩
    obtain ⟨code, rfl⟩ := handlerFound_iff.mp found
    refine ⟨code, _, ?_, disciplined⟩
    rw [code]
    rfl
  · rintro ⟨code, handler, listed, disciplined⟩
    rw [code] at listed
    exact ⟨handler, handlerFound_iff.mpr ⟨code, Option.some.inj listed⟩, disciplined⟩

/-- No question at all. -/
def emptyTable : QuestionTable := ⟨fun _ => [], fun _ => none, fun _ => 0⟩

/-- NOT. -/
def notOperation : SupportedOp := ⟨memoryOf [notOp, 2] fun _ => 0, by decide⟩

/-- NOT of a number: the handler of the table leaves two results, and the search finds none. -/
theorem not_disciplined_number :
    ¬ (∀ table op stack, DisciplinedBy table op stack (tableHandler (op.inOpHeader 0))) ∧
    ¬ (∀ table op stack, DisciplinedBy table op stack (handlerFound (op.inOpHeader 0))) := by
  constructor
  · intro always
    obtain ⟨handler, found, kept⟩ := always emptyTable notOperation ⟨[⟨1, typeNumSize8⟩], 2⟩
    obtain rfl : opCodeFuncNot = handler := Option.some.inj found
    obtain failed | ⟨-, result, grown, -⟩ := kept
    · exact nomatch failed
    · have lengths : 2 = 1 := congrArg List.length grown
      exact absurd lengths (by decide)
  · intro always
    obtain ⟨handler, found, -⟩ := always emptyTable notOperation ⟨[⟨1, typeNumSize8⟩], 2⟩
    exact absurd (handlerFound_iff.mp found).1 (by decide)

end Discipline

end SmcPkg.SupGray
