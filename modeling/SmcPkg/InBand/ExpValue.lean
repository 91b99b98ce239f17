import SmcPkg.InBand.ExpStackLaw

/-!
# The value of a condition

The opcodes of a condition are an expression in postfix form. The meaning of an expression is a
value of 64 bits, and `CalExpValue` is compared with it.
-/

namespace SmcPkg.ExpValue

open Bytes ExpStack

section Expressions

/-- Opcodes that are a value. -/
inductive Constant
  | true
  | false
  | uint8 (value : UInt8)
  | uint16 (value : UInt16)
  | uint32 (value : UInt32)
  | uint64 (value : UInt64)

/-- Operators with two operands. -/
inductive Binary
  | and
  | or
  | greaterThan
  | greaterEqual
  | lessThan
  | lessEqual
  | add
  | subtract
  | multiply
  | divide
  deriving DecidableEq

/-- Expressions over the opcodes that `CalExpValue` evaluates. -/
inductive Exp
  | constant (literal : Constant)
  | not (operand : Exp)
  | binary (operator : Binary) (left right : Exp)

/-- The value of a constant. -/
def Constant.value : Constant → UInt64
  | .true => 1
  | .false => 0
  | .uint8 value => value.toUInt64
  | .uint16 value => value.toUInt64
  | .uint32 value => value.toUInt64
  | .uint64 value => value

/-- The value of an operator, with a meaning for `EFI_IFR_LESS_EQUAL_OP`. A division by zero has
none. -/
def Binary.apply (lessEqual : UInt64 → UInt64 → Bool) (left right : UInt64) :
    Binary → Option UInt64
  | .and => some (truth (left ≠ 0 && right ≠ 0))
  | .or => some (truth (left ≠ 0 || right ≠ 0))
  | .greaterThan => some (truth (left > right))
  | .greaterEqual => some (truth (left ≥ right))
  | .lessThan => some (truth (left < right))
  | .lessEqual => some (truth (lessEqual left right))
  | .add => some (left + right)
  | .subtract => some (left - right)
  | .multiply => some (left * right)
  | .divide => if right = 0 then none else some (left / right)

/-- The value of an expression, with a meaning for `EFI_IFR_LESS_EQUAL_OP`. -/
def Exp.valueWith (lessEqual : UInt64 → UInt64 → Bool) : Exp → Option UInt64
  | .constant literal => some literal.value
  | .not operand => (operand.valueWith lessEqual).map fun value => truth (value = 0)
  | .binary operator left right =>
    (left.valueWith lessEqual).bind fun left =>
      (right.valueWith lessEqual).bind fun right => operator.apply lessEqual left right

/-- What an expression means. -/
def Exp.value (exp : Exp) : Option UInt64 := exp.valueWith fun left right => left ≤ right

/-- What it would mean with `EFI_IFR_GREATER_EQUAL_OP` for `EFI_IFR_LESS_EQUAL_OP`. -/
def Exp.exchanged (exp : Exp) : Option UInt64 := exp.valueWith fun left right => left ≥ right

/-- The values of expressions with this exchange. -/
def exchangedAll : List Exp → Option (List UInt64)
  | [] => some []
  | exp :: exps => exp.exchanged.bind fun value => (exchangedAll exps).map (value :: ·)

/-- The number of opcodes. -/
def Exp.size : Exp → Nat
  | .constant _ => 1
  | .not operand => operand.size + 1
  | .binary _ left right => left.size + right.size + 1

/-- The stack slots an evaluation needs. -/
def Exp.slots : Exp → Nat
  | .constant _ => 1
  | .not operand => operand.slots
  | .binary _ left right => max left.slots (right.slots + 1)

end Expressions

section Layout

/-- The opcode of an operator. -/
def Binary.opCode : Binary → UInt8
  | .and => 0x15
  | .or => 0x16
  | .greaterThan => 0x31
  | .greaterEqual => 0x32
  | .lessThan => 0x33
  | .lessEqual => 0x34
  | .add => 0x3A
  | .subtract => 0x3B
  | .multiply => 0x3C
  | .divide => 0x3D

variable (memory : Memory)

/-- A constant lies at a place. -/
def Constant.LiesAt (place : Nat) : Constant → Prop
  | .true => opCode memory place = 0x46
  | .false => opCode memory place = 0x47
  | .uint8 value => opCode memory place = 0x42 ∧ memory (place + 2) = value
  | .uint16 value => opCode memory place = 0x43 ∧ word16 memory (place + 2) = value
  | .uint32 value => opCode memory place = 0x44 ∧ word32 memory (place + 2) = value
  | .uint64 value => opCode memory place = 0x45 ∧ word64 memory (place + 2) = value

/-- The opcode at a place ends at another. -/
def OpcodeSpans (place stop : Nat) : Prop :=
  2 ≤ opLength memory place ∧ stop = place + opLength memory place

/-- An expression lies in postfix form from a place up to another. -/
def Exp.LiesFrom : Exp → Nat → Nat → Prop
  | .constant literal, start, stop => literal.LiesAt memory start ∧ OpcodeSpans memory start stop
  | .not operand, start, stop => ∃ last, operand.LiesFrom start last ∧
      opCode memory last = 0x17 ∧ OpcodeSpans memory last stop
  | .binary operator left right, start, stop => ∃ middle last, left.LiesFrom start middle ∧
      right.LiesFrom middle last ∧ opCode memory last = operator.opCode ∧
        OpcodeSpans memory last stop

/-- Expressions lie one behind the other. -/
def LieFrom : List Exp → Nat → Nat → Prop
  | [], start, stop => start = stop
  | exp :: exps, start, stop => ∃ next, exp.LiesFrom memory start next ∧ LieFrom exps next stop

/-- The stack slots that expressions need one after the other, on a number of values. -/
def slotsFrom : List Exp → Nat → Nat
  | [], count => count
  | exp :: exps, count => max (count + exp.slots) (slotsFrom exps (count + 1))

end Layout

section Stack

variable {stack : SmcStack} {values : List UInt64} {value : UInt64}

/-- The values on a stack, from the bottom. -/
def contents (stack : SmcStack) : List UInt64 := stack.cells.toList.take stack.count

/-- The stack counts its values. -/
theorem length_contents : (contents stack).length = stack.count := by
  simp [contents, stack.bound]

/-- Where there is room a value is pushed behind the others. -/
theorem contents_push (room : (contents stack).length < stackSize) :
    contents (smcPush64 value stack) = contents stack ++ [value] := by
  rw [length_contents] at room
  rw [smcPush64, dif_pos room]
  simp only [contents, Vector.toList_set]
  rw [List.take_add_one, List.take_set_of_le (Nat.le_refl _)]
  simp [room]

/-- The last value is popped and the others stay. -/
theorem pop_contents (shape : contents stack = values ++ [value]) :
    ∃ next, smcPop64 stack = (some value, next) ∧ contents next = values := by
  have count : stack.count = values.length + 1 := by
    rw [← length_contents, shape, List.length_append, List.length_singleton]
  have bound : values.length < stackSize := by
    have := stack.bound
    omega
  have top : stack.cells.get ⟨stack.count - 1, by omega⟩ = value := by
    have read := congrArg (·[values.length]?) shape
    simp only [contents, count] at read
    rw [List.getElem?_take_of_lt (Nat.lt_succ_self _), List.getElem?_concat_length] at read
    have place : stack.count - 1 = values.length := by omega
    rw [Vector.get_eq_getElem]
    simpa [place, bound] using read
  refine ⟨⟨stack.cells, stack.count - 1, by omega⟩, ?_, ?_⟩
  · rw [smcPop64, dif_pos (by omega)]
    exact Prod.ext (congrArg some top) rfl
  · have fewer : stack.count - 1 = min (stack.count - 1) stack.count := by omega
    change stack.cells.toList.take (stack.count - 1) = values
    rw [fewer, ← List.take_take]
    change (contents stack).take (stack.count - 1) = values
    rw [shape, count]
    simp

end Stack

section Opcodes

variable {memory : Memory} {place : Nat}

/-- A constant is pushed. -/
theorem operationOf_constant {literal : Constant} (lies : literal.LiesAt memory place) :
    operationOf memory place = .push literal.value := by
  cases literal with
  | true =>
    have code : opCode memory place = 0x46 := lies
    simp [operationOf, code, Constant.value]
  | false =>
    have code : opCode memory place = 0x47 := lies
    simp [operationOf, code, Constant.value]
  | uint8 value =>
    obtain ⟨code, rfl⟩ := lies
    simp [operationOf, code, Constant.value]
  | uint16 value =>
    obtain ⟨code, rfl⟩ := lies
    simp [operationOf, code, Constant.value]
  | uint32 value =>
    obtain ⟨code, rfl⟩ := lies
    simp [operationOf, code, Constant.value]
  | uint64 value =>
    obtain ⟨code, rfl⟩ := lies
    simp [operationOf, code, Constant.value]

/-- A NOT works on the value on the top. -/
theorem operationOf_not (code : opCode memory place = 0x17) :
    operationOf memory place = .unary fun value => truth (value = 0) := by
  simp [operationOf, code]

/-- The second operand is popped first, and `EFI_IFR_LESS_EQUAL_OP` compares the wrong way. -/
theorem operationOf_binary {operator : Binary} (code : opCode memory place = operator.opCode) :
    ∃ compute, operationOf memory place = .binary compute ∧ ∀ left right,
      compute right left = match operator.apply (fun left right => left ≥ right) left right with
        | some value => .ok value
        | none => .error .divideByZero := by
  cases operator with
  | divide =>
    refine ⟨fun val1 val2 => if val1 = 0 then .error .divideByZero else .ok (val2 / val1),
      by simp [operationOf, code, Binary.opCode], ?_⟩
    intro left right
    by_cases zero : right = 0
    · simp [Binary.apply, zero]
    · simp [Binary.apply, zero]
  | and =>
    refine ⟨fun val1 val2 => .ok (truth (val1 ≠ 0 && val2 ≠ 0)),
      by simp [operationOf, code, Binary.opCode], fun left right => ?_⟩
    simp [Binary.apply, Bool.and_comm]
  | or =>
    refine ⟨fun val1 val2 => .ok (truth (val1 ≠ 0 || val2 ≠ 0)),
      by simp [operationOf, code, Binary.opCode], fun left right => ?_⟩
    simp [Binary.apply, Bool.or_comm]
  | greaterThan =>
    exact ⟨fun val1 val2 => .ok (truth (val2 > val1)),
      by simp [operationOf, code, Binary.opCode], fun _ _ => rfl⟩
  | greaterEqual =>
    exact ⟨fun val1 val2 => .ok (truth (val2 ≥ val1)),
      by simp [operationOf, code, Binary.opCode], fun _ _ => rfl⟩
  | lessThan =>
    exact ⟨fun val1 val2 => .ok (truth (val2 < val1)),
      by simp [operationOf, code, Binary.opCode], fun _ _ => rfl⟩
  | lessEqual =>
    exact ⟨fun val1 val2 => .ok (truth (val2 ≥ val1)),
      by simp [operationOf, code, Binary.opCode], fun _ _ => rfl⟩
  | add =>
    exact ⟨fun val1 val2 => .ok (val2 + val1),
      by simp [operationOf, code, Binary.opCode], fun _ _ => rfl⟩
  | subtract =>
    exact ⟨fun val1 val2 => .ok (val2 - val1),
      by simp [operationOf, code, Binary.opCode], fun _ _ => rfl⟩
  | multiply =>
    exact ⟨fun val1 val2 => .ok (val2 * val1),
      by simp [operationOf, code, Binary.opCode], fun _ _ => rfl⟩

/-- No opcode of an expression ends a scope. -/
theorem not_end_of_constant {literal : Constant} (lies : literal.LiesAt memory place) :
    opCode memory place ≠ 0x29 := by
  cases literal with
  | true => exact fun same => absurd (lies.symm.trans same) (by decide)
  | false => exact fun same => absurd (lies.symm.trans same) (by decide)
  | _ => exact fun same => absurd (lies.1.symm.trans same) (by decide)

/-- No operator has the opcode of an END. -/
theorem not_end_of_binary {operator : Binary} (code : opCode memory place = operator.opCode) :
    opCode memory place ≠ 0x29 := by
  rw [code]
  cases operator <;> decide

end Opcodes

section Scope

variable {memory : Memory} {rounds scope pScopeEnd : Nat}

/-- `GetScopeEnd` goes on behind an opcode that is no END. -/
theorem getScopeEnd_behind {place stop : Nat} (notEnd : opCode memory place ≠ 0x29)
    (spans : OpcodeSpans memory place stop)
    (ends : getScopeEnd memory rounds place scope = some pScopeEnd) :
    ∃ fewer deeper, rounds = fewer + 1 ∧
      getScopeEnd memory fewer stop deeper = some pScopeEnd := by
  cases rounds with
  | zero => cases ends
  | succ fewer =>
    rw [getScopeEnd] at ends
    by_cases opens : opScope memory place
    · rw [if_pos opens, ← spans.2] at ends
      exact ⟨fewer, scope + 1, rfl, ends⟩
    · rw [if_neg opens, if_neg notEnd, ← spans.2] at ends
      exact ⟨fewer, scope, rfl, ends⟩

/-- `GetScopeEnd` goes on behind an expression. -/
theorem getScopeEnd_behind_exp (exp : Exp) {start stop : Nat}
    (lies : exp.LiesFrom memory start stop)
    (ends : getScopeEnd memory rounds start scope = some pScopeEnd) :
    ∃ fewer deeper, rounds = exp.size + fewer ∧
      getScopeEnd memory fewer stop deeper = some pScopeEnd := by
  induction exp generalizing start stop rounds scope with
  | constant literal =>
    obtain ⟨fewer, deeper, rfl, later⟩ :=
      getScopeEnd_behind (not_end_of_constant lies.1) lies.2 ends
    exact ⟨fewer, deeper, Nat.add_comm _ _, later⟩
  | not operand ih =>
    obtain ⟨last, first, code, spans⟩ := lies
    obtain ⟨middle, inner, rfl, between⟩ := ih first ends
    obtain ⟨fewer, deeper, rfl, later⟩ :=
      getScopeEnd_behind (by rw [code]; decide) spans between
    exact ⟨fewer, deeper, by simp only [Exp.size]; omega, later⟩
  | binary operator left right ihLeft ihRight =>
    obtain ⟨middle, last, first, second, code, spans⟩ := lies
    obtain ⟨afterLeft, scopeLeft, rfl, endsLeft⟩ := ihLeft first ends
    obtain ⟨afterRight, scopeRight, rfl, endsRight⟩ := ihRight second endsLeft
    obtain ⟨fewer, deeper, rfl, later⟩ :=
      getScopeEnd_behind (not_end_of_binary code) spans endsRight
    exact ⟨fewer, deeper, by simp only [Exp.size]; omega, later⟩

/-- `GetScopeEnd` never goes back. -/
theorem le_getScopeEnd {place : Nat}
    (ends : getScopeEnd memory rounds place scope = some pScopeEnd) : place ≤ pScopeEnd := by
  induction rounds generalizing place scope with
  | zero => cases ends
  | succ rounds ih =>
    rw [getScopeEnd] at ends
    split_ifs at ends
    · exact Nat.le_trans (Nat.le_add_right _ _) (ih ends)
    · exact Nat.le_of_eq (Option.some.inj ends)
    · exact Nat.le_trans (Nat.le_add_right _ _) (ih ends)
    · exact Nat.le_trans (Nat.le_add_right _ _) (ih ends)

end Scope

section Evaluation

variable {memory : Memory} {pScopeEnd : Nat}

/-- An expression takes at least one byte. -/
theorem lt_of_liesFrom (exp : Exp) {start stop : Nat} (lies : exp.LiesFrom memory start stop) :
    start < stop := by
  induction exp generalizing start stop with
  | constant literal =>
    obtain ⟨-, length, rfl⟩ := lies
    omega
  | not operand ih =>
    obtain ⟨last, first, -, length, rfl⟩ := lies
    have := ih first
    omega
  | binary operator left right ihLeft ihRight =>
    obtain ⟨middle, last, first, second, -, length, rfl⟩ := lies
    have := ihLeft first
    have := ihRight second
    omega

/-- A round with an opcode that is evaluated goes on behind it, with one round less. -/
theorem expLoop_continues {place stop rounds : Nat} {stack next : SmcStack}
    (inside : place < pScopeEnd) (spans : OpcodeSpans memory place stop)
    (operated : operate stack (operationOf memory place) = .ok (.continues next)) :
    expLoop memory pScopeEnd (rounds + 1) place stack =
      expLoop memory pScopeEnd rounds stop next := by
  rw [expLoop, if_pos inside, operated, spans.2]
  rfl

/-- A division by zero ends the loop. -/
theorem expLoop_fails {place rounds : Nat} {stack : SmcStack} (inside : place < pScopeEnd)
    (operated : operate stack (operationOf memory place) = .error .divideByZero) :
    expLoop memory pScopeEnd (rounds + 1) place stack = .error .divideByZero := by
  rw [expLoop, if_pos inside, operated]
  rfl

/-- A step lemma: a constant is pushed. -/
theorem operate_constant {literal : Constant} {place : Nat} {stack : SmcStack}
    (lies : literal.LiesAt memory place) (room : (contents stack).length < stackSize) :
    ∃ next, operate stack (operationOf memory place) = .ok (.continues next) ∧
      contents next = contents stack ++ [literal.value] := by
  refine ⟨smcPush64 literal.value stack, ?_, contents_push room⟩
  rw [operationOf_constant lies]
  rfl

/-- A step lemma: an operand is replaced by its negation. -/
theorem operate_not {place : Nat} {stack : SmcStack} {values : List UInt64} {operand : UInt64}
    (code : opCode memory place = 0x17) (holds : contents stack = values ++ [operand]) :
    ∃ next, operate stack (operationOf memory place) = .ok (.continues next) ∧
      contents next = values ++ [truth (operand = 0)] := by
  obtain ⟨popped, pops, left⟩ := pop_contents holds
  have room : (contents popped).length < stackSize := by
    have count := @length_contents stack
    have bound := stack.bound
    rw [holds, List.length_append, List.length_singleton] at count
    rw [left]
    omega
  refine ⟨smcPush64 (truth (operand = 0)) popped, ?_, ?_⟩
  · rw [operationOf_not code, operate, pops]
  · rw [contents_push room, left]

/-- A step lemma: two operands are replaced by the value of the operator, if there is one. -/
theorem operate_binary {operator : Binary} {place : Nat} {stack : SmcStack}
    {values : List UInt64} {left right : UInt64} (code : opCode memory place = operator.opCode)
    (holds : contents stack = values ++ [left] ++ [right]) :
    match operator.apply (fun left right => left ≥ right) left right with
    | some value => ∃ next, operate stack (operationOf memory place) = .ok (.continues next) ∧
        contents next = values ++ [value]
    | none => operate stack (operationOf memory place) = .error .divideByZero := by
  obtain ⟨popped, pops, leftOver⟩ := pop_contents holds
  obtain ⟨poppedBoth, popsAgain, rest⟩ := pop_contents leftOver
  obtain ⟨compute, operation, computes⟩ := operationOf_binary code
  have computed := computes left right
  have room : (contents poppedBoth).length < stackSize := by
    have count := @length_contents popped
    have bound := popped.bound
    rw [leftOver, List.length_append, List.length_singleton] at count
    rw [rest]
    omega
  rw [operation]
  cases applied : operator.apply (fun left right => left ≥ right) left right with
  | some value =>
    rw [applied] at computed
    refine ⟨smcPush64 value poppedBoth, ?_, ?_⟩
    · rw [operate, pops]
      simp only [popsAgain, computed]
      rfl
    · rw [contents_push room, rest]
  | none =>
    rw [applied] at computed
    rw [operate, pops]
    simp only [popsAgain, computed]
    rfl

/-- How the loop gets over an expression: its value, with `EFI_IFR_LESS_EQUAL_OP` taken for
`EFI_IFR_GREATER_EQUAL_OP`, is on the stack behind it. -/
def GetsOver (memory : Memory) (pScopeEnd : Nat) (exp : Exp) (start stop : Nat)
    (stack : SmcStack) : Prop :=
  match exp.exchanged with
  | some value => ∃ next, contents next = contents stack ++ [value] ∧
      ∀ rounds, expLoop memory pScopeEnd (exp.size + rounds) start stack =
        expLoop memory pScopeEnd rounds stop next
  | none => ∀ rounds,
      expLoop memory pScopeEnd (exp.size + rounds) start stack = .error .divideByZero

/-- The loop gets over a constant in one round, which pushes it. -/
theorem getsOver_constant {literal : Constant} {start stop : Nat} {stack : SmcStack}
    (lies : (Exp.constant literal).LiesFrom memory start stop) (inside : stop ≤ pScopeEnd)
    (room : (contents stack).length + (Exp.constant literal).slots ≤ stackSize) :
    GetsOver memory pScopeEnd (.constant literal) start stop stack := by
  have below : start < pScopeEnd := Nat.lt_of_lt_of_le (lt_of_liesFrom _ lies) inside
  change (contents stack).length + 1 ≤ stackSize at room
  obtain ⟨next, operated, holds⟩ :=
    @operate_constant memory literal start stack lies.1 (by omega)
  refine ⟨next, holds, fun rounds => ?_⟩
  change expLoop memory pScopeEnd (1 + rounds) start stack = _
  rw [Nat.add_comm 1]
  exact expLoop_continues below lies.2 operated

/-- Behind the operand a NOT takes one more round. -/
theorem getsOver_not {operand : Exp} {start last stop : Nat} {stack : SmcStack}
    (code : opCode memory last = 0x17) (spans : OpcodeSpans memory last stop)
    (inside : stop ≤ pScopeEnd) (inner : GetsOver memory pScopeEnd operand start last stack) :
    GetsOver memory pScopeEnd (.not operand) start stop stack := by
  have below : last < pScopeEnd := by
    have := spans.1
    have := spans.2
    omega
  have fuel : ∀ rounds, (Exp.not operand).size + rounds = operand.size + (rounds + 1) := by
    intro rounds
    simp only [Exp.size]
    omega
  have meaning : (Exp.not operand).exchanged =
      operand.exchanged.map fun value => truth (value = 0) := rfl
  unfold GetsOver at inner ⊢
  rw [meaning]
  cases value : operand.exchanged with
  | none =>
    rw [value] at inner
    intro rounds
    rw [fuel]
    exact inner _
  | some value' =>
    rw [value] at inner
    obtain ⟨middle, holds, walked⟩ := inner
    obtain ⟨next, operated, result⟩ := operate_not code holds
    refine ⟨next, result, fun rounds => ?_⟩
    rw [fuel, walked, expLoop_continues below spans operated]

/-- Behind both operands an operator takes one more round. The right operand is worked off with
the value of the left one below it on the stack. -/
theorem getsOver_binary {operator : Binary} {left right : Exp} {start middle last stop : Nat}
    {stack : SmcStack} (code : opCode memory last = operator.opCode)
    (spans : OpcodeSpans memory last stop) (inside : stop ≤ pScopeEnd)
    (overLeft : GetsOver memory pScopeEnd left start middle stack)
    (overRight : ∀ withLeft value, contents withLeft = contents stack ++ [value] →
      GetsOver memory pScopeEnd right middle last withLeft) :
    GetsOver memory pScopeEnd (.binary operator left right) start stop stack := by
  have below : last < pScopeEnd := by
    have := spans.1
    have := spans.2
    omega
  have fuel : ∀ rounds, (Exp.binary operator left right).size + rounds =
      left.size + (right.size + (rounds + 1)) := by
    intro rounds
    simp only [Exp.size]
    omega
  have meaning : (Exp.binary operator left right).exchanged =
      left.exchanged.bind fun leftValue => right.exchanged.bind fun rightValue =>
        operator.apply (fun left right => left ≥ right) leftValue rightValue := rfl
  unfold GetsOver at overLeft ⊢
  rw [meaning]
  cases leftValue : left.exchanged with
  | none =>
    rw [leftValue] at overLeft
    intro rounds
    rw [fuel]
    exact overLeft _
  | some leftOperand =>
    rw [leftValue] at overLeft
    obtain ⟨withLeft, holdsLeft, walkedLeft⟩ := overLeft
    have overRight := overRight withLeft leftOperand holdsLeft
    unfold GetsOver at overRight
    cases rightValue : right.exchanged with
    | none =>
      rw [rightValue] at overRight
      intro rounds
      rw [fuel, walkedLeft]
      exact overRight _
    | some rightOperand =>
      rw [rightValue] at overRight
      obtain ⟨withBoth, holdsBoth, walkedBoth⟩ := overRight
      rw [holdsLeft] at holdsBoth
      have last := operate_binary code holdsBoth
      simp only [Option.bind_some]
      cases applied : operator.apply (fun left right => left ≥ right) leftOperand
          rightOperand with
      | none =>
        rw [applied] at last
        intro rounds
        rw [fuel, walkedLeft, walkedBoth, expLoop_fails below last]
      | some value =>
        rw [applied] at last
        obtain ⟨next, operated, result⟩ := last
        refine ⟨next, result, fun rounds => ?_⟩
        rw [fuel, walkedLeft, walkedBoth, expLoop_continues below spans operated]

/-- A run lemma: the loop gets over an expression that has room on the stack. The induction is
on the expression, with one of the lemmas above for each of its forms. -/
theorem expLoop_exp (exp : Exp) {start stop : Nat} {stack : SmcStack}
    (lies : exp.LiesFrom memory start stop) (inside : stop ≤ pScopeEnd)
    (room : (contents stack).length + exp.slots ≤ stackSize) :
    GetsOver memory pScopeEnd exp start stop stack := by
  induction exp generalizing start stop stack with
  | constant literal => exact getsOver_constant lies inside room
  | not operand ih =>
    obtain ⟨last, first, code, spans⟩ := lies
    have below : last ≤ pScopeEnd := by
      have := spans.1
      have := spans.2
      omega
    exact getsOver_not code spans inside (ih first below room)
  | binary operator left right ihLeft ihRight =>
    obtain ⟨middle, last, first, second, code, spans⟩ := lies
    change (contents stack).length + max left.slots (right.slots + 1) ≤ stackSize at room
    have below : last ≤ pScopeEnd := by
      have := spans.1
      have := spans.2
      omega
    have between := lt_of_liesFrom right second
    refine getsOver_binary code spans inside (ihLeft first (by omega) (by omega)) ?_
    intro withLeft value holds
    refine ihRight second below ?_
    rw [holds, List.length_append, List.length_singleton]
    omega

/-- Expressions end behind their start. -/
theorem le_of_lieFrom (exps : List Exp) {start stop : Nat} (lie : LieFrom memory exps start stop) :
    start ≤ stop := by
  induction exps generalizing start with
  | nil => exact Nat.le_of_eq lie
  | cons exp exps ih =>
    obtain ⟨next, first, rest⟩ := lie
    exact Nat.le_trans (Nat.le_of_lt (lt_of_liesFrom exp first)) (ih rest)

/-- A run lemma: the loop gets over expressions that lie one behind the other. -/
theorem expLoop_exps (exps : List Exp) {start stop : Nat} {stack : SmcStack}
    (lie : LieFrom memory exps start stop) (inside : stop ≤ pScopeEnd)
    (room : slotsFrom exps (contents stack).length ≤ stackSize) :
    match exchangedAll exps with
    | some values => ∃ next, contents next = contents stack ++ values ∧
        ∀ rounds, expLoop memory pScopeEnd ((exps.map Exp.size).sum + rounds) start stack =
          expLoop memory pScopeEnd rounds stop next
    | none => ∀ rounds, expLoop memory pScopeEnd ((exps.map Exp.size).sum + rounds) start stack =
        .error .divideByZero := by
  induction exps generalizing start stack with
  | nil =>
    obtain rfl : start = stop := lie
    exact ⟨stack, (List.append_nil _).symm, fun rounds => by simp⟩
  | cons exp exps ih =>
    obtain ⟨next, first, rest⟩ := lie
    have between := le_of_lieFrom exps rest
    have fuel : ∀ rounds, ((exp :: exps).map Exp.size).sum + rounds =
        exp.size + ((exps.map Exp.size).sum + rounds) := by
      intro rounds
      simp [Nat.add_assoc]
    change max ((contents stack).length + exp.slots) (slotsFrom exps ((contents stack).length + 1)) ≤
      stackSize at room
    have gotOver := @expLoop_exp memory pScopeEnd exp start next stack first (by omega) (by omega)
    unfold GetsOver at gotOver
    rw [exchangedAll]
    cases value : exp.exchanged with
    | none =>
      rw [value] at gotOver
      intro rounds
      rw [fuel]
      exact gotOver _
    | some head =>
      rw [value] at gotOver
      obtain ⟨withHead, holds, walked⟩ := gotOver
      have count : (contents withHead).length = (contents stack).length + 1 := by
        rw [holds, List.length_append, List.length_singleton]
      have later := @ih next withHead rest (by rw [count]; omega)
      simp only [Option.bind_some]
      cases values : exchangedAll exps with
      | none =>
        rw [values] at later
        intro rounds
        rw [fuel, walked]
        exact later _
      | some tail =>
        rw [values] at later
        obtain ⟨final, holdsAll, walkedAll⟩ := later
        refine ⟨final, ?_, fun rounds => ?_⟩
        · rw [holdsAll, holds, List.append_assoc, List.singleton_append]
        · rw [fuel, walked, walkedAll]

/-- `GetScopeEnd` goes on behind expressions. -/
theorem getScopeEnd_behind_exps (exps : List Exp) {start stop rounds scope : Nat}
    (lie : LieFrom memory exps start stop)
    (ends : getScopeEnd memory rounds start scope = some pScopeEnd) :
    ∃ fewer deeper, rounds = (exps.map Exp.size).sum + fewer ∧
      getScopeEnd memory fewer stop deeper = some pScopeEnd := by
  induction exps generalizing start rounds scope with
  | nil =>
    obtain rfl : start = stop := lie
    exact ⟨rounds, scope, by simp, ends⟩
  | cons exp exps ih =>
    obtain ⟨next, first, rest⟩ := lie
    obtain ⟨middle, inner, rfl, between⟩ := getScopeEnd_behind_exp exp first ends
    obtain ⟨fewer, deeper, rfl, later⟩ := ih rest between
    exact ⟨fewer, deeper, by simp [Nat.add_assoc], later⟩

/-- The end of the scope is an END. -/
theorem getScopeEnd_isEnd {rounds place scope : Nat}
    (ends : getScopeEnd memory rounds place scope = some pScopeEnd) :
    opCode memory pScopeEnd = 0x29 := by
  induction rounds generalizing place scope with
  | zero => cases ends
  | succ rounds ih =>
    rw [getScopeEnd] at ends
    split_ifs at ends with opens closes last
    · exact ih ends
    · rw [← Option.some.inj ends]
      exact closes
    · exact ih ends
    · exact ih ends

/-- The value that is returned is the one on the top, or 0 on an empty stack. -/
theorem popValue_contents (stack : SmcStack) :
    (popValue stack).1 = (contents stack).getLast?.getD 0 := by
  rcases List.eq_nil_or_concat (contents stack) with none | ⟨values, value, shape⟩
  · have empty : stack.count = 0 := by rw [← length_contents, none, List.length_nil]
    rw [none, popValue, smcPop64, dif_neg (by omega)]
    rfl
  · rw [List.concat_eq_append] at shape
    obtain ⟨next, pops, -⟩ := pop_contents shape
    rw [popValue, pops, shape]
    simp

/-- An opcode that `CalExpValue` answers with 0. -/
def Refused (memory : Memory) (place : Nat) : Prop := operationOf memory place = .noSupport

/-- An opcode at which `CalExpValue` stops. -/
def Unknown (memory : Memory) (place : Nat) : Prop := operationOf memory place = .other

/-- What `CalExpValue` makes of expressions and the opcode behind them: without the END of the
scope the value is 0; otherwise the expressions are worked off, and an opcode that is refused
behind them gives 0, one that is not known the value that was pushed last. -/
theorem valueOf_exps (exps : List Exp) {op place : Nat} {stack : SmcStack}
    (lie : LieFrom memory exps op place) (room : slotsFrom exps 0 ≤ stackSize)
    (empty : stack.count = 0) :
    (getScopeEnd memory scopeRounds op 1 = none → valueOf ⟨memory, op⟩ stack = .ok 0) ∧
      (∀ pScopeEnd, getScopeEnd memory scopeRounds op 1 = some pScopeEnd →
        match exchangedAll exps with
        | none => valueOf ⟨memory, op⟩ stack = .error .divideByZero
        | some values =>
          (Refused memory place → valueOf ⟨memory, op⟩ stack = .ok 0) ∧
            (Unknown memory place →
              valueOf ⟨memory, op⟩ stack = .ok (values.getLast?.getD 0))) := by
  constructor
  · intro none
    rw [valueOf, calExpValue, none]
    rfl
  intro pScopeEnd ends
  obtain ⟨fewer, deeper, rounds, later⟩ := getScopeEnd_behind_exps exps lie ends
  have below := le_getScopeEnd later
  have start : contents (initSmcStack stack) = [] := by
    rw [initSmcStack_empty empty]
    rfl
  have gotOver := @expLoop_exps memory pScopeEnd exps op place (initSmcStack stack) lie below (by
    rw [start]
    exact room)
  have run : valueOf ⟨memory, op⟩ stack =
      (expLoop memory pScopeEnd scopeRounds op (initSmcStack stack)).map Prod.fst := by
    rw [valueOf, calExpValue, ends]
  obtain ⟨left, rfl⟩ : ∃ left, fewer = left + 1 := by
    cases fewer with
    | zero => cases later
    | succ left => exact ⟨left, rfl⟩
  rw [run, rounds]
  cases values : exchangedAll exps with
  | none =>
    rw [values] at gotOver
    simp only [gotOver]
    rfl
  | some values' =>
    rw [values] at gotOver
    obtain ⟨next, holds, walked⟩ := gotOver
    rw [start, List.nil_append] at holds
    simp only [walked]
    constructor
    · intro refused
      have inside : place < pScopeEnd := by
        refine Nat.lt_of_le_of_ne below ?_
        rintro rfl
        have code := getScopeEnd_isEnd later
        rw [Refused, operationOf] at refused
        simp [code] at refused
      rw [expLoop, if_pos inside, refused]
      rfl
    · intro unknown
      rw [expLoop]
      split
      · rw [unknown]
        change Except.ok (popValue next).1 = _
        rw [popValue_contents, holds]
      · change Except.ok (popValue next).1 = _
        rw [popValue_contents, holds]

end Evaluation

section Result

variable (memory : Memory) (op : Nat)

/-- Opcodes that expressions consist of. -/
def isOperator (code : UInt8) : Bool :=
  (0x12 ≤ code && code ≤ 0x17) || (0x20 ≤ code && code ≤ 0x22) || (0x2A ≤ code && code ≤ 0x2C) ||
    (0x2F ≤ code && code ≤ 0x59) || code = 0x5E || code = 0x60 || code = 0x64

/-- An operator that `CalExpValue` does not evaluate. -/
def Unevaluated (place : Nat) : Prop :=
  isOperator (opCode memory place) ∧ (Refused memory place ∨ Unknown memory place)

/-- The END of the scope is found. -/
def ScopeEnds : Prop := getScopeEnd memory scopeRounds op 1 ≠ none

/-- The value of an expression stays with GREATER_EQUAL for LESS_EQUAL. -/
def KeepsValue (exp : Exp) (value : UInt64) : Prop :=
  (ScopeEnds memory op → exp.exchanged = some value) ∧ (¬ ScopeEnds memory op → value = 0)

/-- What stands before an opcode that is not evaluated does not show. -/
def ShowsNothing (exps : List Exp) (place : Nat) : Prop :=
  ScopeEnds memory op → ∃ values, exchangedAll exps = some values ∧
    (Refused memory place ∨ values.getLast?.getD 0 = 0)

/-- When `CalExpValue` returns the value of an expression, and when it returns 0 for one with an
operator that it does not evaluate. Expressions need no more cells than the stack has, and the
stack is empty at first; what it is after other expressions is not the subject here. -/
theorem calExpValue_iff (memory : Memory) (op : Nat) (stack : SmcStack)
    (empty : stack.count = 0) :
    (∀ (exp : Exp) (stop : Nat) (value : UInt64), exp.LiesFrom memory op stop →
      Unknown memory stop → exp.slots ≤ stackSize → exp.value = some value →
        (valueOf ⟨memory, op⟩ stack = .ok value ↔ KeepsValue memory op exp value)) ∧
      ∀ (exps : List Exp) (place : Nat), LieFrom memory exps op place →
        slotsFrom exps 0 ≤ stackSize → Unevaluated memory place →
          (valueOf ⟨memory, op⟩ stack = .ok 0 ↔ ShowsNothing memory op exps place) := by
  constructor
  · intro exp stop value lies behind room _
    have lie : LieFrom memory [exp] op stop := ⟨stop, lies, rfl⟩
    have fits : slotsFrom [exp] 0 ≤ stackSize := by
      have bound : 0 + 1 ≤ stackSize := by decide
      simp only [slotsFrom]
      omega
    obtain ⟨unended, ended⟩ := valueOf_exps [exp] lie fits empty
    unfold KeepsValue ScopeEnds
    cases ends : getScopeEnd memory scopeRounds op 1 with
    | none =>
      rw [unended ends]
      constructor
      · intro same
        exact ⟨fun found => absurd rfl found, fun _ => (Except.ok.inj same).symm⟩
      · intro keeps
        rw [keeps.2 (fun found => found rfl)]
    | some pScopeEnd =>
      have result := ended pScopeEnd ends
      rw [exchangedAll, exchangedAll] at result
      cases exchanged : exp.exchanged with
      | none =>
        rw [exchanged] at result
        change valueOf ⟨memory, op⟩ stack = .error .divideByZero at result
        rw [result]
        simp
      | some other =>
        rw [exchanged] at result
        have evaluated : valueOf ⟨memory, op⟩ stack = .ok other := result.2 behind
        rw [evaluated]
        simp
  · rintro exps place lie room ⟨-, unevaluated⟩
    obtain ⟨unended, ended⟩ := valueOf_exps exps lie room empty
    unfold ShowsNothing ScopeEnds
    cases ends : getScopeEnd memory scopeRounds op 1 with
    | none => exact iff_of_true (unended ends) (fun found => absurd rfl found)
    | some pScopeEnd =>
      have result := ended pScopeEnd ends
      cases values : exchangedAll exps with
      | none =>
        rw [values] at result
        have fault : valueOf ⟨memory, op⟩ stack = .error .divideByZero := result
        rw [fault]
        simp
      | some values' =>
        rw [values] at result
        obtain ⟨refused, unknown⟩ := result
        rcases unevaluated with here | here
        · exact iff_of_true (refused here) (fun _ => ⟨values', rfl, Or.inl here⟩)
        · have notRefused : ¬ Refused memory place := by
            intro other
            exact absurd (here.symm.trans other) (by simp)
          rw [unknown here]
          simp [notRefused]

/-- `1 <= 2`, and the END of the scope. -/
def lessMemory : Memory := memoryOf [0x42, 3, 1, 0x42, 3, 2, 0x34, 2, 0x29, 2] (fun _ => 0)

/-- `1 <= 2`. -/
def lessExp : Exp := .binary .lessEqual (.constant (.uint8 1)) (.constant (.uint8 2))

/-- The expression lies in the memory of the example. -/
theorem lessExp_liesFrom : lessExp.LiesFrom lessMemory 0 8 :=
  ⟨3, 6, ⟨⟨rfl, rfl⟩, by decide, rfl⟩, ⟨⟨rfl, rfl⟩, by decide, rfl⟩, rfl, by decide, rfl⟩

/-- Behind it there is an END, at which the loop stops. -/
theorem lessMemory_unknown : Unknown lessMemory 8 := rfl

/-- `1 == 1`, and the END of the scope. -/
def equalMemory : Memory := memoryOf [0x42, 3, 1, 0x42, 3, 1, 0x2F, 2, 0x29, 2] (fun _ => 0)

/-- The operands of `1 == 1`. -/
def ones : List Exp := [.constant (.uint8 1), .constant (.uint8 1)]

/-- The two constants lie in the memory of the example. -/
theorem ones_lieFrom : LieFrom equalMemory ones 0 6 :=
  ⟨3, ⟨⟨rfl, rfl⟩, by decide, rfl⟩, 6, ⟨⟨rfl, rfl⟩, by decide, rfl⟩, rfl⟩

/-- Both parts at an example: a comparison that is true, and an EQUAL that is not evaluated. -/
theorem calExpValue_iff_examples :
    (valueOf ⟨lessMemory, 0⟩ startUp = .ok 1 ↔ KeepsValue lessMemory 0 lessExp 1) ∧
      (valueOf ⟨equalMemory, 0⟩ startUp = .ok 0 ↔ ShowsNothing equalMemory 0 ones 6) :=
  ⟨(calExpValue_iff lessMemory 0 startUp rfl).1 lessExp 8 1 lessExp_liesFrom lessMemory_unknown
      (by decide) rfl,
    (calExpValue_iff equalMemory 0 startUp rfl).2 ones 6 ones_lieFrom (by decide)
      ⟨by decide, Or.inr rfl⟩⟩

/-- `1 <= 2` is true, and its value is that of `1 >= 2`. -/
theorem not_always_the_value :
    ¬ ∀ (memory : Memory) (op : Nat) (stack : SmcStack), stack.count = 0 →
      (∀ (exp : Exp) (stop : Nat) (value : UInt64), exp.LiesFrom memory op stop →
        Unknown memory stop → exp.slots ≤ stackSize → exp.value = some value →
          valueOf ⟨memory, op⟩ stack = .ok value) ∧
        ∀ (exps : List Exp) (place : Nat), LieFrom memory exps op place →
          slotsFrom exps 0 ≤ stackSize → Unevaluated memory place →
            valueOf ⟨memory, op⟩ stack = .ok 0 := by
  intro always
  have returned := (always lessMemory 0 startUp rfl).1 lessExp 8 1 lessExp_liesFrom
    lessMemory_unknown (by decide) rfl
  have computed : valueOf ⟨lessMemory, 0⟩ startUp = .ok 0 := rfl
  rw [computed] at returned
  exact absurd (Except.ok.inj returned) (by decide)

end Result

end SmcPkg.ExpValue
