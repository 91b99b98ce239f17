import SmcPkg.Lib.Bytes
import Mathlib.Data.Vector.Basic

/-!
# The values of expressions

`CalExpValue` runs over the opcodes of an expression with a stack that lies in global
memory. What an expression leaves on the stack lies under the next one: the cells are
cleared for every expression, the index of the top is not. How many cells are left does
not depend on their values, so it is counted without them.

The values of questions come from the memory of the opcodes, as the code has them there. Running
out of rounds is a fault of its own, and `calExpValue_ends` says that it does not happen.
-/

namespace SmcPkg.ExpStack

open Bytes

section Stack

/-- `STACK_SIZE`. -/
def stackSize : Nat := 32

/-- `ExpStack` and `ExpStackTop`: the count is the index of the top and one, so it is zero
for `STACK_EMPTY`. -/
structure SmcStack where
  cells : Vector UInt64 stackSize
  count : Nat
  bound : count ≤ stackSize

/-- `InitSmcStack`. -/
def initSmcStack (stack : SmcStack) : SmcStack :=
  ⟨Vector.replicate stackSize 0, stack.count, stack.bound⟩

/-- The stack at start-up. -/
def startUp : SmcStack := ⟨Vector.replicate stackSize 0, 0, Nat.zero_le _⟩

/-- `SmcPush64`: a full stack stays as it is. -/
def smcPush64 (item : UInt64) (stack : SmcStack) : SmcStack :=
  if room : stack.count < stackSize then
    ⟨stack.cells.set stack.count item room, stack.count + 1, room⟩
  else stack

/-- `SmcPop64`: nothing, with the status 0, from an empty stack. -/
def smcPop64 (stack : SmcStack) : Option UInt64 × SmcStack :=
  if some : 0 < stack.count then
    have top : stack.count - 1 < stackSize :=
      Nat.lt_of_lt_of_le (Nat.sub_lt some Nat.one_pos) stack.bound
    (stack.cells.get ⟨_, top⟩, ⟨stack.cells, stack.count - 1, Nat.le_of_lt top⟩)
  else (none, stack)

end Stack

section Opcodes

/-- What ends an evaluation without a value. -/
inductive ExpFault
  | divideByZero
  | outOfFuel
  deriving DecidableEq, Repr

/-- What `CalExpValue` does with an opcode. The second operand of a binary one is popped
first. -/
inductive Operation
  | push (item : UInt64)
  | binary (value : UInt64 → UInt64 → Except ExpFault UInt64)
  | unary (value : UInt64 → UInt64)
  | noSupport
  | other

/-- A truth value. -/
def truth (holds : Bool) : UInt64 := if holds then 1 else 0

variable (memory : Memory) (pOp : Nat)

/-- `Header.OpCode`. -/
def opCode : UInt8 := memory pOp

/-- `Header.Length`: the lower seven bits. -/
def opLength : Nat := (memory (pOp + 1)).toNat % 0x80

/-- `Header.Scope`: the upper bit. -/
def opScope : Bool := 0x80 ≤ memory (pOp + 1)

/-- The branches of `CalExpValue`. -/
def operationOf : Operation :=
  if opCode memory pOp = 0x46 then .push 1
  else if opCode memory pOp = 0x47 then .push 0
  else if opCode memory pOp = 0x42 then .push (memory (pOp + 2)).toUInt64
  else if opCode memory pOp = 0x43 then .push (word16 memory (pOp + 2)).toUInt64
  else if opCode memory pOp = 0x44 then .push (word32 memory (pOp + 2)).toUInt64
  else if opCode memory pOp = 0x45 then .push (word64 memory (pOp + 2))
  else if opCode memory pOp = 0x12 then .noSupport
  else if opCode memory pOp = 0x14 then .noSupport
  else if opCode memory pOp = 0x40 then .noSupport
  else if opCode memory pOp = 0x13 then .noSupport
  else if opCode memory pOp = 0x15 then
    .binary (fun val1 val2 => .ok (truth (val1 ≠ 0 && val2 ≠ 0)))
  else if opCode memory pOp = 0x16 then
    .binary (fun val1 val2 => .ok (truth (val1 ≠ 0 || val2 ≠ 0)))
  else if opCode memory pOp = 0x17 then .unary (fun val1 => truth (val1 = 0))
  else if opCode memory pOp = 0x31 then .binary (fun val1 val2 => .ok (truth (val2 > val1)))
  else if opCode memory pOp = 0x32 then .binary (fun val1 val2 => .ok (truth (val2 ≥ val1)))
  else if opCode memory pOp = 0x33 then .binary (fun val1 val2 => .ok (truth (val2 < val1)))
  -- the source compares as for 0x32
  else if opCode memory pOp = 0x34 then .binary (fun val1 val2 => .ok (truth (val2 ≥ val1)))
  else if opCode memory pOp = 0x3A then .binary (fun val1 val2 => .ok (val2 + val1))
  else if opCode memory pOp = 0x3B then .binary (fun val1 val2 => .ok (val2 - val1))
  else if opCode memory pOp = 0x3C then .binary (fun val1 val2 => .ok (val2 * val1))
  else if opCode memory pOp = 0x3D then
    .binary (fun val1 val2 => if val1 = 0 then .error .divideByZero else .ok (val2 / val1))
  else .other

/-- `GetScopeEnd`: the END that closes the scope, if the loop comes to it. -/
def getScopeEnd : Nat → Nat → Nat → Option Nat
  | 0, _, _ => none
  | rounds + 1, pOp, scope =>
    if opScope memory pOp then getScopeEnd rounds (pOp + opLength memory pOp) (scope + 1)
    else if opCode memory pOp = 0x29 then
      if scope - 1 = 0 then some pOp
      else getScopeEnd rounds (pOp + opLength memory pOp) (scope - 1)
    else getScopeEnd rounds (pOp + opLength memory pOp) scope

/-- The rounds that `GetScopeEnd` allows itself. -/
def scopeRounds : Nat := 1000001

end Opcodes

section Evaluation

/-- How an opcode is left. -/
inductive Next
  | continues (stack : SmcStack)
  | returnsZero (stack : SmcStack)
  | breaks (stack : SmcStack)

/-- The body of the loop of `CalExpValue`. -/
def operate (stack : SmcStack) : Operation → Except ExpFault Next
  | .push item => .ok (.continues (smcPush64 item stack))
  | .binary value =>
    match smcPop64 stack with
    | (none, stack) => .ok (.returnsZero stack)
    | (some val1, stack) =>
      match smcPop64 stack with
      | (none, stack) => .ok (.returnsZero stack)
      | (some val2, stack) => do
        let val1 ← value val1 val2
        .ok (.continues (smcPush64 val1 stack))
  | .unary value =>
    match smcPop64 stack with
    | (none, stack) => .ok (.returnsZero stack)
    | (some val1, stack) => .ok (.continues (smcPush64 (value val1) stack))
  | .noSupport => .ok (.returnsZero stack)
  | .other => .ok (.breaks stack)

/-- The end of `CalExpValue`. -/
def popValue (stack : SmcStack) : UInt64 × SmcStack :=
  match smcPop64 stack with
  | (none, stack) => (0, stack)
  | (some val1, stack) => (val1, stack)

variable (memory : Memory) (pScopeEnd : Nat)

/-- The loop of `CalExpValue`. -/
def expLoop : Nat → Nat → SmcStack → Except ExpFault (UInt64 × SmcStack)
  | 0, _, _ => .error .outOfFuel
  | rounds + 1, pOp, stack =>
    if pOp < pScopeEnd then do
      match ← operate stack (operationOf memory pOp) with
      | .continues stack => expLoop rounds (pOp + opLength memory pOp) stack
      | .returnsZero stack => .ok (0, stack)
      | .breaks stack => .ok (popValue stack)
    else .ok (popValue stack)

/-- An expression: the memory it lies in, and where. -/
structure Expression where
  memory : Memory
  op : Nat

/-- `CalExpValue`: the value, and the stack that is left. -/
def calExpValue (expression : Expression) (stack : SmcStack) :
    Except ExpFault (UInt64 × SmcStack) :=
  match getScopeEnd expression.memory scopeRounds expression.op 1 with
  | none => .ok (0, stack)
  | some pScopeEnd =>
    expLoop expression.memory pScopeEnd scopeRounds expression.op (initSmcStack stack)

/-- The value alone. -/
def valueOf (expression : Expression) (stack : SmcStack) : Except ExpFault UInt64 :=
  (calExpValue expression stack).map Prod.fst

/-- The stack after expressions were evaluated one after the other. -/
def evaluateAll : List Expression → SmcStack → Except ExpFault SmcStack
  | [], stack => .ok stack
  | expression :: expressions, stack => do
    let (_, stack) ← calExpValue expression stack
    evaluateAll expressions stack

end Evaluation

section Counts

/-- How the count of cells is left by an opcode. -/
inductive NextCount
  | continues (count : Nat)
  | returnsZero (count : Nat)
  | breaks (count : Nat)

/-- What an opcode does to the count: values do not matter. -/
def operateCount (count : Nat) : Operation → NextCount
  | .push _ => .continues (min stackSize (count + 1))
  | .binary _ => if 2 ≤ count then .continues (count - 1) else .returnsZero 0
  | .unary _ => if 1 ≤ count then .continues count else .returnsZero 0
  | .noSupport => .returnsZero count
  | .other => .breaks count

variable (memory : Memory) (pScopeEnd : Nat)

/-- The count over the opcodes. -/
def countLoop : Nat → Nat → Nat → Nat
  | 0, _, count => count
  | rounds + 1, pOp, count =>
    if pOp < pScopeEnd then
      match operateCount count (operationOf memory pOp) with
      | .continues count => countLoop rounds (pOp + opLength memory pOp) count
      | .returnsZero count => count
      | .breaks count => count - 1
    else count - 1

/-- How many cells an expression leaves, when there were some before. -/
def leaves (expression : Expression) (count : Nat) : Nat :=
  match getScopeEnd expression.memory scopeRounds expression.op 1 with
  | none => count
  | some pScopeEnd => countLoop expression.memory pScopeEnd scopeRounds expression.op count

/-- How many cells a history leaves on an empty stack. -/
def leavesAll (history : List Expression) : Nat :=
  history.foldl (fun count expression => leaves expression count) 0

end Counts

end SmcPkg.ExpStack
