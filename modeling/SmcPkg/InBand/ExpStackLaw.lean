import SmcPkg.InBand.ExpStack

/-!
# What a history leaves for the next expression

A history matters to the expressions after it exactly if it leaves cells on the stack. On
an empty stack every expression starts as the first one does. If a cell is left, a lone
NOT takes it, and has a value where the first expression would have had none.
-/

namespace SmcPkg.ExpStack

open Bytes

section Steps

variable {stack next : SmcStack} {item : UInt64}

/-- A push counts one more, up to the size. -/
theorem smcPush64_count : (smcPush64 item stack).count = min stackSize (stack.count + 1) := by
  have bound := stack.bound
  rw [smcPush64]
  split_ifs with room
  · exact (Nat.min_eq_right room).symm
  · have full : stack.count = stackSize := Nat.le_antisymm bound (Nat.le_of_not_lt room)
    rw [full]
    exact (Nat.min_eq_left (Nat.le_succ stackSize)).symm

/-- Nothing is popped of an empty stack only. -/
theorem smcPop64_none (popped : smcPop64 stack = (none, next)) :
    stack.count = 0 ∧ next.count = 0 := by
  rw [smcPop64] at popped
  split_ifs at popped with some
  · cases popped
  · cases popped
    exact ⟨by omega, by omega⟩

/-- A value is popped of a stack that is not empty, and counted off. -/
theorem smcPop64_some (popped : smcPop64 stack = (some item, next)) :
    0 < stack.count ∧ next.count = stack.count - 1 := by
  rw [smcPop64] at popped
  split_ifs at popped with some
  · cases popped
    exact ⟨some, rfl⟩
  · cases popped

/-- The value that is returned is counted off. -/
theorem popValue_count : (popValue stack).2.count = stack.count - 1 := by
  rw [popValue]
  cases popped : smcPop64 stack with
  | mk found next =>
    cases found with
    | none =>
      obtain ⟨empty, left⟩ := smcPop64_none popped
      rw [empty]
      exact left
    | some item => exact (smcPop64_some popped).2

/-- A value that was pushed is returned. -/
theorem popValue_push (room : stack.count < stackSize) :
    (popValue (smcPush64 item stack)).1 = item := by
  rw [smcPush64, dif_pos room, popValue, smcPop64, dif_pos (Nat.succ_pos _)]
  simp [Vector.get_eq_getElem]

/-- How an opcode is left, without the values. -/
def Next.count : Next → NextCount
  | .continues stack => .continues stack.count
  | .returnsZero stack => .returnsZero stack.count
  | .breaks stack => .breaks stack.count

/-- A step lemma: an opcode does to the count what it does without values. -/
theorem operate_count {operation : Operation} {left : Next}
    (operated : operate stack operation = .ok left) :
    left.count = operateCount stack.count operation := by
  have bound := stack.bound
  cases operation with
  | push item =>
    cases operated
    rw [Next.count, smcPush64_count]
    rfl
  | noSupport =>
    cases operated
    rfl
  | other =>
    cases operated
    rfl
  | unary value =>
    rw [operate] at operated
    cases popped : smcPop64 stack with
    | mk found next =>
      rw [popped] at operated
      cases found with
      | none =>
        obtain ⟨empty, none⟩ := smcPop64_none popped
        cases operated
        rw [Next.count, operateCount, empty, none]
        rfl
      | some val1 =>
        obtain ⟨one, fewer⟩ := smcPop64_some popped
        cases operated
        rw [Next.count, operateCount, if_pos (show 1 ≤ stack.count from one), smcPush64_count, fewer,
          Nat.sub_add_cancel one, Nat.min_eq_right bound]
  | binary value =>
    rw [operate] at operated
    cases popped : smcPop64 stack with
    | mk found next =>
      rw [popped] at operated
      cases found with
      | none =>
        obtain ⟨empty, none⟩ := smcPop64_none popped
        cases operated
        rw [Next.count, operateCount, empty, none]
        rfl
      | some val1 =>
        obtain ⟨one, fewer⟩ := smcPop64_some popped
        simp only at operated
        cases poppedAgain : smcPop64 next with
        | mk foundAgain last =>
          rw [poppedAgain] at operated
          cases foundAgain with
          | none =>
            obtain ⟨empty, none⟩ := smcPop64_none poppedAgain
            cases operated
            rw [Next.count, operateCount, if_neg (by omega), none]
          | some val2 =>
            obtain ⟨two, fewest⟩ := smcPop64_some poppedAgain
            simp only at operated
            cases computed : value val1 val2 with
            | error fault =>
              rw [computed] at operated
              cases operated
            | ok result =>
              rw [computed] at operated
              cases operated
              have room : stack.count - 1 ≤ stackSize := Nat.le_trans (Nat.sub_le _ _) bound
              rw [Next.count, operateCount, if_pos (by omega), smcPush64_count, fewest,
                Nat.sub_add_cancel two, fewer, Nat.min_eq_right room]

end Steps

section Runs

variable {memory : Memory} {pScopeEnd rounds pOp scope : Nat} {stack left : SmcStack}
  {value : UInt64} {expression : Expression}

/-- A run lemma: the count over an expression. -/
theorem expLoop_count (ran : expLoop memory pScopeEnd rounds pOp stack = .ok (value, left)) :
    left.count = countLoop memory pScopeEnd rounds pOp stack.count := by
  induction rounds generalizing pOp stack with
  | zero => cases ran
  | succ rounds inductionHypothesis =>
    rw [expLoop] at ran
    rw [countLoop]
    split_ifs at ran ⊢ with inside
    · cases operated : operate stack (operationOf memory pOp) with
      | error fault =>
        rw [operated] at ran
        cases ran
      | ok next =>
        have counted := operate_count operated
        rw [operated] at ran
        rw [← counted]
        cases next with
        | continues stack => exact inductionHypothesis ran
        | returnsZero stack =>
          cases ran
          rfl
        | breaks stack =>
          have same := Except.ok.inj ran
          have last : left = (popValue stack).2 := by rw [same]
          rw [last, popValue_count]
          rfl
    · have same := Except.ok.inj ran
      have last : left = (popValue stack).2 := by rw [same]
      rw [last, popValue_count]

/-- What an expression leaves depends on its opcodes and on how much there was before, not on
values. -/
theorem calExpValue_count (ran : calExpValue expression stack = .ok (value, left)) :
    left.count = leaves expression stack.count := by
  rw [calExpValue] at ran
  rw [leaves]
  cases ends : getScopeEnd expression.memory scopeRounds expression.op 1 with
  | none =>
    rw [ends] at ran
    cases ran
    rfl
  | some pScopeEnd =>
    rw [ends] at ran
    exact @expLoop_count _ _ _ _ (initSmcStack stack) _ _ ran

/-- A run lemma: the count over a history. -/
theorem evaluateAll_count {history : List Expression}
    (ran : evaluateAll history stack = .ok left) :
    left.count = history.foldl (fun count expression => leaves expression count) stack.count := by
  induction history generalizing stack with
  | nil =>
    cases ran
    rfl
  | cons expression history inductionHypothesis =>
    rw [evaluateAll] at ran
    cases evaluated : calExpValue expression stack with
    | error fault =>
      rw [evaluated] at ran
      cases ran
    | ok result =>
      rw [evaluated] at ran
      rw [List.foldl_cons, inductionHypothesis ran, calExpValue_count evaluated]

/-- Nothing but a division by zero. -/
def Operation.Divides : Operation → Prop
  | .binary values => ∀ val1 val2 fault, values val1 val2 = .error fault → fault = .divideByZero
  | _ => True

/-- Both branches divide where they should. -/
theorem divides_ite {condition : Prop} [Decidable condition] {yes no : Operation}
    (then_ : yes.Divides) (else_ : no.Divides) : (if condition then yes else no).Divides := by
  split_ifs
  · exact then_
  · exact else_

/-- Only the two divisions can divide by zero. -/
theorem operationOf_divides (memory : Memory) (pOp : Nat) : (operationOf memory pOp).Divides := by
  have total (compute : UInt64 → UInt64 → UInt64) :
      (Operation.binary (fun val1 val2 => .ok (compute val1 val2))).Divides := by
    intro val1 val2 fault impossible
    cases impossible
  rw [operationOf]
  repeat' apply divides_ite
  all_goals try trivial
  all_goals try exact total _
  intro val1 val2 fault computed
  simp only at computed
  split_ifs at computed
  cases computed
  rfl

/-- Only a division by zero ends an opcode without a result. -/
theorem operate_fault {fault : ExpFault}
    (operated : operate stack (operationOf memory pOp) = .error fault) : fault = .divideByZero := by
  have divides := operationOf_divides memory pOp
  cases operation : operationOf memory pOp with
  | push item =>
    rw [operation] at operated
    cases operated
  | noSupport =>
    rw [operation] at operated
    cases operated
  | other =>
    rw [operation] at operated
    cases operated
  | unary value =>
    rw [operation, operate] at operated
    split at operated
    · cases operated
    · cases operated
  | binary values =>
    rw [operation, operate] at operated
    split at operated
    · cases operated
    · rename_i val1 next popped
      split at operated
      · cases operated
      · rename_i val2 last poppedAgain
        cases computed : values val1 val2 with
        | error other =>
          rw [computed] at operated
          cases operated
          rw [operation] at divides
          exact divides val1 val2 fault computed
        | ok result =>
          rw [computed] at operated
          cases operated

/-- The loop comes to the END that `GetScopeEnd` came to. -/
theorem expLoop_ends (ends : getScopeEnd memory rounds pOp scope = some pScopeEnd) :
    expLoop memory pScopeEnd rounds pOp stack ≠ .error .outOfFuel := by
  induction rounds generalizing pOp scope stack with
  | zero => cases ends
  | succ rounds inductionHypothesis =>
    rw [expLoop]
    split_ifs with inside
    · cases operated : operate stack (operationOf memory pOp) with
      | error fault =>
        rw [operate_fault operated]
        intro impossible
        cases impossible
      | ok next =>
        cases next with
        | continues stack =>
          rw [getScopeEnd] at ends
          split_ifs at ends with opens closes last
          · exact inductionHypothesis ends
          · obtain rfl : pOp = pScopeEnd := Option.some.inj ends
            exact absurd inside (Nat.lt_irrefl pOp)
          · exact inductionHypothesis ends
          · exact inductionHypothesis ends
        | returnsZero stack =>
          intro impossible
          cases impossible
        | breaks stack =>
          intro impossible
          cases impossible
    · intro impossible
      cases impossible

/-- An evaluation has a value or divides by zero. -/
theorem calExpValue_ends : calExpValue expression stack ≠ .error .outOfFuel := by
  rw [calExpValue]
  cases ends : getScopeEnd expression.memory scopeRounds expression.op 1 with
  | none =>
    intro impossible
    cases impossible
  | some pScopeEnd => exact expLoop_ends ends

end Runs

section History

variable {stack left : SmcStack} {history : List Expression}

/-- An empty stack is started as at the first time. -/
theorem initSmcStack_empty (empty : stack.count = 0) : initSmcStack stack = startUp := by
  cases stack with
  | mk cells count bound =>
    subst empty
    rfl

/-- On an empty stack an expression has the value it has at first. -/
theorem valueOf_empty (empty : stack.count = 0) (expression : Expression) :
    valueOf expression stack = valueOf expression startUp := by
  rw [valueOf, valueOf, calExpValue, calExpValue]
  cases getScopeEnd expression.memory scopeRounds expression.op 1 with
  | none => rfl
  | some pScopeEnd =>
    simp only
    rw [initSmcStack_empty empty, initSmcStack_empty rfl]

/-- NOT, and the END of the scope. -/
def loneNot : Expression := ⟨memoryOf [0x17, 2, 0x29, 2] (fun _ => 0), 0⟩

/-- The scope of the example ends behind the NOT. -/
theorem loneNot_scope : getScopeEnd loneNot.memory scopeRounds loneNot.op 1 = some 2 := rfl

/-- A lone NOT pops a cell that is left, which is zero. -/
theorem loneNot_value : valueOf loneNot stack = .ok (if stack.count = 0 then 0 else 1) := by
  have rounds : scopeRounds = 999999 + 2 := rfl
  have operation : operationOf loneNot.memory 0 = .unary (fun val1 => truth (val1 = 0)) := rfl
  have length : opLength loneNot.memory 0 = 2 := rfl
  rw [valueOf, calExpValue, loneNot_scope, rounds]
  simp only
  rw [expLoop, if_pos (show loneNot.op < 2 from Nat.two_pos)]
  change Except.map Prod.fst (operate (initSmcStack stack) (operationOf loneNot.memory 0) >>= _) = _
  rw [operation, operate]
  cases popped : smcPop64 (initSmcStack stack) with
  | mk found next =>
    cases found with
    | none =>
      have empty : stack.count = 0 := (smcPop64_none popped).1
      rw [if_pos empty]
      rfl
    | some item =>
      have some : 0 < stack.count := (smcPop64_some popped).1
      have zero : item = 0 := by
        rw [smcPop64, dif_pos (show 0 < (initSmcStack stack).count from some)] at popped
        have read := congrArg Prod.fst popped
        simp only [initSmcStack, Vector.get_replicate, Option.some.injEq] at read
        exact read.symm
      have fewer := (smcPop64_some popped).2
      have below : next.count < stackSize := by
        rw [fewer]
        exact Nat.lt_of_lt_of_le (Nat.sub_lt some Nat.one_pos) stack.bound
      subst zero
      rw [if_neg (Nat.ne_of_gt some)]
      change Except.map Prod.fst (expLoop loneNot.memory 2 (999999 + 1) 2
        (smcPush64 (truth (decide ((0 : UInt64) = 0))) next)) = .ok 1
      rw [expLoop, if_neg (Nat.lt_irrefl 2)]
      change Except.ok (popValue (smcPush64 1 next)).1 = Except.ok 1
      rw [popValue_push below]

/-- Every expression has the value after a history that it has at first exactly if the history leaves
no cell on the stack. What the history leaves is counted from its opcodes, without their values;
that the history divides by no zero is what `ran` says. -/
theorem history_independent_iff (history : List Expression) (left : SmcStack)
    (ran : evaluateAll history startUp = .ok left) :
    (∀ expression, valueOf expression left = valueOf expression startUp) ↔
      leavesAll history = 0 := by
  have counted : left.count = leavesAll history := evaluateAll_count ran
  rw [← counted]
  constructor
  · intro same
    have lone := same loneNot
    rw [loneNot_value, loneNot_value, if_pos (show startUp.count = 0 from rfl)] at lone
    by_contra some
    rw [if_neg some] at lone
    cases lone
  · intro empty expression
    exact valueOf_empty empty expression

/-- Two values, of which one is popped. -/
def twoValues : Expression := ⟨memoryOf [0x46, 2, 0x46, 2, 0x29, 2] (fun _ => 0), 0⟩

/-- The history of the example can be evaluated. -/
theorem twoValues_evaluated : ∃ left, evaluateAll [twoValues] startUp = .ok left := ⟨_, rfl⟩

/-- It leaves a cell. -/
theorem twoValues_leaves : leavesAll [twoValues] = 1 := rfl

/-- The two sides for that history. -/
theorem history_independent_iff_twoValues : ∃ left, evaluateAll [twoValues] startUp = .ok left ∧
    ((∀ expression, valueOf expression left = valueOf expression startUp) ↔
      leavesAll [twoValues] = 0) := by
  obtain ⟨left, ran⟩ := twoValues_evaluated
  exact ⟨left, ran, history_independent_iff [twoValues] left ran⟩

/-- A history can change the value of an expression. -/
theorem not_history_independent :
    ¬ ∀ (history : List Expression) (left : SmcStack), evaluateAll history startUp = .ok left →
        ∀ expression, valueOf expression left = valueOf expression startUp := by
  intro always
  obtain ⟨left, ran⟩ := twoValues_evaluated
  have counted : left.count = 1 := (evaluateAll_count ran).trans twoValues_leaves
  have lone := always [twoValues] left ran loneNot
  rw [loneNot_value, loneNot_value, counted] at lone
  cases lone

end History

end SmcPkg.ExpStack
