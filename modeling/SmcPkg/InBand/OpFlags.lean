import SmcPkg.InBand.ExpStack

/-!
# Hidden references

`ParseOpNode` walks over the opcodes of a formset and goes into every scope. The value of the
condition of a scope is kept for its level, and a reference below a level with such a value is
recorded as hidden.

The values of the conditions are a parameter here, any function of the place. Scopes that are
not closed, and opcodes that run over the end of the formset, are not covered.
-/

namespace SmcPkg.OpFlags

open Bytes ExpStack

section Opcodes

variable (memory : Memory) (pOp : Nat)

/-- `EFI_IFR_REF_OP` with the length of `EFI_IFR_REF`. -/
def isRef : Bool := opCode memory pOp = 0x0F && opLength memory pOp = 15

/-- `EFI_IFR_REF_OP` with the length of `EFI_IFR_REF3`. -/
def isRef3 : Bool := opCode memory pOp = 0x0F && opLength memory pOp = 33

/-- `EFI_IFR_SUPPRESS_IF_OP`. -/
def isSuppressIf : Bool := opCode memory pOp = 0x0A

/-- `EFI_IFR_DISABLE_IF_OP`. -/
def isDisableIf : Bool := opCode memory pOp = 0x1E

/-- `EFI_IFR_END_OP`. -/
def isEnd : Bool := opCode memory pOp = 0x29

/-- A reference that can be recorded. -/
def isReference : Bool := isRef memory pOp || isRef3 memory pOp

/-- The scope has a condition. -/
def isConditional : Bool := isSuppressIf memory pOp || isDisableIf memory pOp

end Opcodes

section Walk

/-- `MAX_REF_COUNT`. -/
def maxRefCount : Nat := 2048

/-- `MAX_LEVEL_SIZE`. -/
def maxLevelSize : Nat := 64

/-- `SMC_OP_FLAG`. -/
structure SmcOpFlag where
  pointer : Nat
  flag : UInt8
  deriving DecidableEq

/-- `AddOpFlag`, on the entries of `OpFlag` that are in use. -/
def addOpFlag (opPointer : Nat) (flag : UInt8) (opFlag : List SmcOpFlag) : List SmcOpFlag :=
  if opFlag.length < maxRefCount then opFlag ++ [⟨opPointer, flag⟩] else opFlag

/-- `GetOpFlag`. -/
def getOpFlag (opPointer : Nat) (opFlag : List SmcOpFlag) : UInt8 :=
  match opFlag.find? fun entry => entry.pointer = opPointer with
  | some entry => entry.flag
  | none => 0

/-- `IsHidden`. -/
def isHidden (levelFlag : Nat → UInt8) (currentLevel : Nat) : Bool :=
  (List.range maxLevelSize).any fun ii => ii < currentLevel && levelFlag ii ≠ 0

/-- What `ParseOpNode` works on. -/
structure ParseState where
  level : Nat
  levelFlag : Nat → UInt8
  opFlag : List SmcOpFlag

/-- What ends a walk without a result: an access behind `LevelFlag`, or too few rounds. -/
inductive WalkFault
  | outsideLevelFlag
  | outOfFuel
  deriving DecidableEq, Repr

/-- Write an entry of `LevelFlag`. -/
def setLevelFlag (value : UInt8) (state : ParseState) : Except WalkFault ParseState :=
  if state.level < maxLevelSize then
    .ok { state with levelFlag := Function.update state.levelFlag state.level value }
  else .error .outsideLevelFlag

variable (memory : Memory) (condition : Nat → UInt64)

/-- `ParseOpNode` on an opcode that is no END, before its scope. The condition of a scope is what
`CalExpValue` makes of the opcodes behind. -/
def visitOp (pOp : Nat) (state : ParseState) : Except WalkFault ParseState :=
  if isRef memory pOp then
    .ok (if isHidden state.levelFlag state.level then
      { state with opFlag := addOpFlag pOp 1 state.opFlag } else state)
  else if isRef3 memory pOp then
    .ok (if isHidden state.levelFlag state.level then
      { state with opFlag := addOpFlag pOp 1 state.opFlag } else state)
  else if isSuppressIf memory pOp then setLevelFlag (condition pOp).toUInt8 state
  else if isDisableIf memory pOp then setLevelFlag (condition pOp).toUInt8 state
  else .ok state

/-- `ParseOpNode` on an END. The entry is read, and cleared if it is set. -/
def closeScope (state : ParseState) : Except WalkFault ParseState :=
  setLevelFlag 0 { state with level := state.level - 1 }

/-- `ParseOpNode`: the state, and the END it comes to. -/
def parseOpNode : Nat → ParseState → Nat → Except WalkFault (ParseState × Nat)
  | 0, _, _ => .error .outOfFuel
  | fuel + 1, state, pOp =>
    if isEnd memory pOp then (closeScope state).map fun state => (state, pOp)
    else do
      let state ← visitOp memory condition pOp state
      if opScope memory pOp then
        let (state, pEnd) ← parseOpNode fuel { state with level := state.level + 1 }
          (pOp + opLength memory pOp)
        parseOpNode fuel state (pEnd + opLength memory pEnd)
      else parseOpNode fuel state (pOp + opLength memory pOp)

end Walk

section Trees

/-- Opcodes with their places, and what is in their scopes. -/
inductive Forest
  | nil
  | leaf (place : Nat) (rest : Forest)
  | scope (place : Nat) (inside : Forest) (close : Nat) (rest : Forest)

variable (memory : Memory)

/-- The opcodes lie in memory from a place up to another, and each scope ends in an END. A
condition always has a scope. -/
def LaidOut : Nat → Forest → Nat → Prop
  | start, .nil, stop => start = stop
  | start, .leaf place rest, stop =>
    place = start ∧ isEnd memory place = false ∧ opScope memory place = false ∧
      isConditional memory place = false ∧ 2 ≤ opLength memory place ∧
      LaidOut (place + opLength memory place) rest stop
  | start, .scope place inside close rest, stop =>
    place = start ∧ isEnd memory place = false ∧ opScope memory place = true ∧
      2 ≤ opLength memory place ∧ LaidOut (place + opLength memory place) inside close ∧
      isEnd memory close = true ∧ 2 ≤ opLength memory close ∧
      LaidOut (close + opLength memory close) rest stop

/-- The number of opcodes. -/
def Forest.size : Forest → Nat
  | .nil => 0
  | .leaf _ rest => rest.size + 1
  | .scope _ inside _ rest => inside.size + rest.size + 2

/-- How deep the scopes go. -/
def Forest.depth : Forest → Nat
  | .nil => 0
  | .leaf _ rest => rest.depth
  | .scope _ inside _ rest => max (inside.depth + 1) rest.depth

/-- The references, each with the conditions around it. -/
def Forest.references (around : List Nat) : Forest → List (Nat × List Nat)
  | .nil => []
  | .leaf place rest =>
    (if isReference memory place then [(place, around)] else []) ++ rest.references around
  | .scope place inside _ rest =>
    (if isReference memory place then [(place, around)] else []) ++
      inside.references (if isConditional memory place then place :: around else around) ++
      rest.references around

end Trees

end SmcPkg.OpFlags
