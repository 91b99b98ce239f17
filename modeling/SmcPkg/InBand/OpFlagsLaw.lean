import SmcPkg.InBand.OpFlags

/-!
# Which references are recorded as hidden

The entries of `LevelFlag` below the level say whether a condition around has a value whose low
byte is not zero, and those from the level on are zero. A scope leaves them as they were. So a
walk over nested opcodes records the references below such conditions, in their order and as
long as there is room.
-/

namespace SmcPkg.OpFlags

open Bytes ExpStack

section Flags

variable {memory : Memory} {condition : Nat → UInt64} {around : List Nat} {state : ParseState}

/-- A condition counts for `ParseOpNode` if its low byte is not zero. -/
def LowSet (condition : Nat → UInt64) (around : List Nat) : Prop :=
  ∃ place ∈ around, (condition place).toUInt8 ≠ 0

instance : Decidable (LowSet condition around) := by
  unfold LowSet
  infer_instance

/-- The flags of the levels tell about the conditions around. -/
structure Tracks (condition : Nat → UInt64) (around : List Nat) (state : ParseState) : Prop where
  clear : ∀ ii, state.level ≤ ii → state.levelFlag ii = 0
  set : (∃ ii < state.level, state.levelFlag ii ≠ 0) ↔ LowSet condition around

/-- The flags of the open scopes say whether one of the conditions around has its low byte set.
-/
theorem isHidden_iff (tracks : Tracks condition around state)
    (room : state.level ≤ maxLevelSize) :
    isHidden state.levelFlag state.level ↔ LowSet condition around := by
  rw [← tracks.set, isHidden]
  simp only [List.any_eq_true, List.mem_range, Bool.and_eq_true, decide_eq_true_eq]
  constructor
  · rintro ⟨ii, -, below, set⟩
    exact ⟨ii, below, set⟩
  · rintro ⟨ii, below, set⟩
    exact ⟨ii, by omega, below, set⟩

/-- The state in a scope without a condition. -/
theorem tracks_plain (tracks : Tracks condition around state) (opFlag : List SmcOpFlag) :
    Tracks condition around ⟨state.level + 1, state.levelFlag, opFlag⟩ := by
  constructor
  · intro ii above
    exact tracks.clear ii (by change state.level + 1 ≤ ii at above; omega)
  · rw [← tracks.set]
    constructor
    · rintro ⟨ii, below, set⟩
      change ii < state.level + 1 at below
      by_cases last : ii = state.level
      · exact absurd (tracks.clear ii (by omega)) set
      · exact ⟨ii, by omega, set⟩
    · rintro ⟨ii, below, set⟩
      exact ⟨ii, by change ii < state.level + 1; omega, set⟩

/-- The state in a scope with a condition. -/
theorem tracks_condition (tracks : Tracks condition around state) (place : Nat)
    (opFlag : List SmcOpFlag) :
    Tracks condition (place :: around) ⟨state.level + 1,
      Function.update state.levelFlag state.level (condition place).toUInt8, opFlag⟩ := by
  have elsewhere : ∀ ii, ii ≠ state.level →
      Function.update state.levelFlag state.level (condition place).toUInt8 ii =
        state.levelFlag ii := fun ii other => Function.update_of_ne other _ _
  constructor
  · intro ii above
    change state.level + 1 ≤ ii at above
    exact (elsewhere ii (by omega)).trans (tracks.clear ii (by omega))
  · have split : LowSet condition (place :: around) ↔
        (condition place).toUInt8 ≠ 0 ∨ LowSet condition around := by simp [LowSet]
    rw [split, ← tracks.set]
    constructor
    · rintro ⟨ii, below, set⟩
      change ii < state.level + 1 at below
      by_cases last : ii = state.level
      · subst last
        exact Or.inl (by simpa using set)
      · exact Or.inr ⟨ii, by omega, by simpa [elsewhere ii last] using set⟩
    · rintro (set | ⟨ii, below, set⟩)
      · exact ⟨state.level, Nat.lt_succ_self _, by simpa using set⟩
      · refine ⟨ii, Nat.lt_succ_of_lt below, ?_⟩
        simpa [elsewhere ii (by omega)] using set

end Flags

section Steps

variable (memory : Memory) (condition : Nat → UInt64)

/-- Record references as long as there is room. -/
def record (places : List Nat) (opFlag : List SmcOpFlag) : List SmcOpFlag :=
  places.foldl (fun opFlag place => addOpFlag place 1 opFlag) opFlag

/-- The reference at a place, if it is below a condition that counts. -/
def hiddenHere (place : Nat) (around : List Nat) : List Nat :=
  if isReference memory place ∧ LowSet condition around then [place] else []

/-- The references of a forest that are below conditions that count. -/
def hiddenIn (forest : Forest) (around : List Nat) : List Nat :=
  ((forest.references memory around).filter fun reference =>
    LowSet condition reference.2).map Prod.fst

/-- An opcode without a scope is hidden or not, and so are those behind it. -/
theorem hiddenIn_leaf (place : Nat) (rest : Forest) (around : List Nat) :
    hiddenIn memory condition (.leaf place rest) around =
      hiddenHere memory condition place around ++ hiddenIn memory condition rest around := by
  by_cases reference : isReference memory place
  · by_cases low : LowSet condition around
    · simp [hiddenIn, hiddenHere, Forest.references, reference, low]
    · simp [hiddenIn, hiddenHere, Forest.references, reference, low]
  · simp [hiddenIn, hiddenHere, Forest.references, reference]

/-- Inside of a scope its condition is one of those around, behind it no longer. -/
theorem hiddenIn_scope (place close : Nat) (inside rest : Forest) (around : List Nat) :
    hiddenIn memory condition (.scope place inside close rest) around =
      hiddenHere memory condition place around ++
        hiddenIn memory condition inside
          (if isConditional memory place then place :: around else around) ++
        hiddenIn memory condition rest around := by
  by_cases reference : isReference memory place
  · by_cases low : LowSet condition around
    · simp [hiddenIn, hiddenHere, Forest.references, reference, low]
    · simp [hiddenIn, hiddenHere, Forest.references, reference, low]
  · simp [hiddenIn, hiddenHere, Forest.references, reference]

variable {memory condition} {around : List Nat} {state : ParseState} {pOp : Nat}

/-- Only a REF is recorded. -/
theorem isReference_opCode (reference : isReference memory pOp) : opCode memory pOp = 0x0F := by
  simp only [isReference, isRef, isRef3, Bool.or_eq_true, Bool.and_eq_true,
    decide_eq_true_eq] at reference
  obtain same | same := reference
  · exact same.1
  · exact same.1

/-- A step lemma: what an opcode without a condition does. -/
theorem visitOp_plain (plain : isConditional memory pOp = false)
    (tracks : Tracks condition around state) (room : state.level ≤ maxLevelSize) :
    visitOp memory condition pOp state = .ok { state with
      opFlag := record (hiddenHere memory condition pOp around) state.opFlag } := by
  have hidden := isHidden_iff tracks room
  simp only [isConditional, Bool.or_eq_false_iff] at plain
  unfold visitOp hiddenHere isReference
  by_cases low : LowSet condition around
  · have set : isHidden state.levelFlag state.level = true := hidden.mpr low
    by_cases ref : isRef memory pOp
    · simp [ref, set, low, record]
    · by_cases ref3 : isRef3 memory pOp
      · simp [ref, ref3, set, low, record]
      · simp [ref, ref3, plain, record]
  · have clear : isHidden state.levelFlag state.level = false := by
      simpa using mt hidden.mp low
    by_cases ref : isRef memory pOp
    · simp [ref, clear, low, record]
    · by_cases ref3 : isRef3 memory pOp
      · simp [ref, ref3, clear, low, record]
      · simp [ref, ref3, plain, record]

/-- A step lemma: what a condition does. -/
theorem visitOp_condition (conditional : isConditional memory pOp = true) :
    hiddenHere memory condition pOp around = [] ∧
      visitOp memory condition pOp state = setLevelFlag (condition pOp).toUInt8 state := by
  have notReference : isReference memory pOp = false := by
    by_contra reference
    have code := isReference_opCode (by simpa using reference)
    simp [isConditional, isSuppressIf, isDisableIf, code] at conditional
  constructor
  · simp [hiddenHere, notReference]
  · simp only [isReference, Bool.or_eq_false_iff] at notReference
    unfold visitOp
    rw [if_neg (by simp [notReference]), if_neg (by simp [notReference])]
    by_cases suppress : isSuppressIf memory pOp
    · rw [if_pos suppress]
    · have disable : isDisableIf memory pOp = true := by
        simpa [isConditional, suppress] using conditional
      rw [if_neg suppress, if_pos disable]

/-- What is in a scope is walked over with the level one higher. -/
theorem enter_scope (tracks : Tracks condition around state) (room : state.level < maxLevelSize) :
    ∃ levelFlag, visitOp memory condition pOp state = .ok ⟨state.level, levelFlag,
        record (hiddenHere memory condition pOp around) state.opFlag⟩ ∧
      Function.update levelFlag state.level 0 = state.levelFlag ∧
      Tracks condition (if isConditional memory pOp then pOp :: around else around)
        ⟨state.level + 1, levelFlag,
          record (hiddenHere memory condition pOp around) state.opFlag⟩ := by
  have zero : state.levelFlag state.level = 0 := tracks.clear state.level (Nat.le_refl _)
  cases conditional : isConditional memory pOp with
  | false =>
    refine ⟨state.levelFlag, visitOp_plain conditional tracks (by omega), ?_, ?_⟩
    · rw [← zero, Function.update_eq_self]
    · exact tracks_plain tracks _
  | true =>
    obtain ⟨none, visited⟩ := @visitOp_condition _ condition around state _ conditional
    rw [none, visited, setLevelFlag, if_pos room]
    refine ⟨_, rfl, ?_, tracks_condition tracks pOp _⟩
    rw [Function.update_idem, ← zero, Function.update_eq_self]

/-- An END closes the last scope and clears its flag. -/
theorem closeScope_ok (level : Nat) (levelFlag : Nat → UInt8) (opFlag : List SmcOpFlag)
    (room : level < maxLevelSize) :
    closeScope ⟨level + 1, levelFlag, opFlag⟩ =
      .ok ⟨level, Function.update levelFlag level 0, opFlag⟩ := by
  simp [closeScope, setLevelFlag, room]

/-- At an END the scope is closed, and the walk goes back with the place of the END. -/
theorem parseOpNode_end (fuel : Nat) (atEnd : isEnd memory pOp = true) :
    parseOpNode memory condition (fuel + 1) state pOp =
      (closeScope state).map fun state => (state, pOp) := by
  rw [parseOpNode, if_pos atEnd]

/-- Behind an opcode without a scope the walk goes on at the next opcode, one level of calls
less. -/
theorem parseOpNode_leaf (fuel : Nat) (notEnd : isEnd memory pOp = false)
    (noScope : opScope memory pOp = false) {next : ParseState}
    (visited : visitOp memory condition pOp state = .ok next) :
    parseOpNode memory condition (fuel + 1) state pOp =
      parseOpNode memory condition fuel next (pOp + opLength memory pOp) := by
  rw [parseOpNode, if_neg (by simp [notEnd]), visited]
  simp [bind, Except.bind, noScope]

/-- At an opcode with a scope the walk goes into it, and goes on behind its END. -/
theorem parseOpNode_scope (fuel : Nat) (notEnd : isEnd memory pOp = false)
    (withScope : opScope memory pOp = true) {next : ParseState}
    (visited : visitOp memory condition pOp state = .ok next) :
    parseOpNode memory condition (fuel + 1) state pOp =
      (parseOpNode memory condition fuel { next with level := next.level + 1 }
        (pOp + opLength memory pOp)).bind fun result =>
          parseOpNode memory condition fuel result.1
            (result.2 + opLength memory result.2) := by
  rw [parseOpNode, if_neg (by simp [notEnd]), visited]
  simp [bind, Except.bind, withScope]

end Steps

section Walks

variable {memory : Memory} {condition : Nat → UInt64}

/-- Places are recorded in their order. -/
theorem record_append (places more : List Nat) (opFlag : List SmcOpFlag) :
    record (places ++ more) opFlag = record more (record places opFlag) :=
  List.foldl_append

/-- A run lemma: a forest is walked over with the level and its flags as before. -/
theorem parseOpNode_forest (forest : Forest) {start stop : Nat} {around : List Nat}
    {state : ParseState} (laid : LaidOut memory start forest stop)
    (tracks : Tracks condition around state)
    (room : state.level + forest.depth ≤ maxLevelSize) (extra : Nat) :
    ∃ more, extra ≤ more ∧
      parseOpNode memory condition (forest.size + extra) state start =
        parseOpNode memory condition more { state with
          opFlag := record (hiddenIn memory condition forest around) state.opFlag } stop := by
  induction forest generalizing start stop around state extra with
  | nil =>
    obtain rfl : start = stop := laid
    exact ⟨extra, Nat.le_refl _, by simp [Forest.size, hiddenIn, Forest.references, record]⟩
  | leaf place rest ih =>
    obtain ⟨rfl, notEnd, noScope, plain, -, behind⟩ := laid
    change state.level + rest.depth ≤ maxLevelSize at room
    have visited := visitOp_plain plain tracks (by omega)
    obtain ⟨more, enough, later⟩ := @ih _ _ _ { state with
      opFlag := record (hiddenHere memory condition place around) state.opFlag } behind
      ⟨tracks.clear, tracks.set⟩ room extra
    refine ⟨more, enough, ?_⟩
    have fuel : (Forest.leaf place rest).size + extra = rest.size + extra + 1 := by
      simp only [Forest.size]
      omega
    rw [fuel, parseOpNode_leaf _ notEnd noScope visited, later, hiddenIn_leaf, record_append]
  | scope place inside close rest ihInside ihRest =>
    obtain ⟨rfl, notEnd, withScope, -, within, atEnd, -, behind⟩ := laid
    change state.level + max (inside.depth + 1) rest.depth ≤ maxLevelSize at room
    have below : state.level < maxLevelSize := by omega
    obtain ⟨levelFlag, visited, cleared, entered⟩ :=
      @enter_scope memory condition around state place tracks below
    obtain ⟨inner, enough, walked⟩ := @ihInside _ _ _ _ within entered
      (by change state.level + 1 + inside.depth ≤ maxLevelSize; omega) (rest.size + 1 + extra)
    obtain ⟨fuelLeft, rfl⟩ : ∃ fuelLeft, inner = fuelLeft + 1 := ⟨inner - 1, by omega⟩
    rw [parseOpNode_end _ atEnd, closeScope_ok _ _ _ below, cleared] at walked
    obtain ⟨more, enoughRest, later⟩ := @ihRest _ _ _ { state with
      opFlag := record (hiddenIn memory condition inside
        (if isConditional memory place then place :: around else around))
        (record (hiddenHere memory condition place around) state.opFlag) } behind
      ⟨tracks.clear, tracks.set⟩ (by change state.level + rest.depth ≤ maxLevelSize; omega)
      (inside.size + 1 + extra)
    refine ⟨more, by omega, ?_⟩
    have fuel : (Forest.scope place inside close rest).size + extra =
        inside.size + (rest.size + 1 + extra) + 1 := by
      simp only [Forest.size]
      omega
    have fuelRest : inside.size + (rest.size + 1 + extra) =
        rest.size + (inside.size + 1 + extra) := by omega
    rw [fuel, parseOpNode_scope _ notEnd withScope visited, walked]
    change parseOpNode memory condition (inside.size + (rest.size + 1 + extra)) _ _ = _
    rw [fuelRest, later, hiddenIn_scope, record_append, record_append]

end Walks

section Faults

variable {memory : Memory} {condition : Nat → UInt64} {state : ParseState} {pOp : Nat}

/-- A visit writes over the end of the flags, or leaves the level. -/
theorem visitOp_cases : visitOp memory condition pOp state = .error .outsideLevelFlag ∨
    ∃ next, visitOp memory condition pOp state = .ok next ∧ next.level = state.level := by
  have written : ∀ value, setLevelFlag value state = .error .outsideLevelFlag ∨
      ∃ next, setLevelFlag value state = .ok next ∧ next.level = state.level := by
    intro value
    unfold setLevelFlag
    split
    · exact Or.inr ⟨_, rfl, rfl⟩
    · exact Or.inl rfl
  have recorded : ∀ hidden : Bool, ∃ next, (Except.ok (if hidden then
      { state with opFlag := addOpFlag pOp 1 state.opFlag } else state) :
        Except WalkFault ParseState) = .ok next ∧ next.level = state.level := by
    intro hidden
    cases hidden <;> exact ⟨_, rfl, rfl⟩
  unfold visitOp
  split
  · exact Or.inr (recorded _)
  · split
    · exact Or.inr (recorded _)
    · split
      · exact written _
      · split
        · exact written _
        · exact Or.inr ⟨state, rfl, rfl⟩

/-- A visit that writes over the end ends the walk. -/
theorem parseOpNode_fault (fuel : Nat) (notEnd : isEnd memory pOp = false)
    (visited : visitOp memory condition pOp state = .error .outsideLevelFlag) :
    parseOpNode memory condition (fuel + 1) state pOp = .error .outsideLevelFlag := by
  rw [parseOpNode, if_neg (by simp [notEnd]), visited]
  rfl

/-- Above the highest level no END is survived. -/
theorem parseOpNode_above (forest : Forest) {start stop : Nat}
    (laid : LaidOut memory start forest stop) (atEnd : isEnd memory stop = true)
    (above : maxLevelSize < state.level) (extra : Nat) :
    parseOpNode memory condition (forest.size + 1 + extra) state start =
      .error .outsideLevelFlag := by
  induction forest generalizing start stop state extra with
  | nil =>
    obtain rfl : start = stop := laid
    have fuel : Forest.nil.size + 1 + extra = extra + 1 := by simp [Forest.size, Nat.add_comm]
    have outside : ¬ state.level - 1 < maxLevelSize := by omega
    rw [fuel, parseOpNode_end _ atEnd]
    simp [closeScope, setLevelFlag, outside, Except.map]
  | leaf place rest ih =>
    obtain ⟨rfl, notEnd, noScope, -, -, behind⟩ := laid
    have fuel : (Forest.leaf place rest).size + 1 + extra = rest.size + 1 + extra + 1 := by
      simp only [Forest.size]
      omega
    rw [fuel]
    obtain visited | ⟨next, visited, level⟩ :=
      @visitOp_cases memory condition state place
    · exact parseOpNode_fault _ notEnd visited
    · rw [parseOpNode_leaf _ notEnd noScope visited]
      exact ih behind atEnd (level ▸ above) extra
  | scope place inside close rest ihInside _ =>
    obtain ⟨rfl, notEnd, withScope, -, within, closed, -, -⟩ := laid
    have fuel : (Forest.scope place inside close rest).size + 1 + extra =
        inside.size + 1 + (rest.size + 1 + extra) + 1 := by
      simp only [Forest.size]
      omega
    rw [fuel]
    obtain visited | ⟨next, visited, level⟩ :=
      @visitOp_cases memory condition state place
    · exact parseOpNode_fault _ notEnd visited
    · have inner := @ihInside { next with level := next.level + 1 } _ _ within closed
        (by change maxLevelSize < next.level + 1; omega) (rest.size + 1 + extra)
      rw [parseOpNode_scope _ notEnd withScope visited, inner]
      rfl

/-- Scopes that go too deep end the walk. -/
theorem parseOpNode_tooDeep (forest : Forest) {start stop : Nat} {around : List Nat}
    (laid : LaidOut memory start forest stop) (atEnd : isEnd memory stop = true)
    (tracks : Tracks condition around state) (bound : state.level ≤ maxLevelSize)
    (deep : maxLevelSize < state.level + forest.depth) (extra : Nat) :
    parseOpNode memory condition (forest.size + 1 + extra) state start =
      .error .outsideLevelFlag := by
  induction forest generalizing start stop around state extra with
  | nil => exact absurd deep (Nat.not_lt.mpr bound)
  | leaf place rest ih =>
    obtain ⟨rfl, notEnd, noScope, plain, -, behind⟩ := laid
    have fuel : (Forest.leaf place rest).size + 1 + extra = rest.size + 1 + extra + 1 := by
      simp only [Forest.size]
      omega
    rw [fuel, parseOpNode_leaf _ notEnd noScope (visitOp_plain plain tracks bound)]
    exact @ih { state with opFlag := record (hiddenHere memory condition place around) state.opFlag }
      _ _ _ behind atEnd ⟨tracks.clear, tracks.set⟩ bound deep extra
  | scope place inside close rest ihInside ihRest =>
    obtain ⟨rfl, notEnd, withScope, -, within, closed, -, behind⟩ := laid
    have fuel : (Forest.scope place inside close rest).size + 1 + extra =
        inside.size + 1 + (rest.size + 1 + extra) + 1 := by
      simp only [Forest.size]
      omega
    rw [fuel]
    by_cases room : state.level < maxLevelSize
    case neg =>
      obtain visited | ⟨next, visited, level⟩ :=
        @visitOp_cases memory condition state place
      · exact parseOpNode_fault _ notEnd visited
      · have inner := @parseOpNode_above _ condition { next with level := next.level + 1 } inside
          _ _ within closed (by change maxLevelSize < next.level + 1; omega)
          (rest.size + 1 + extra)
        rw [parseOpNode_scope _ notEnd withScope visited, inner]
        rfl
    obtain ⟨levelFlag, visited, cleared, entered⟩ :=
      @enter_scope memory condition around state place tracks room
    rw [parseOpNode_scope _ notEnd withScope visited]
    by_cases inner : maxLevelSize < state.level + 1 + inside.depth
    · have fault := ihInside within closed entered (Nat.succ_le_of_lt room) inner
        (rest.size + 1 + extra)
      rw [fault]
      rfl
    · -- The scope is left as it was entered, so it is the rest that goes too deep.
      obtain ⟨fuelInner, enough, walked⟩ := parseOpNode_forest inside within entered
        (Nat.not_lt.mp inner) (1 + (rest.size + 1 + extra))
      obtain ⟨fuelLeft, rfl⟩ : ∃ fuelLeft, fuelInner = fuelLeft + 1 := ⟨fuelInner - 1, by omega⟩
      rw [parseOpNode_end _ closed, closeScope_ok _ _ _ room, cleared] at walked
      have deepRest : maxLevelSize < state.level + rest.depth := by
        change maxLevelSize < state.level + max (inside.depth + 1) rest.depth at deep
        omega
      have fuelRest : inside.size + 1 + (rest.size + 1 + extra) =
          rest.size + 1 + (inside.size + 1 + extra) := by omega
      rw [← Nat.add_assoc] at walked
      rw [walked]
      change parseOpNode memory condition (inside.size + 1 + (rest.size + 1 + extra)) _ _ = _
      rw [fuelRest]
      exact @ihRest { state with
          opFlag := record (hiddenIn memory condition inside
            (if isConditional memory place then place :: around else around))
            (record (hiddenHere memory condition place around) state.opFlag) }
        _ _ _ behind atEnd ⟨tracks.clear, tracks.set⟩ bound deepRest (inside.size + 1 + extra)

end Faults

section Table

variable {memory : Memory} {condition : Nat → UInt64}

/-- The list takes the places until it is full, and drops the others without a sign. -/
theorem record_eq (places : List Nat) {opFlag : List SmcOpFlag}
    (bound : opFlag.length ≤ maxRefCount) :
    record places opFlag =
      opFlag ++ (places.take (maxRefCount - opFlag.length)).map fun place => ⟨place, 1⟩ := by
  induction places generalizing opFlag with
  | nil => simp [record]
  | cons place places ih =>
    change record places (addOpFlag place 1 opFlag) = _
    unfold addOpFlag
    by_cases room : opFlag.length < maxRefCount
    · rw [if_pos room, ih (by rw [List.length_append, List.length_singleton]; omega)]
      have left : maxRefCount - opFlag.length =
          (maxRefCount - (opFlag ++ [(⟨place, 1⟩ : SmcOpFlag)]).length) + 1 := by
        rw [List.length_append, List.length_singleton]
        omega
      rw [left, List.take_succ_cons]
      simp
    · have none : maxRefCount - opFlag.length = 0 := by omega
      rw [if_neg room, ih bound, none]
      simp

/-- A recorded place is found, another one is not. -/
theorem find_recorded (places : List Nat) (place : Nat) :
    (places.map fun place => (⟨place, 1⟩ : SmcOpFlag)).find?
        (fun entry => entry.pointer = place) =
      if place ∈ places then some ⟨place, 1⟩ else none := by
  induction places with
  | nil => rfl
  | cons other places ih =>
    rw [List.map_cons, List.find?_cons, ih]
    by_cases same : other = place
    · simp [same]
    · simp [same, Ne.symm same]

/-- The flag of a place is 1 exactly if it was recorded before the list was full. -/
theorem getOpFlag_record {places : List Nat} {opFlag : List SmcOpFlag} {place : Nat}
    (bound : opFlag.length ≤ maxRefCount) (apart : ∀ entry ∈ opFlag, entry.pointer ≠ place) :
    getOpFlag place (record places opFlag) = 1 ↔
      place ∈ places.take (maxRefCount - opFlag.length) := by
  have old : opFlag.find? (fun entry => entry.pointer = place) = none := by
    simpa using apart
  rw [record_eq places bound, getOpFlag, List.find?_append, old, Option.none_or, find_recorded]
  by_cases member : place ∈ places.take (maxRefCount - opFlag.length)
  · simp [member]
  · simp [member]

/-- Opcodes end behind their start. -/
theorem laidOut_le (forest : Forest) {start stop : Nat}
    (laid : LaidOut memory start forest stop) : start ≤ stop := by
  induction forest generalizing start stop with
  | nil => exact Nat.le_of_eq laid
  | leaf place rest ih =>
    obtain ⟨rfl, -, -, -, -, behind⟩ := laid
    have := ih behind
    omega
  | scope place inside close rest ihInside ihRest =>
    obtain ⟨rfl, -, -, -, within, -, -, behind⟩ := laid
    have first := ihInside within
    have second := ihRest behind
    omega

/-- References lie at different places of their formset. -/
theorem references_places (forest : Forest) {start stop : Nat} (around : List Nat)
    (laid : LaidOut memory start forest stop) :
    (∀ reference ∈ forest.references memory around,
        start ≤ reference.1 ∧ reference.1 < stop) ∧
      ((forest.references memory around).map Prod.fst).Pairwise (· < ·) := by
  have here : ∀ around : List Nat, ∀ place, ∀ reference ∈ (if isReference memory place then
      [(place, around)] else []), reference.1 = place := by
    intro around place reference member
    split at member
    · rw [List.mem_singleton.mp member]
    · exact absurd member (by simp)
  have alone : ∀ around : List Nat, ∀ place, ((if isReference memory place then
      [(place, around)] else []).map Prod.fst).Pairwise (· < ·) := by
    intro around place
    split <;> simp
  induction forest generalizing start stop around with
  | nil => simp [Forest.references]
  | leaf place rest ih =>
    obtain ⟨rfl, -, -, -, two, behind⟩ := laid
    obtain ⟨inRest, sorted⟩ := ih around behind
    have bound := laidOut_le rest behind
    constructor
    · intro reference member
      obtain first | later := List.mem_append.mp member
      · rw [here around place reference first]
        omega
      · have := inRest reference later
        omega
    · rw [Forest.references, List.map_append, List.pairwise_append]
      refine ⟨alone around place, sorted, ?_⟩
      simp only [List.mem_map]
      rintro _ ⟨first, member, rfl⟩ _ ⟨later, laterMember, rfl⟩
      rw [here around place first member]
      have := inRest later laterMember
      omega
  | scope place inside close rest ihInside ihRest =>
    obtain ⟨rfl, -, -, two, within, -, twoClose, behind⟩ := laid
    obtain ⟨inInside, sortedInside⟩ := @ihInside _ _
      (if isConditional memory place then place :: around else around) within
    obtain ⟨inRest, sortedRest⟩ := ihRest around behind
    have boundInside := laidOut_le inside within
    have boundRest := laidOut_le rest behind
    constructor
    · intro reference member
      obtain front | later := List.mem_append.mp member
      · obtain first | inner := List.mem_append.mp front
        · rw [here around place reference first]
          omega
        · have := inInside reference inner
          omega
      · have := inRest reference later
        omega
    · rw [Forest.references, List.map_append, List.map_append, List.pairwise_append,
        List.pairwise_append]
      refine ⟨⟨alone around place, sortedInside, ?_⟩, sortedRest, ?_⟩
      · simp only [List.mem_map]
        rintro _ ⟨first, member, rfl⟩ _ ⟨later, laterMember, rfl⟩
        rw [here around place first member]
        have := inInside later laterMember
        omega
      · simp only [List.mem_append, List.mem_map]
        rintro _ (⟨first, member, rfl⟩ | ⟨first, member, rfl⟩) _ ⟨later, laterMember, rfl⟩
        · rw [here around place first member]
          have := inRest later laterMember
          omega
        · have := inInside first member
          have := inRest later laterMember
          omega

end Table

section Result

variable {memory : Memory} {condition : Nat → UInt64}

/-- Some condition around has a value that is not zero. -/
def Suppressed (condition : Nat → UInt64) (around : List Nat) : Prop :=
  ∃ place ∈ around, condition place ≠ 0

/-- The walk ends with the level as before, and exactly the suppressed references are recorded. -/
def RecordsSuppressed (memory : Memory) (condition : Nat → UInt64) (forest : Forest) (stop : Nat)
    (walked : Except WalkFault (ParseState × Nat)) : Prop :=
  ∃ state, walked = .ok (state, stop) ∧ state.level = 0 ∧
    ∀ reference ∈ forest.references memory [],
      getOpFlag reference.1 state.opFlag = 1 ↔ Suppressed condition reference.2

/-- The state at the first opcode of a formset. -/
def startState (opFlag : List SmcOpFlag) : ParseState := ⟨0, fun _ => 0, opFlag⟩

/-- At the start no condition is around. -/
theorem tracks_start (condition : Nat → UInt64) (opFlag : List SmcOpFlag) :
    Tracks condition [] (startState opFlag) := by
  constructor
  · intro ii _
    rfl
  · simp [startState, LowSet]

/-- What a formset whose scopes are not too deep leaves. -/
theorem parseOpNode_formset (forest : Forest) {start stop fuel : Nat} {opFlag : List SmcOpFlag}
    (laid : LaidOut memory start forest stop) (atEnd : isEnd memory stop = true)
    (room : forest.depth ≤ maxLevelSize) (enough : forest.size < fuel) :
    ∃ state, parseOpNode memory condition fuel (startState opFlag) start = .ok (state, stop) ∧
      state.level = 0 ∧
      state.opFlag = record (hiddenIn memory condition forest []) opFlag := by
  obtain ⟨extra, rfl⟩ : ∃ extra, fuel = forest.size + (1 + extra) :=
    ⟨fuel - forest.size - 1, by omega⟩
  have fits : (startState opFlag).level + forest.depth ≤ maxLevelSize := by
    change 0 + forest.depth ≤ maxLevelSize
    omega
  obtain ⟨more, positive, walked⟩ :=
    parseOpNode_forest forest laid (tracks_start condition opFlag) fits (1 + extra)
  obtain ⟨left, rfl⟩ : ∃ left, more = left + 1 := ⟨more - 1, by omega⟩
  rw [walked, parseOpNode_end _ atEnd]
  exact ⟨_, rfl, rfl, rfl⟩

/-- The hidden places are those of the references with a low byte set around them. -/
theorem mem_hiddenIn {forest : Forest} {place : Nat} :
    place ∈ hiddenIn memory condition forest [] ↔
      ∃ reference ∈ forest.references memory [], LowSet condition reference.2 ∧
        reference.1 = place := by
  simp [hiddenIn]

/-- A low byte that is not zero makes a value that is not zero. -/
theorem LowSet.suppressed {around : List Nat} (low : LowSet condition around) :
    Suppressed condition around := by
  obtain ⟨place, member, low⟩ := low
  refine ⟨place, member, ?_⟩
  intro zero
  exact low (by rw [zero]; rfl)

section Recorded

variable {forest : Forest} {start stop : Nat} {opFlag : List SmcOpFlag}

/-- No two references of a forest that is laid out have one place. -/
theorem references_nodup (laid : LaidOut memory start forest stop) :
    ((forest.references memory []).map Prod.fst).Nodup :=
  (references_places forest [] laid).2.imp (fun less => Nat.ne_of_lt less)

/-- So no place is hidden twice. -/
theorem hiddenIn_nodup (laid : LaidOut memory start forest stop) :
    (hiddenIn memory condition forest []).Nodup :=
  (references_nodup laid).sublist (List.Sublist.map _ List.filter_sublist)

/-- A reference at a hidden place is the one that is hidden, since it is the only one there. -/
theorem lowSet_of_hidden (laid : LaidOut memory start forest stop) :
    ∀ reference ∈ forest.references memory [],
      reference.1 ∈ hiddenIn memory condition forest [] → LowSet condition reference.2 := by
  intro reference member hidden
  obtain ⟨other, otherMember, low, same⟩ := mem_hiddenIn.mp hidden
  obtain rfl : other = reference :=
    List.inj_on_of_nodup_map (references_nodup laid) otherMember member same
  exact low

/-- After the walk a reference is flagged if it is among the first hidden ones, as many as there
are entries left. Entries of earlier formsets have other places. -/
theorem getOpFlag_hidden (laid : LaidOut memory start forest stop)
    (bound : opFlag.length ≤ maxRefCount) (before : ∀ entry ∈ opFlag, entry.pointer < start) :
    ∀ reference ∈ forest.references memory [],
      (getOpFlag reference.1 (record (hiddenIn memory condition forest []) opFlag) = 1 ↔
        reference.1 ∈
          (hiddenIn memory condition forest []).take (maxRefCount - opFlag.length)) := by
  intro reference member
  refine getOpFlag_record bound ?_
  intro entry old same
  have earlier := before entry old
  have later := ((references_places forest [] laid).1 reference member).1
  omega

/-- If all places of a list without repetition are among its first ones, it is no longer than
they are. -/
theorem length_le_of_all_taken {places : List Nat} {free : Nat} (distinct : places.Nodup)
    (taken : ∀ place ∈ places, place ∈ places.take free) : places.length ≤ free := by
  by_contra full
  have cut : free < places.length := Nat.lt_of_not_le full
  obtain ⟨index, small, equal⟩ := List.mem_iff_getElem.mp (taken _ (List.getElem_mem cut))
  rw [List.getElem_take] at equal
  have index_eq := (distinct.getElem_inj_iff).mp equal
  rw [List.length_take] at small
  omega

/-- Scopes that are too deep end the walk with a fault. -/
theorem depth_of_recorded {fuel : Nat} (laid : LaidOut memory start forest stop)
    (atEnd : isEnd memory stop = true) (enough : forest.size < fuel)
    (records : RecordsSuppressed memory condition forest stop
      (parseOpNode memory condition fuel (startState opFlag) start)) :
    forest.depth ≤ maxLevelSize := by
  by_contra room
  obtain ⟨extra, rfl⟩ : ∃ extra, fuel = forest.size + 1 + extra :=
    ⟨fuel - forest.size - 1, by omega⟩
  have deep : maxLevelSize < (startState opFlag).level + forest.depth := by
    change maxLevelSize < 0 + forest.depth
    omega
  have fault := parseOpNode_tooDeep forest laid atEnd (tracks_start condition opFlag)
    (Nat.zero_le _) deep extra
  obtain ⟨state, walked, -⟩ := records
  rw [fault] at walked
  cases walked

/-- Where the walk ends, the references are recorded as they should be if and only if each
suppressed one has a low byte set around it, and all of these fit in the table. -/
theorem agree_iff (laid : LaidOut memory start forest stop) (bound : opFlag.length ≤ maxRefCount)
    (before : ∀ entry ∈ opFlag, entry.pointer < start) :
    (∀ reference ∈ forest.references memory [],
        getOpFlag reference.1 (record (hiddenIn memory condition forest []) opFlag) = 1 ↔
          Suppressed condition reference.2) ↔
      (∀ reference ∈ forest.references memory [],
        Suppressed condition reference.2 → LowSet condition reference.2) ∧
      opFlag.length + (hiddenIn memory condition forest []).length ≤ maxRefCount := by
  have recorded := @getOpFlag_hidden memory condition forest start stop opFlag laid bound before
  have lowOf := @lowSet_of_hidden memory condition forest start stop laid
  constructor
  · intro agree
    constructor
    · intro reference member suppressed
      have taken := (recorded reference member).mp ((agree reference member).mpr suppressed)
      exact lowOf reference member (List.mem_of_mem_take taken)
    · -- A reference that is hidden and not recorded would be missing.
      have all : ∀ place ∈ hiddenIn memory condition forest [],
          place ∈ (hiddenIn memory condition forest []).take (maxRefCount - opFlag.length) := by
        intro place hidden
        obtain ⟨reference, member, low, rfl⟩ := mem_hiddenIn.mp hidden
        exact (recorded reference member).mp ((agree reference member).mpr low.suppressed)
      have few := length_le_of_all_taken (hiddenIn_nodup laid) all
      omega
  · rintro ⟨covered, fits⟩ reference member
    rw [recorded reference member, List.take_of_length_le (by omega)]
    constructor
    · intro hidden
      exact (lowOf reference member hidden).suppressed
    · intro suppressed
      exact mem_hiddenIn.mpr ⟨reference, member, covered reference member suppressed, rfl⟩

end Recorded

/-- When exactly the references below a condition that is not zero are recorded. The formset is any
forest of opcodes that is laid out in memory, the values of the conditions are any function, and
the entries that are there before are those of earlier formsets. -/
theorem recordsSuppressed_iff (memory : Memory) (condition : Nat → UInt64) (forest : Forest)
    (start stop fuel : Nat) (opFlag : List SmcOpFlag)
    (laid : LaidOut memory start forest stop) (atEnd : isEnd memory stop = true)
    (bound : opFlag.length ≤ maxRefCount) (before : ∀ entry ∈ opFlag, entry.pointer < start)
    (enough : forest.size < fuel) :
    RecordsSuppressed memory condition forest stop
        (parseOpNode memory condition fuel (startState opFlag) start) ↔
      forest.depth ≤ maxLevelSize ∧
        (∀ reference ∈ forest.references memory [],
          Suppressed condition reference.2 → LowSet condition reference.2) ∧
        opFlag.length + (hiddenIn memory condition forest []).length ≤ maxRefCount := by
  constructor
  · intro records
    have room := depth_of_recorded laid atEnd enough records
    obtain ⟨state, walked, level, table⟩ :=
      @parseOpNode_formset memory condition forest start stop fuel opFlag laid atEnd room enough
    obtain ⟨other, sameWalk, -, agree⟩ := records
    obtain rfl : state = other := by
      rw [walked] at sameWalk
      exact congrArg Prod.fst (Except.ok.inj sameWalk)
    rw [table] at agree
    exact ⟨room, (agree_iff laid bound before).mp agree⟩
  · rintro ⟨room, right⟩
    obtain ⟨state, walked, level, table⟩ :=
      @parseOpNode_formset memory condition forest start stop fuel opFlag laid atEnd room enough
    refine ⟨state, walked, level, ?_⟩
    rw [table]
    exact (agree_iff laid bound before).mpr right

/-- A reference that is suppressed if 256 is not zero. -/
def wideMemory : Memory := memoryOf ([0, 0, 0, 0, 0x0A, 0x82, 0x43, 4, 0, 1, 0x0F, 15] ++
  List.replicate 13 0 ++ [0x29, 2, 0x29, 2]) (fun _ => 0)

/-- The opcodes of this memory. -/
def wideForest : Forest := .scope 4 (.leaf 6 (.leaf 10 .nil)) 25 .nil

/-- The opcodes of the example lie in its memory. -/
theorem wideForest_laidOut : LaidOut wideMemory 4 wideForest 27 :=
  ⟨rfl, rfl, rfl, by decide, ⟨rfl, rfl, rfl, rfl, by decide, rfl, rfl, rfl, rfl, by decide, rfl⟩,
    rfl, by decide, rfl⟩

/-- The two sides at an example with a condition whose low byte is zero. -/
theorem recordsSuppressed_iff_wide :
    RecordsSuppressed wideMemory (fun _ => 0x100) wideForest 27
        (parseOpNode wideMemory (fun _ => 0x100) 5 (startState []) 4) ↔
      wideForest.depth ≤ maxLevelSize ∧
        (∀ reference ∈ wideForest.references wideMemory [],
          Suppressed (fun _ => 0x100) reference.2 → LowSet (fun _ => 0x100) reference.2) ∧
        ([] : List SmcOpFlag).length +
          (hiddenIn wideMemory (fun _ => 0x100) wideForest []).length ≤ maxRefCount :=
  recordsSuppressed_iff wideMemory (fun _ => 0x100) wideForest 4 27 5 [] wideForest_laidOut rfl
    (Nat.zero_le _) (by simp) (by decide)

/-- A condition of 0x100 suppresses a reference that is not recorded. -/
theorem not_always_recorded :
    ¬ ∀ (memory : Memory) (condition : Nat → UInt64) (forest : Forest) (start stop fuel : Nat)
        (opFlag : List SmcOpFlag), LaidOut memory start forest stop → isEnd memory stop = true →
      opFlag.length ≤ maxRefCount → (∀ entry ∈ opFlag, entry.pointer < start) →
      forest.size < fuel →
      RecordsSuppressed memory condition forest stop
        (parseOpNode memory condition fuel (startState opFlag) start) := by
  intro always
  obtain ⟨state, walked, -, agree⟩ := always wideMemory (fun _ => 0x100) wideForest 4 27 5 []
    wideForest_laidOut rfl (Nat.zero_le _) (by simp) (by decide)
  obtain ⟨other, sameWalk, -, table⟩ :=
    @parseOpNode_formset wideMemory (fun _ => 0x100) wideForest 4 27 5 [] wideForest_laidOut rfl
      (by decide) (by decide)
  obtain rfl : other = state := by
    rw [walked] at sameWalk
    exact (congrArg Prod.fst (Except.ok.inj sameWalk)).symm
  have hidden : hiddenIn wideMemory (fun _ => 0x100) wideForest [] = [] := by decide
  have found := (agree (10, [4]) (by decide)).mpr ⟨4, by decide, by decide⟩
  rw [table, hidden] at found
  exact absurd found (by decide)

end Result

end SmcPkg.OpFlags
