import SmcPkg.RaidOob.IfrPackageLaw
import SmcPkg.RaidOob.SetupForms

/-!
# The scopes of the forms of the cards

Every run of opcodes starts and ends at the same scope depth, as long as the items whose
copies are closed by an END have a scope. The rules follow the way a run is put together:
an opcode with a scope leads one deeper and an END leads back.

`copiedOptions_pointed` says that the copy of the options of a ONE_OF does not leave the form
package that the inventory of the card points into.
-/

namespace SmcPkg.SetupForms

open Bytes RaidCmd Card Traced Nesting

section Depth

variable {α β : Type} {before middle after depth : Nat} {holds : α → Prop}

/-- The opcodes of a run lead from one scope depth to another. -/
def Moves (before after : Nat) (emission : Emission α) : Prop :=
  Ensures emission (fun chunks _ => (∀ chunk ∈ chunks, chunk = [] ∨ IsOpcode chunk) ∧
    depthAfter hasScope isEnd chunks before = some after)

/-- A run puts in nothing and returns a value with a property. -/
def Returns (holds : α → Prop) (emission : Emission α) : Prop :=
  Ensures emission (fun chunks value => chunks = [] ∧ ∀ result, value = .ok result → holds result)

/-- A value that is at hand is returned. -/
theorem returns_pure {value : α} (held : holds value) : Returns holds (pure value) :=
  ensures_pure ⟨rfl, fun _ same => Except.ok.inj same ▸ held⟩

/-- The rule for a sequence whose parts put in nothing. -/
theorem returns_bind {first : Emission α} {next : α → Emission β} {later : β → Prop}
    (returns : Returns holds first) (returnsNext : ∀ value, holds value → Returns later (next value)) :
    Returns later (first >>= next) := by
  refine ensures_bind returns ?_ ?_
  · intro chunks impossible
    exact nomatch impossible
  · rintro chunks value ⟨rfl, held⟩
    exact returnsNext value (held value rfl)

/-- Nothing is asked of the token of a new string. -/
theorem returns_newHiiString (env : FormsEnv) (text : String) :
    Returns (fun _ => True) (newHiiString env text) :=
  fun _ => ⟨rfl, fun _ _ => trivial⟩

/-- Nothing is asked of a new question number. -/
theorem returns_getQIdStart : Returns (fun _ => True) getQIdStart :=
  fun _ => ⟨rfl, fun _ _ => trivial⟩

/-- Nothing is asked of a new form number. -/
theorem returns_getFormIdStart : Returns (fun _ => True) getFormIdStart :=
  fun _ => ⟨rfl, fun _ _ => trivial⟩

/-- Nothing is asked of a new label. -/
theorem returns_getOtherLableStart : Returns (fun _ => True) getOtherLableStart :=
  fun _ => ⟨rfl, fun _ _ => trivial⟩

/-- Where nothing is emitted the depth stays. -/
theorem moves_pure {value : α} : Moves depth depth (pure value) :=
  ensures_pure ⟨by simp, rfl⟩

/-- The rule for a sequence that starts with a value. -/
theorem moves_value {first : Emission α} {next : α → Emission β} (returns : Returns holds first)
    (moves : ∀ value, holds value → Moves before after (next value)) :
    Moves before after (first >>= next) := by
  refine ensures_bind returns ?_ ?_
  · intro chunks impossible
    exact nomatch impossible
  · rintro chunks value ⟨rfl, held⟩
    exact moves value (held value rfl)

/-- The rule for sequences. -/
theorem moves_bind {first : Emission α} {next : α → Emission β} (moves : Moves before middle first)
    (movesNext : ∀ value, Moves middle after (next value)) :
    Moves before after (first >>= next) := by
  refine ensures_bind moves ?_ ?_
  · intro chunks impossible
    exact nomatch impossible
  · rintro chunks value ⟨opcodes, reached⟩
    refine Ensures.weaken (movesNext value) ?_
    rintro later _ ⟨laterOpcodes, laterReached⟩
    refine ⟨?_, ?_⟩
    · intro chunk member
      rcases List.mem_append.mp member with early | late
      · exact opcodes chunk early
      · exact laterOpcodes chunk late
    · rw [depthAfter_append, reached, Option.bind_some, laterReached]

/-- The rule for loops. -/
theorem moves_forM {items : List α} {body : α → Emission Unit}
    (moves : ∀ item ∈ items, Moves depth depth (body item)) :
    Moves depth depth (items.forM body) := by
  induction items with
  | nil => exact moves_pure
  | cons item items inductionHypothesis =>
    rw [List.forall_mem_cons] at moves
    exact moves_bind moves.1 (fun _ => inductionHypothesis moves.2)

end Depth

section Chunks

variable {env : FormsEnv} {memory : Memory} {depth : Nat} {item body : List UInt8}
  {code flags : UInt8}

/-- An opcode without a scope that is no END leaves the depth. -/
theorem moves_emit_plain (long : 2 ≤ opLength (memory 1)) (noEnd : memory 0 ≠ ifrEndOp)
    (noScope : memory 1 < 128) : Moves depth depth (emit (cteBuffer memory)) := by
  refine ensures_emit ⟨?_, ?_⟩
  · intro chunk member
    rw [List.mem_singleton] at member
    exact Or.inr (member ▸ isOpcode_cteBuffer long)
  · rw [depthAfter_plain]
    · rfl
    · rw [hasScope_cteBuffer long]
      exact decide_eq_false (UInt8.not_le.mpr noScope)
    · rw [isEnd_cteBuffer long]
      exact decide_eq_false noEnd

/-- An opcode with a scope leads one deeper. -/
theorem moves_emit_open (long : 2 ≤ opLength (memory 1)) (noEnd : memory 0 ≠ ifrEndOp)
    (scope : 128 ≤ memory 1) : Moves depth (depth + 1) (emit (cteBuffer memory)) := by
  refine ensures_emit ⟨?_, ?_⟩
  · intro chunk member
    rw [List.mem_singleton] at member
    exact Or.inr (member ▸ isOpcode_cteBuffer long)
  · rw [depthAfter_open]
    · rfl
    · rw [hasScope_cteBuffer long]
      exact decide_eq_true scope
    · rw [isEnd_cteBuffer long]
      exact decide_eq_false noEnd

/-- An item without a scope. -/
theorem moves_put_plain (head : item = code :: flags :: body) (long : 2 ≤ opLength flags)
    (noEnd : code ≠ ifrEndOp) (noScope : flags < 128) : Moves depth depth (put env item) := by
  subst head
  exact moves_emit_plain long noEnd noScope

/-- An item with a scope. -/
theorem moves_put_open (head : item = code :: flags :: body) (long : 2 ≤ opLength flags)
    (noEnd : code ≠ ifrEndOp) (scope : 128 ≤ flags) : Moves depth (depth + 1) (put env item) := by
  subst head
  exact moves_emit_open long noEnd scope

/-- An END closes a scope. -/
theorem moves_put_end : Moves (depth + 1) depth (put env createEndItem) := by
  refine ensures_emit ⟨?_, ?_⟩
  · intro chunk member
    rw [List.mem_singleton] at member
    exact Or.inr (member ▸ isOpcode_cteBuffer (show 2 ≤ opLength 2 by decide))
  · have isEnded : isEnd (cteBuffer (memoryOf createEndItem env.behind)) = true :=
      isEnd_cteBuffer (show 2 ≤ opLength 2 by decide)
    have noScope : hasScope (cteBuffer (memoryOf createEndItem env.behind)) = false :=
      hasScope_cteBuffer (show 2 ≤ opLength 2 by decide)
    rw [depthAfter_close noScope isEnded]
    rfl

/-- A subtitle starts with its opcode and a length without a scope. -/
theorem returns_createSubTitle (text : String) :
    Returns (fun item => ∃ body, item = 0x02 :: 7 :: body) (createSubTitle env text) := by
  refine returns_bind (returns_newHiiString env text) ?_
  intro prompt _
  exact returns_pure ⟨_, rfl⟩

/-- A subtitle leaves the depth, so what is emitted behind it starts where the subtitle did. -/
theorem moves_subTitle {α : Type} {after : Nat} {text : String} {next : Unit → Emission α}
    (moves : Moves depth after (next ())) :
    Moves depth after (createSubTitle env text >>= fun title => put env title >>= next) := by
  refine moves_value (returns_createSubTitle text) ?_
  rintro title ⟨body, rfl⟩
  exact moves_bind (moves_put_plain rfl (by decide) (by decide) (by decide)) (fun _ => moves)

/-- A label leaves the depth. -/
theorem moves_guidLabel (label : UInt16) : Moves depth depth (put env (createGuidLabel label)) := by
  have head : createGuidLabel label = 0x5F :: 21 :: (ifrTianoGuid ++ (0 :: le16 label.toNat)) := rfl
  exact moves_put_plain head (by decide) (by decide) (by decide)

end Chunks

section Copies

variable {env : FormsEnv} {op : Op} {rest : List Op} {depth : Nat} {item body : List UInt8}

/-- The header of an opcode in memory. -/
theorem itemMemory_header (env : FormsEnv) (op : Op) (rest : List Op) :
    itemMemory env op rest 0 = opCode op.bytes ∧ 2 ≤ opLength (itemMemory env op rest 1) ∧
      hasScope op.bytes = decide (128 ≤ itemMemory env op rest 1) := by
  have long := op.valid.two_le
  obtain ⟨code, flags, body, same, size⟩ := op.valid
  rw [← size] at long
  simp only [itemMemory, same]
  exact ⟨rfl, long, rfl⟩

/-- A copy of an opcode without a scope leaves the depth, since it keeps the first two bytes. -/
theorem moves_copy_plain
    (head : item = itemMemory env op rest 0 :: itemMemory env op rest 1 :: body)
    (noEnd : opCode op.bytes ≠ ifrEndOp) (noScope : hasScope op.bytes = false) :
    Moves depth depth (put env item) := by
  obtain ⟨code, long, scope⟩ := itemMemory_header env op rest
  rw [← code] at noEnd
  rw [scope] at noScope
  exact moves_put_plain head long noEnd (UInt8.not_le.mp (of_decide_eq_false noScope))

/-- A copy of an opcode with a scope leads one deeper. -/
theorem moves_copy_open
    (head : item = itemMemory env op rest 0 :: itemMemory env op rest 1 :: body)
    (noEnd : opCode op.bytes ≠ ifrEndOp) (isScope : hasScope op.bytes = true) :
    Moves depth (depth + 1) (put env item) := by
  obtain ⟨code, long, scope⟩ := itemMemory_header env op rest
  rw [← code] at noEnd
  rw [scope] at isScope
  exact moves_put_open head long noEnd (of_decide_eq_true isScope)

/-- A copy of a question keeps the first two bytes, the opcode and the length with the scope. -/
theorem returns_copyQuestion (name : String) (source : Memory) (varId : UInt16) :
    Returns (fun item => ∃ body, item = source 0 :: source 1 :: body)
      (copyQuestion env name source varId) := by
  refine returns_bind (returns_newHiiString env name) ?_
  intro prompt _
  refine returns_bind returns_getQIdStart ?_
  intro qId _
  exact returns_pure ⟨_, rfl⟩

/-- A copy of an option keeps the first two bytes. -/
theorem returns_copyOneOfOptionItems (card : CardForms) (source : Memory) (defaultFlag : UInt8) :
    Returns (fun item => ∃ body, item = source 0 :: source 1 :: body)
      (copyOneOfOptionItems env card source defaultFlag) := by
  refine returns_bind (returns_newHiiString env _) ?_
  intro option _
  exact returns_pure ⟨_, rfl⟩

end Copies

section Items

variable {env : FormsEnv} {card : CardForms} {depth : Nat}

/-- The options that `RecurseOneOfOption` copies. -/
def copiedOptions : List Op → UInt8 → List Op
  | [], _ => []
  | op :: rest, oneOfScope =>
    if oneOfScope = 0 then []
    else if opCode op.bytes = 0x09 then op :: copiedOptions rest oneOfScope
    else if opCode op.bytes = ifrEndOp then copiedOptions rest (oneOfScope - 1)
    else if hasScope op.bytes then copiedOptions rest (oneOfScope + 1)
    else copiedOptions rest oneOfScope

/-- The walk over the options ends inside a well-scoped form package: a scope that is open
to the walk is open in the package. -/
theorem copiedOptions_inside {rest more : List Op} {oneOfScope : UInt8} {depth : Nat}
    (ends : depthAfter hasScope isEnd (rest.map Op.bytes) depth = some 0)
    (counted : oneOfScope.toNat ≤ depth) :
    copiedOptions (rest ++ more) oneOfScope = copiedOptions rest oneOfScope := by
  induction rest generalizing oneOfScope depth with
  | nil =>
    obtain rfl : depth = 0 := Option.some.inj ends
    obtain rfl : oneOfScope = 0 := UInt8.toNat_inj.mp (Nat.le_zero.mp counted)
    cases more with
    | nil => rfl
    | cons op more => rfl
  | cons op rest inductionHypothesis =>
    rw [List.map_cons] at ends
    rw [List.cons_append, copiedOptions, copiedOptions]
    by_cases done : oneOfScope = 0
    · rw [if_pos done, if_pos done]
    rw [if_neg done, if_neg done]
    have started : oneOfScope.toNat ≠ 0 := fun zero => done (UInt8.toNat_inj.mp zero)
    cases isEnded : isEnd op.bytes with
    | true =>
      have code : opCode op.bytes = ifrEndOp := of_decide_eq_true isEnded
      have noOption : opCode op.bytes ≠ 0x09 := by
        rw [code]
        decide
      rw [if_neg noOption, if_neg noOption, if_pos code, if_pos code]
      cases scope : hasScope op.bytes with
      | true => simp [depthAfter, isEnded, scope] at ends
      | false =>
        cases depth with
        | zero => omega
        | succ depth =>
          rw [depthAfter_close scope isEnded] at ends
          apply inductionHypothesis ends
          have least : (1 : UInt8) ≤ oneOfScope :=
            UInt8.le_iff_toNat_le.mpr (Nat.one_le_iff_ne_zero.mpr started)
          have one : (1 : UInt8).toNat = 1 := rfl
          rw [UInt8.toNat_sub_of_le _ _ least]
          omega
    | false =>
      have code : opCode op.bytes ≠ ifrEndOp := of_decide_eq_false isEnded
      rw [if_neg code, if_neg code]
      cases scope : hasScope op.bytes with
      | true =>
        rw [depthAfter_open scope isEnded] at ends
        have deeper : (oneOfScope + 1).toNat ≤ depth + 1 := by
          rw [UInt8.toNat_add]
          exact (Nat.mod_le _ _).trans (Nat.succ_le_succ counted)
        rw [inductionHypothesis ends (counted.trans (Nat.le_succ depth)),
          inductionHypothesis ends deeper]
      | false =>
        rw [depthAfter_plain scope isEnded] at ends
        rw [inductionHypothesis ends counted]
        rfl

/-- The walk from a ONE_OF of a card ends inside the form package of the card. -/
theorem copiedOptions_pointed {inventory : Inventory} {set : ItemsSet} {body : ItemsBody}
    (member : set ∈ inventory.raidCardInfItems) (card : set.raidItemsType ≠ .smcCmd)
    (inside : body ∈ set.itemsBody) (isOneOf : opCode body.op.bytes = 0x05)
    (scope : hasScope body.op.bytes = true) (more : List Op) :
    copiedOptions (body.rest ++ more) 1 = copiedOptions body.rest 1 := by
  obtain ⟨front, split⟩ := inventory.pointed set member card body inside
  have closed := nested_iff.mp inventory.closed
  rw [← split, List.map_append, List.map_cons, depthAfter_append] at closed
  obtain ⟨depth, -, reached⟩ := Option.bind_eq_some_iff.mp closed
  have noEnd : isEnd body.op.bytes = false := by
    apply decide_eq_false
    rw [isOneOf]
    decide
  rw [depthAfter_open scope noEnd] at reached
  exact copiedOptions_inside reached (Nat.succ_le_succ (Nat.zero_le depth))

/-- A ONE_OF with a scope, whose options have none. -/
def OneOfCloses (body : ItemsBody) : Prop :=
  hasScope body.op.bytes = true ∧
    ∀ option ∈ copiedOptions body.rest 1, hasScope option.bytes = false

/-- Options without a scope are copied at one depth. -/
theorem moves_recurseOneOfOption {rest : List Op} {defaultFlag oneOfScope : UInt8}
    (plain : ∀ option ∈ copiedOptions rest oneOfScope, hasScope option.bytes = false) :
    Moves depth depth (recurseOneOfOption env card rest defaultFlag oneOfScope) := by
  induction rest generalizing defaultFlag oneOfScope with
  | nil => exact moves_pure
  | cons op rest inductionHypothesis =>
    rw [copiedOptions] at plain
    rw [recurseOneOfOption]
    by_cases done : oneOfScope = 0
    · rw [if_pos done]
      exact moves_pure
    · rw [if_neg done] at plain ⊢
      by_cases isOption : opCode op.bytes = 0x09
      · rw [if_pos isOption, List.forall_mem_cons] at plain
        rw [if_pos isOption]
        have noEnd : opCode op.bytes ≠ ifrEndOp := by
          rw [isOption]
          decide
        refine moves_value (returns_copyOneOfOptionItems card _ defaultFlag) ?_
        rintro option ⟨body, head⟩
        refine moves_bind (moves_copy_plain head noEnd plain.1) ?_
        intro _
        exact inductionHypothesis plain.2
      · rw [if_neg isOption] at plain ⊢
        by_cases isEnded : opCode op.bytes = ifrEndOp
        · rw [if_pos isEnded] at plain ⊢
          exact inductionHypothesis plain
        · rw [if_neg isEnded] at plain ⊢
          by_cases scope : hasScope op.bytes = true
          · rw [if_pos scope] at plain ⊢
            exact inductionHypothesis plain
          · rw [if_neg scope] at plain ⊢
            exact inductionHypothesis plain

/-- A ONE_OF is copied with its options and one END, so that the depth is the same behind it. -/
theorem moves_insertOneOf {set : ItemsSet} {body : ItemsBody} (isOneOf : opCode body.op.bytes = 0x05)
    (closes : OneOfCloses body) : Moves depth depth (insertOneOf env card set body) := by
  obtain ⟨scope, plain⟩ := closes
  have noEnd : opCode body.op.bytes ≠ ifrEndOp := by
    rw [isOneOf]
    decide
  rw [insertOneOf, if_pos scope]
  refine moves_value (returns_copyQuestion set.lsiItemName _ body.smcLsiVarId) ?_
  rintro oneOf ⟨tail, head⟩
  refine moves_bind (moves_copy_open head noEnd scope) ?_
  intro _
  refine moves_bind (moves_recurseOneOfOption plain) ?_
  intro _
  exact moves_put_end

/-- A NUMERIC with a scope is copied with one END. -/
theorem moves_insertNumeric {set : ItemsSet} {body : ItemsBody}
    (isNumeric : opCode body.op.bytes = 0x07) (scope : hasScope body.op.bytes = true) :
    Moves depth depth (insertNumeric env set body) := by
  have noEnd : opCode body.op.bytes ≠ ifrEndOp := by
    rw [isNumeric]
    decide
  have nonzero : opCode body.op.bytes ≠ 0 := by
    rw [isNumeric]
    decide
  rw [insertNumeric, if_pos nonzero]
  refine moves_value (returns_copyQuestion set.lsiItemName _ body.smcLsiVarId) ?_
  rintro numeric ⟨tail, head⟩
  refine moves_bind (moves_copy_open head noEnd scope) ?_
  intro _
  refine moves_bind (moves_put_plain rfl (by decide) (by decide) (by decide)) ?_
  intro _
  exact moves_put_end

/-- A STRING is copied without its scope, and nothing is put behind it. -/
theorem moves_insertString (set : ItemsSet) (body : ItemsBody) :
    Moves depth depth (insertString env set body) := by
  refine moves_value (returns_newHiiString env set.lsiItemName) ?_
  intro prompt _
  refine moves_value returns_getQIdStart ?_
  intro qId _
  exact moves_put_plain rfl (by decide) (by decide) (by decide)

end Items

section Functions

variable {env : FormsEnv} {card : CardForms} {depth : Nat}

/-- Every item whose copy is closed by an END has a scope, and no variable store has its
length cut to a single byte. -/
structure Closes (inventory : Inventory) : Prop where
  numeric : ∀ set ∈ inventory.raidCardInfItems, set.raidItemsType = .information →
    ∀ body ∈ set.itemsBody, opCode body.op.bytes = 0x07 → hasScope body.op.bytes = true
  oneOf : ∀ set ∈ inventory.raidCardInfItems,
    set.raidItemsType = .information ∨ set.raidItemsType = .changeable →
    ∀ body ∈ set.itemsBody, opCode body.op.bytes = 0x05 → OneOfCloses body
  stores : ∀ var ∈ inventory.raidSetupVarSet, (23 + var.raidVarName.length) % 128 ≠ 1

/-- A loop over the items of a type leaves the depth if each item does. -/
theorem moves_forItems {type : ItemsType} {insert : ItemsSet → ItemsBody → Emission Unit}
    (moves : ∀ set ∈ card.raidCardInfItems, set.raidItemsType = type → ∀ body ∈ set.itemsBody,
      Moves depth depth (insert set body)) :
    Moves depth depth (forItems card type insert) := by
  apply moves_forM
  intro set member
  rw [List.mem_filter, decide_eq_true_iff] at member
  exact moves_forM (moves set member.1 member.2)

/-- The length of a variable store in its header. -/
theorem opLength_varStore (size : Nat) : opLength (UInt8.ofNat size &&& 0x7F) = size % 128 := by
  rw [opLength, UInt8.toNat_and, UInt8.toNat_ofNat']
  have mask : (0x7F : UInt8).toNat = 2 ^ 7 - 1 := rfl
  rw [mask, Nat.and_two_pow_sub_one_eq_mod]
  omega

/-- The opcode of a variable has no scope. The length must not wrap to one byte, which the
browser would not get over. -/
theorem moves_varStore {var : SetupVar} (whole : (23 + var.raidVarName.length) % 128 ≠ 1) :
    Moves depth depth (put env (varStore var)) := by
  have size := opLength_varStore (23 + var.raidVarName.length)
  have noScope : UInt8.ofNat (23 + var.raidVarName.length) &&& 0x7F < 128 := by
    rw [UInt8.lt_iff_toNat_lt, UInt8.toNat_and]
    exact lt_of_le_of_lt Nat.and_le_right (by decide)
  by_cases empty : (23 + var.raidVarName.length) % 128 = 0
  · have nothing : cteBuffer (memoryOf (varStore var) env.behind) = [] := by
      change bytesOf _ (opLength (UInt8.ofNat (23 + var.raidVarName.length) &&& 0x7F)) = []
      rw [size, empty]
      rfl
    rw [put, nothing]
    exact ensures_emit ⟨by simp, depthAfter_plain rfl rfl depth⟩
  · exact moves_put_plain rfl (by omega) (by decide) noScope

/-- All variables of a card leave the depth. -/
theorem moves_variableItems (closes : Closes card.toInventory) :
    Moves depth depth (variableItems env card) :=
  moves_forM (fun var member => moves_varStore (closes.stores var member))

/-- The references to the forms of a card leave the depth. -/
theorem moves_formGotoItems : Moves depth depth (formGotoItems env card) := by
  refine moves_value (returns_newHiiString env _) ?_
  intro prompt _
  refine moves_value (returns_newHiiString env _) ?_
  intro help _
  refine moves_value returns_getQIdStart ?_
  intro qId _
  refine moves_value returns_getFormIdStart ?_
  intro formId _
  refine moves_bind (moves_put_plain rfl (by decide) (by decide) (by decide)) ?_
  intro _
  exact moves_pure

/-- An item of information leaves the depth: what it copies is closed if it has a scope. -/
theorem moves_informationItem (closes : Closes card.toInventory) {set : ItemsSet}
    (member : set ∈ card.raidCardInfItems) (type : set.raidItemsType = .information)
    {body : ItemsBody} (inside : body ∈ set.itemsBody) :
    Moves depth depth (informationItem env card set body) := by
  rw [informationItem]
  by_cases isString : opCode body.op.bytes = 0x1C
  · rw [if_pos isString]
    exact moves_insertString set body
  · rw [if_neg isString]
    by_cases isOneOf : opCode body.op.bytes = 0x05
    · rw [if_pos isOneOf]
      exact moves_insertOneOf isOneOf (closes.oneOf set member (Or.inl type) body inside isOneOf)
    · rw [if_neg isOneOf]
      by_cases isNumeric : opCode body.op.bytes = 0x07
      · rw [if_pos isNumeric]
        exact moves_insertNumeric isNumeric (closes.numeric set member type body inside isNumeric)
      · rw [if_neg isNumeric]
        exact moves_pure

/-- The form is opened, filled with the information items and closed. -/
theorem moves_formItems (closes : Closes card.toInventory) :
    Moves depth depth (formItems env card) := by
  refine moves_bind (moves_put_open rfl (by decide) (by decide) (by decide)) ?_
  intro _
  refine moves_subTitle ?_
  refine moves_bind (moves_forItems fun set member type body inside =>
    moves_informationItem closes member type inside) ?_
  intro _
  refine moves_value returns_getOtherLableStart ?_
  intro label _
  refine moves_bind (moves_guidLabel label) ?_
  intro _
  refine moves_bind moves_put_end ?_
  intro _
  exact moves_pure

/-- The form of the questions that can be changed is closed. -/
theorem moves_changeItems (closes : Closes card.toInventory) :
    Moves depth depth (changeItems env card) := by
  refine moves_subTitle ?_
  refine moves_bind (moves_forItems ?_) ?_
  · intro set member type body inside
    by_cases isOneOf : opCode body.op.bytes = 0x05
    · rw [if_pos isOneOf]
      exact moves_insertOneOf isOneOf (closes.oneOf set member (Or.inr type) body inside isOneOf)
    · rw [if_neg isOneOf]
      exact moves_pure
  · intro _
    refine moves_value returns_getOtherLableStart ?_
    intro label _
    refine moves_bind (moves_guidLabel label) ?_
    intro _
    exact moves_pure

/-- The form of a drive leaves the depth. -/
theorem moves_driveItem (type : ItemsType) (body : ItemsBody) :
    Moves depth depth (driveItem env card type body) := by
  rw [driveItem]
  by_cases drive : opCode body.op.bytes = 0x06 ∨ opCode body.op.bytes = 0x0F
  · rw [if_pos drive]
    by_cases group : type = .hdg ∨ type = .rdg ∨ type = .jbod
    · rw [if_pos group]
      refine moves_value (returns_newHiiString env _) ?_
      intro prompt _
      refine moves_value (returns_newHiiString env _) ?_
      intro help _
      exact moves_put_plain rfl (by decide) (by decide) (by decide)
    · rw [if_neg group]
      exact moves_pure
  · rw [if_neg drive]
    exact moves_pure

/-- The forms of the drives of a type leave the depth. -/
theorem moves_createTypeItems (type : ItemsType) (subName : String) :
    Moves depth depth (createTypeItems env card type subName) := by
  apply moves_forM
  intro set _
  refine moves_subTitle ?_
  exact moves_forM (fun body _ => moves_driveItem type body)

/-- The forms of the drive groups leave the depth. -/
theorem moves_hdgItems : Moves depth depth (hdgItems env card) := by
  refine moves_subTitle ?_
  refine moves_bind (moves_forM fun group _ => moves_createTypeItems group.1 group.2) ?_
  intro _
  refine moves_value returns_getOtherLableStart ?_
  intro label _
  refine moves_bind (moves_guidLabel label) ?_
  intro _
  exact moves_pure

/-- The command strings are the only items whose copies keep the opcode of the item. -/
theorem moves_commandItem {body : ItemsBody} (isString : opCode body.op.bytes = 0x1C)
    (noScope : hasScope body.op.bytes = false) :
    Moves depth depth (commandItem env body) := by
  refine moves_value (returns_newHiiString env body.itemsName) ?_
  intro prompt _
  obtain ⟨code, long, scope⟩ := itemMemory_header env body.op body.rest
  rw [scope] at noScope
  apply moves_emit_plain
  · exact long
  · change itemMemory env body.op body.rest 0 ≠ ifrEndOp
    rw [code, isString]
    decide
  · exact UInt8.not_le.mp (of_decide_eq_false noScope)

/-- The form of the commands leaves the depth. -/
theorem moves_smcCmdsItems : Moves depth depth (smcCmdsItems env card) := by
  refine moves_subTitle ?_
  apply moves_forItems
  intro set member type body inside
  obtain ⟨isString, noScope⟩ := card.commands set member type body inside
  exact moves_commandItem isString noScope

end Functions

end SmcPkg.SetupForms
