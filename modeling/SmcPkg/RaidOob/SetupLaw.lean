import SmcPkg.RaidOob.SetupVars

/-!
# Setup variables and the cards they come from

The name of a setup variable tells the name of its store, the type of its card and
the index of its card. It does not tell the GUID of the store, and the index does
not always tell the card: some types have no counter, and a counter has eight bits.

Assumed of a card are tables that represent its stores and questions that name a store. The
variable of the commands is added once for each card, behind its setup variables.
-/

namespace SmcPkg.SetupVars

open CString RaidCmd VarTable Card ApplyData BrowserHook Session

section Names

/-- Test all bytes. -/
theorem forall_byte (holds : UInt8 → Prop) (all : ∀ n : Fin 256, holds (UInt8.ofNat n)) (v : UInt8) :
    holds v := by
  have tested := all ⟨v.toNat, v.toNat_lt⟩
  rwa [UInt8.ofNat_toNat] at tested

/-- A number has no separator in it. -/
theorem separator_not_mem_hex (value : UInt8) : char8 '_' ∉ hex value :=
  forall_byte (fun value => char8 '_' ∉ hex value) (by decide +kernel) value

/-- The value of hexadecimal digits. -/
def unhex (digits : List UInt8) : Nat :=
  digits.foldl (fun value digit => value * 16 +
    if digit < char8 'a' then digit.toNat - 48 else digit.toNat - 87) 0

/-- A printed number is read back. -/
theorem unhex_hex (value : UInt8) : unhex (hex value) = value.toNat :=
  forall_byte (fun value => unhex (hex value) = value.toNat) (by decide +kernel) value

/-- Numbers have texts of their own. -/
theorem hex_injective {value other : UInt8} (same : hex value = hex other) : value = other := by
  have values := congrArg unhex same
  rw [unhex_hex, unhex_hex] at values
  exact UInt8.toNat_inj.mp values

/-- Types have codes of their own. -/
theorem typeCode_injective {raidCardType other : RaidType}
    (same : typeCode raidCardType = typeCode other) : raidCardType = other := by
  cases raidCardType <;> cases other <;> first | rfl | exact absurd same (by decide)

/-- Whatever stands before it, the end of a name tells the card. -/
theorem cardSuffix_injective {front before : List UInt8} {raidCardType other : RaidType}
    {index place : UInt8}
    (same : front ++ cardSuffix raidCardType index = before ++ cardSuffix other place) :
    front = before ∧ raidCardType = other ∧ index = place := by
  have split : ∀ (text : List UInt8) (kind : RaidType) (number : UInt8),
      text ++ cardSuffix kind number =
        (text ++ char8 '_' :: hex (typeCode kind)) ++ char8 '_' :: hex number := by
    intro text kind number
    simp [cardSuffix]
  rw [split, split] at same
  obtain ⟨fronts, indices⟩ := separated_back (separator_not_mem_hex index)
    (separator_not_mem_hex place) same
  obtain ⟨names, types⟩ := separated_back (separator_not_mem_hex _) (separator_not_mem_hex _) fronts
  exact ⟨names, typeCode_injective (hex_injective types), hex_injective indices⟩

/-- The name of a setup variable tells its store and its card. -/
theorem raidItemsVarName_injective {name text : List UInt8} {raidCardType other : RaidType}
    {index place : UInt8}
    (same : raidItemsVarName raidCardType index name = raidItemsVarName other place text) :
    name = text ∧ raidCardType = other ∧ index = place := by
  obtain ⟨fronts, card⟩ := cardSuffix_injective same
  exact ⟨(List.cons.inj (List.append_cancel_left fronts)).2, card⟩

/-- The name of a variable for commands tells its card. -/
theorem smcItemsVarName_injective {raidCardType other : RaidType} {index place : UInt8}
    (same : smcItemsVarName raidCardType index = smcItemsVarName other place) :
    raidCardType = other ∧ index = place :=
  (cardSuffix_injective same).2

/-- The two kinds of names differ in their fourth character. -/
theorem raidItemsVarName_ne_smc {name : List UInt8} {raidCardType other : RaidType}
    {index place : UInt8} :
    raidItemsVarName raidCardType index name ≠ smcItemsVarName other place := by
  intro same
  have fourth := congrArg (fun text => text[3]?) same
  simp [raidItemsVarName, smcItemsVarName, forRaidItemsVarName, forSmcItemsVarName, ascii] at fourth
  exact absurd fourth (by decide)

/-- A number of a byte has two digits at most. -/
theorem hex_length (value : UInt8) : (hex value).length ≤ 2 := by
  rw [hex]
  split <;> simp

/-- The end of a name has six characters at most. -/
theorem cardSuffix_length (raidCardType : RaidType) (index : UInt8) :
    (cardSuffix raidCardType index).length ≤ 6 := by
  have first := hex_length (typeCode raidCardType)
  have second := hex_length index
  simp only [cardSuffix, List.cons_append, List.length_cons, List.length_append]
  omega

/-- A name that leaves twelve characters fits with the type and the index of its card. -/
theorem raidItemsVarName_fits {raidCardType : RaidType} {index : UInt8} {name : List UInt8}
    (short : name.length + 12 ≤ nameLength) :
    (raidItemsVarName raidCardType index name).length < nameLength := by
  have suffix := cardSuffix_length raidCardType index
  simp only [raidItemsVarName, forRaidItemsVarName, ascii, List.length_append, List.length_cons,
    List.length_map, List.length_nil]
  omega

/-- A printed number has no zero. -/
theorem zero_not_mem_hex (value : UInt8) : 0 ∉ hex value :=
  forall_byte (fun value => 0 ∉ hex value) (by decide +kernel) value

/-- Nor has the end of a name. -/
theorem zero_not_mem_cardSuffix (raidCardType : RaidType) (index : UInt8) :
    0 ∉ cardSuffix raidCardType index := by
  have separator : (0 : UInt8) ≠ char8 '_' := by decide
  simp [cardSuffix, zero_not_mem_hex, separator]

/-- A name without a terminator in it comes back as it is. -/
theorem unicodeStrToAsciiStr_asciiStrToUnicodeStr {name : List UInt8} (text : 0 ∉ name) :
    unicodeStrToAsciiStr (asciiStrToUnicodeStr name) = name := by
  have narrow : UInt16.toUInt8 ∘ UInt8.toUInt16 = id := by
    funext c
    simp
  rw [unicodeStrToAsciiStr, asciiStrToUnicodeStr, List.map_map, narrow, List.map_id,
    List.takeWhile_eq_self_iff]
  intro c member
  have real : c ≠ 0 := fun zero => text (zero ▸ member)
  simpa using real

end Names

section Card

variable {σ : Type} {env : SetupEnv} {raidCardType : RaidType} {index : UInt8} {start : VarTables}
  {entries : List Nat}

/-- The stores of a card, as its variable tables have them: each has a buffer of its size
or more, none has the GUID of the setup variables, and with the card's end a name
still fits the name array. -/
structure Stores (env : SetupEnv) (tables : VarTables) (entries : List Nat) : Prop where
  represents : Represents tables entries
  foreign : ∀ a ∈ entries, (tables.node a).raidVarGuid ≠ env.varGuid
  text : ∀ a ∈ entries, 0 ∉ (tables.node a).raidVarName
  fits : ∀ a ∈ entries, (tables.node a).raidVarName.length + 12 ≤ nameLength
  buffered : ∀ a ∈ entries, ∃ p < tables.buffers, (tables.node a).raidVarBuffer = some p ∧
    (tables.node a).raidVarSize.toNat ≤ (tables.buffer p).length

/-- A setup variable stands for a store. -/
def StandsFor (env : SetupEnv) (raidCardType : RaidType) (index : UInt8) (store var : RaidVar) :
    Prop :=
  var.raidVarName = raidItemsVarName raidCardType index store.raidVarName ∧
    var.raidVarGuid = env.varGuid ∧ var.raidVarSize = store.raidVarSize ∧
    var.raidVarBuffer = store.raidVarBuffer

/-- The setup variables made so far for the stores gone through: one for every name. -/
structure Made (env : SetupEnv) (raidCardType : RaidType) (index : UInt8) (start : VarTables)
    (entries seen added : List Nat) (setup : Setup) : Prop where
  keeps : Keeps start setup.tables
  represents : Represents setup.tables (entries ++ added)
  vars : setup.raidSetupVarSet = added.map setup.tables.node
  source : ∀ a ∈ added, ∃ r ∈ seen, StandsFor env raidCardType index (start.node r)
    (setup.tables.node a)
  all : ∀ r ∈ seen, ∃ a ∈ added, (setup.tables.node a).raidVarName =
    raidItemsVarName raidCardType index (start.node r).raidVarName
  once : ∀ a ∈ added, ∀ b ∈ added,
    (setup.tables.node a).raidVarName = (setup.tables.node b).raidVarName → a = b
  few : added.length ≤ seen.length

/-- A store is where it was. -/
theorem Made.store {seen added : List Nat} {setup : Setup}
    (made : Made env raidCardType index start entries seen added setup)
    (stores : Stores env start entries) {a : Nat} (member : a ∈ entries) :
    setup.tables.node a = start.node a :=
  made.keeps.node a (stores.represents.allocated a member)

/-- Only made variables have the GUID of setup variables. -/
theorem Made.match_added {seen added : List Nat} {setup : Setup}
    (made : Made env raidCardType index start entries seen added setup)
    (stores : Stores env start entries) {name : List UInt8} {a : Nat}
    (member : a ∈ entries ++ added)
    (matched : matchesName setup.tables name (some env.varGuid) a = true) :
    a ∈ added ∧ (setup.tables.node a).raidVarName = name := by
  simp only [matchesName, Bool.and_eq_true, decide_eq_true_eq, Bool.or_eq_true, reduceCtorEq,
    false_or, Option.some.injEq] at matched
  rcases List.mem_append.mp member with inside | fresh
  · have guid := stores.foreign a inside
    rw [← made.store stores inside] at guid
    exact absurd matched.2.symm guid
  · exact ⟨fresh, matched.1⟩

/-- Add a variable with the GUID of setup variables under a new name. -/
theorem addSetupVar {tables : VarTables} {listed : List Nat} {name : List UInt8}
    (varId size : UInt16) (p : Nat) (represents : Represents tables listed) (fits : name.length < nameLength)
    (fresh : ∀ a ∈ listed, matchesName tables name (some env.varGuid) a = false)
    (enough : listed.length ≤ env.fuel) :
    ∃ later, addLsiVarByBuffer2 env.fuel ⟨name, env.varGuid, varId, size, true⟩ (some p) tables =
        .ok (.added tables.nodes, later) ∧ Keeps tables later ∧
      Represents later (listed ++ [tables.nodes]) ∧
      later.node tables.nodes = ⟨name, env.varGuid, varId, size, some p⟩ := by
  obtain ⟨result, later, done, stepped⟩ := addLsiVarByBuffer2_fresh represents
    ⟨name, env.varGuid, varId, size, true⟩ fits fresh enough (some p)
  obtain ⟨rfl, grown, shown⟩ := stepped.success rfl
  refine ⟨later, done, stepped.keeps, grown, ?_⟩
  have sameName : (later.node tables.nodes).raidVarName = name := shown.name
  have guid : (later.node tables.nodes).raidVarGuid = env.varGuid := shown.guid
  have sameVarId : (later.node tables.nodes).raidVarId = varId := shown.varId
  have sameSize : (later.node tables.nodes).raidVarSize = size := shown.varSize
  have buffer : (later.node tables.nodes).raidVarBuffer = some p := shown.stored
  rw [← sameName, ← guid, ← sameVarId, ← sameSize, ← buffer]

/-- A new name keeps the names of the variables apart. -/
theorem once_snoc {node : Nat → RaidVar} {added : List Nat} {last : Nat}
    (old : ∀ a ∈ added, ∀ b ∈ added, (node a).raidVarName = (node b).raidVarName → a = b)
    (new : ∀ a ∈ added, (node a).raidVarName ≠ (node last).raidVarName) :
    ∀ a ∈ added ++ [last], ∀ b ∈ added ++ [last],
      (node a).raidVarName = (node b).raidVarName → a = b := by
  intro a aIn b bIn same
  rcases List.mem_append.mp aIn with oldA | lastA
  · rcases List.mem_append.mp bIn with oldB | lastB
    · exact old a oldA b oldB same
    · rw [List.mem_singleton.mp lastB] at same
      exact absurd same (new a oldA)
  · rcases List.mem_append.mp bIn with oldB | lastB
    · rw [List.mem_singleton.mp lastA] at same
      exact absurd same.symm (new b oldB)
    · rw [List.mem_singleton.mp lastA, List.mem_singleton.mp lastB]

/-- A store whose variable is there already is one more that has been seen. -/
theorem Made.found {seen added : List Nat} {setup : Setup} {r c : Nat}
    (made : Made env raidCardType index start entries seen added setup) (isAdded : c ∈ added)
    (named : (setup.tables.node c).raidVarName =
      raidItemsVarName raidCardType index (start.node r).raidVarName) :
    ∀ assigned, Made env raidCardType index start entries (seen ++ [r]) added
      { setup with assigned := assigned } := by
  intro assigned
  refine ⟨made.keeps, made.represents, made.vars, ?_, ?_, made.once, ?_⟩
  · intro a aIn
    obtain ⟨store, storeIn, stands⟩ := made.source a aIn
    exact ⟨store, List.mem_append_left _ storeIn, stands⟩
  · intro store storeIn
    rcases List.mem_append.mp storeIn with old | last
    · exact made.all store old
    · rw [List.mem_singleton.mp last]
      exact ⟨c, isAdded, named⟩
  · rw [List.length_append]
    exact Nat.le_add_right_of_le made.few

/-- A variable that is made for a store, when none of its name was there. -/
theorem Made.snoc {seen added : List Nat} {setup later : Setup} {r last : Nat}
    (made : Made env raidCardType index start entries seen added setup)
    (keeps : Keeps setup.tables later.tables)
    (represents : Represents later.tables (entries ++ (added ++ [last])))
    (vars : later.raidSetupVarSet = setup.raidSetupVarSet ++ [later.tables.node last])
    (stands : StandsFor env raidCardType index (start.node r) (later.tables.node last))
    (new : ∀ a ∈ added, (setup.tables.node a).raidVarName ≠ (later.tables.node last).raidVarName) :
    Made env raidCardType index start entries (seen ++ [r]) (added ++ [last]) later := by
  have older : ∀ a ∈ added, later.tables.node a = setup.tables.node a := fun a aIn =>
    keeps.node a (made.represents.allocated a (List.mem_append_right _ aIn))
  refine ⟨made.keeps.trans keeps, represents, ?_, ?_, ?_, ?_, ?_⟩
  · rw [vars, made.vars, List.map_append, List.map_singleton, List.map_congr_left older]
  · intro a aIn
    rcases List.mem_append.mp aIn with old | isLast
    · obtain ⟨store, storeIn, stands⟩ := made.source a old
      refine ⟨store, List.mem_append_left _ storeIn, ?_⟩
      rw [older a old]
      exact stands
    · rw [List.mem_singleton.mp isLast]
      exact ⟨r, by simp, stands⟩
  · intro store storeIn
    rcases List.mem_append.mp storeIn with old | isLast
    · obtain ⟨a, aIn, named⟩ := made.all store old
      refine ⟨a, List.mem_append_left _ aIn, ?_⟩
      rw [older a aIn]
      exact named
    · rw [List.mem_singleton.mp isLast]
      exact ⟨last, by simp, stands.1⟩
  · refine once_snoc (fun a aIn b bIn same => ?_) (fun a aIn => ?_)
    · rw [older a aIn, older b bIn] at same
      exact made.once a aIn b bIn same
    · rw [older a aIn]
      exact new a aIn
  · have few := made.few
    simp only [List.length_append, List.length_singleton]
    omega

/-- Using a setup variable for a store. -/
theorem takeSetupVar_made {seen added : List Nat} {setup : Setup} {r : Nat}
    (stores : Stores env start entries) (member : r ∈ entries)
    (made : Made env raidCardType index start entries seen added setup)
    (enough : entries.length + seen.length ≤ env.fuel) :
    ∃ next more, takeSetupVar env
        (raidItemsVarName raidCardType index (setup.tables.node r).raidVarName)
        (setup.tables.node r) setup = .ok next ∧ next.items = setup.items ∧
      Made env raidCardType index start entries (seen ++ [r]) more next := by
  have here := made.store stores member
  have short : (entries ++ added).length ≤ env.fuel := by
    have few := made.few
    rw [List.length_append]
    omega
  rw [here, takeSetupVar, searchLsiVarByName_represents made.represents _ _ short]
  simp only [bind, Except.bind]
  cases found : (entries ++ added).find? (matchesName setup.tables
      (raidItemsVarName raidCardType index (start.node r).raidVarName) (some env.varGuid)) with
  | some c =>
    obtain ⟨isAdded, named⟩ := made.match_added stores (List.mem_of_find?_eq_some found)
      (List.find?_some found)
    exact ⟨_, added, rfl, rfl, made.found isAdded named _⟩
  | none =>
    obtain ⟨p, -, pointed, -⟩ := stores.buffered r member
    obtain ⟨later, done, keeps, represents, node⟩ := addSetupVar
      (setup.starts.varIdStart + 1) (start.node r).raidVarSize p made.represents
       (raidItemsVarName_fits (stores.fits r member)) (fun a aIn =>
        Bool.eq_false_iff.mpr (List.find?_eq_none.mp found a aIn)) short
    have stands : StandsFor env raidCardType index (start.node r)
        (later.node setup.tables.nodes) := by
      rw [StandsFor, node, pointed]
      exact ⟨rfl, rfl, rfl, rfl⟩
    have new : ∀ a ∈ added, (setup.tables.node a).raidVarName ≠
        (later.node setup.tables.nodes).raidVarName := by
      intro a aIn same
      obtain ⟨store, -, standsOld⟩ := made.source a aIn
      have absent := List.find?_eq_none.mp found a (List.mem_append_right _ aIn)
      rw [stands.1] at same
      simp [matchesName, same, standsOld.2.1] at absent
    rw [pointed, done]
    refine ⟨_, added ++ [setup.tables.nodes], rfl, rfl, made.snoc keeps ?_ rfl stands new⟩
    rw [← List.append_assoc]
    exact represents

/-- The store of a question. -/
def storeOf (tables : VarTables) (entries : List Nat) (op : IfrOp) : Option Nat :=
  entries.find? (fun a => (tables.node a).raidVarId = op.varStoreId)

/-- The stores of the questions among the items, in their order. -/
def usedStores (tables : VarTables) (entries : List Nat) (ops : List IfrOp) : List Nat :=
  (ops.filter (fun op => op.opCode ≠ .ref)).filterMap (storeOf tables entries)

/-- Every question belongs to a store of the card. -/
def Declared (tables : VarTables) (entries : List Nat) (ops : List IfrOp) : Prop :=
  ∀ op ∈ ops, op.opCode ≠ .ref → ∃ r, storeOf tables entries op = some r

/-- A store is found by its identifier, however many setup variables there are. -/
theorem Made.searchById {seen added : List Nat} {setup : Setup}
    (made : Made env raidCardType index start entries seen added setup)
    (stores : Stores env start entries) (enough : entries.length + seen.length ≤ env.fuel)
    {op : IfrOp} {r : Nat} (found : storeOf start entries op = some r) :
    searchLsiVarById env.fuel setup.tables op.varStoreId = .ok (some r) := by
  have short : (entries ++ added).length ≤ env.fuel := by
    have few := made.few
    rw [List.length_append]
    omega
  have same : entries.find? (fun a => decide ((setup.tables.node a).raidVarId = op.varStoreId)) =
      storeOf start entries op := by
    apply List.find?_congr
    intro a aIn
    rw [made.store stores aIn]
  rw [searchLsiVarById_represents made.represents _ short, List.find?_append, same, found]
  rfl

/-- The whole loop over the items. -/
theorem setSmcLsiVariableTable_made (stores : Stores env start entries) (ops : List IfrOp)
    (declared : Declared start entries ops) {seen added : List Nat} {setup : Setup}
    (made : Made env raidCardType index start entries seen added setup)
    (enough : entries.length + seen.length + ops.length ≤ env.fuel) :
    ∃ final more, setSmcLsiVariableTable env raidCardType index ops setup =
        .ok (efiSuccess, final) ∧ final.items = setup.items ∧
      Made env raidCardType index start entries (seen ++ usedStores start entries ops) more final := by
  induction ops generalizing seen added setup with
  | nil =>
    refine ⟨setup, added, rfl, rfl, ?_⟩
    simpa [usedStores] using made
  | cons op ops inductionHypothesis =>
    have declaredRest : Declared start entries ops := fun other member =>
      declared other (List.mem_cons_of_mem _ member)
    rw [List.length_cons] at enough
    rw [setSmcLsiVariableTable]
    by_cases reference : op.opCode = .ref
    · rw [if_pos reference]
      obtain ⟨final, more, done, items, later⟩ :=
        inductionHypothesis declaredRest made (by omega)
      refine ⟨final, more, done, items, ?_⟩
      simpa [usedStores, reference] using later
    · rw [if_neg reference]
      obtain ⟨r, found⟩ := declared op List.mem_cons_self reference
      have member : r ∈ entries := List.mem_of_find?_eq_some found
      have fits : (raidItemsVarName raidCardType index (start.node r).raidVarName).length <
        nameLength := raidItemsVarName_fits (stores.fits r member)
      rw [made.searchById stores (by omega) found]
      simp only [bind, Except.bind]
      rw [made.store stores member, if_neg (by omega)]
      obtain ⟨next, more, taken, sameItems, grown⟩ :=
        takeSetupVar_made stores member made (by omega)
      rw [made.store stores member] at taken
      rw [taken]
      obtain ⟨final, most, done, items, later⟩ := inductionHypothesis declaredRest grown (by
        rw [List.length_append, List.length_singleton]
        omega)
      refine ⟨final, most, done, items.trans sameItems, ?_⟩
      simpa [usedStores, reference, found] using later

/-- The variable for commands of a card. -/
def HoldsCommands (env : SetupEnv) (raidCardType : RaidType) (index : UInt8) (tables : VarTables)
    (var : RaidVar) : Prop :=
  var.raidVarName = smcItemsVarName raidCardType index ∧ var.raidVarGuid = env.varGuid ∧
    ∃ p, var.raidVarBuffer = some p ∧ var.raidVarSize.toNat ≤ (tables.buffer p).length

/-- A card that has been set up. Its tables hold its stores and the setup variables of its
stores and of its commands; each of them has a name of its own. -/
structure Built (env : SetupEnv) (raidCardType : RaidType) (index : UInt8) (start : VarTables)
    (entries used : List Nat) (tables : VarTables) (vars : List RaidVar) (added : List Nat) :
    Prop where
  keeps : Keeps start tables
  represents : Represents tables (entries ++ added)
  vars : vars = added.map tables.node
  source : ∀ a ∈ added, (∃ r ∈ used, StandsFor env raidCardType index (start.node r)
    (tables.node a)) ∨ HoldsCommands env raidCardType index tables (tables.node a)
  all : ∀ r ∈ used, ∃ a ∈ added, (tables.node a).raidVarName =
    raidItemsVarName raidCardType index (start.node r).raidVarName
  commands : used ≠ [] → ∃ a ∈ added, HoldsCommands env raidCardType index tables (tables.node a)
  unused : used = [] → added = []
  once : ∀ a ∈ added, ∀ b ∈ added,
    (tables.node a).raidVarName = (tables.node b).raidVarName → a = b
  few : added.length ≤ used.length + 1

/-- The name of the variable for commands fits. -/
theorem smcItemsVarName_fits (raidCardType : RaidType) (index : UInt8) :
    (smcItemsVarName raidCardType index).length < nameLength := by
  have suffix := cardSuffix_length raidCardType index
  simp only [smcItemsVarName, forSmcItemsVarName, ascii, List.length_append, List.length_map,
    List.length_cons, List.length_nil, nameLength]
  omega

/-- The empty commands fill their variable. -/
theorem newCommands_length : newCommands.length = smcRaidVarSize := by
  simp only [newCommands, emptyCommand, List.length_append, List.length_replicate,
    List.length_cons, List.length_nil]
  decide

/-- A card without stores is set up without any variable. -/
theorem Made.built_unused {added : List Nat} {setup : Setup}
    (made : Made env raidCardType index start entries [] added setup) :
    setup.raidSetupVarSet = [] ∧
      Built env raidCardType index start entries [] setup.tables setup.raidSetupVarSet added := by
  have none : added = [] := by
    rw [List.eq_nil_iff_length_eq_zero]
    have few := made.few
    rw [List.length_nil] at few
    omega
  refine ⟨by rw [made.vars, none, List.map_nil], made.keeps, made.represents, made.vars, ?_,
    made.all, ?_, ?_, made.once, Nat.le_succ_of_le made.few⟩
  · exact fun a aIn => Or.inl (made.source a aIn)
  · exact fun nonempty => absurd rfl nonempty
  · exact fun _ => none

/-- The variable for commands is added behind the setup variables of the stores, with a buffer of
its own. Its name is that of no variable before it, so the search finds none. -/
theorem addCommands (stores : Stores env start entries) {used added : List Nat} {setup : Setup}
    (made : Made env raidCardType index start entries used added setup)
    (enough : entries.length + used.length ≤ env.fuel) :
    ∃ later, addLsiVarByBuffer2 env.fuel
        ⟨smcItemsVarName raidCardType index, env.varGuid, setup.starts.varIdStart + 1,
          UInt16.ofNat smcRaidVarSize, true⟩
        (some (allocatePool setup.tables newCommands).1)
        (allocatePool setup.tables newCommands).2 = .ok (.added setup.tables.nodes, later) ∧
      Keeps setup.tables later ∧
      Represents later (entries ++ added ++ [setup.tables.nodes]) ∧
      HoldsCommands env raidCardType index later (later.node setup.tables.nodes) := by
  have few := made.few
  -- the new buffer changes nothing in the tables
  have pooled : Keeps setup.tables (allocatePool setup.tables newCommands).2 :=
    ⟨Nat.le_refl _, fun _ _ => rfl, Nat.le_succ _, fun p below =>
      Function.update_of_ne (Nat.ne_of_lt below) _ _⟩
  have represents : Represents (allocatePool setup.tables newCommands).2 (entries ++ added) :=
    pooled.represents made.represents made.represents.byName made.represents.byId
  obtain ⟨later, done, keeps, grown, node⟩ := addSetupVar
    (setup.starts.varIdStart + 1) (UInt16.ofNat smcRaidVarSize)
    (allocatePool setup.tables newCommands).1 represents (smcItemsVarName_fits raidCardType index)
    (fun a aIn => by
      rw [Bool.eq_false_iff]
      intro matched
      obtain ⟨fresh, named⟩ := made.match_added stores aIn matched
      obtain ⟨r, -, stands⟩ := made.source a fresh
      rw [stands.1] at named
      exact raidItemsVarName_ne_smc named)
    (by rw [List.length_append]; omega)
  refine ⟨later, done, pooled.trans keeps, grown, ?_⟩
  have newNode : later.node setup.tables.nodes = _ := node
  have bytes : later.buffer setup.tables.buffers = newCommands :=
    (keeps.buffer _ (Nat.lt_succ_self _)).trans (Function.update_self ..)
  rw [HoldsCommands, newNode]
  refine ⟨rfl, rfl, setup.tables.buffers, rfl, ?_⟩
  rw [bytes, newCommands_length]
  change (UInt16.ofNat smcRaidVarSize).toNat ≤ smcRaidVarSize
  decide

/-- With the variable for commands behind its setup variables a card is set up. -/
theorem Made.built {used added : List Nat} {setup : Setup}
    (made : Made env raidCardType index start entries used added setup) (some : used ≠ [])
    {later : VarTables} (whole : Keeps setup.tables later)
    (grown : Represents later (entries ++ added ++ [setup.tables.nodes]))
    (holds : HoldsCommands env raidCardType index later (later.node setup.tables.nodes)) :
    Built env raidCardType index start entries used later
      (setup.raidSetupVarSet ++ [later.node setup.tables.nodes])
      (added ++ [setup.tables.nodes]) := by
  have few := made.few
  have older : ∀ a ∈ added, later.node a = setup.tables.node a := fun a aIn =>
    whole.node a (made.represents.allocated a (List.mem_append_right _ aIn))
  refine ⟨made.keeps.trans whole, ?_, ?_, ?_, ?_, ?_, ?_, ?_, ?_⟩
  · rw [← List.append_assoc]
    exact grown
  · simp only [made.vars, List.map_append, List.map_singleton]
    rw [List.map_congr_left older]
  · intro a aIn
    rcases List.mem_append.mp aIn with old | last
    · obtain ⟨r, rIn, stands⟩ := made.source a old
      rw [older a old]
      exact Or.inl ⟨r, rIn, stands⟩
    · rw [List.mem_singleton.mp last]
      exact Or.inr holds
  · intro r rIn
    obtain ⟨a, aIn, named⟩ := made.all r rIn
    refine ⟨a, List.mem_append_left _ aIn, ?_⟩
    rw [older a aIn]
    exact named
  · exact fun _ => ⟨setup.tables.nodes, by simp, holds⟩
  · exact fun none => absurd none some
  · have new : ∀ a ∈ added, (later.node a).raidVarName ≠
        (later.node setup.tables.nodes).raidVarName := by
      intro a aIn same
      obtain ⟨r, -, stands⟩ := made.source a aIn
      rw [older a aIn, stands.1, holds.1] at same
      exact raidItemsVarName_ne_smc same
    refine once_snoc (fun a aIn b bIn same => ?_) new
    rw [older a aIn, older b bIn] at same
    exact made.once a aIn b bIn same
  · rw [List.length_append, List.length_singleton]
    omega

/-- `SmcLsiCreateSmcRaidVarAndItems` after the loop over the items. -/
theorem createSmcRaidVarAndItems_built (stores : Stores env start entries) {used added : List Nat}
    {setup : Setup} (made : Made env raidCardType index start entries used added setup)
    (shown : used ≠ [] → setup.items ≠ []) (enough : entries.length + used.length ≤ env.fuel) :
    ∃ final more, createSmcRaidVarAndItems env raidCardType index setup = .ok final ∧
      Built env raidCardType index start entries used final.tables final.raidSetupVarSet more := by
  rw [createSmcRaidVarAndItems]
  by_cases unused : used = []
  · subst unused
    obtain ⟨nothing, built⟩ := made.built_unused
    rw [if_pos (Or.inr nothing)]
    exact ⟨setup, added, rfl, built⟩
  · have nonempty : setup.raidSetupVarSet ≠ [] := by
      obtain ⟨r, rIn⟩ := List.exists_mem_of_ne_nil used unused
      obtain ⟨a, aIn, -⟩ := made.all r rIn
      rw [made.vars]
      exact List.map_eq_nil_iff.not.mpr (List.ne_nil_of_mem aIn)
    rw [if_neg (not_or.mpr ⟨shown unused, nonempty⟩)]
    obtain ⟨later, done, whole, grown, holds⟩ := addCommands stores made enough
    simp only [done, bind, Except.bind]
    exact ⟨_, _, rfl, made.built unused whole grown holds⟩

end Card

end SmcPkg.SetupVars
