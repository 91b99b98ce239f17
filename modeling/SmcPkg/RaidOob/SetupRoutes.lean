import SmcPkg.RaidOob.ApplyLaw
import SmcPkg.RaidOob.SessionLaw
import SmcPkg.RaidOob.SetupLaw

/-!
# Setup variables on their way out and back

`ParseNvData` hands out the setup variables of the cards in their order. A variable
that comes back goes to the first card that knows its name. It is the right card
exactly when the end of a name tells the card, and the right store exactly when the
name of a store tells the store.

The cards are those that were declared, in the order of their declaration. The index of a card
is its place among the cards of its type, in eight bits, if the type is counted; otherwise it is
0.
-/

namespace SmcPkg.SetupVars

open CString RaidCmd VarTable Card ApplyData BrowserHook Session

variable {σ : Type} {env : SetupEnv}

section Enumerate

/-- What is handed out for a setup variable. -/
def dataOf (entry : Nat × CardState σ × RaidVar) : NvData :=
  ⟨entry.1, asciiStrToUnicodeStr entry.2.2.raidVarName, entry.2.2.raidVarGuid,
    (readVar entry.2.1.tables entry.2.2).toOption.getD []⟩

/-- The variables still to be handed out. -/
def NvCursor.pending (cursor : NvCursor σ) : List (Nat × CardState σ × RaidVar) :=
  cursor.vars ++ cursor.cards.flatMap nvVars

/-- Passing over cards without setup variables loses nothing. -/
theorem nextVars_pending (cards : List (Nat × SetupCard σ)) :
    (nextVars cards).1 ++ (nextVars cards).2.flatMap nvVars = cards.flatMap nvVars ∧
      ((nextVars cards).1 = [] → cards.flatMap nvVars = []) := by
  induction cards with
  | nil => exact ⟨rfl, fun _ => rfl⟩
  | cons card cards inductionHypothesis =>
    rw [nextVars]
    split
    · rename_i none
      rw [List.flatMap_cons, none, List.nil_append]
      exact inductionHypothesis
    · rename_i nonempty
      exact ⟨by rw [List.flatMap_cons], fun none => absurd none nonempty⟩

/-- One call in the middle of an enumeration. -/
theorem parseNvData_pending (cards : List (SetupCard σ)) (cursor : NvCursor σ)
    (going : cursor.reNewVar = false)
    (readable : ∀ entry ∈ cursor.pending, ∃ bytes, readVar entry.2.1.tables entry.2.2 = .ok bytes) :
    (cursor.pending = [] ∧ ∃ later, smcLsiRaidLibParseNvData cards cursor = .ok (none, later)) ∨
      ∃ entry later, cursor.pending = entry :: later.pending ∧ later.reNewVar = false ∧
        smcLsiRaidLibParseNvData cards cursor = .ok (some (dataOf entry), later) := by
  obtain ⟨next, nextEmpty⟩ := nextVars_pending cursor.cards
  -- the variables at hand, after the search for the next card
  have split : ∀ vars rest, (if cursor.vars = [] then nextVars cursor.cards else
      (cursor.vars, cursor.cards)) = (vars, rest) →
        vars ++ rest.flatMap nvVars = cursor.pending ∧ (vars = [] → cursor.pending = []) := by
    intro vars rest chosen
    split at chosen
    · rename_i none
      rw [chosen] at next nextEmpty
      rw [NvCursor.pending, none, List.nil_append]
      exact ⟨next, nextEmpty⟩
    · rename_i nonempty
      obtain ⟨rfl, rfl⟩ := Prod.mk.inj chosen
      exact ⟨rfl, fun none => absurd none nonempty⟩
  rw [smcLsiRaidLibParseNvData, going]
  simp only [Bool.false_eq_true, if_false]
  rcases chosen : (if cursor.vars = [] then nextVars cursor.cards else
    (cursor.vars, cursor.cards)) with ⟨vars, rest⟩
  obtain ⟨whole, empty⟩ := split vars rest chosen
  cases vars with
  | nil => exact Or.inl ⟨empty rfl, _, rfl⟩
  | cons entry vars =>
    obtain ⟨bytes, read⟩ := readable entry (by rw [← whole]; simp)
    refine Or.inr ⟨entry, ⟨false, rest, vars⟩, whole.symm, rfl, ?_⟩
    obtain ⟨index, card, var⟩ := entry
    simp only [read, bind, Except.bind, dataOf, Except.toOption, Option.getD_some]

/-- The calls of an enumeration hand out the pending variables in their order. -/
theorem parseNvCalls_pending (cards : List (SetupCard σ)) (calls : Nat) (cursor : NvCursor σ)
    (going : cursor.reNewVar = false)
    (readable : ∀ entry ∈ cursor.pending, ∃ bytes, readVar entry.2.1.tables entry.2.2 = .ok bytes) :
    parseNvCalls cards calls cursor = .ok ((cursor.pending.take calls).map dataOf) := by
  induction calls generalizing cursor with
  | zero => simp [parseNvCalls]
  | succ calls inductionHypothesis =>
    rw [parseNvCalls]
    rcases parseNvData_pending cards cursor going readable with
      ⟨none, later, done⟩ | ⟨entry, later, rest, still, done⟩
    · simp [done, none, bind, Except.bind]
    · have more := inductionHypothesis later still (fun other member =>
        readable other (by rw [rest]; exact List.mem_cons_of_mem _ member))
      simp [done, rest, more, bind, Except.bind]

/-- The cursor before the first call. -/
def NvCursor.fresh : NvCursor σ := ⟨true, [], []⟩

/-- The setup variables of all cards. -/
def allVars (cards : List (SetupCard σ)) : List (Nat × CardState σ × RaidVar) :=
  (cards.zipIdx.map Prod.swap).flatMap nvVars

/-- The variables of all cards, with the place of their card. -/
theorem mem_allVars {cards : List (SetupCard σ)} {index : Nat} {state : CardState σ} {var : RaidVar} :
    (index, state, var) ∈ allVars cards ↔
      ∃ card, cards[index]? = some card ∧ card.state = state ∧ var ∈ card.raidSetupVarSet := by
  simp only [allVars, List.mem_flatMap, List.mem_map, nvVars, Prod.exists, Prod.swap_prod_mk,
    Prod.mk.injEq, List.mk_mem_zipIdx_iff_getElem?]
  constructor
  · rintro ⟨place, card, ⟨_, _, found, rfl, rfl⟩, other, member, rfl, rfl, rfl⟩
    exact ⟨_, found, rfl, member⟩
  · rintro ⟨card, found, rfl, member⟩
    exact ⟨index, card, ⟨card, index, found, rfl, rfl⟩, var, member, rfl, rfl, rfl⟩

/-- An enumeration from its start. -/
theorem parseNvCalls_fresh (cards : List (SetupCard σ)) (calls : Nat)
    (readable : ∀ entry ∈ allVars cards, ∃ bytes, readVar entry.2.1.tables entry.2.2 = .ok bytes) :
    parseNvCalls cards calls .fresh = .ok (((allVars cards).take calls).map dataOf) := by
  -- starting over sets the cursor to the first card
  have first : parseNvCalls cards calls .fresh =
      parseNvCalls cards calls ⟨false, cards.zipIdx.map Prod.swap, []⟩ := by
    cases calls with
    | zero => rfl
    | succ calls => rfl
  rw [first]
  exact parseNvCalls_pending cards calls _ rfl readable

end Enumerate

section Build

/-- The questions of a card. -/
def questions (card : CardState σ) : List IfrOp :=
  (itemOps card.raidCardInfItems).filter (fun op => op.opCode ≠ .ref)

/-- A question of the card belongs to this store. -/
def Uses (env : SetupEnv) (card : CardState σ) (r : Nat) : Prop :=
  ∃ op ∈ questions card, searchLsiVarById env.fuel card.tables op.varStoreId = .ok (some r)

/-- A card before it is set up: it is of a real type, its tables hold its stores, and every
question belongs to one of them. -/
structure Declares (env : SetupEnv) (card : CardState σ) (entries : List Nat) : Prop where
  real : card.raidCardType ≠ .raidNull
  stores : Stores env card.tables entries
  declared : Declared card.tables entries (itemOps card.raidCardInfItems)
  enough : entries.length + (itemOps card.raidCardInfItems).length + 1 ≤ env.fuel

/-- The stores of a card that are used are those of its questions. -/
theorem Declares.uses_iff {card : CardState σ} {entries : List Nat}
    (declares : Declares env card entries) (r : Nat) :
    r ∈ usedStores card.tables entries (itemOps card.raidCardInfItems) ↔ Uses env card r := by
  have enough := declares.enough
  simp only [usedStores, List.mem_filterMap, Uses, questions, storeOf,
    searchLsiVarById_represents declares.stores.represents _ (show entries.length ≤ env.fuel by omega),
    Except.ok.injEq]

/-- No store is used exactly if there is no question. -/
theorem Declares.used_nil {card : CardState σ} {entries : List Nat}
    (declares : Declares env card entries) :
    usedStores card.tables entries (itemOps card.raidCardInfItems) = [] ↔ questions card = [] := by
  rw [usedStores, List.filterMap_eq_nil_iff, questions]
  constructor
  · intro none
    rw [List.eq_nil_iff_forall_not_mem]
    intro op member
    obtain ⟨r, found⟩ := declares.declared op (List.mem_of_mem_filter member)
      (by simpa using (List.mem_filter.mp member).2)
    rw [none op member] at found
    exact absurd found (by simp)
  · intro none op member
    rw [none] at member
    exact absurd member List.not_mem_nil

/-- A card and what it has become. -/
structure SetUp (env : SetupEnv) (source card : SetupCard σ) (entries added : List Nat) :
    Prop where
  declares : Declares env source.state entries
  raidCardType : card.state.raidCardType = source.state.raidCardType
  built : Built env source.state.raidCardType source.raidCardIndex source.state.tables entries
    (usedStores source.state.tables entries (itemOps source.state.raidCardInfItems))
    card.state.tables card.raidSetupVarSet added

/-- The two rows on every card. -/
theorem setUpCards_setUp (starts : Starts) (sources : List (SetupCard σ))
    (declared : ∀ source ∈ sources, ∃ entries, Declares env source.state entries) :
    ∃ cards, setUpCards env starts sources = .ok cards ∧
      List.Forall₂ (fun source card => ∃ entries added, SetUp env source card entries added)
        sources cards := by
  induction sources generalizing starts with
  | nil => exact ⟨[], rfl, .nil⟩
  | cons source sources inductionHypothesis =>
    obtain ⟨entries, declares⟩ := declared source List.mem_cons_self
    have enough := declares.enough
    have started : Made env source.state.raidCardType source.raidCardIndex source.state.tables
        entries [] [] (Setup.start source.state starts) :=
      ⟨.refl _, by rw [List.append_nil]; exact declares.stores.represents, rfl, by simp, by simp,
        by simp, Nat.le_refl _⟩
    obtain ⟨setup, middle, looped, items, made⟩ := setSmcLsiVariableTable_made declares.stores _
      declares.declared started (by simp only [List.length_nil]; omega)
    rw [List.nil_append] at made
    have bound : (usedStores source.state.tables entries
        (itemOps source.state.raidCardInfItems)).length ≤
          (itemOps source.state.raidCardInfItems).length :=
      Nat.le_trans (List.length_filterMap_le _ _) (List.length_filter_le _ _)
    obtain ⟨final, added, created, built⟩ := createSmcRaidVarAndItems_built declares.stores made
      (fun used none => by
        rw [items] at none
        change source.state.raidCardInfItems = [] at none
        rw [none] at used
        exact used rfl)
      (by omega)
    obtain ⟨cards, done, rest⟩ := inductionHypothesis final.starts
      (fun other member => declared other (List.mem_cons_of_mem _ member))
    refine ⟨source.finish final :: cards, ?_, .cons ⟨entries, added, declares, rfl, built⟩ rest⟩
    rw [setUpCards, if_neg declares.real]
    simp only [looped, created, done, bind, Except.bind, efiError_efiSuccess, Bool.false_eq_true,
      if_false]

/-- A setup variable of a card that has been set up. -/
theorem SetUp.var {source card : SetupCard σ} {entries added : List Nat}
    (setUp : SetUp env source card entries added) {var : RaidVar}
    (member : var ∈ card.raidSetupVarSet) :
    ∃ a ∈ added, card.state.tables.node a = var ∧ var.raidVarGuid = env.varGuid ∧
      (∃ p, var.raidVarBuffer = some p ∧
        var.raidVarSize.toNat ≤ (card.state.tables.buffer p).length) ∧
      ((∃ r, Uses env source.state r ∧ StandsFor env source.state.raidCardType source.raidCardIndex
          (source.state.tables.node r) var) ∨
        var.raidVarName = smcItemsVarName source.state.raidCardType source.raidCardIndex) := by
  rw [setUp.built.vars] at member
  obtain ⟨a, aIn, rfl⟩ := List.mem_map.mp member
  rcases setUp.built.source a aIn with ⟨r, rIn, stands⟩ | holds
  · have used := (setUp.declares.uses_iff r).mp rIn
    have listed : r ∈ entries := by
      obtain ⟨op, -, found⟩ := List.mem_filterMap.mp rIn
      exact List.mem_of_find?_eq_some found
    obtain ⟨p, below, pointed, room⟩ := setUp.declares.stores.buffered r listed
    refine ⟨a, aIn, rfl, stands.2.1, ⟨p, ?_, ?_⟩, Or.inl ⟨r, used, stands⟩⟩
    · rw [stands.2.2.2, pointed]
    · rw [stands.2.2.1, setUp.built.keeps.buffer p below]
      exact room
  · exact ⟨a, aIn, rfl, holds.2.1, holds.2.2, Or.inr holds.1⟩

/-- A search in the tables of a card that has been set up. -/
theorem SetUp.search {source card : SetupCard σ} {entries added : List Nat}
    (setUp : SetUp env source card entries added) (name : List UInt8) :
    searchLsiVarByName env.fuel card.state.tables name (some env.varGuid) =
      .ok ((entries ++ added).find? (matchesName card.state.tables name (some env.varGuid))) := by
  have enough := setUp.declares.enough
  have few := setUp.built.few
  have bound : (usedStores source.state.tables entries
      (itemOps source.state.raidCardInfItems)).length ≤
        (itemOps source.state.raidCardInfItems).length :=
    Nat.le_trans (List.length_filterMap_le _ _) (List.length_filter_le _ _)
  refine searchLsiVarByName_represents setUp.built.represents _ _ ?_
  rw [List.length_append]
  omega

/-- The stores of a card do not have the GUID of setup variables. -/
theorem SetUp.match_added {source card : SetupCard σ} {entries added : List Nat}
    (setUp : SetUp env source card entries added) {name : List UInt8} {a : Nat}
    (member : a ∈ entries ++ added)
    (matched : matchesName card.state.tables name (some env.varGuid) a = true) :
    a ∈ added ∧ (card.state.tables.node a).raidVarName = name := by
  simp only [matchesName, Bool.and_eq_true, decide_eq_true_eq, Bool.or_eq_true, reduceCtorEq,
    false_or, Option.some.injEq] at matched
  rcases List.mem_append.mp member with inside | fresh
  · have guid := setUp.declares.stores.foreign a inside
    rw [← setUp.built.keeps.node a
      (setUp.declares.stores.represents.allocated a inside)] at guid
    exact absurd matched.2.symm guid
  · exact ⟨fresh, matched.1⟩

end Build

section Route

/-- A card knows a variable. -/
def knows (fuel : Nat) (name : List UInt8) (guid : Guid) (card : CardState σ) : Bool :=
  match searchLsiVarByName fuel card.tables name (some guid) with
  | .ok (some _) => true
  | _ => false

/-- The search for the card of a variable finds the first that knows it. -/
theorem searchHiiHandleTableByVarName_eq {fuel : Nat} {name : List UInt8} {guid : Guid}
    {cards : List (CardState σ)} (real : ∀ card ∈ cards, card.raidCardType ≠ .raidNull)
    (settled : ∀ card ∈ cards, ∃ found,
      searchLsiVarByName fuel card.tables name (some guid) = .ok found) :
    searchHiiHandleTableByVarName fuel name guid cards =
      .ok (cards.findIdx? (knows fuel name guid)) := by
  induction cards with
  | nil => rfl
  | cons card cards inductionHypothesis =>
    obtain ⟨found, searched⟩ := settled card List.mem_cons_self
    have rest := inductionHypothesis (fun other member => real other (List.mem_cons_of_mem _ member))
      (fun other member => settled other (List.mem_cons_of_mem _ member))
    rw [searchHiiHandleTableByVarName, if_neg (real card List.mem_cons_self), List.findIdx?_cons]
    cases found with
    | some a => simp [searched, knows, bind, Except.bind]
    | none => simp [searched, knows, rest, bind, Except.bind]

/-- A setup variable is known. -/
theorem SetUp.knows_var {source card : SetupCard σ} {entries added : List Nat}
    (setUp : SetUp env source card entries added) {var : RaidVar}
    (member : var ∈ card.raidSetupVarSet) :
    ∃ a, searchLsiVarByName env.fuel card.state.tables var.raidVarName (some env.varGuid) =
        .ok (some a) ∧ card.state.tables.node a = var := by
  obtain ⟨a, aIn, rfl, guid, -, -⟩ := setUp.var member
  rw [setUp.search]
  cases found : (entries ++ added).find? (matchesName card.state.tables
      (card.state.tables.node a).raidVarName (some env.varGuid)) with
  | none =>
    have absent := List.find?_eq_none.mp found a (List.mem_append_right _ aIn)
    simp [matchesName, guid] at absent
  | some b =>
    obtain ⟨bIn, named⟩ := setUp.match_added (List.mem_of_find?_eq_some found)
      (List.find?_some found)
    exact ⟨b, rfl, by rw [setUp.built.once b bIn a aIn named]⟩

/-- The name of a setup variable of a card with this end. -/
def EndsFor (raidCardType : RaidType) (index : UInt8) (name : List UInt8) : Prop :=
  (∃ store, name = raidItemsVarName raidCardType index store) ∨
    name = smcItemsVarName raidCardType index

/-- A name ends for one type and one index at most. -/
theorem EndsFor.unique {raidCardType other : RaidType} {index place : UInt8} {name : List UInt8}
    (ends : EndsFor raidCardType index name) (again : EndsFor other place name) :
    raidCardType = other ∧ index = place := by
  rcases ends with ⟨store, rfl⟩ | rfl
  · rcases again with ⟨text, same⟩ | same
    · exact (raidItemsVarName_injective same).2
    · exact absurd same raidItemsVarName_ne_smc
  · rcases again with ⟨text, same⟩ | same
    · exact absurd same.symm raidItemsVarName_ne_smc
    · exact smcItemsVarName_injective same

/-- A card that knows a name has questions, and the name has its end. -/
theorem SetUp.knows_ends {source card : SetupCard σ} {entries added : List Nat}
    (setUp : SetUp env source card entries added) {name : List UInt8}
    (known : knows env.fuel name env.varGuid card.state = true) :
    questions source.state ≠ [] ∧
      EndsFor source.state.raidCardType source.raidCardIndex name := by
  rw [knows, setUp.search] at known
  cases found : (entries ++ added).find? (matchesName card.state.tables name
      (some env.varGuid)) with
  | none => simp [found] at known
  | some a =>
    obtain ⟨aIn, rfl⟩ := setUp.match_added (List.mem_of_find?_eq_some found)
      (List.find?_some found)
    constructor
    · intro none
      rw [← setUp.declares.used_nil] at none
      rw [setUp.built.unused none] at aIn
      exact absurd aIn List.not_mem_nil
    · rcases setUp.built.source a aIn with ⟨r, -, stands⟩ | holds
      · exact Or.inl ⟨_, stands.1⟩
      · exact Or.inr holds.1

/-- Filing a variable that comes back, once its card is known. -/
theorem collectData_filed {firmware : Firmware} {cards : List (CardState σ)} {k a : Nat}
    {card : CardState σ} {name : List UInt8} {guid : Guid} {contents : List UInt8}
    (front : hasFront firmware (asciiStrToUnicodeStr name) = true) (text : 0 ∉ name)
    (short : name.length < nameLength)
    (found : searchHiiHandleTableByVarName firmware.fuel name guid cards = .ok (some k))
    (there : cards[k]? = some card)
    (searched : searchLsiVarByName firmware.fuel card.tables name (some guid) = .ok (some a))
    (size : (card.tables.node a).raidVarSize.toNat = contents.length) (haveNvData : Bool)
    (browser : Browser) :
    smcLsiRaidLibCollectData firmware (asciiStrToUnicodeStr name) guid contents
        ⟨cards, haveNvData, browser⟩ =
      .ok (efiSuccess, ⟨cards.set k (card.file ⟨name, guid, contents, false⟩), true, browser⟩) := by
  rw [smcLsiRaidLibCollectData, front, unicodeStrToAsciiStr_asciiStrToUnicodeStr text]
  simp only [Bool.not_true, Bool.false_eq_true, if_false]
  rw [if_neg (by omega)]
  simp only [found, there, searched, bind, Except.bind, size, ne_eq, not_true_eq_false, if_false]

end Route

section Law

/-- Two different pairs of a card and a store never get the same setup name. -/
def NamesTellStores (env : SetupEnv) (sources : List (SetupCard σ)) : Prop :=
  ∀ (k l : Nat) (source other : SetupCard σ) (r s : Nat), sources[k]? = some source →
    sources[l]? = some other → Uses env source.state r → Uses env other.state s →
    (k, (source.state.tables.node r).raidVarName, (source.state.tables.node r).raidVarGuid) ≠
      (l, (other.state.tables.node s).raidVarName, (other.state.tables.node s).raidVarGuid) →
    raidItemsVarName source.state.raidCardType source.raidCardIndex
        (source.state.tables.node r).raidVarName ≠
      raidItemsVarName other.state.raidCardType other.raidCardIndex
        (other.state.tables.node s).raidVarName

/-- The variable of this name shadows the buffer of a store of the card under whose name it
was made, or it is the card's variable for commands. -/
def Shadows (env : SetupEnv) (source : SetupCard σ) (tables : VarTables) (name : List UInt8) :
    Prop :=
  ∃ a, searchLsiVarByName env.fuel tables name (some env.varGuid) = .ok (some a) ∧
    ((∃ r, Uses env source.state r ∧
        name = raidItemsVarName source.state.raidCardType source.raidCardIndex
          (source.state.tables.node r).raidVarName ∧
        (tables.node a).raidVarBuffer = (source.state.tables.node r).raidVarBuffer) ∨
      name = smcItemsVarName source.state.raidCardType source.raidCardIndex)

/-- What was handed out is filed with its own card when it comes back. -/
def RoutedBack (env : SetupEnv) (sources cards : List (SetupCard σ)) (data : NvData) : Prop :=
  ∃ (source card : SetupCard σ) (name : List UInt8), sources[data.card]? = some source ∧
    cards[data.card]? = some card ∧ data.smcRaidVarName = asciiStrToUnicodeStr name ∧
    data.smcRaidVarGuid = env.varGuid ∧ Shadows env source card.state.tables name ∧
    ∀ locateProtocol haveNvData browser,
      smcLsiRaidLibCollectData ⟨forRaidItemsVarName, forSmcItemsVarName, locateProtocol, env.fuel⟩
        data.smcRaidVarName data.smcRaidVarGuid data.smcRaidVarBuffer
          ⟨cards.map SetupCard.state, haveNvData, browser⟩ =
        .ok (efiSuccess, ⟨(cards.map SetupCard.state).set data.card (card.state.file
          ⟨name, data.smcRaidVarGuid, data.smcRaidVarBuffer, false⟩), true, browser⟩)

/-- Every variable that calls of `ParseNvData` hand out is routed back. -/
def RoutesBack (env : SetupEnv) (sources cards : List (SetupCard σ)) : Prop :=
  ∀ calls handed, parseNvCalls cards calls .fresh = .ok handed →
    ∀ data ∈ handed, RoutedBack env sources cards data

/-- Cards with questions that have been given the same index for the same type are the same
card. -/
def IndicesTell (sources : List (SetupCard σ)) : Prop :=
  ∀ (k l : Nat) (source other : SetupCard σ), sources[k]? = some source →
    sources[l]? = some other → questions source.state ≠ [] → questions other.state ≠ [] →
    source.state.raidCardType = other.state.raidCardType →
    source.raidCardIndex = other.raidCardIndex → k = l

/-- The types of cards that the source counts. -/
def counted : RaidType → Bool
  | .raid3108 | .raid9260 | .raid2208 => true
  | .raidRste | .raidNull => false

/-- The place of a card among the cards of a type: how many of them come before it. -/
def placeAmong (declared : List (CardState σ)) (raidCardType : RaidType) (k : Nat) : Nat :=
  (declared.take k).countP fun card => card.raidCardType = raidCardType

/-- Of the cards with questions that are declared, no two are of a type that is not counted, and
two of a type that is counted differ in their places among the cards of that type, also when only
8 bits of the places are kept. -/
def CardsDiffer (declared : List (CardState σ)) : Prop :=
  ∀ (k l : Nat) (card other : CardState σ), declared[k]? = some card →
    declared[l]? = some other → questions card ≠ [] → questions other ≠ [] →
    card.raidCardType = other.raidCardType →
    (counted card.raidCardType = true →
      placeAmong declared card.raidCardType k % 256 =
        placeAmong declared card.raidCardType l % 256) → k = l

/-- Stores of one card that questions belong to differ in their names: those with one name have
one GUID. -/
def StoresDiffer (env : SetupEnv) (declared : List (CardState σ)) : Prop :=
  ∀ card ∈ declared, ∀ r s, Uses env card r → Uses env card s →
    (card.tables.node r).raidVarName = (card.tables.node s).raidVarName →
    (card.tables.node r).raidVarGuid = (card.tables.node s).raidVarGuid

variable {sources cards : List (SetupCard σ)}

/-- Cards of a list that has been set up. -/
abbrev AllSetUp (env : SetupEnv) (sources cards : List (SetupCard σ)) : Prop :=
  List.Forall₂ (fun source card => ∃ entries added, SetUp env source card entries added)
    sources cards

/-- A card that was set up was declared at the same place. -/
theorem AllSetUp.source (all : AllSetUp env sources cards) {k : Nat} {card : SetupCard σ}
    (there : cards[k]? = some card) :
    ∃ source entries added, sources[k]? = some source ∧ SetUp env source card entries added := by
  obtain ⟨inside, same⟩ := List.getElem?_eq_some_iff.mp there
  have insideSources : k < sources.length := by rw [all.length_eq]; exact inside
  obtain ⟨entries, added, setUp⟩ := all.get insideSources inside
  refine ⟨sources[k], entries, added, List.getElem?_eq_getElem insideSources, ?_⟩
  rw [← same]
  exact setUp

/-- A card that was declared was set up at the same place. -/
theorem AllSetUp.card (all : AllSetUp env sources cards) {k : Nat} {source : SetupCard σ}
    (here : sources[k]? = some source) :
    ∃ card entries added, cards[k]? = some card ∧ SetUp env source card entries added := by
  obtain ⟨inside, same⟩ := List.getElem?_eq_some_iff.mp here
  have insideCards : k < cards.length := by rw [← all.length_eq]; exact inside
  obtain ⟨entries, added, setUp⟩ := all.get inside insideCards
  refine ⟨cards[k], entries, added, List.getElem?_eq_getElem insideCards, ?_⟩
  rw [← same]
  exact setUp

/-- All setup variables can be read. -/
theorem AllSetUp.readable (all : AllSetUp env sources cards) :
    ∀ entry ∈ allVars cards, ∃ bytes, readVar entry.2.1.tables entry.2.2 = .ok bytes ∧
      bytes.length = entry.2.2.raidVarSize.toNat := by
  rintro ⟨k, state, var⟩ member
  obtain ⟨card, there, rfl, varIn⟩ := mem_allVars.mp member
  obtain ⟨source, entries, added, -, setUp⟩ := all.source there
  obtain ⟨a, -, -, -, ⟨p, pointed, room⟩, -⟩ := setUp.var varIn
  refine ⟨(card.state.tables.buffer p).take var.raidVarSize.toNat, ?_, ?_⟩
  · simp only [readVar, pointed]
    rw [if_neg (by omega)]
  · rw [List.length_take]
    exact Nat.min_eq_left room

/-- The search for a card among cards that have been set up. -/
theorem AllSetUp.search (all : AllSetUp env sources cards) (name : List UInt8) :
    searchHiiHandleTableByVarName env.fuel name env.varGuid (cards.map SetupCard.state) =
      .ok ((cards.map SetupCard.state).findIdx? (knows env.fuel name env.varGuid)) := by
  have each : ∀ state ∈ cards.map SetupCard.state, ∃ source card entries added,
      SetUp env source card entries added ∧ card.state = state := by
    intro state member
    obtain ⟨card, cardIn, rfl⟩ := List.mem_map.mp member
    obtain ⟨k, there⟩ := List.getElem?_of_mem cardIn
    obtain ⟨source, entries, added, -, setUp⟩ := all.source there
    exact ⟨source, card, entries, added, setUp, rfl⟩
  apply searchHiiHandleTableByVarName_eq
  · intro state member
    obtain ⟨source, card, entries, added, setUp, rfl⟩ := each state member
    rw [setUp.raidCardType]
    exact setUp.declares.real
  · intro state member
    obtain ⟨source, card, entries, added, setUp, rfl⟩ := each state member
    exact ⟨_, setUp.search name⟩

/-- Setup names are texts that fit the name array and have one of the fronts. -/
theorem SetUp.var_name {source card : SetupCard σ} {entries added : List Nat}
    (setUp : SetUp env source card entries added) {var : RaidVar}
    (member : var ∈ card.raidSetupVarSet) :
    0 ∉ var.raidVarName ∧ var.raidVarName.length < nameLength ∧ ∀ locateProtocol,
      hasFront ⟨forRaidItemsVarName, forSmcItemsVarName, locateProtocol, env.fuel⟩
        (asciiStrToUnicodeStr var.raidVarName) = true := by
  have suffix := zero_not_mem_cardSuffix source.state.raidCardType source.raidCardIndex
  obtain ⟨a, aIn, node, -, -, -⟩ := setUp.var member
  have origin := setUp.built.source a aIn
  rw [node] at origin
  rcases origin with ⟨r, rIn, stands⟩ | holds
  · have listed : r ∈ entries := by
      obtain ⟨op, -, found⟩ := List.mem_filterMap.mp rIn
      exact List.mem_of_find?_eq_some found
    rw [stands.1]
    refine ⟨?_, raidItemsVarName_fits (setUp.declares.stores.fits r listed), ?_⟩
    · have text := setUp.declares.stores.text r listed
      have front : 0 ∉ forRaidItemsVarName ++ [char8 '_'] := by decide
      simp only [List.mem_append, List.mem_singleton, not_or] at front
      simp [raidItemsVarName, suffix, text, front]
    · intro locateProtocol
      simp [hasFront, raidItemsVarName, asciiStrToUnicodeStr, List.isPrefixOf_iff_prefix]
  · rw [holds.1]
    refine ⟨?_, smcItemsVarName_fits _ _, ?_⟩
    · have front : 0 ∉ forSmcItemsVarName := by decide
      simp [smcItemsVarName, suffix, front]
    · intro locateProtocol
      simp [hasFront, smcItemsVarName, asciiStrToUnicodeStr, List.isPrefixOf_iff_prefix]

/-- The first card that knows the name of a setup variable is its own. -/
theorem AllSetUp.found (all : AllSetUp env sources cards) (differ : IndicesTell sources) {k : Nat}
    {card : SetupCard σ} (there : cards[k]? = some card) {name : List UInt8}
    (known : knows env.fuel name env.varGuid card.state = true) :
    (cards.map SetupCard.state).findIdx? (knows env.fuel name env.varGuid) = some k := by
  obtain ⟨source, entries, added, here, setUp⟩ := all.source there
  obtain ⟨asks, ends⟩ := setUp.knows_ends known
  obtain ⟨inside, same⟩ := List.getElem?_eq_some_iff.mp there
  rw [List.findIdx?_eq_some_iff_getElem]
  refine ⟨by rw [List.length_map]; exact inside, by simpa [same] using known, ?_⟩
  intro j before knownBefore
  have insideBefore : j < cards.length := by omega
  have thereBefore := List.getElem?_eq_getElem insideBefore
  obtain ⟨other, _, _, hereBefore, setUpBefore⟩ := all.source thereBefore
  rw [List.getElem_map] at knownBefore
  obtain ⟨asksBefore, endsBefore⟩ := setUpBefore.knows_ends knownBefore
  obtain ⟨sameType, sameIndex⟩ := endsBefore.unique ends
  have samePlace := differ j k other source hereBefore here asksBefore asks sameType sameIndex
  omega

/-- A setup variable that comes back is filed with its own card. -/
theorem AllSetUp.routedBack (all : AllSetUp env sources cards) (differ : IndicesTell sources)
    {entry : Nat × CardState σ × RaidVar} (member : entry ∈ allVars cards) :
    RoutedBack env sources cards (dataOf entry) := by
  obtain ⟨bytes, read, length⟩ := all.readable entry member
  obtain ⟨k, state, var⟩ := entry
  obtain ⟨card, there, rfl, varIn⟩ := mem_allVars.mp member
  obtain ⟨source, entries, added, here, setUp⟩ := all.source there
  obtain ⟨-, -, -, guid, -, origin⟩ := setUp.var varIn
  obtain ⟨a, searched, node⟩ := setUp.knows_var varIn
  obtain ⟨text, short, front⟩ := setUp.var_name varIn
  have found := all.found differ there (show knows env.fuel var.raidVarName env.varGuid card.state =
    true by rw [knows, searched])
  refine ⟨source, card, var.raidVarName, here, there, rfl, guid, ⟨a, searched, ?_⟩, ?_⟩
  · rcases origin with ⟨r, used, stands⟩ | commands
    · refine Or.inl ⟨r, used, stands.1, ?_⟩
      rw [node]
      exact stands.2.2.2
    · exact Or.inr commands
  · intro locateProtocol haveNvData browser
    have contents : (dataOf (k, card.state, var)).smcRaidVarBuffer = bytes := by
      simp only [dataOf, read, Except.toOption, Option.getD_some]
    have ownGuid : (dataOf (k, card.state, var)).smcRaidVarGuid = env.varGuid := guid
    have place : (dataOf (k, card.state, var)).card = k := rfl
    rw [contents, ownGuid, place]
    refine collectData_filed (front locateProtocol) text short ?_ ?_ searched ?_ haveNvData browser
    · rw [all.search, found]
    · rw [List.getElem?_map, there]
      rfl
    · rw [node]
      exact length.symm

/-- The stores of a card with different names never share a setup name. -/
theorem namesTellStores_of_differ (indicesTell : IndicesTell sources)
    (storesDiffer : StoresDiffer env (sources.map SetupCard.state)) :
    NamesTellStores env sources := by
  intro k l source other r s here there usesR usesS different same
  obtain ⟨sameName, sameType, sameIndex⟩ := raidItemsVarName_injective same
  have asks : ∀ {card : CardState σ} {t : Nat}, Uses env card t → questions card ≠ [] := by
    rintro card t ⟨op, member, -⟩
    exact List.ne_nil_of_mem member
  obtain rfl := indicesTell k l source other here there (asks usesR) (asks usesS) sameType sameIndex
  obtain rfl := Option.some.inj (here.symm.trans there)
  have sameGuid := storesDiffer source.state (List.mem_map_of_mem (List.mem_of_getElem? here)) r s
    usesR usesS sameName
  exact different (by rw [sameName, sameGuid])

/-- Setup names that tell the stores of all cards tell those of one card. -/
theorem storesDiffer_of_namesTellStores (tell : NamesTellStores env sources) :
    StoresDiffer env (sources.map SetupCard.state) := by
  intro state member r s usesR usesS sameName
  obtain ⟨source, inSources, rfl⟩ := List.mem_map.mp member
  obtain ⟨k, here⟩ := List.getElem?_of_mem inSources
  by_contra sameGuid
  refine tell k k source source r s here here usesR usesS ?_ (by rw [sameName])
  intro same
  exact sameGuid (Prod.mk.inj (Prod.mk.inj same).2).2

/-- `CollectData` changes no card but the one its search finds. -/
theorem collectData_elsewhere {firmware : Firmware} {name : List UInt8} {guid : Guid}
    {contents : List UInt8} {protocol later : Protocol σ} {status : Status} {j l : Nat}
    (text : 0 ∉ name)
    (found : searchHiiHandleTableByVarName firmware.fuel name guid protocol.cards = .ok (some j))
    (done : smcLsiRaidLibCollectData firmware (asciiStrToUnicodeStr name) guid contents protocol =
      .ok (status, later)) (other : j ≠ l) : later.cards[l]? = protocol.cards[l]? := by
  rw [smcLsiRaidLibCollectData, unicodeStrToAsciiStr_asciiStrToUnicodeStr text] at done
  simp only [found, bind, Except.bind] at done
  repeat' split at done
  all_goals first
    | (obtain ⟨-, rfl⟩ := Prod.mk.inj (Except.ok.inj done); rfl)
    | (obtain ⟨-, rfl⟩ := Prod.mk.inj (Except.ok.inj done); exact List.getElem?_set_ne other)
    | exact absurd done (by simp)

/-- The variable for commands of a card with questions. -/
theorem SetUp.commands {source card : SetupCard σ} {entries added : List Nat}
    (setUp : SetUp env source card entries added) (asks : questions source.state ≠ []) :
    ∃ var ∈ card.raidSetupVarSet,
      var.raidVarName = smcItemsVarName source.state.raidCardType source.raidCardIndex := by
  rw [Ne, ← setUp.declares.used_nil] at asks
  obtain ⟨a, aIn, holds⟩ := setUp.built.commands asks
  refine ⟨card.state.tables.node a, ?_, holds.1⟩
  rw [setUp.built.vars]
  exact List.mem_map_of_mem aIn

/-- Of two cards with the same end the later one does not get its commands back. -/
theorem AllSetUp.not_routesBack (all : AllSetUp env sources cards) {k l : Nat}
    {source other : SetupCard σ} (here : sources[k]? = some source)
    (there : sources[l]? = some other) (before : k < l) (asks : questions source.state ≠ [])
    (asksToo : questions other.state ≠ [])
    (sameType : source.state.raidCardType = other.state.raidCardType)
    (sameIndex : source.raidCardIndex = other.raidCardIndex) :
    ¬ RoutesBack env sources cards := by
  intro routes
  obtain ⟨earlier, _, _, hereCard, setUpEarlier⟩ := all.card here
  obtain ⟨card, _, _, thereCard, setUp⟩ := all.card there
  obtain ⟨var, varIn, name⟩ := setUp.commands asksToo
  obtain ⟨twin, twinIn, twinName⟩ := setUpEarlier.commands asks
  have member : (l, card.state, var) ∈ allVars cards := mem_allVars.mpr ⟨card, thereCard, rfl, varIn⟩
  have handed := parseNvCalls_fresh cards (allVars cards).length
    (fun entry member => (all.readable entry member).imp fun _ read => read.1)
  rw [List.take_length] at handed
  obtain ⟨_, own, setName, -, ownThere, sameName, guid, -, filed⟩ :=
    routes _ _ handed (dataOf (l, card.state, var)) (List.mem_map_of_mem member)
  obtain rfl := Option.some.inj (thereCard.symm.trans ownThere)
  -- the search stops at the earlier card at the latest
  obtain ⟨a, searched, -⟩ := setUpEarlier.knows_var twinIn
  rw [twinName, sameType, sameIndex, ← name] at searched
  have known : knows env.fuel var.raidVarName env.varGuid earlier.state = true := by
    rw [knows, searched]
  obtain ⟨j, found, notLater⟩ : ∃ j, (cards.map SetupCard.state).findIdx?
      (knows env.fuel var.raidVarName env.varGuid) = some j ∧ j ≤ k := by
    have stateThere : (cards.map SetupCard.state)[k]? = some earlier.state := by
      rw [List.getElem?_map, hereCard]
      rfl
    obtain ⟨inside, same⟩ := List.getElem?_eq_some_iff.mp stateThere
    cases found : (cards.map SetupCard.state).findIdx?
        (knows env.fuel var.raidVarName env.varGuid) with
    | none =>
      have unknown := List.findIdx?_eq_none_iff.mp found _ (List.mem_of_getElem? stateThere)
      rw [known] at unknown
      exact absurd unknown (by simp)
    | some j =>
      refine ⟨j, rfl, ?_⟩
      obtain ⟨_, _, earliest⟩ := List.findIdx?_eq_some_iff_getElem.mp found
      by_contra later
      exact earliest k (by omega) (by rw [same]; exact known)
  have text := (setUp.var_name varIn).1
  have elsewhere := filed (fun _ => efiSuccess) false ⟨0, 0, false, 0⟩
  rw [guid] at elsewhere
  have kept := collectData_elsewhere text (by rw [all.search, found]) elsewhere
    (show j ≠ l by omega)
  have inside : l < (cards.map SetupCard.state).length := by
    rw [List.length_map]
    exact (List.getElem?_eq_some_iff.mp thereCard).1
  change ((cards.map SetupCard.state).set l _)[l]? = (cards.map SetupCard.state)[l]? at kept
  rw [List.getElem?_set_self inside, List.getElem?_map, thereCard] at kept
  have grown := congrArg (fun state => state.marks.changed.length) (Option.some.inj kept)
  simp [CardState.file] at grown

/-- Where all routes lead back the indices tell the cards apart. -/
theorem AllSetUp.indicesTell (all : AllSetUp env sources cards)
    (routes : RoutesBack env sources cards) : IndicesTell sources := by
  intro k l source other here there asks asksToo sameType sameIndex
  rcases Nat.lt_trichotomy k l with before | same | after
  · exact absurd routes (all.not_routesBack here there before asks asksToo sameType sameIndex)
  · exact same
  · exact absurd routes
      (all.not_routesBack there here after asksToo asks sameType.symm sameIndex.symm)

/-- Where the indices tell the cards apart all routes lead back. -/
theorem AllSetUp.routesBack (all : AllSetUp env sources cards) (differ : IndicesTell sources) :
    RoutesBack env sources cards := by
  intro calls handed done data member
  rw [parseNvCalls_fresh cards calls
    (fun entry member => (all.readable entry member).imp fun _ read => read.1)] at done
  obtain rfl := Except.ok.inj done
  obtain ⟨entry, entryIn, rfl⟩ := List.mem_map.mp member
  exact all.routedBack differ (List.mem_of_mem_take entryIn)

/-- The counter of a type. Types that are not counted have none, and stay at 0. -/
def Counters.of (counters : Counters) : RaidType → UInt8
  | .raid3108 => counters.raid3108Index
  | .raid9260 => counters.raid9260Index
  | .raid2208 => counters.raid2208Index
  | .raidRste | .raidNull => 0

/-- `GetRaidIndex` gives out the counter of the type, and counts the type if it is counted. -/
theorem getRaidIndex_counts (raidCardType other : RaidType) (counters : Counters) :
    (getRaidIndex raidCardType counters).1 = counters.of raidCardType ∧
      (getRaidIndex raidCardType counters).2.of other = counters.of other +
        if counted other = true ∧ raidCardType = other then 1 else 0 := by
  cases raidCardType <;> cases other <;> simp [getRaidIndex, Counters.of, counted]

/-- The first card moves the places of the later ones of its type. -/
theorem placeAmong_cons (card : CardState σ) (declared : List (CardState σ))
    (raidCardType : RaidType) (k : Nat) :
    placeAmong (card :: declared) raidCardType (k + 1) =
      placeAmong declared raidCardType k +
        if card.raidCardType = raidCardType then 1 else 0 := by
  rw [placeAmong, placeAmong, List.take_succ_cons, List.countP_cons]
  simp

/-- The index of the card at a position: a card of a type that is counted has its place among the
cards of the type, behind those counted before, in 8 bits. The induction is on the cards, each of
which counts its own type. -/
theorem addSmcLsiHiiHandles_index (counters : Counters) (declared : List (CardState σ)) (k : Nat) :
    (addSmcLsiHiiHandles counters declared)[k]? = declared[k]?.map fun card =>
      ⟨card, counters.of card.raidCardType + if counted card.raidCardType then
        UInt8.ofNat (placeAmong declared card.raidCardType k) else 0, []⟩ := by
  induction declared generalizing counters k with
  | nil => rfl
  | cons first declared inductionHypothesis =>
    rw [addSmcLsiHiiHandles]
    cases k with
    | zero =>
      have nothing : (if counted first.raidCardType then UInt8.ofNat
          (placeAmong (first :: declared) first.raidCardType 0) else 0) = 0 := by
        split_ifs <;> rfl
      simp only [List.getElem?_cons_zero, Option.map_some, nothing, UInt8.add_zero,
        (getRaidIndex_counts first.raidCardType first.raidCardType counters).1]
    | succ k =>
      simp only [List.getElem?_cons_succ]
      rw [inductionHypothesis]
      congr 1
      funext card
      rw [(getRaidIndex_counts first.raidCardType card.raidCardType counters).2,
        placeAmong_cons]
      congr 1
      by_cases count : counted card.raidCardType = true
      · by_cases same : first.raidCardType = card.raidCardType
        · simp only [count, same, and_self, if_true, UInt8.ofNat_add]
          rw [UInt8.add_assoc, UInt8.add_comm 1]
          rfl
        · simp only [count, same, and_false, if_false, if_true, UInt8.add_zero, Nat.add_zero]
      · simp [count]

/-- The cards behind the indices are those that were declared. -/
theorem addSmcLsiHiiHandles_states (counters : Counters) (declared : List (CardState σ)) :
    (addSmcLsiHiiHandles counters declared).map SetupCard.state = declared := by
  induction declared generalizing counters with
  | nil => rfl
  | cons card declared inductionHypothesis =>
    rw [addSmcLsiHiiHandles]
    simp only [List.map_cons, inductionHypothesis]

/-- The indices tell the cards apart if and only if the cards differ as they are declared: two
indices of a type are equal for a type that is not counted, and where the places agree in 8
bits. -/
theorem indicesTell_iff (declared : List (CardState σ)) :
    IndicesTell (addSmcLsiHiiHandles ⟨0, 0, 0⟩ declared) ↔ CardsDiffer declared := by
  have start : ∀ raidCardType, Counters.of ⟨0, 0, 0⟩ raidCardType = 0 := by
    intro raidCardType
    cases raidCardType <;> rfl
  have places : ∀ m n : Nat, UInt8.ofNat m = UInt8.ofNat n ↔ m % 256 = n % 256 := by
    intro m n
    rw [← UInt8.toNat_inj, UInt8.toNat_ofNat', UInt8.toNat_ofNat']
  constructor
  · intro tell k l card other here there asks asksToo sameType samePlace
    refine tell k l _ _ (by rw [addSmcLsiHiiHandles_index, here]; rfl)
      (by rw [addSmcLsiHiiHandles_index, there]; rfl) asks asksToo sameType ?_
    simp only [← sameType, start, UInt8.zero_add]
    split_ifs with count
    · exact (places _ _).mpr (samePlace count)
    · rfl
  · intro differ k l source other here there asks asksToo sameType sameIndex
    rw [addSmcLsiHiiHandles_index, Option.map_eq_some_iff] at here there
    obtain ⟨card, here, rfl⟩ := here
    obtain ⟨otherCard, there, rfl⟩ := there
    refine differ k l card otherCard here there asks asksToo sameType ?_
    intro count
    simp only at sameType
    simp only [← sameType, start, UInt8.zero_add, count, if_true] at sameIndex
    exact (places _ _).mp sameIndex

/-- Setup names tell their stores and every variable comes back to its card exactly when the cards
with questions differ as they are declared, and the stores of a card in their names. That the
setup of the cards succeeds is a part of the statement, and what the cards hold is arbitrary. -/
theorem setup_routes_iff (env : SetupEnv) (starts : Starts) (declared : List (CardState σ))
    (wellDeclared : ∀ card ∈ declared, ∃ entries, Declares env card entries) :
    ∃ cards, setUpCards env starts (addSmcLsiHiiHandles ⟨0, 0, 0⟩ declared) = .ok cards ∧
      (NamesTellStores env (addSmcLsiHiiHandles ⟨0, 0, 0⟩ declared) ∧
          RoutesBack env (addSmcLsiHiiHandles ⟨0, 0, 0⟩ declared) cards ↔
        CardsDiffer declared ∧ StoresDiffer env declared) := by
  have states := addSmcLsiHiiHandles_states ⟨0, 0, 0⟩ declared
  obtain ⟨cards, done, all⟩ := setUpCards_setUp starts (addSmcLsiHiiHandles ⟨0, 0, 0⟩ declared)
    (fun source member => wellDeclared source.state (by
      rw [← states]
      exact List.mem_map_of_mem member))
  refine ⟨cards, done, ?_, ?_⟩
  · rintro ⟨tell, routes⟩
    refine ⟨(indicesTell_iff declared).mp (AllSetUp.indicesTell all routes), ?_⟩
    rw [← states]
    exact storesDiffer_of_namesTellStores tell
  · rintro ⟨cardsDiffer, storesDiffer⟩
    have indicesTell := (indicesTell_iff declared).mpr cardsDiffer
    refine ⟨namesTellStores_of_differ indicesTell ?_, AllSetUp.routesBack all indicesTell⟩
    rw [states]
    exact storesDiffer

/-- A card with one store of one byte and one question. -/
def plainCard (raidCardType : RaidType) : CardState Unit :=
  ⟨quietDriver, raidCardType, [byteItem .changeable 0], oneVar [65] 1 [0], ⟨[], []⟩, [], (), 0⟩

/-- The card of the example declares its store. -/
theorem plainCard_declares {raidCardType : RaidType} (real : raidCardType ≠ .raidNull) :
    Declares ⟨1, 3⟩ (plainCard raidCardType) [0] where
  real := real
  stores := ⟨oneVar_represents _ _ _, by simp [plainCard, oneVar], by simp [plainCard, oneVar],
    by simp [plainCard, oneVar, nameLength], by simp [plainCard, oneVar]⟩
  declared := by
    intro op member question
    have only : itemOps (plainCard raidCardType).raidCardInfItems =
      [⟨.checkbox, 0, 0, 1, 0, 0, 0, 0, 0⟩] := rfl
    rw [only, List.mem_singleton] at member
    rw [member]
    exact ⟨0, rfl⟩
  enough := by
    change 1 + 1 + 1 ≤ 3
    omega

/-- Two cards of a type with a counter. -/
theorem setup_routes_iff_counted : ∃ cards,
    setUpCards ⟨1, 3⟩ ⟨0, 0⟩ (addSmcLsiHiiHandles ⟨0, 0, 0⟩
      [plainCard .raid3108, plainCard .raid3108]) = .ok cards ∧
    NamesTellStores ⟨1, 3⟩ (addSmcLsiHiiHandles ⟨0, 0, 0⟩
      [plainCard .raid3108, plainCard .raid3108]) ∧
    RoutesBack ⟨1, 3⟩ (addSmcLsiHiiHandles ⟨0, 0, 0⟩
      [plainCard .raid3108, plainCard .raid3108]) cards := by
  obtain ⟨cards, done, routes⟩ := setup_routes_iff ⟨1, 3⟩ ⟨0, 0⟩
    [plainCard .raid3108, plainCard .raid3108] (fun card member => by
      obtain rfl : card = plainCard .raid3108 := by simpa using member
      exact ⟨[0], plainCard_declares (by decide)⟩)
  refine ⟨cards, done, routes.mpr ⟨?_, ?_⟩⟩
  · intro k l card other here there _ _ _ samePlace
    have below : k < 2 ∧ l < 2 :=
      ⟨(List.getElem?_eq_some_iff.mp here).1, (List.getElem?_eq_some_iff.mp there).1⟩
    obtain rfl : card = plainCard .raid3108 := by
      simpa using List.mem_of_getElem? here
    have places := samePlace rfl
    match k, l, below with
    | 0, 0, _ => rfl
    | 1, 1, _ => rfl
    | 0, 1, _ => exact absurd places (by decide)
    | 1, 0, _ => exact absurd places (by decide)
  · rintro card member r s - - -
    obtain rfl : card = plainCard .raid3108 := by simpa using member
    rfl

/-- Cards of a type without a counter share their names. -/
theorem not_namesTellStores_uncounted :
    (∀ card ∈ [plainCard .raidRste, plainCard .raidRste], ∃ entries,
      Declares ⟨1, 3⟩ card entries) ∧
    ¬ NamesTellStores ⟨1, 3⟩ (addSmcLsiHiiHandles ⟨0, 0, 0⟩
      [plainCard .raidRste, plainCard .raidRste]) := by
  constructor
  · intro card member
    obtain rfl : card = plainCard .raidRste := by simpa using member
    exact ⟨[0], plainCard_declares (by decide)⟩
  · intro tell
    have uses : Uses ⟨1, 3⟩ (plainCard .raidRste) 0 :=
      ⟨⟨.checkbox, 0, 0, 1, 0, 0, 0, 0, 0⟩, by decide, rfl⟩
    exact tell 0 1 ⟨plainCard .raidRste, 0, []⟩ ⟨plainCard .raidRste, 0, []⟩ 0 0 rfl rfl uses uses
      (by simp) rfl

end Law

end SmcPkg.SetupVars
