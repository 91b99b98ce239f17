import SmcPkg.RaidOob.SetupFormsDepth

/-!
# The forms of the cards keep the package well formed

A run of opcodes with closed scopes is spliced in at an opcode that the search has found,
so the package stays well formed over any number of cards, and it is the original package
with the opcodes that were put in. An item without a scope whose copy is closed by an END
breaks this.
-/

namespace SmcPkg.SetupForms

open Bytes RaidCmd Card Traced Nesting

section Runs

variable {α : Type} {original : List (List UInt8)} {size : Nat} {type : UInt8}
  {protocol later : Protocol} {place : Nat}

/-- The opcodes that a run has put in: a copy of no bytes is none. -/
def putOpcodes (chunks : List (List UInt8)) : List (List UInt8) :=
  chunks.filter (fun chunk => chunk ≠ [])

/-- The setup data is a well-formed package of marked opcodes. Those without a mark are the
original ones, in their order, those with a mark are the ones that were put in, and the
added size is what the package has grown by. -/
structure GrownBy (original : List (List UInt8)) (size : Nat) (type : UInt8) (protocol : Protocol)
    (marked : List (Bool × List UInt8)) : Prop where
  package : FormsPackage protocol.smcLsiCurrRAIDSetupData type (marked.map Prod.snd)
  kept : (marked.filter (fun op => !op.1)).map Prod.snd = original
  added : ((marked.filter Prod.fst).map Prod.snd).Perm (putOpcodes protocol.inserted)
  growth : protocol.smcLsiCurrRAIDSetupData.length =
    size + protocol.smcLsiCurrRAIDSetupDataAddedSize.toNat

/-- The setup data is the original package, grown by the opcodes that were put in. -/
def Grown (original : List (List UInt8)) (size : Nat) (type : UInt8) (protocol : Protocol) : Prop :=
  ∃ marked, GrownBy original size type protocol marked

/-- The place is between two opcodes of the setup data. -/
def Boundary (marked : List (Bool × List UInt8)) (place : Nat) : Prop :=
  ∃ front back, marked = front ++ back ∧ place = 4 + (front.map Prod.snd).flatten.length

/-- The run of an emission leads from a scope depth to itself: its opcodes and their scopes. -/
theorem Moves.closed {emission : Emission α} (moves : Moves 0 0 emission) (counters : Counters) :
    (∀ op ∈ putOpcodes (emission counters).events, IsOpcode op) ∧
      WellScoped (putOpcodes (emission counters).events) := by
  obtain ⟨opcodes, reached⟩ := moves counters
  constructor
  · intro op member
    rw [putOpcodes, List.mem_filter, decide_eq_true_iff] at member
    exact (opcodes op member.1).resolve_left member.2
  · apply Nested.filter (nested_iff.mpr reached)
    intro chunk empty
    obtain rfl : chunk = [] := by simpa using empty
    exact ⟨rfl, rfl⟩

/-- Opcodes that are put out one by one lie one behind the other. -/
theorem flatten_putOpcodes (chunks : List (List UInt8)) :
    (putOpcodes chunks).flatten = chunks.flatten := List.flatten_filter_ne_nil

/-- What a run does to the setup data. -/
theorem insertItems_ok {emission : Emission α} {value : α}
    (short : ∀ chunk ∈ (emission protocol.counters).events, chunk.length < 128)
    (ran : insertItems place emission protocol = .ok (value, later)) :
    let chunks := (emission protocol.counters).events
    replaceBuffer protocol.smcLsiCurrRAIDSetupData place chunks.flatten =
        .ok later.smcLsiCurrRAIDSetupData ∧
      later.smcLsiCurrRAIDSetupDataAddedSize =
        protocol.smcLsiCurrRAIDSetupDataAddedSize + UInt32.ofNat chunks.flatten.length ∧
      later.inserted = protocol.inserted ++ chunks := by
  obtain ⟨filled, buffered, same⟩ := @itemsMem_filled _ newItemsMem (by decide) short
  have content : filled.buffer = (emission protocol.counters).events.flatten := same
  rw [insertItems] at ran
  cases outcome : (emission protocol.counters).value with
  | error impossible => exact nomatch impossible
  | ok result =>
    simp only [outcome, itemsBuffer, buffered, bind, Except.bind, content] at ran
    cases replaced : replaceBuffer protocol.smcLsiCurrRAIDSetupData place
        (emission protocol.counters).events.flatten with
    | error fault =>
      rw [replaced] at ran
      cases ran
    | ok data =>
      rw [replaced] at ran
      cases ran
      exact ⟨replaced, rfl, rfl⟩

/-- A run puts its opcodes in at a boundary. -/
theorem insertItems_grown {marked : List (Bool × List UInt8)} {emission : Emission α} {value : α}
    (grown : GrownBy original size type protocol marked) (boundary : Boundary marked place)
    (moves : Moves 0 0 emission)
    (ran : insertItems place emission protocol = .ok (value, later)) :
    Grown original size type later := by
  obtain ⟨front, back, rfl, rfl⟩ := boundary
  obtain ⟨package, kept, added, growth⟩ := grown
  obtain ⟨opcodes, nested⟩ := moves.closed protocol.counters
  have short : ∀ chunk ∈ (emission protocol.counters).events, chunk.length < 128 := by
    intro chunk member
    rcases (moves protocol.counters).1 chunk member with rfl | isOpcode
    · decide
    · exact isOpcode.length_lt
  obtain ⟨replaced, addedSize, inserted⟩ := insertItems_ok short ran
  generalize (emission protocol.counters).events = chunks at *
  rw [← flatten_putOpcodes chunks] at replaced addedSize
  rw [List.map_append] at package
  obtain ⟨laterPackage, laterSize⟩ := package.replace opcodes nested replaced
  refine ⟨front ++ ((putOpcodes chunks).map (Prod.mk true) ++ back), ⟨?_, ?_, ?_, ?_⟩⟩
  · have opcodesOnly : ((putOpcodes chunks).map (Prod.mk true)).map Prod.snd = putOpcodes chunks := by
      simp
    rw [List.map_append, List.map_append, opcodesOnly]
    exact laterPackage
  · rw [← kept]
    simp [List.filter_map, Function.comp_def]
  · have split : (((front ++ ((putOpcodes chunks).map (Prod.mk true) ++ back)).filter
        Prod.fst).map Prod.snd) = (front.filter Prod.fst).map Prod.snd ++
          (putOpcodes chunks ++ (back.filter Prod.fst).map Prod.snd) := by
      simp [List.filter_map, Function.comp_def]
    have together : putOpcodes later.inserted =
        putOpcodes protocol.inserted ++ putOpcodes chunks := by
      rw [inserted, putOpcodes, List.filter_append]
      rfl
    rw [List.filter_append, List.map_append] at added
    have moved : ((front.filter Prod.fst).map Prod.snd ++
        (putOpcodes chunks ++ (back.filter Prod.fst).map Prod.snd)).Perm
          ((front.filter Prod.fst).map Prod.snd ++
            ((back.filter Prod.fst).map Prod.snd ++ putOpcodes chunks)) :=
      List.perm_append_comm.append_left _
    rw [split, together]
    apply moved.trans
    rw [← List.append_assoc]
    exact added.append_right _
  · have limit := laterPackage.short
    rw [laterSize, growth, addedSize, UInt32.toNat_add, UInt32.toNat_ofNat']
    omega

/-- The places behind and at an opcode that a search has found are boundaries. -/
theorem GrownBy.boundaries {marked : List (Bool × List UInt8)} {code : UInt8} {label : UInt16}
    (grown : GrownBy original size type protocol marked)
    (finds : searchOpCodeInFormData protocol.smcLsiCurrRAIDSetupData code label = some place) :
    Boundary marked place ∧ Boundary marked (behindOp protocol.smcLsiCurrRAIDSetupData place) := by
  obtain ⟨front, op, back, split, start, length⟩ := grown.package.search finds
  obtain ⟨early, late, rfl, rfl, same⟩ := List.map_eq_append_iff.mp split
  obtain ⟨first, rest, rfl, rfl, rfl⟩ := List.map_eq_cons_iff.mp same
  constructor
  · exact ⟨early, first :: rest, rfl, start⟩
  · refine ⟨early ++ [first], rest, by simp, ?_⟩
    rw [behindOp, length, start, List.map_append, List.flatten_append, List.length_append]
    simp [Nat.add_assoc]

/-- A function keeps the setup data grown, and it leaves the inventory of the card alone. -/
def Keeps (original : List (List UInt8)) (size : Nat) (type : UInt8)
    (func : Protocol → CardForms → Loaded) : Prop :=
  ∀ protocol card status later laterCard, Closes card.toInventory →
    Grown original size type protocol → func protocol card = .ok (status, later, laterCard) →
    Grown original size type later ∧ laterCard.toInventory = card.toInventory

/-- The end of a function that puts in a run. -/
theorem inserted_of_ok {emission : Emission α} {status : Status} {card : CardForms}
    (update : α → CardForms)
    (ran : (insertItems place emission protocol >>= fun done =>
      .ok (efiSuccess, done.2, update done.1)) = Except.ok (status, later, card)) :
    ∃ value, insertItems place emission protocol = .ok (value, later) ∧ card = update value := by
  cases inserted : insertItems place emission protocol with
  | error fault =>
    rw [inserted] at ran
    cases ran
  | ok done =>
    rw [inserted] at ran
    cases ran
    exact ⟨done.1, rfl, rfl⟩

end Runs

section Cards

variable (env : FormsEnv) (original : List (List UInt8)) (size : Nat) (type : UInt8)

/-- The variables of a card keep the form package well formed. -/
theorem keeps_insertRaidSetupVariable : Keeps original size type (insertRaidSetupVariable env) := by
  rintro protocol card status later laterCard closes ⟨marked, grown⟩ ran
  simp only [insertRaidSetupVariable] at ran
  cases finds : searchOpCodeInFormData protocol.smcLsiCurrRAIDSetupData ifrFormSetOp 0 with
  | none =>
    rw [finds] at ran
    cases ran
    exact ⟨⟨marked, grown⟩, rfl⟩
  | some place =>
    rw [finds] at ran
    obtain ⟨value, inserted, rfl⟩ := inserted_of_ok (fun _ => card) ran
    exact ⟨insertItems_grown grown (grown.boundaries finds).2 (moves_variableItems closes) inserted,
      rfl⟩

/-- So do the references to its forms. -/
theorem keeps_insertRaidSetupFormGoto : Keeps original size type (insertRaidSetupFormGoto env) := by
  rintro protocol card status later laterCard closes ⟨marked, grown⟩ ran
  simp only [insertRaidSetupFormGoto] at ran
  cases finds : searchOpCodeInFormData protocol.smcLsiCurrRAIDSetupData ifrGuidOp
      formGoToLabel with
  | none =>
    rw [finds] at ran
    cases ran
    exact ⟨⟨marked, grown⟩, rfl⟩
  | some place =>
    rw [finds] at ran
    obtain ⟨value, inserted, rfl⟩ := inserted_of_ok (fun done : UInt16 × UInt16 =>
      { card with smcFormId := done.2, smcFormTitleId := done.1 }) ran
    exact ⟨insertItems_grown grown (grown.boundaries finds).1 moves_formGotoItems inserted, rfl⟩

/-- So do the forms themselves. -/
theorem keeps_insertRaidSetupFormItems :
    Keeps original size type (insertRaidSetupFormItems env) := by
  rintro protocol card status later laterCard closes ⟨marked, grown⟩ ran
  simp only [insertRaidSetupFormItems] at ran
  cases finds : searchOpCodeInFormData protocol.smcLsiCurrRAIDSetupData ifrFormOp formLabel with
  | none =>
    rw [finds] at ran
    cases ran
    exact ⟨⟨marked, grown⟩, rfl⟩
  | some place =>
    rw [finds] at ran
    simp only at ran
    split_ifs at ran with missing
    · cases ran
      exact ⟨⟨marked, grown⟩, rfl⟩
    · obtain ⟨value, inserted, rfl⟩ := inserted_of_ok (fun label =>
        { card with changeItemsLabel := label }) ran
      exact ⟨insertItems_grown grown (grown.boundaries finds).1 (moves_formItems closes) inserted,
        rfl⟩

/-- What the last three functions share. -/
theorem keeps_insertBehindLabel {α : Type} {label : CardForms → UInt16}
    {emission : CardForms → Emission α} {update : α → CardForms → CardForms}
    (moves : ∀ card, Closes card.toInventory → Moves 0 0 (emission card))
    (kept : ∀ value card, (update value card).toInventory = card.toInventory) :
    Keeps original size type (fun protocol card =>
      insertBehindLabel (label card) (emission card) update protocol card) := by
  rintro protocol card status later laterCard closes ⟨marked, grown⟩ ran
  simp only [insertBehindLabel] at ran
  split_ifs at ran with missing
  · cases ran
    exact ⟨⟨marked, grown⟩, rfl⟩
  · cases finds : searchOpCodeInFormData protocol.smcLsiCurrRAIDSetupData ifrGuidOp
        (label card) with
    | none =>
      rw [finds] at ran
      cases ran
      exact ⟨⟨marked, grown⟩, rfl⟩
    | some place =>
      rw [finds] at ran
      obtain ⟨value, inserted, rfl⟩ := inserted_of_ok (fun value => update value card) ran
      have laterGrown := insertItems_grown grown (grown.boundaries finds).2 (moves card closes)
        inserted
      exact ⟨laterGrown, kept value card⟩

/-- Every function of `mSmcLsiInsideLoadFunc` keeps the setup data grown. -/
theorem keeps_insideLoadFunc : ∀ func ∈ insideLoadFunc, Keeps original size type (func env) := by
  have change : Keeps original size type (insertRaidSetupChangeItems env) :=
    keeps_insertBehindLabel original size type (fun _ closes => moves_changeItems closes)
      (fun _ _ => rfl)
  have drives : Keeps original size type (insertRaidSetupHDGItems env) :=
    keeps_insertBehindLabel original size type (fun _ _ => moves_hdgItems) (fun _ _ => rfl)
  have commands : Keeps original size type (insertRaidSetupSmcCmdsAndItems env) :=
    keeps_insertBehindLabel original size type (fun _ _ => moves_smcCmdsItems) (fun _ _ => rfl)
  simp only [insideLoadFunc, List.forall_mem_cons]
  exact ⟨keeps_insertRaidSetupVariable env original size type,
    keeps_insertRaidSetupFormGoto env original size type,
    keeps_insertRaidSetupFormItems env original size type, change, drives, commands, by simp⟩

/-- The functions for a card, one after the other. -/
theorem keeps_loadCard {funcs : List (FormsEnv → Protocol → CardForms → Loaded)}
    (keeps : ∀ func ∈ funcs, Keeps original size type (func env)) :
    Keeps original size type (loadCard env funcs) := by
  intro protocol card status later laterCard closes grown ran
  induction funcs generalizing protocol card with
  | nil =>
    cases ran
    exact ⟨grown, rfl⟩
  | cons func funcs inductionHypothesis =>
    rw [List.forall_mem_cons] at keeps
    rw [loadCard] at ran
    cases loaded : func env protocol card with
    | error fault =>
      rw [loaded] at ran
      cases ran
    | ok done =>
      obtain ⟨funcStatus, middle, middleCard⟩ := done
      obtain ⟨middleGrown, same⟩ := keeps.1 _ _ _ _ _ closes grown loaded
      rw [loaded] at ran
      change (if efiError funcStatus then Except.ok (funcStatus, middle, middleCard)
        else loadCard env funcs middle middleCard) = _ at ran
      split_ifs at ran with failed
      · cases ran
        exact ⟨middleGrown, same⟩
      · obtain ⟨laterGrown, sameLater⟩ :=
          inductionHypothesis keeps.2 middle middleCard (same ▸ closes) middleGrown ran
        exact ⟨laterGrown, sameLater.trans same⟩

/-- The cards, one after the other. -/
theorem loadCards_grown {cards : List CardForms} {protocol later : Protocol} {status : Status}
    (closes : ∀ card ∈ cards, Closes card.toInventory) (grown : Grown original size type protocol)
    (ran : loadCards env cards protocol = .ok (status, later)) :
    Grown original size type later := by
  induction cards generalizing protocol with
  | nil =>
    cases ran
    exact grown
  | cons card cards inductionHypothesis =>
    rw [List.forall_mem_cons] at closes
    rw [loadCards] at ran
    split_ifs at ran with last
    · cases ran
      exact grown
    · cases loaded : loadCard env insideLoadFunc protocol card with
      | error fault =>
        rw [loaded] at ran
        cases ran
      | ok done =>
        obtain ⟨cardStatus, middle, middleCard⟩ := done
        have keeps := keeps_loadCard env original size type
          (keeps_insideLoadFunc env original size type)
        obtain ⟨middleGrown, -⟩ := keeps _ _ _ _ _ closes.1 grown loaded
        rw [loaded] at ran
        change (if efiError cardStatus then Except.ok (cardStatus, middle)
          else loadCards env cards middle) = _ at ran
        split_ifs at ran with failed
        · cases ran
          exact middleGrown
        · exact inductionHypothesis closes.2 middleGrown ran

end Cards

section Package

variable {env : FormsEnv} {packages : List (List UInt8)} {counters : Counters}
  {cards : List CardForms} {package : List UInt8} {original : List (List UInt8)}
  {protocol : Protocol} {status : Status}

/-- The setup data starts as the package of the setup page. -/
theorem initial_grown
    (found : packages.find? (fun package => packageType package = packageForms) = some package)
    (wellFormed : FormsPackage package packageForms original)
    (ran : initialSmcRaidSetupPageData packages counters = .ok (status, some protocol)) :
    Grown original package.length packageForms protocol := by
  rw [initialSmcRaidSetupPageData, found] at ran
  simp only at ran
  split_ifs at ran with fits
  cases ran
  refine ⟨original.map (Prod.mk false), ⟨?_, ?_, ?_, ?_⟩⟩
  · rw [wellFormed.length_eq, List.take_length]
    simpa using wellFormed
  · simp [List.filter_map, Function.comp_def]
  · simp [List.filter_map, Function.comp_def, putOpcodes]
  · rw [wellFormed.length_eq, List.take_length]
    rfl

/-- After the functions have run for cards whose items close, the setup data is the original
package with the opcodes that were put in: well formed, with closed scopes, and grown by
the added size. -/
theorem setupData_grown
    (found : packages.find? (fun package => packageType package = packageForms) = some package)
    (wellFormed : FormsPackage package packageForms original)
    (closes : ∀ card ∈ cards, Closes card.toInventory)
    (ran : addDynamicItems env packages counters cards = .ok (status, some protocol)) :
    Grown original package.length packageForms protocol := by
  rw [addDynamicItems] at ran
  cases initial : initialSmcRaidSetupPageData packages counters with
  | error fault =>
    rw [initial] at ran
    cases ran
  | ok done =>
    obtain ⟨initialStatus, first⟩ := done
    rw [initial] at ran
    cases first with
    | none => cases ran
    | some first =>
      have firstGrown := initial_grown found wellFormed initial
      change (loadCards env cards first >>= fun done => Except.ok (done.1, some done.2)) = _ at ran
      cases loaded : loadCards env cards first with
      | error fault =>
        rw [loaded] at ran
        cases ran
      | ok done =>
        rw [loaded] at ran
        cases ran
        exact loadCards_grown env original package.length packageForms closes firstGrown loaded

end Package

section Samples

/-- A setup page: the label for the references, and the form behind the forms of the cards. -/
def pageOps : List (List UInt8) :=
  [[ifrFormSetOp, 0x97] ++ List.replicate 21 0, [ifrFormOp, 0x86, 1, 0, 2, 0],
    createGuidLabel formGoToLabel, createEndItem, [ifrFormOp, 0x86, 0x00, 0x15, 3, 0],
    createEndItem, createEndItem]

/-- The form package of the setup page. -/
def page : List UInt8 := le24 66 ++ packageForms :: pageOps.flatten

/-- The page of the example is well formed. -/
theorem page_wellFormed : FormsPackage page packageForms pageOps where
  bytes := rfl
  short := by decide
  opcodes := by decide
  nested := nested_iff.mpr (by decide)

/-- Strings and labels are numbered, and nothing lies behind the opcodes. -/
def plainEnv : FormsEnv where
  newString := fun made _ => UInt16.ofNat (made + 1)
  behind := fun _ => 0
  groups := []

/-- The counters before the first card. -/
def plainCounters : Counters := ⟨0, 0x2000, 0x3000, 0x4000⟩

/-- A NUMERIC with the second byte of its header. -/
def numericOp (flags : UInt8) (size : opLength flags = 38) : Op where
  bytes := [0x07, flags] ++ List.replicate 36 0
  valid := ⟨0x07, flags, List.replicate 36 0, rfl, size.trans rfl⟩

/-- A ONE_OF with the second byte of its header. -/
def oneOfOp : Op := ⟨[0x05, 0xA6] ++ List.replicate 36 0, by decide⟩

/-- An option of a ONE_OF. -/
def optionOp : Op := ⟨[0x09, 28] ++ List.replicate 26 0, by decide⟩

/-- An END. -/
def endOp : Op := ⟨createEndItem, by decide⟩

/-- A card with a NUMERIC that has no scope. -/
def plainNumericCard : CardForms where
  source := [numericOp 38 rfl]
  closed := nested_iff.mpr (by decide)
  raidCardInfItems := [⟨"", .information, [⟨numericOp 38 rfl, [], 1, 0, ""⟩]⟩]
  pointed := by simp
  commands := by simp
  raidSetupVarSet := []
  raidCardType := .raid3108
  raidCardIndex := 1
  hiiString := fun _ => ""
  smcFormId := 0
  smcFormTitleId := 0
  changeItemsLabel := 0
  hdgLabel := 0
  buildCfgLabel := 0

/-- A card with a NUMERIC and a ONE_OF that have scopes. -/
def scopedCard : CardForms where
  source := [numericOp 0xA6 rfl, endOp, oneOfOp, optionOp, endOp]
  closed := nested_iff.mpr (by decide)
  raidCardInfItems :=
    [⟨"", .information,
      [⟨numericOp 0xA6 rfl, [endOp, oneOfOp, optionOp, endOp], 1, 0, ""⟩]⟩,
    ⟨"", .changeable, [⟨oneOfOp, [optionOp, endOp], 1, 0, ""⟩]⟩]
  pointed := by
    simp only [List.forall_mem_cons]
    exact ⟨fun _ => ⟨List.suffix_rfl, by simp⟩, fun _ => ⟨⟨[numericOp 0xA6 rfl, endOp], rfl⟩,
      by simp⟩, by simp⟩
  commands := by simp
  raidSetupVarSet := []
  raidCardType := .raid3108
  raidCardIndex := 1
  hiiString := fun _ => ""
  smcFormId := 0
  smcFormTitleId := 0
  changeItemsLabel := 0
  hdgLabel := 0
  buildCfgLabel := 0

/-- The card of the example closes its scopes. -/
theorem scopedCard_closes : Closes scopedCard.toInventory where
  numeric := by decide
  oneOf := by
    intro set member type body inside isOneOf
    simp only [scopedCard, List.mem_cons, List.not_mem_nil, or_false] at member
    rcases member with rfl | rfl
    · simp only [List.mem_singleton] at inside
      subst inside
      exact absurd isOneOf (by decide)
    · simp only [List.mem_singleton] at inside
      subst inside
      exact ⟨by decide, by decide⟩
  stores := by simp [scopedCard]

/-- A run with a question that has a scope. -/
theorem scopedCard_runs :
    (match addDynamicItems plainEnv [page] plainCounters [scopedCard] with
    | .ok (status, some _) => decide (status = efiSuccess)
    | _ => false) = true := by decide +kernel

/-- The setup data stays well formed for a card with scopes. -/
theorem setupData_grown_scoped : ∃ protocol,
    addDynamicItems plainEnv [page] plainCounters [scopedCard] = .ok (efiSuccess, some protocol) ∧
      Grown pageOps page.length packageForms protocol := by
  have runs := scopedCard_runs
  rcases ran : addDynamicItems plainEnv [page] plainCounters [scopedCard] with
    fault | ⟨status, _ | protocol⟩
  · rw [ran] at runs
    cases runs
  · rw [ran] at runs
    cases runs
  · rw [ran] at runs
    obtain rfl : status = efiSuccess := of_decide_eq_true runs
    exact ⟨protocol, rfl, setupData_grown rfl page_wellFormed
      (List.forall_mem_singleton.mpr scopedCard_closes) ran⟩

/-- A package has as many scopes as ENDs, before and after opcodes were put in. -/
theorem Grown.balanced {original : List (List UInt8)} {size : Nat} {type : UInt8}
    {protocol : Protocol} (grown : Grown original size type protocol)
    (wellScoped : WellScoped original) :
    (putOpcodes protocol.inserted).countP hasScope = (putOpcodes protocol.inserted).countP isEnd := by
  obtain ⟨marked, package, kept, added, -⟩ := grown
  have whole := package.nested.count
  have before := wellScoped.count
  have parts : ∀ test : List UInt8 → Bool, (marked.map Prod.snd).countP test =
      original.countP test + (putOpcodes protocol.inserted).countP test := by
    intro test
    have split := List.filter_append_perm Prod.fst marked
    rw [← kept, ← added.countP_eq, ← (split.map Prod.snd).countP_eq, List.map_append,
      List.countP_append, Nat.add_comm]
  rw [parts, parts] at whole
  omega

/-- A run with a NUMERIC without a scope, which is given an END all the same. -/
theorem plainNumericCard_runs :
    (match addDynamicItems plainEnv [page] plainCounters [plainNumericCard] with
    | .ok (status, some protocol) => decide (status = efiSuccess ∧
      (putOpcodes protocol.inserted).countP hasScope = 1 ∧
      (putOpcodes protocol.inserted).countP isEnd = 2)
    | _ => false) = true := by decide +kernel

/-- For a card with a NUMERIC without a scope, an END closes nothing. -/
theorem not_grown_numeric : ¬ ∀ (env : FormsEnv) (packages : List (List UInt8))
    (counters : Counters) (cards : List CardForms) (package : List UInt8)
    (original : List (List UInt8)) (protocol : Protocol),
    packages.find? (fun package => packageType package = packageForms) = some package →
    FormsPackage package packageForms original →
    addDynamicItems env packages counters cards = .ok (efiSuccess, some protocol) →
    Grown original package.length packageForms protocol := by
  intro claimed
  have runs := plainNumericCard_runs
  rcases ran : addDynamicItems plainEnv [page] plainCounters [plainNumericCard] with
    fault | ⟨status, _ | protocol⟩
  · rw [ran] at runs
    cases runs
  · rw [ran] at runs
    cases runs
  · rw [ran] at runs
    obtain ⟨rfl, opened, closed⟩ := of_decide_eq_true runs
    have grown := claimed _ _ _ _ page pageOps protocol rfl page_wellFormed ran
    have balanced := grown.balanced page_wellFormed.nested
    omega

end Samples

end SmcPkg.SetupForms
