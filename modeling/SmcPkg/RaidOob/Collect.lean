import SmcPkg.RaidOob.SetupRoutes

/-!
# Filing a submitted variable

`SmcLsiRaidLib_CollectData` looks for the card of a variable. The search reads the hash
table that a global pointer names, and sends that pointer from card to card. A variable
is filed with the first card that knows its name, if the size is right too; in every other
case the call leaves the cards, the flag and both pointers as they were. Names are kept in
eight bits, so a submitted name stands for what its low bytes spell.

The cards are of real types and have tables that are well formed, and the pool has room. The
copy of the name that the code keeps beside the entry is left out, as nothing reads it.
`collectData_session` says that the submission in the model of whole runs is this one, without
the pointers.
-/

namespace SmcPkg.Collect

open CString RaidCmd VarTable Card ApplyData
open Session (CardState Firmware asciiStrToUnicodeStr)

variable {σ : Type}

section Model

/-- The cards with the flag, and the global pointers. A pointer names the tables of a card
by the card's position. -/
structure Module (σ : Type) where
  cards : List (CardState σ)
  smcLsiHaveNvData : Bool
  lsiVarHashTableName : Option Nat
  lsiVarHashTableVarId : Option Nat

/-- `SearchLsiVarByName` on the table that the pointer names. -/
def searchLsiVarByName (fuel : Nat) (name : List UInt8) (guid : Guid) (module : Module σ) :
    Checked (Option RaidVar) :=
  match module.lsiVarHashTableName.bind (fun place => module.cards[place]?) with
  | none => .error .nullDeref
  | some card =>
    (VarTable.searchLsiVarByName fuel card.tables name (some guid)).map
      (fun found => found.map card.tables.node)

/-- The loop of `SearchHiiHandleTableByVarName`. It leaves the pointer where it stopped. -/
def searchCards (fuel : Nat) (name : List UInt8) (guid : Guid) :
    Nat → List (CardState σ) → Module σ → Checked (Option Nat × Module σ)
  | _, [], module => .ok (none, module)
  | place, card :: cards, module =>
    if card.raidCardType = .raidNull then .ok (some place, module)
    else do
      let module := { module with lsiVarHashTableName := some place }
      match ← searchLsiVarByName fuel name guid module with
      | some _ => .ok (some place, module)
      | none => searchCards fuel name guid (place + 1) cards module

/-- `SearchHiiHandleTableByVarName`. -/
def searchHiiHandleTableByVarName (fuel : Nat) (name : List UInt8) (guid : Guid)
    (module : Module σ) : Checked (Option Nat × Module σ) := do
  let pOriVarNameTable := module.lsiVarHashTableName
  let (handle, module) ← searchCards fuel name guid 0 module.cards module
  .ok (handle, { module with lsiVarHashTableName := pOriVarNameTable })

/-- `SearchInTargetHandleSmcSetupVarByName`. -/
def searchInTargetHandleSmcSetupVarByName (fuel : Nat) (handle : Nat) (name : List UInt8)
    (guid : Guid) (module : Module σ) : Checked (Option RaidVar × Module σ) := do
  let pOriVarNameTable := module.lsiVarHashTableName
  let module := { module with lsiVarHashTableName := some handle }
  let var ← searchLsiVarByName fuel name guid module
  .ok (var, { module with lsiVarHashTableName := pOriVarNameTable })

/-- `SMC_CHANGED_VAR_TYPE`. -/
inductive ChangedVarType
  | raid
  | smc
  | non
  deriving DecidableEq, Repr

/-- The type of a variable by the front of its name. -/
def changedVarType (firmware : Firmware) (variableName : List UInt16) : ChangedVarType :=
  if (asciiStrToUnicodeStr firmware.raidVarName).isPrefixOf variableName then .raid
  else if (asciiStrToUnicodeStr firmware.smcItemsVarName).isPrefixOf variableName then .smc
  else .non

/-- A changed variable is put at the end of the list of a card. -/
def Module.file (module : Module σ) (handle : Nat) (entry : ChangedVar) : Module σ :=
  { module with cards := module.cards.modify handle (fun card => card.file entry) }

/-- `SmcLsiRaidLib_CollectData`. The contents come with their size. What is kept of a name
for messages is left out. -/
def smcLsiRaidLibCollectData (firmware : Firmware) (variableName : List UInt16)
    (variableGuid : Guid) (variable_ : List UInt8) (module : Module σ) :
    Checked (Status × Module σ) :=
  if changedVarType firmware variableName = .non then .ok (efiUnsupported, module)
  else if variableName.length ≥ nameLength then .error .overflow
  else do
    let name := unicodeStrToAsciiStr variableName
    match ← searchHiiHandleTableByVarName firmware.fuel name variableGuid module with
    | (none, module) => .ok (efiNotFound, module)
    | (some handle, module) => do
      match ← searchInTargetHandleSmcSetupVarByName firmware.fuel handle name variableGuid
          module with
      | (none, module) => .ok (efiNotFound, module)
      | (some var, module) =>
        if var.raidVarSize.toNat ≠ variable_.length then .ok (efiNotFound, module)
        else
          let module := module.file handle ⟨name, variableGuid, variable_, false⟩
          .ok (efiSuccess, { module with smcLsiHaveNvData := true })

end Model

section Law

/-- A card of a real type, with the variables that are in its tables. -/
structure Listed (fuel : Nat) (σ : Type) where
  card : CardState σ
  entries : List Nat
  represents : Represents card.tables entries
  real : card.raidCardType ≠ .raidNull
  enough : entries.length ≤ fuel

variable {fuel : Nat}

/-- The variable of a card with a name and a GUID. -/
def Listed.find (listed : Listed fuel σ) (name : List UInt8) (guid : Guid) : Option RaidVar :=
  (listed.entries.map listed.card.tables.node).find?
    (fun var => var.raidVarName = name && var.raidVarGuid = guid)

/-- The first card that has a variable, if it has it with this size. -/
def accepted (find : Listed fuel σ → Option RaidVar) (size : Nat) (cards : List (Listed fuel σ)) :
    Option Nat :=
  match cards.findIdx? (fun listed => (find listed).isSome) with
  | none => none
  | some handle =>
    if (cards[handle]?.bind find).any (fun var => var.raidVarSize.toNat = size) then some handle
    else none

/-- A submitted name: a text, and short enough for the name array. -/
structure VariableName where
  text : List UInt16
  ended : 0 ∉ text
  short : text.length < nameLength

/-- A search in the tables of a card. -/
theorem Listed.searched (listed : Listed fuel σ) (name : List UInt8) (guid : Guid) :
    ∃ found, VarTable.searchLsiVarByName fuel listed.card.tables name (some guid) = .ok found ∧
      found.map listed.card.tables.node = listed.find name guid := by
  refine ⟨_, searchLsiVarByName_represents listed.represents name (some guid) listed.enough, ?_⟩
  have same : matchesName listed.card.tables name (some guid) =
      (fun var : RaidVar => var.raidVarName = name && var.raidVarGuid = guid) ∘
        listed.card.tables.node := by
    funext a
    simp [matchesName, eq_comm]
  rw [Listed.find, List.find?_map, same]

/-- A search in the tables that the pointer names. -/
theorem searchLsiVarByName_find (name : List UInt8) (guid : Guid) {place : Nat}
    {listed : Listed fuel σ} (module : Module σ)
    (pointer : module.lsiVarHashTableName = some place)
    (there : module.cards[place]? = some listed.card) :
    searchLsiVarByName fuel name guid module = .ok (listed.find name guid) := by
  obtain ⟨found, searched, same⟩ := listed.searched name guid
  simp only [searchLsiVarByName, pointer, Option.bind_some, there, searched, Except.map, same]

/-- The loop over the cards comes to the first one that has the variable, and moves only the
pointer. -/
theorem searchCards_find (name : List UInt8) (guid : Guid) (cards : List (Listed fuel σ))
    (place : Nat) (module : Module σ)
    (suffix : module.cards.drop place = cards.map Listed.card) :
    ∃ pointer, searchCards fuel name guid place (cards.map Listed.card) module =
      .ok ((cards.findIdx? (fun listed => (listed.find name guid).isSome)).map (place + ·),
        { module with lsiVarHashTableName := pointer }) := by
  induction cards generalizing place module with
  | nil => exact ⟨module.lsiVarHashTableName, rfl⟩
  | cons listed cards inductionHypothesis =>
    have there : module.cards[place]? = some listed.card := by
      rw [← List.head?_drop, suffix]
      rfl
    have later : module.cards.drop (place + 1) = cards.map Listed.card := by
      rw [← List.tail_drop, suffix]
      rfl
    have searched := searchLsiVarByName_find name guid
      { module with lsiVarHashTableName := some place } rfl there
    rw [List.map_cons, searchCards, if_neg listed.real, List.findIdx?_cons]
    simp only [searched]
    cases found : listed.find name guid with
    | some var => exact ⟨some place, rfl⟩
    | none =>
      obtain ⟨pointer, rest⟩ := inductionHypothesis (place + 1)
        { module with lsiVarHashTableName := some place } later
      refine ⟨pointer, ?_⟩
      simp only [bind, Except.bind, rest, Option.isSome_none, Bool.false_eq_true, if_false,
        Option.map_map]
      congr 3
      funext i
      exact Nat.add_right_comm place 1 i

/-- The search for a card puts the pointer back. -/
theorem searchHiiHandleTableByVarName_find (name : List UInt8) (guid : Guid) (module : Module σ)
    (cards : List (Listed fuel σ)) (whole : module.cards = cards.map Listed.card) :
    searchHiiHandleTableByVarName fuel name guid module =
      .ok (cards.findIdx? (fun listed => (listed.find name guid).isSome), module) := by
  obtain ⟨pointer, searched⟩ := searchCards_find name guid cards 0 module
    (by rw [List.drop_zero, whole])
  rw [searchHiiHandleTableByVarName, whole, searched]
  simp [bind, Except.bind]

/-- The search in a card puts the pointer back. -/
theorem searchInTargetHandle_find (name : List UInt8) (guid : Guid) (module : Module σ)
    {handle : Nat} {listed : Listed fuel σ} (there : module.cards[handle]? = some listed.card) :
    searchInTargetHandleSmcSetupVarByName fuel handle name guid module =
      .ok (listed.find name guid, module) := by
  have searched := searchLsiVarByName_find name guid
    { module with lsiVarHashTableName := some handle } rfl there
  rw [searchInTargetHandleSmcSetupVarByName, searched]
  rfl

/-- A submission: the name and the GUID of a variable, and its contents. -/
structure Submission where
  name : VariableName
  guid : Guid
  contents : List UInt8

/-- The submission of a variable is all or nothing, when this card is the one to take it. -/
def AllOrNothing (firmware : Firmware) (submission : Submission) (module : Module σ) :
    Option Nat → Prop
  | some handle =>
    smcLsiRaidLibCollectData firmware submission.name.text submission.guid submission.contents
        module =
      .ok (efiSuccess, { module.file handle
        ⟨unicodeStrToAsciiStr submission.name.text, submission.guid, submission.contents, false⟩ with
        smcLsiHaveNvData := true })
  | none => ∃ status, efiError status = true ∧
    smcLsiRaidLibCollectData firmware submission.name.text submission.guid submission.contents
        module = .ok (status, module)

/-- The card to take a submission: none if the front of the name is of no type. -/
def taker (firmware : Firmware) (find : Listed firmware.fuel σ → Option RaidVar)
    (submission : Submission) (cards : List (Listed firmware.fuel σ)) : Option Nat :=
  if changedVarType firmware submission.name.text = .non then none
  else accepted find submission.contents.length cards

/-- A submitted variable is filed, once and at the end of the list, with the first card that
has a variable of the GUID and of the name that its low bytes spell, if that one is of the
same size. Otherwise the call fails and changes nothing. -/
theorem collectData_allOrNothing (firmware : Firmware) (cards : List (Listed firmware.fuel σ))
    (haveNvData : Bool) (nameTable varIdTable : Option Nat) (submission : Submission) :
    AllOrNothing firmware submission
      ⟨cards.map Listed.card, haveNvData, nameTable, varIdTable⟩
      (taker firmware
        (fun listed => listed.find (unicodeStrToAsciiStr submission.name.text) submission.guid)
        submission cards) := by
  rw [taker]
  split
  · rename_i foreign
    exact ⟨efiUnsupported, by decide, by rw [smcLsiRaidLibCollectData, if_pos foreign]⟩
  rename_i known
  have short : ¬ submission.name.text.length ≥ nameLength := Nat.not_le.mpr submission.name.short
  have searched := searchHiiHandleTableByVarName_find
    (unicodeStrToAsciiStr submission.name.text) submission.guid
    ⟨cards.map Listed.card, haveNvData, nameTable, varIdTable⟩ cards rfl
  rw [accepted]
  cases first : cards.findIdx? (fun listed =>
      (listed.find (unicodeStrToAsciiStr submission.name.text) submission.guid).isSome) with
  | none =>
    rw [first] at searched
    refine ⟨efiNotFound, by decide, ?_⟩
    simp only [smcLsiRaidLibCollectData, if_neg known, if_neg short, searched, bind, Except.bind]
  | some handle =>
    rw [first] at searched
    obtain ⟨inside, has, -⟩ := List.findIdx?_eq_some_iff_getElem.mp first
    obtain ⟨var, found⟩ := Option.isSome_iff_exists.mp has
    have place : cards[handle]? = some cards[handle] := List.getElem?_eq_getElem inside
    have there : (cards.map Listed.card)[handle]? = some cards[handle].card := by
      rw [List.getElem?_map, place]
      rfl
    have targeted := searchInTargetHandle_find
      (unicodeStrToAsciiStr submission.name.text) submission.guid
      ⟨cards.map Listed.card, haveNvData, nameTable, varIdTable⟩ there
    rw [found] at targeted
    simp only [place, Option.bind_some, found, Option.any_some, decide_eq_true_eq]
    split
    · rename_i size
      simp only [AllOrNothing, smcLsiRaidLibCollectData, if_neg known, if_neg short, searched,
        bind, Except.bind, targeted, size, ne_eq, not_true_eq_false, if_false]
    · rename_i size
      refine ⟨efiNotFound, by decide, ?_⟩
      simp only [smcLsiRaidLibCollectData, if_neg known, if_neg short, searched, bind,
        Except.bind, targeted, size, ne_eq, not_false_eq_true, if_true]

/-- The session knows a variable of a card as the card has it. -/
theorem knows_find (name : List UInt8) (guid : Guid) (listed : Listed fuel σ) :
    SetupVars.knows fuel name guid listed.card = (listed.find name guid).isSome := by
  obtain ⟨found, searched, same⟩ := listed.searched name guid
  rw [SetupVars.knows, searched, ← same]
  cases found with
  | none => rfl
  | some a => rfl

/-- The session finds the card of a variable. -/
theorem session_search (name : List UInt8) (guid : Guid) (cards : List (Listed fuel σ)) :
    Session.searchHiiHandleTableByVarName fuel name guid (cards.map Listed.card) =
      .ok (cards.findIdx? (fun listed => (listed.find name guid).isSome)) := by
  rw [SetupVars.searchHiiHandleTableByVarName_eq, List.findIdx?_map]
  · congr 2
    funext listed
    exact knows_find name guid listed
  · intro card member
    obtain ⟨listed, -, rfl⟩ := List.mem_map.mp member
    exact listed.real
  · intro card member
    obtain ⟨listed, -, rfl⟩ := List.mem_map.mp member
    obtain ⟨found, searched, -⟩ := listed.searched name guid
    exact ⟨found, searched⟩

/-- The submission of a variable in a session, without the pointers. -/
theorem collectData_session (firmware : Firmware) (cards : List (Listed firmware.fuel σ))
    (haveNvData : Bool) (nameTable varIdTable : Option Nat) (submission : Submission)
    (browser : BrowserHook.Browser) :
    Session.smcLsiRaidLibCollectData firmware submission.name.text submission.guid
        submission.contents ⟨cards.map Listed.card, haveNvData, browser⟩ =
      (smcLsiRaidLibCollectData firmware submission.name.text submission.guid
        submission.contents ⟨cards.map Listed.card, haveNvData, nameTable, varIdTable⟩).map
          (fun done => (done.1, ⟨done.2.cards, done.2.smcLsiHaveNvData, browser⟩)) := by
  have front : changedVarType firmware submission.name.text = .non ↔
      Session.hasFront firmware submission.name.text = false := by
    rw [changedVarType, Session.hasFront]
    split_ifs with raid smc
    · simp [raid]
    · simp [raid, smc]
    · simp [raid, smc]
  by_cases foreign : changedVarType firmware submission.name.text = .non
  · simp [Session.smcLsiRaidLibCollectData, smcLsiRaidLibCollectData, front.mp foreign, foreign,
      Except.map]
  have known : Session.hasFront firmware submission.name.text = true := by
    simpa using mt front.mpr foreign
  have short := submission.name.short
  have narrow : (unicodeStrToAsciiStr submission.name.text).length < nameLength := by
    have kept : unicodeStrToAsciiStr submission.name.text <+:
        submission.name.text.map UInt16.toUInt8 := List.takeWhile_prefix _
    have fewer := kept.length_le
    rw [List.length_map] at fewer
    exact Nat.lt_of_le_of_lt fewer short
  have searched := searchHiiHandleTableByVarName_find
    (unicodeStrToAsciiStr submission.name.text) submission.guid
    ⟨cards.map Listed.card, haveNvData, nameTable, varIdTable⟩ cards rfl
  have session := session_search (unicodeStrToAsciiStr submission.name.text) submission.guid
    cards
  simp only [Session.smcLsiRaidLibCollectData, smcLsiRaidLibCollectData, known, Bool.not_true,
    Bool.false_eq_true, if_false, foreign, Nat.not_le.mpr short, Nat.not_le.mpr narrow,
    searched, session, bind, Except.bind, Except.map]
  cases first : cards.findIdx? (fun listed =>
      (listed.find (unicodeStrToAsciiStr submission.name.text) submission.guid).isSome) with
  | none => rfl
  | some handle =>
    obtain ⟨inside, has, -⟩ := List.findIdx?_eq_some_iff_getElem.mp first
    have there : (cards.map Listed.card)[handle]? = some cards[handle].card := by
      rw [List.getElem?_map, List.getElem?_eq_getElem inside]
      rfl
    have targeted := searchInTargetHandle_find
      (unicodeStrToAsciiStr submission.name.text) submission.guid
      ⟨cards.map Listed.card, haveNvData, nameTable, varIdTable⟩ there
    obtain ⟨found, direct, same⟩ := cards[handle].searched
      (unicodeStrToAsciiStr submission.name.text) submission.guid
    rw [← same] at has targeted
    cases found with
    | none => exact absurd has (by simp)
    | some a =>
      simp only [there, direct, targeted, Option.map_some]
      split_ifs with size
      · rfl
      · simp only [Module.file, Except.ok.injEq, Prod.mk.injEq, true_and]
        rw [List.modify_eq_set_getElem?, there]
        rfl

/-- The variable of a card whose name, in sixteen bits, is this one. -/
def Listed.findWide (listed : Listed fuel σ) (name : List UInt16) (guid : Guid) : Option RaidVar :=
  (listed.entries.map listed.card.tables.node).find?
    (fun var => asciiStrToUnicodeStr var.raidVarName = name && var.raidVarGuid = guid)

/-- The fronts of the names of the module. -/
def fronts : Firmware := ⟨ascii ['S', 'M', 'C', 'R'], ascii "SMCW_ITEMS_VAR".toList, fun _ => 0, 1⟩

/-- A card with the variable `SMCR_A_0_0` of one byte. -/
def oneListed : Listed fronts.fuel Unit where
  card := ⟨Session.quietDriver, .raid3108, [],
    oneVar (ascii ['S', 'M', 'C', 'R', '_', 'A', '_', '0', '_', '0']) 1 [0], ⟨[], []⟩, [], (), 0⟩
  entries := [0]
  represents := oneVar_represents _ _ _
  real := by decide
  enough := by decide

/-- The name of that variable with `U+0130` in place of its last character. -/
def wideSubmission : Submission where
  name := ⟨wide ['S', 'M', 'C', 'R', '_', 'A', '_', '0', '_'] ++ [0x130], by decide, by decide⟩
  guid := 0
  contents := [7]

/-- A name that no card has is taken for one with the same low bytes. -/
theorem not_allOrNothing_wide :
    ¬ ∀ (firmware : Firmware) (cards : List (Listed firmware.fuel Unit)) (haveNvData : Bool)
      (nameTable varIdTable : Option Nat) (submission : Submission),
      AllOrNothing firmware submission
        ⟨cards.map Listed.card, haveNvData, nameTable, varIdTable⟩
        (taker firmware (fun listed => listed.findWide submission.name.text submission.guid)
          submission cards) := by
  intro always
  have refused := always fronts [oneListed] false none none wideSubmission
  have untaken : taker fronts (fun listed => listed.findWide wideSubmission.name.text
      wideSubmission.guid) wideSubmission [oneListed] = none := by decide +kernel
  rw [untaken] at refused
  obtain ⟨status, error, failed⟩ := refused
  have taken : (smcLsiRaidLibCollectData fronts wideSubmission.name.text wideSubmission.guid
      wideSubmission.contents ⟨[oneListed.card], false, none, none⟩).map Prod.fst =
        .ok efiSuccess := by decide +kernel
  rw [show [oneListed].map Listed.card = [oneListed.card] from rfl] at failed
  rw [failed] at taken
  rw [show status = efiSuccess from Except.ok.inj taken] at error
  exact absurd error (by decide)

end Law

end SmcPkg.Collect
