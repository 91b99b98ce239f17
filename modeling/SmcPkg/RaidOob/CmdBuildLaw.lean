import SmcPkg.RaidOob.CmdBuildRun

/-!
# The law of BUILD commands

The parts of a run are put together: the loop over the groups of a span level, the
tables around it, and the clearing table at the end.
-/

namespace SmcPkg.CmdBuild

open RaidCmd Card CmdTables Traced CmdExecute

variable {σ : Type}

section Spans

/-- The milestones of the groups of a command, counted from an index. -/
def spanMarks : Nat → List (List GroupHdd) → List Milestone
  | _, [] => []
  | index, drives :: groups =>
    .spanAdded :: .formEntered index :: drives.map .driveSelected ++ spanMarks (index + 1) groups

/-- The tables played for the groups of a command, counted from an index. -/
def spanTables : Nat → List (List GroupHdd) → List Table
  | _, [] => []
  | index, _ :: groups =>
    [.second, .third (UInt8.ofNat index), .forth] ++ spanTables (index + 1) groups

/-- The tables `HandleBuildRaidCmd` plays for a command. -/
def buildTables (sections : List CmdSection) : List Table :=
  if raidLevel sections < raidTypeR10 then [.single]
  else .first :: spanTables 1 (searchGroups sections) ++ [.fifth]

variable (env : Env σ) (builds : searchSpecie env.raidCmdSection = some .build)

include builds

/-- The second table adds the span. -/
theorem second_prepares : Prepares [.spanAdded] [.second] (playMap env .second none) :=
  playMap_prepares env .second builds none [addSpanRow] rfl (by decide) (by decide) (by decide)

/-- The third table enters the form of the span. -/
theorem third_prepares (spans : UInt8) :
    Prepares [.formEntered spans.toNat] [.third spans] (playMap env (.third spans) none) := by
  have prepared := playMap_prepares env (.third spans) builds none [selectDrivesRow spans] rfl
    (by simp [selectDrivesRow, enterFormSet]) (by simp [selectDrivesRow, enterFormSet])
    (by simp [selectDrivesRow, enterFormSet, ProcessingMap.pressesYes])
  exact prepared

/-- The fourth table selects the drives of the group. -/
theorem forth_prepares (drives : List GroupHdd) :
    Prepares (drives.map .driveSelected) [.forth] (playMap env .forth (some drives)) := by
  have prepared := playMap_prepares env .forth builds (some drives)
    [choiceHddRow, applyChangesRow, successRow] rfl (by decide) (by decide) (by decide)
  have marks : tableMarks env (some drives) [choiceHddRow, applyChangesRow, successRow] =
      drives.map .driveSelected ++ [] ++ [] := rfl
  rwa [marks, List.append_nil, List.append_nil] at prepared

/-- The first table reaches no milestone of a build. -/
theorem first_prepares : Prepares [] [.first] (playMap env .first none) :=
  playMap_prepares env .first builds none [createRow, raidLevelRow 0] rfl (by decide) (by decide)
    (by decide)

/-- A span that is added for a group reaches the milestones of that group. -/
theorem spanRound_prepares (spans : UInt8) (drives : List GroupHdd) :
    Prepares (.spanAdded :: .formEntered spans.toNat :: drives.map .driveSelected)
      [.second, .third spans, .forth] (spanRound env spans (some drives)) :=
  (second_prepares env builds).followedBy
    ((third_prepares env builds spans).followedBy (forth_prepares env builds drives))

/-- A span level without a group never gets further than its first span. -/
theorem spanRound_fails (spans : UInt8) :
    Ensures (spanRound env spans none) Fails ∧ EmitsOnly Harmless (spanRound env spans none) := by
  have second := second_prepares env builds
  have third := third_prepares env builds spans
  constructor
  · refine onSuccess_fails second.1 (onSuccess_fails third.1 (ensures_fail ?_))
    exact ⟨Or.inl (by simp [Clean]), by simp⟩
  · exact emitsOnly_onSuccess second.2 (emitsOnly_onSuccess third.2 (emitsOnly_fail _))

/-- The loop over the groups reaches the milestones of all groups in order, as long
as the eight bits of the index suffice. -/
theorem spanLoop_prepares (groups : List (List GroupHdd)) (drives : List GroupHdd) (index : Nat)
    (fits : index + groups.length < 256) :
    Prepares (spanMarks index (drives :: groups)) (spanTables index (drives :: groups))
      (spanLoop env (UInt8.ofNat index) (drives :: groups)) := by
  induction groups generalizing drives index with
  | nil =>
    have round := spanRound_prepares env builds (UInt8.ofNat index) drives
    rw [UInt8.toNat_ofNat_of_lt' (show index < 256 from fits)] at round
    rw [spanMarks, spanMarks, spanTables, spanTables, List.append_nil, List.append_nil]
    exact round
  | cons next groups inductionHypothesis =>
    rw [List.length_cons] at fits
    have round := spanRound_prepares env builds (UInt8.ofNat index) drives
    rw [UInt8.toNat_ofNat_of_lt' (show index < 256 by omega)] at round
    have following := inductionHypothesis next (index + 1) (by omega)
    rw [UInt8.ofNat_add] at following
    exact round.followedBy following

/-- The loop over the groups of a command, which runs once even without a group. -/
theorem spanGroups_prepares (groups : List (List GroupHdd)) (few : groups.length < 256) :
    Prepares (spanMarks 1 groups) (spanTables 1 groups) (spanLoop env 1 groups) := by
  cases groups with
  | nil =>
    have fails := spanRound_fails env builds 1
    exact ⟨Ensures.weaken fails.1 (fun _ _ failed => failed.segment [] []), fails.2⟩
  | cons drives rest =>
    rw [List.length_cons] at few
    exact spanLoop_prepares env builds rest drives 1 (by omega)

end Spans

section Law

/-- The table an event belongs to. -/
def tableOf : Event → Table
  | .called table _ _ _ => table
  | .selected table _ => table
  | .stepped table _ _ => table
  | .finished table => table

/-- The law of a run of `HandleBuildRaidCmd`: Yes is pressed only after steps that
all succeeded, and on a span level only after every group was added, entered and
filled in order; after a failed step nothing but the clearing table is played; and
success is returned only when every table was played to its end. -/
structure Lawful (sections : List CmdSection) (events : List Event)
    (value : Except Fault Status) : Prop where
  confirmed : ∀ before event after, events = before ++ event :: after → pressesYes event = true →
    Clean before
  spanned : raidTypeR10 ≤ raidLevel sections → Guarded (spanMarks 1 (searchGroups sections)) events
  stopped : ∀ before table row status after, events = before ++ .stepped table row status :: after →
    efiError status = true → ∀ event ∈ after, tableOf event = .clearBuild
  completed : ∀ status, value = .ok status → efiError status = false →
    buildTables sections <+: finishedTables events

/-- What the part of the run before the clearing table amounts to. -/
structure BuildPart (sections : List CmdSection) (events : List Event)
    (value : Except Fault Status) : Prop where
  stops : Stops events value
  spanned : raidTypeR10 ≤ raidLevel sections → Guarded (spanMarks 1 (searchGroups sections)) events
  completed : ∀ status, value = .ok status → efiError status = false →
    finishedTables events = buildTables sections

variable (env : Env σ) (builds : searchSpecie env.raidCmdSection = some .build)

include builds

/-- A level without spans is built by one table. -/
theorem single_buildPart (single : raidLevel env.raidCmdSection < raidTypeR10) :
    Ensures (playMap env .single none) (BuildPart env.raidCmdSection) := by
  have played := playMap_segment env .single builds none
    ([createRow, raidLevelRow 1, selectDrivesRow 0, choiceHddRow, applyChangesRow] ++ sizeRows ++
      [saveRow] ++ confirmRows env.raidCardType) rfl
    (by cases env.raidCardType <;> decide) (by cases env.raidCardType <;> decide)
  refine Ensures.weaken played (fun events value played => ⟨played.2.stops, ?_, ?_⟩)
  · exact fun span => absurd single (Nat.not_lt.mpr span)
  · intro status same success
    rw [buildTables, if_pos single]
    exact (played.2.reached status same success).2

/-- The last table of a span level confirms; it reaches no milestone of its own. -/
theorem fifth_guarded :
    Ensures (playMap env .fifth none)
      (fun events value => Segment [] [.fifth] events value ∧ Guarded [] events) := by
  have played := playMap_segment env .fifth builds none
    (sizeRows ++ [saveRow] ++ confirmRows env.raidCardType) rfl
    (by cases env.raidCardType <;> decide) (by cases env.raidCardType <;> decide)
  have plain : ∀ row ∈ sizeRows ++ [saveRow] ++ confirmRows env.raidCardType,
      row.cmdProcessSet.cmdProcess ≠ .choiceHdd ∧ stepMark row = none := by
    cases env.raidCardType <;> decide
  refine Ensures.weaken played (fun events value played => ⟨⟨played.2.stops, ?_⟩, ?_⟩)
  · intro status same success
    exact ⟨fromRows_unmarked plain played.1, (played.2.reached status same success).2⟩
  · intro before event after split pressed
    refine fromRows_unmarked plain (fun event member => played.1 event ?_)
    rw [split]
    exact List.mem_append_left _ member

omit builds in
/-- A part that prepares, followed by a part that confirms. -/
theorem Prepares.confirm {first next : Run σ Status} {marks laterMarks : List Milestone}
    {tables laterTables : List Table} (prepares : Prepares marks tables first)
    (confirms : Ensures next (fun events value =>
      Segment laterMarks laterTables events value ∧ Guarded laterMarks events)) :
    Ensures (onSuccess first next) (fun events value =>
      Segment (marks ++ laterMarks) (tables ++ laterTables) events value ∧
        Guarded (marks ++ laterMarks) events) := by
  refine Ensures.both
    (onSuccess_segment prepares.1 (Ensures.weaken confirms (fun _ _ holds => holds.1))) ?_
  refine onSuccess_ensures (Ensures.both prepares.1 prepares.2) ?_ ?_ ?_
  · exact fun events fault played => guarded_harmless played.2
  · exact fun events status played isError => guarded_harmless played.2
  · intro events status played success
    refine Ensures.weaken confirms (fun later value confirmed => ?_)
    exact guarded_append played.2 (played.1.reached status rfl success).1 confirmed.2

/-- The part of the run before the clearing table, for a command with fewer groups
than the index can count. -/
theorem buildRaid_buildPart (few : (searchGroups env.raidCmdSection).length < 256) :
    Ensures (buildRaid env) (BuildPart env.raidCmdSection) := by
  by_cases single : raidLevel env.raidCmdSection < raidTypeR10
  · rw [buildRaid, if_pos single]
    exact single_buildPart env builds single
  rw [buildRaid, if_neg single]
  have loop := spanGroups_prepares env builds _ few
  have confirmed := (first_prepares env builds).confirm (loop.confirm (fifth_guarded env builds))
  rw [List.append_nil, List.nil_append] at confirmed
  refine Ensures.weaken confirmed (fun events value holds => ⟨holds.1.stops, fun _ => holds.2, ?_⟩)
  intro status same success
  rw [buildTables, if_neg single]
  exact (holds.1.reached status same success).2

end Law

section Parsed

/-- A section as it was parsed: the drives have neither type nor name. -/
def forgetNames : CmdSection → CmdSection
  | .group drives => .group (drives.map (fun drive => newHdd drive.hdNum))
  | part => part

/-- A parsed BUILD command, whose drives may have been looked up since. -/
def ParsedBuild (sections : List CmdSection) : Prop :=
  searchSpecie sections = some .build ∧
    ∃ text, analysisAndParseCmdString text = .ok (some (sections.map forgetNames))

/-- No more groups are parsed than there were rounds. -/
theorem parseCmdGroupLoop_length (rounds : Nat) (line : List UInt8) (parsed : List CmdSection)
    (done : parseCmdGroupLoop rounds line = .ok parsed) : parsed.length ≤ rounds := by
  induction rounds generalizing line parsed with
  | zero =>
    rw [← Except.ok.inj done]
    exact Nat.le_refl 0
  | succ rounds inductionHypothesis =>
    rw [parseCmdGroupLoop] at done
    cases sub : parseCmdGroupSub line with
    | error fault => simp [sub, bind, Except.bind] at done
    | ok result =>
      cases result with
      | none =>
        simp only [sub, bind, Except.bind, Except.ok.injEq] at done
        simp [← done]
      | some result =>
        obtain ⟨part, rest⟩ := result
        cases further : parseCmdGroupLoop rounds rest with
        | error fault => simp [sub, further, bind, Except.bind] at done
        | ok following =>
          simp only [sub, further, bind, Except.bind, Except.ok.injEq] at done
          rw [← done, List.length_cons]
          exact Nat.succ_le_succ (inductionHypothesis rest following further)

/-- Looking drives up neither adds nor removes a group. -/
theorem searchGroups_forget (sections : List CmdSection) :
    (searchGroups (sections.map forgetNames)).length = (searchGroups sections).length := by
  induction sections with
  | nil => rfl
  | cons part sections inductionHypothesis =>
    cases part with
    | group drives => exact congrArg Nat.succ inductionHypothesis
    | raidType level => exact inductionHypothesis
    | size unit context => exact inductionHypothesis
    | command specie => exact inductionHypothesis
    | jbod action => exact inductionHypothesis

/-- The groups of two lists of sections stand one behind the other. -/
theorem searchGroups_append (left right : List CmdSection) :
    searchGroups (left ++ right) = searchGroups left ++ searchGroups right :=
  List.filterMap_append

/-- The level clause never yields a group. -/
theorem searchGroups_raidType (line : List UInt8) :
    searchGroups (parseCmdRaidType line).toList = [] := by
  rw [parseCmdRaidType]
  cases afterKey 'R' line with
  | none => rfl
  | some body =>
    simp only [Option.bind_eq_bind, Option.bind_some]
    cases readNumber 0xFFFF body with
    | none => rfl
    | some read =>
      simp only [Option.bind_some]
      split_ifs
      · rfl
      · rfl
      · rfl

/-- The size clause never yields a group. -/
theorem searchGroups_size {line : List UInt8} {size : Option CmdSection}
    (parsed : parseCmdRaidSize line = .ok size) : searchGroups size.toList = [] := by
  rw [parseCmdRaidSize] at parsed
  cases key : afterKey 'S' line with
  | none =>
    rw [key] at parsed
    rw [← Except.ok.inj parsed]
    rfl
  | some body =>
    simp only [key] at parsed
    split at parsed
    · cases copied : copySize false [] body with
      | error fault => simp [copied, bind, Except.bind] at parsed
      | ok result =>
        simp only [copied, bind, Except.bind] at parsed
        split at parsed
        · rw [← Except.ok.inj parsed]
          rfl
        · split_ifs at parsed
          all_goals
            rw [← Except.ok.inj parsed]
            rfl
    · rw [← Except.ok.inj parsed]
      rfl

/-- The clauses with one code letter never yield a group. -/
theorem searchGroups_code {β : Type} (clause : Option β) (wrap : β → CmdSection)
    (other : ∀ value, searchGroups [wrap value] = []) :
    searchGroups (clause.map wrap).toList = [] := by
  cases clause with
  | none => rfl
  | some value => exact other value

/-- A command line is too short for as many groups as the index cannot count. -/
theorem parsedBuild_few {sections : List CmdSection} (parsed : ParsedBuild sections) :
    (searchGroups sections).length < 256 := by
  obtain ⟨-, text, analysed⟩ := parsed
  rw [← searchGroups_forget]
  rw [analysisAndParseCmdString] at analysed
  cases normal : reConstructTheCmdLine text with
  | none => simp [normal] at analysed
  | some line =>
    have short := CmdLine.reConstructTheCmdLine_length text line normal
    cases specie : parseCmdSpecie line with
    | none => simp [normal, specie] at analysed
    | some command =>
      cases read : parseCmdGroup line with
      | error fault => simp [normal, specie, read, bind, Except.bind] at analysed
      | ok groups =>
        cases clause : parseCmdRaidSize line with
        | error fault => simp [normal, specie, read, clause, bind, Except.bind] at analysed
        | ok size =>
          simp only [normal, specie, read, clause, bind, Except.bind, Except.ok.injEq,
            Option.some.injEq] at analysed
          have commandless : searchGroups [command] = [] := by
            have none := searchGroups_code (parseCode 'C' specieMap line) .command (fun _ => rfl)
            rwa [← parseCmdSpecie, specie] at none
          have jbodless := searchGroups_code (parseCode 'J' jbodMap line) .jbod (fun _ => rfl)
          rw [← parseCmdRaidJbod] at jbodless
          rw [← analysed]
          simp only [searchGroups_append, commandless, searchGroups_size clause,
            searchGroups_raidType, jbodless, List.nil_append, List.append_nil]
          have counted := parseCmdGroupLoop_length line.length line groups read
          have filtered : (searchGroups groups).length ≤ groups.length :=
            List.length_filterMap_le _ _
          rw [cmdStringSize] at short
          omega

end Parsed

section Whole

/-- A step that failed is the last event of a part that stops. -/
theorem Stops.last {events before after : List Event} {value : Except Fault Status}
    {table : Table} {row : ProcessingMap} {status : Status} (stops : Stops events value)
    (split : events = before ++ .stepped table row status :: after)
    (isError : efiError status = true) : after = [] := by
  rcases stops with clean | ⟨front, other, step, failed, rfl, clean, -, -⟩
  · have success := clean table row status (by simp [split])
    rw [isError] at success
    exact absurd success.symm Bool.false_ne_true
  · rcases event_position split with ⟨rest, -, inside⟩ | ⟨rest, inside, -⟩
    · have length := congrArg List.length inside
      simp only [List.length_append, List.length_cons, List.length_nil] at length
      exact List.length_eq_zero_iff.mp (by omega)
    · have success := clean table row status (by simp [inside])
      rw [isError] at success
      exact absurd success.symm Bool.false_ne_true

/-- What stands before an event that is no step is clean. -/
theorem Stops.before_clean {events before after : List Event} {value : Except Fault Status}
    {event : Event} (stops : Stops events value) (split : events = before ++ event :: after)
    (noStep : ∀ table row status, event ≠ .stepped table row status) : Clean before := by
  rcases stops with clean | ⟨front, other, step, failed, rfl, clean, -, -⟩
  · rw [split] at clean
    exact (clean_append.mp clean).1
  · rcases event_position split with ⟨rest, -, inside⟩ | ⟨rest, inside, -⟩
    · cases rest with
      | nil => exact absurd (List.cons.inj inside).1.symm (noStep _ _ _)
      | cons first rest => simp at inside
    · rw [inside] at clean
      exact (clean_append.mp clean).1

/-- A confirmation is no step of the settings. -/
theorem pressesYes_noStep {event : Event} (pressed : pressesYes event = true) (table : Table)
    (row : ProcessingMap) (status : Status) : event ≠ .stepped table row status := by
  rintro rfl
  exact absurd pressed Bool.false_ne_true

/-- The clearing table writes nothing but events of its own, and never presses Yes. -/
theorem clear_emits (env : Env σ) (builds : searchSpecie env.raidCmdSection = some .build) :
    EmitsOnly (fun event => tableOf event = .clearBuild ∧ Harmless event)
      (playStatic env .clearBuild) := by
  have played := playTable_segment env (deleteDrive env) .clearBuild builds none [createRow]
    (by decide) (by decide)
  refine Ensures.weaken played (fun events value played event member => ?_)
  have within := played.1 event member
  refine ⟨?_, fromRows_harmless (by decide) within⟩
  cases event with
  | called other row call status => exact within.1
  | selected other drive => exact within.1
  | stepped other row status => exact within.1
  | finished other => exact within

/-- The events of the clearing table behind those of the other tables keep the law. -/
theorem BuildPart.lawful {sections : List CmdSection} {events later : List Event}
    {value result : Except Fault Status} (part : BuildPart sections events value)
    (clears : ∀ event ∈ later, tableOf event = .clearBuild ∧ Harmless event)
    (returned : ∀ status, result = .ok status → value = .ok status) :
    Lawful sections (events ++ later) result := by
  have harmless : ∀ event ∈ later, Harmless event := fun event member => (clears event member).2
  refine ⟨?_, ?_, ?_, ?_⟩
  · intro before event after split pressed
    rcases event_position split with ⟨rest, -, inside⟩ | ⟨rest, inside, -⟩
    · have quiet := harmless event (by simp [inside])
      rw [Harmless, pressed] at quiet
      exact absurd quiet.symm Bool.false_ne_true
    · exact part.stops.before_clean inside (pressesYes_noStep pressed)
  · intro span before event after split pressed
    rcases event_position split with ⟨rest, -, inside⟩ | ⟨rest, inside, -⟩
    · have quiet := harmless event (by simp [inside])
      rw [Harmless, pressed] at quiet
      exact absurd quiet.symm Bool.false_ne_true
    · exact part.spanned span before event rest inside pressed
  · intro before table row status after split isError event member
    rcases event_position split with ⟨rest, -, inside⟩ | ⟨rest, inside, rfl⟩
    · exact (clears event (by simp [inside, member])).1
    · rw [part.stops.last inside isError, List.nil_append] at member
      exact (clears event member).1
  · intro status same success
    rw [finishedTables_append, part.completed status (returned status same) success]
    exact List.prefix_append _ _

/-- Every run of `HandleBuildRaidCmd` on a parsed BUILD command keeps the law, whatever the driver
answers and exports. The driver is an arbitrary function over a state of its own, so it may fail at
any call, and a warning counts as a success, as the code tests it. -/
theorem handleBuildRaidCmd_lawful (env : Env σ) (parsed : ParsedBuild env.raidCmdSection)
    (machine : Machine σ) :
    Lawful env.raidCmdSection (handleBuildRaidCmd env machine).events
      (handleBuildRaidCmd env machine).value := by
  have builds := parsed.1
  have part := buildRaid_buildPart env builds (parsedBuild_few parsed)
  have lawful : Ensures (handleBuildRaidCmd env) (Lawful env.raidCmdSection) := by
    refine ensures_bind part ?_ (fun events status part => ?_)
    · intro events fault part
      have none : ∀ event ∈ ([] : List Event), tableOf event = .clearBuild ∧ Harmless event := by
        simp
      simpa using part.lawful none (by simp)
    · refine ensures_bind (clear_emits env builds) ?_ ?_
      · exact fun later fault clears => part.lawful clears (by simp)
      · intro later cleared clears
        exact ensures_pure (by simpa using part.lawful clears (fun _ same => same))
  exact lawful machine

/-- The sections of a RAID 10 command over one group with one drive. -/
def spanSections : List CmdSection :=
  [.command .build, .group [⟨1, .hdg, some "Drive 1"⟩], .raidType 10]

/-- The menus of a driver that offers all a span level needs, with the texts of their
opcodes numbered from one. -/
def spanMenus : List (OpCode × String × UInt16) :=
  [(.form, "Configuration Management", 1), (.ref, "Create Virtual Drive", 0x10),
   (.form, "Create Virtual Drive", 2), (.oneOf, "Select RAID Level", 0x11),
   (.oneOfOption, "RAID10", 0), (.other 0x29, "", 0), (.action, "Add More Spans", 0x12),
   (.ref, "Select Drives", 0x13), (.ref, "Select Drives", 0x14),
   (.oneOf, "Virtual Drive Size Unit", 0x15), (.string, "Virtual Drive Size", 0x16),
   (.ref, "Save Configuration", 0x17), (.form, "Select Drives", 3),
   (.checkbox, "Drive 1", 0xA700), (.ref, "Apply Changes", 0x18), (.form, "Success", 4),
   (.ref, "OK", 0x19), (.form, "Warning", 5), (.checkbox, "Confirm", 0x1A),
   (.action, "Yes", 0x1B)]

/-- The opcodes of these menus; all questions share one variable. -/
def spanPackage : List IfrOp :=
  spanMenus.zipIdx.map (fun ((opCode, _, number), index) =>
    ⟨opCode, UInt16.ofNat (index + 1), number, 7, 0, 0, number, 10, 0⟩)

/-- A driver that shows these menus and agrees to everything. -/
def agreeableDriver : Driver Unit where
  configAccess := true
  packageForm := fun _ => (some spanPackage, ())
  getHiiString := fun _ text => (spanMenus[text.toNat - 1]?).map (fun menu => menu.2.1)
  newHiiString := fun _ _ => (1, ())
  callback := fun _ _ tables => (efiSuccess, (), tables)
  formBuffer := fun _ => ""

/-- One variable with a buffer of one byte. -/
def oneVariable : VarTable.VarTables where
  node := fun _ => ⟨[], 0, 7, 1, some 0⟩
  nodes := 1
  buffer := fun _ => [0]
  buffers := 1
  byName := .empty
  byId := ⟨fun _ => none, fun _ => some 0⟩

/-- The command on a 3108 with that driver. -/
def spanEnv : Env Unit := ⟨agreeableDriver, .raid3108, spanSections, 2⟩

/-- The command line behind the sections. -/
def spanText : List UInt16 := "{C:[B]G:[1]R:[10]}".toList.map (fun c => UInt16.ofNat c.toNat)

/-- Where the driver agrees to everything the volume is created. -/
theorem handleBuildRaidCmd_lawful_agreeable :
    Lawful spanEnv.raidCmdSection (handleBuildRaidCmd spanEnv ⟨(), oneVariable, 0, true⟩).events
      (handleBuildRaidCmd spanEnv ⟨(), oneVariable, 0, true⟩).value ∧
    (handleBuildRaidCmd spanEnv ⟨(), oneVariable, 0, true⟩).events.any pressesYes = true :=
  ⟨handleBuildRaidCmd_lawful spanEnv ⟨rfl, spanText, by decide +kernel⟩ _, by decide +kernel⟩

end Whole

end SmcPkg.CmdBuild
