import SmcPkg.RaidOob.CmdLine
import SmcPkg.RaidOob.CmdExecute

/-!
# Runs of a BUILD command

A BUILD command is destructive only when its final question is answered with Yes.
The results say what has happened by then, whatever the driver does: every step
before it succeeded, and for a span level every group was added, entered and
filled in order. After a failing step only the clearing table is played, and a run
returns success only when every table was played to its end.

The argument goes up the layers of the code: what one handler writes down, what
one row adds to that, what a table amounts to, and how tables follow each other.
-/

namespace SmcPkg.CmdBuild

open RaidCmd Card CmdTables Traced CmdExecute

variable {σ : Type}

section Handlers

/-- A callback made for a row of a table. -/
def IsCall (table : Table) (row : ProcessingMap) (event : Event) : Prop :=
  ∃ call status, event = .called table row call status

/-- The callback of a row is the one call that the row may make. -/
theorem emitsOnly_callback (env : Env σ) (table : Table) (row : ProcessingMap) (call : Call) :
    EmitsOnly (IsCall table row) (callbackForTargetProcessing env table row call) := by
  rw [callbackForTargetProcessing]
  split
  · refine emitsOnly_bind emitsOnly_current (fun machine => ?_)
    refine emitsOnly_bind (emitsOnly_update _) (fun _ => ?_)
    refine emitsOnly_bind (emitsOnly_emit ⟨_, _, rfl⟩) (fun _ => emitsOnly_pure _)
  · exact emitsOnly_pure _

/-- A change of the tables is not seen from outside: it makes no call, whatever the change does.
-/
theorem emitsOnly_changeTables {allowed : Event → Prop}
    (change : VarTable.VarTables → Checked VarTable.VarTables) :
    EmitsOnly allowed (changeTables change : Run σ Unit) := by
  refine emitsOnly_bind emitsOnly_current (fun machine => ?_)
  exact emitsOnly_bind (emitsOnly_lift _) (fun tables => emitsOnly_update _)

/-- A search in the tables makes no call. -/
theorem emitsOnly_readTables {allowed : Event → Prop} {α : Type}
    (read : VarTable.VarTables → Checked α) : EmitsOnly allowed (readTables read : Run σ α) :=
  emitsOnly_bind emitsOnly_current (fun _ => emitsOnly_lift _)

/-- An item is changed by a write that makes the calls of its row at most, with the callback of
the row around it. -/
theorem emitsOnly_changeItem (env : Env σ) (table : Table) (row : ProcessingMap)
    (questionId : UInt16) (typeValue : TypeValue) (write : Run σ Unit)
    (quiet : EmitsOnly (IsCall table row) write) :
    EmitsOnly (IsCall table row) (changeItem env table row questionId typeValue write) := by
  refine emitsOnly_bind (emitsOnly_callback env table row _) (fun status => ?_)
  split
  · exact emitsOnly_pure _
  · exact emitsOnly_bind quiet (fun _ => emitsOnly_callback env table row _)

/-- A byte of a question is changed with the calls of the row only. -/
theorem emitsOnly_changeByte (env : Env σ) (table : Table) (row : ProcessingMap) (op : IfrOp)
    (a : Nat) (value : UInt8) :
    EmitsOnly (IsCall table row) (changeByte env table row op a value) :=
  emitsOnly_changeItem env table row _ _ _ (emitsOnly_changeTables _)

/-- The choice of the RAID level makes the calls of its row only. -/
theorem emitsOnly_changeRaidType (env : Env σ) (table : Table) (row : ProcessingMap)
    (item : Item) : EmitsOnly (IsCall table row) (changeRaidType env table row item) := by
  rw [changeRaidType]
  split
  · exact emitsOnly_pure _
  split
  · exact emitsOnly_pure _
  refine emitsOnly_bind (emitsOnly_readTables _) (fun found => ?_)
  split
  · exact emitsOnly_pure _
  refine emitsOnly_bind (emitsOnly_readTables _) (fun byte => ?_)
  split
  · exact emitsOnly_pure _
  refine emitsOnly_bind (emitsOnly_lift _) (fun choice => ?_)
  split
  · exact emitsOnly_pure _
  · exact emitsOnly_changeByte env table row _ _ _

/-- The choice of the unit of the size makes the calls of its row only. -/
theorem emitsOnly_changeSizeUnit (env : Env σ) (table : Table) (row : ProcessingMap)
    (item : Item) (unit : RaidSizeType) :
    EmitsOnly (IsCall table row) (changeSizeUnit env table row item unit) := by
  refine emitsOnly_bind emitsOnly_current (fun machine => ?_)
  refine emitsOnly_bind (emitsOnly_lift _) (fun choice => ?_)
  split
  · exact emitsOnly_pure _
  refine emitsOnly_bind (emitsOnly_readTables _) (fun found => ?_)
  split
  · exact emitsOnly_pure _
  refine emitsOnly_bind (emitsOnly_readTables _) (fun byte => ?_)
  split
  · exact emitsOnly_pure _
  · exact emitsOnly_changeByte env table row _ _ _

/-- The text of the size is written with the calls of its row only. -/
theorem emitsOnly_changeSizeSize (env : Env σ) (table : Table) (row : ProcessingMap)
    (item : Item) (context : List UInt8) :
    EmitsOnly (IsCall table row) (changeSizeSize env table row item context) := by
  refine emitsOnly_bind (emitsOnly_readTables _) (fun found => ?_)
  split
  · exact emitsOnly_pure _
  refine emitsOnly_bind (emitsOnly_readTables _) (fun old => ?_)
  refine emitsOnly_bind (emitsOnly_lift _) (fun text => ?_)
  split
  · exact emitsOnly_pure _
  refine emitsOnly_bind emitsOnly_current (fun machine => ?_)
  refine emitsOnly_bind (emitsOnly_update _) (fun _ => ?_)
  split
  · exact emitsOnly_pure _
  refine emitsOnly_bind (emitsOnly_callback env table row _) (fun status => ?_)
  split
  · exact emitsOnly_pure _
  refine emitsOnly_bind (emitsOnly_changeTables _) (fun _ => ?_)
  refine emitsOnly_bind (emitsOnly_callback env table row _) (fun status => ?_)
  exact emitsOnly_bind (emitsOnly_readTables _) (fun now => emitsOnly_pure _)

/-- The choice of a deletion makes the calls of its row only. -/
theorem emitsOnly_changeToDelete (env : Env σ) (table : Table) (row : ProcessingMap)
    (item : Item) : EmitsOnly (IsCall table row) (changeToDelete env table row item) := by
  refine emitsOnly_bind (emitsOnly_readTables _) (fun found => ?_)
  split
  · exact emitsOnly_pure _
  refine emitsOnly_bind emitsOnly_current (fun machine => ?_)
  refine emitsOnly_bind (emitsOnly_lift _) (fun choice => ?_)
  split
  · exact emitsOnly_pure _
  · exact emitsOnly_changeByte env table row _ _ _

/-- A setting is changed with the calls of its row only, also where its item is missing. -/
theorem emitsOnly_changeSetting (env : Env σ) (table : Table) (row : ProcessingMap)
    (item : Option Item) : EmitsOnly (IsCall table row) (changeSetting env table row item) := by
  rw [changeSetting.eq_def]
  split
  · exact emitsOnly_pure _
  split
  · split
    · exact emitsOnly_pure _
    split
    · exact emitsOnly_changeSizeUnit env table row _ _
    · exact emitsOnly_changeSizeSize env table row _ _
    · exact emitsOnly_pure _
  · split
    · exact emitsOnly_changeToDelete env table row _
    · exact emitsOnly_pure _
  · exact emitsOnly_changeRaidType env table row _
  · exact emitsOnly_pure _

/-- A form is entered with the calls of its row only. -/
theorem emitsOnly_enterForm (env : Env σ) (table : Table) (row : ProcessingMap)
    (item : Option Item) : EmitsOnly (IsCall table row) (enterForm env table row item) := by
  cases item with
  | none => exact emitsOnly_pure _
  | some item => exact emitsOnly_callback env table row _

/-- A confirmation writes its byte and calls nobody. -/
theorem emitsOnly_confirm {allowed : Event → Prop} (env : Env σ) (item : Option Item) :
    EmitsOnly allowed (confirm env item) := by
  cases item with
  | none => exact emitsOnly_pure _
  | some item =>
    refine emitsOnly_bind (emitsOnly_readTables _) (fun found => ?_)
    split
    · exact emitsOnly_pure _
    · exact emitsOnly_bind (emitsOnly_changeTables _) (fun _ => emitsOnly_pure _)

/-- An action is pressed with the calls of its row only. -/
theorem emitsOnly_pressAction (env : Env σ) (table : Table) (row : ProcessingMap)
    (item : Option Item) : EmitsOnly (IsCall table row) (pressAction env table row item) := by
  cases item with
  | none => exact emitsOnly_fail _
  | some item => exact emitsOnly_changeItem env table row _ _ _ (emitsOnly_pure _)

/-- The search of a drive by its name makes no call. -/
theorem emitsOnly_searchHddName {allowed : Event → Prop} (env : Env σ) (name : String)
    (items : List Item) : EmitsOnly allowed (searchHddName env name items) := by
  induction items with
  | nil => exact emitsOnly_pure _
  | cons item items inductionHypothesis =>
    have read : EmitsOnly allowed (readItem item : Run σ Item) := by
      refine emitsOnly_bind emitsOnly_current (fun machine => ?_)
      split
      · exact emitsOnly_pure _
      · exact emitsOnly_fail _
    refine emitsOnly_bind read (fun item => ?_)
    refine emitsOnly_bind (emitsOnly_bind emitsOnly_current (fun _ => emitsOnly_pure _))
      (fun text => ?_)
    split
    · exact emitsOnly_fail _
    split
    · exact emitsOnly_pure _
    · exact inductionHypothesis

/-- The search of a drive makes no call, also where it goes on to the names. -/
theorem emitsOnly_searchHdd {allowed : Event → Prop} (env : Env σ) (items : List Item)
    (drive : GroupHdd) : EmitsOnly allowed (searchHdd env items drive) := by
  rw [searchHdd]
  split
  · exact emitsOnly_pure _
  · exact emitsOnly_searchHddName env _ items

/-- The opcode of the item of a row is searched without a call. -/
theorem emitsOnly_getTargetItemOpHeader {allowed : Event → Prop} (env : Env σ)
    (row : ProcessingMap) : EmitsOnly allowed (getTargetItemOpHeader env row) := by
  refine emitsOnly_bind (emitsOnly_update _) (fun _ => ?_)
  split
  · exact emitsOnly_pure _
  refine emitsOnly_bind emitsOnly_current (fun machine => ?_)
  refine emitsOnly_bind (emitsOnly_update _) (fun _ => ?_)
  split
  · exact emitsOnly_pure _
  · exact emitsOnly_lift _

end Handlers

section Milestones

/-- What a run achieves on the way to a span volume. -/
inductive Milestone
  | spanAdded
  | formEntered (index : Nat)
  | driveSelected (drive : GroupHdd)
  deriving DecidableEq, Repr

/-- What a row achieves by succeeding: the span is added, or the drive selection
with an index is entered. -/
def stepMark (row : ProcessingMap) : Option Milestone :=
  if row = addSpanRow then some .spanAdded
  else if row.cmdProcessSet = enterFormSet ∧ row.cmdProcessTargetName = "Select Drives" then
    some (.formEntered row.tableItemIndex.toNat)
  else none

/-- The milestone an event stands for. -/
def milestone : Event → Option Milestone
  | .stepped _ row status => if efiError status then none else stepMark row
  | .selected _ drive => some (.driveSelected drive)
  | _ => none

/-- The milestones of a run in order. -/
def milestones (events : List Event) : List Milestone := events.filterMap milestone

@[simp] theorem milestones_append (left right : List Event) :
    milestones (left ++ right) = milestones left ++ milestones right :=
  List.filterMap_append

@[simp] theorem milestones_nil : milestones [] = [] := rfl

/-- Calls of a row are no milestones: only what a row achieves is. -/
theorem milestones_calls {table : Table} {row : ProcessingMap} {events : List Event}
    (calls : ∀ event ∈ events, IsCall table row event) : milestones events = [] := by
  rw [milestones, List.filterMap_eq_nil_iff]
  intro event member
  obtain ⟨call, status, rfl⟩ := calls event member
  rfl

/-- No step of the events failed. -/
def Clean (events : List Event) : Prop :=
  ∀ table row status, .stepped table row status ∈ events → efiError status = false

/-- A run is clean exactly if both of its parts are. -/
theorem clean_append {left right : List Event} :
    Clean (left ++ right) ↔ Clean left ∧ Clean right := by
  constructor
  · intro clean
    exact ⟨fun table row status member => clean table row status (List.mem_append_left _ member),
      fun table row status member => clean table row status (List.mem_append_right _ member)⟩
  · rintro ⟨cleanLeft, cleanRight⟩ table row status member
    rcases List.mem_append.mp member with inside | inside
    · exact cleanLeft table row status inside
    · exact cleanRight table row status inside

/-- A run stops at the first step that fails: no step failed, or only the last
event is a failed step and its status is returned. -/
def Stops (events : List Event) (value : Except Fault Status) : Prop :=
  Clean events ∨ ∃ before table row status, events = before ++ [.stepped table row status] ∧
    Clean before ∧ efiError status = true ∧ value = .ok status

/-- A run that succeeded has no failed step. -/
theorem Stops.clean {events : List Event} {status : Status} (stops : Stops events (.ok status))
    (success : efiError status = false) : Clean events := by
  rcases stops with clean | ⟨before, table, row, failed, -, -, isError, same⟩
  · exact clean
  · rw [← Except.ok.inj same, success] at isError
    exact absurd isError Bool.false_ne_true

/-- A run that stops does so behind a clean part too: the part adds neither a confirmation nor a
failure. -/
theorem Stops.after {before later : List Event} {value : Except Fault Status}
    (clean : Clean before) (stops : Stops later value) : Stops (before ++ later) value := by
  rcases stops with cleanLater | ⟨middle, table, row, status, rfl, cleanMiddle, isError, same⟩
  · exact Or.inl (clean_append.mpr ⟨clean, cleanLater⟩)
  · refine Or.inr ⟨before ++ middle, table, row, status, (List.append_assoc _ _ _).symm, ?_,
      isError, same⟩
    exact clean_append.mpr ⟨clean, cleanMiddle⟩

/-- The tables that were played to their end. -/
def finishedTables (events : List Event) : List Table :=
  events.filterMap (fun event => match event with | .finished table => some table | _ => none)

@[simp] theorem finishedTables_append (left right : List Event) :
    finishedTables (left ++ right) = finishedTables left ++ finishedTables right :=
  List.filterMap_append

@[simp] theorem finishedTables_nil : finishedTables [] = [] := rfl

/-- A part of a run: it stops at the first failing step, and a success has reached
the given milestones and finished the given tables. -/
structure Segment (marks : List Milestone) (tables : List Table) (events : List Event)
    (value : Except Fault Status) : Prop where
  stops : Stops events value
  reached : ∀ status, value = .ok status → efiError status = false →
    milestones events = marks ∧ finishedTables events = tables

/-- A part of a run that ended in a fault without a failed step. -/
theorem Segment.faulted {marks : List Milestone} {tables : List Table} {events : List Event}
    (clean : Clean events) (fault : Fault) : Segment marks tables events (.error fault) :=
  ⟨Or.inl clean, by simp⟩

/-- A part of a run that returned an error. -/
theorem Segment.failed {marks : List Milestone} {tables : List Table} {events : List Event}
    {status : Status} (stops : Stops events (.ok status)) (isError : efiError status = true) :
    Segment marks tables events (.ok status) := by
  refine ⟨stops, fun returned same success => ?_⟩
  rw [← Except.ok.inj same, isError] at success
  exact absurd success.symm Bool.false_ne_true

/-- Parts of a run follow each other when the first went well. -/
theorem Segment.after {marks laterMarks : List Milestone} {tables laterTables : List Table}
    {events later : List Event} {value : Except Fault Status} (clean : Clean events)
    (marked : milestones events = marks) (finished : finishedTables events = tables)
    (segment : Segment laterMarks laterTables later value) :
    Segment (marks ++ laterMarks) (tables ++ laterTables) (events ++ later) value := by
  refine ⟨segment.stops.after clean, fun status same success => ?_⟩
  obtain ⟨markedLater, finishedLater⟩ := segment.reached status same success
  rw [milestones_append, finishedTables_append, marked, finished, markedLater, finishedLater]
  exact ⟨rfl, rfl⟩

end Milestones

section Drives

/-- A callback made for a row, or the selection of a drive by a row that chooses. -/
def IsChoice (table : Table) (row : ProcessingMap) (event : Event) : Prop :=
  IsCall table row event ∨
    row.cmdProcessSet.cmdProcess = .choiceHdd ∧ ∃ drive, event = .selected table drive

/-- A row writes down what it may, and a success reaches the given milestones. -/
def Achieves (table : Table) (row : ProcessingMap) (marks : List Milestone)
    (events : List Event) (value : Except Fault Status) : Prop :=
  (∀ event ∈ events, IsChoice table row event) ∧
    ∀ status, value = .ok status → efiError status = false → milestones events = marks

/-- A row that faults before it has made a call has achieved nothing, which every list of
milestones allows. -/
theorem achieves_fault (table : Table) (row : ProcessingMap) (marks : List Milestone)
    (fault : Fault) : Achieves table row marks [] (.error fault) := by
  simp [Achieves]

/-- Nothing is asked of a run that returns an error. -/
theorem achieves_error {table : Table} {row : ProcessingMap} {marks : List Milestone}
    {events : List Event} {status : Status} (allowed : ∀ event ∈ events, IsChoice table row event)
    (isError : efiError status = true) : Achieves table row marks events (.ok status) := by
  refine ⟨allowed, fun returned same success => ?_⟩
  rw [← Except.ok.inj same, isError] at success
  exact absurd success.symm Bool.false_ne_true

/-- A handler that only calls back reaches no milestone. -/
theorem achieves_calls {table : Table} {row : ProcessingMap} {events : List Event}
    {value : Except Fault Status} (calls : ∀ event ∈ events, IsCall table row event) :
    Achieves table row [] events value :=
  ⟨fun event member => Or.inl (calls event member), fun _ _ _ => milestones_calls calls⟩

/-- A drive whose choice succeeded is recorded as selected. -/
theorem chooseDrive_achieves (env : Env σ) (table : Table) (row : ProcessingMap)
    (chooses : row.cmdProcessSet.cmdProcess = .choiceHdd) (drive : GroupHdd) (item : Item) :
    Ensures (chooseDrive env table row drive item) (Achieves table row [.driveSelected drive]) := by
  refine ensures_bind_silent (emitsOnly_readTables _) (achieves_fault table row _) (fun found => ?_)
  split
  · exact ensures_pure (achieves_error (by simp) (by decide))
  refine ensures_bind (emitsOnly_changeItem env table row _ _ _ (emitsOnly_changeTables _)) ?_ ?_
  · intro events fault calls
    exact ⟨fun event member => Or.inl (calls event member), by simp⟩
  intro events status calls
  split
  · rename_i failed
    refine ensures_pure (achieves_error (fun event member => Or.inl (calls event ?_)) failed)
    simpa using member
  · refine ensures_emit_bind (ensures_pure ⟨?_, fun _ _ _ => ?_⟩)
    · intro event member
      rcases List.mem_append.mp member with inside | inside
      · exact Or.inl (calls event inside)
      · exact Or.inr ⟨chooses, drive, List.mem_singleton.mp inside⟩
    · rw [milestones_append, milestones_calls calls]
      rfl

/-- What holds of one round of the loop over the drives: a chosen drive is recorded
as selected. -/
theorem chooseHdd_ensures (env : Env σ) (deleteDrive : GroupHdd → Run σ Status) (table : Table)
    (row : ProcessingMap) (chooses : row.cmdProcessSet.cmdProcess = .choiceHdd)
    (keeps : row.cmdProcessSet.typeEnumSub ≠ .deleteRaidDrive) (items : List Item)
    (drive : GroupHdd) :
    Ensures (chooseHdd env deleteDrive table row items drive) (fun events value =>
      (∀ event ∈ events, IsChoice table row event) ∧
        ∀ status, value = .ok (.chosen status) → efiError status = false →
          milestones events = [.driveSelected drive]) := by
  refine ensures_bind_silent (emitsOnly_searchHdd env items drive) (by simp) (fun found => ?_)
  split
  · exact ensures_pure (by simp)
  simp only [keeps, if_false]
  split
  · exact ensures_pure (by simp)
  refine ensures_bind (chooseDrive_achieves env table row chooses drive _)
    (fun events fault achieved => ⟨achieved.1, by simp⟩) ?_
  intro events status achieved
  refine ensures_pure ?_
  rw [List.append_nil]
  refine ⟨achieved.1, fun other same success => achieved.2 other ?_ success⟩
  rw [Choice.chosen.inj (Except.ok.inj same)]

/-- A loop over the drives of a BUILD command that succeeds has selected all of
them in order. -/
theorem choiceLoop_ensures (env : Env σ) (deleteDrive : GroupHdd → Run σ Status) (table : Table)
    (row : ProcessingMap) (builds : searchSpecie env.raidCmdSection = some .build)
    (chooses : row.cmdProcessSet.cmdProcess = .choiceHdd)
    (keeps : row.cmdProcessSet.typeEnumSub ≠ .deleteRaidDrive) (items : List Item)
    (drives : List GroupHdd) (status : Status) (hddBeChoiced : Bool) :
    Ensures (choiceLoop env deleteDrive table row items drives status hddBeChoiced)
      (fun events value => (∀ event ∈ events, IsChoice table row event) ∧
        ∀ status chosen, value = .ok (status, chosen) → efiError status = false →
          milestones events = drives.map .driveSelected) := by
  induction drives generalizing status hddBeChoiced with
  | nil => exact ensures_pure (by simp)
  | cons drive drives inductionHypothesis =>
    have stopsHere : ∀ (events : List Event) (failed : Status) (chosen : Bool),
        (∀ event ∈ events, IsChoice table row event) → efiError failed = true →
        Ensures (pure (failed, chosen) : Run σ (Status × Bool)) (fun later result =>
          (∀ event ∈ events ++ later, IsChoice table row event) ∧
            ∀ status chosen, result = .ok (status, chosen) → efiError status = false →
              milestones (events ++ later) = (drive :: drives).map .driveSelected) := by
      intro events failed chosen allowed isError
      refine ensures_pure ⟨by simpa using allowed, fun status chosen same success => ?_⟩
      rw [← (Prod.mk.inj (Except.ok.inj same)).1, isError] at success
      exact absurd success.symm Bool.false_ne_true
    refine ensures_bind (chooseHdd_ensures env deleteDrive table row chooses keeps items drive)
      (fun events fault chose => ⟨chose.1, by simp⟩) ?_
    rintro events outcome ⟨allowed, selects⟩
    cases outcome with
    | missing =>
      rw [builds]
      exact stopsHere events _ _ allowed (by decide)
    | refused => exact stopsHere events _ _ allowed (by decide)
    | chosen first =>
      by_cases failed : efiError first = true
      · simp only [failed, if_true]
        exact stopsHere events _ _ allowed failed
      · simp only [failed]
        refine Ensures.weaken (inductionHypothesis first true) ?_
        rintro later value ⟨allowedLater, selectsLater⟩
        constructor
        · intro event member
          rcases List.mem_append.mp member with inside | inside
          · exact allowed event inside
          · exact allowedLater event inside
        · intro status chosen same success
          rw [milestones_append, selects first rfl (Bool.eq_false_iff.mpr failed),
            selectsLater status chosen same success]
          rfl

/-- The drives a row chooses from: the given group, or the first of the command. -/
def groupDrives (env : Env σ) (group : Option (List GroupHdd)) : List GroupHdd :=
  (group.orElse (fun _ => searchGroup env.raidCmdSection)).getD []

/-- The drives of a group are chosen one after the other: the row has its milestone if all of
them are found, and stops at the first one that is not. -/
theorem choiceHdds_achieves (env : Env σ) (deleteDrive : GroupHdd → Run σ Status) (table : Table)
    (row : ProcessingMap) (builds : searchSpecie env.raidCmdSection = some .build)
    (chooses : row.cmdProcessSet.cmdProcess = .choiceHdd)
    (keeps : row.cmdProcessSet.typeEnumSub ≠ .deleteRaidDrive)
    (group : Option (List GroupHdd)) (items : List Item) :
    Ensures (choiceHdds env deleteDrive table row group items)
      (Achieves table row ((groupDrives env group).map .driveSelected)) := by
  rw [choiceHdds, groupDrives]
  split
  · exact ensures_pure (achieves_error (by simp) (by decide))
  rename_i drives chosen
  rw [chosen]
  refine ensures_bind
    (choiceLoop_ensures env deleteDrive table row builds chooses keeps items drives _ _)
    (fun events fault loop => ⟨loop.1, by simp⟩) ?_
  rintro events ⟨status, hddBeChoiced⟩ ⟨allowed, selects⟩
  refine ensures_pure ?_
  rw [List.append_nil]
  refine ⟨allowed, fun other same success => ?_⟩
  rw [← Except.ok.inj same] at success
  cases hddBeChoiced with
  | false => exact absurd (show efiError efiUnsupported = false from success) (by decide)
  | true => exact selects status true rfl success

end Drives

section Rows

/-- The milestones a row reaches before it succeeds: the drives it selects. -/
def rowMarks (env : Env σ) (group : Option (List GroupHdd)) (row : ProcessingMap) :
    List Milestone :=
  if row.cmdProcessSet.cmdProcess = .choiceHdd then (groupDrives env group).map .driveSelected
  else []

/-- A row of a table achieves what its kind of process is there for, or stops the play with an
error. Rows that delete a drive are left out: a build has none. -/
theorem handleRow_achieves (env : Env σ) (deleteDrive : GroupHdd → Run σ Status) (table : Table)
    (builds : searchSpecie env.raidCmdSection = some .build) (group : Option (List GroupHdd))
    (row : ProcessingMap) (keeps : row.cmdProcessSet.typeEnumSub ≠ .deleteRaidDrive)
    (items : List Item) (status : Status) :
    Ensures (handleRow env deleteDrive table group row items status)
      (Achieves table row (rowMarks env group row)) := by
  have calls : ∀ {handler : Run σ Status}, EmitsOnly (IsCall table row) handler →
      Ensures handler (Achieves table row []) := by
    intro handler emits
    exact Ensures.weaken emits (fun events value calls => achieves_calls calls)
  rw [handleRow, rowMarks]
  split
  all_goals rename_i process; rw [process]
  · exact calls (emitsOnly_changeSetting env table row _)
  · exact calls (emitsOnly_enterForm env table row _)
  · exact calls (emitsOnly_pressAction env table row _)
  · exact calls (emitsOnly_confirm env _)
  · exact choiceHdds_achieves env deleteDrive table row builds process keeps group items
  · exact calls (emitsOnly_pure status)
  · exact calls (emitsOnly_pure status)

/-- The events a table may write, given its rows before the last. -/
def FromRows (table : Table) (rows : List ProcessingMap) : Event → Prop
  | .called other row _ _ => other = table ∧ row ∈ rows
  | .selected other _ => other = table ∧ ∃ row ∈ rows, row.cmdProcessSet.cmdProcess = .choiceHdd
  | .stepped other row _ => other = table ∧ row ∈ rows
  | .finished other => other = table

/-- The choice of a drive in a row is an event of the rows that the row belongs to. -/
theorem IsChoice.fromRows {table : Table} {row : ProcessingMap} {rows : List ProcessingMap}
    {event : Event} (choice : IsChoice table row event) (member : row ∈ rows) :
    FromRows table rows event := by
  rcases choice with ⟨call, status, rfl⟩ | ⟨chooses, drive, rfl⟩
  · exact ⟨rfl, member⟩
  · exact ⟨rfl, row, member, chooses⟩

/-- An event of some rows is one of a longer list of them. -/
theorem FromRows.tail {table : Table} {row : ProcessingMap} {rows : List ProcessingMap}
    {event : Event} (within : FromRows table rows event) : FromRows table (row :: rows) event := by
  cases event with
  | called other row call status => exact ⟨within.1, List.mem_cons_of_mem _ within.2⟩
  | selected other drive =>
    obtain ⟨same, row, member, chooses⟩ := within
    exact ⟨same, row, List.mem_cons_of_mem _ member, chooses⟩
  | stepped other row status => exact ⟨within.1, List.mem_cons_of_mem _ within.2⟩
  | finished other => exact within

/-- What a handler writes down contains no step and finishes no table. -/
theorem choices_quiet {table : Table} {row : ProcessingMap} {events : List Event}
    (choices : ∀ event ∈ events, IsChoice table row event) :
    Clean events ∧ finishedTables events = [] := by
  constructor
  · intro other step status member
    rcases choices _ member with ⟨call, state, impossible⟩ | ⟨-, drive, impossible⟩
    · cases impossible
    · cases impossible
  · rw [finishedTables, List.filterMap_eq_nil_iff]
    intro event member
    rcases choices event member with ⟨call, state, rfl⟩ | ⟨-, drive, rfl⟩
    · rfl
    · rfl

/-- The last row finds no item on any card. -/
theorem getTargetItemOpHeader_endRow (env : Env σ) :
    Ensures (getTargetItemOpHeader env endRow)
      (fun events value => events = [] ∧ value = .ok []) := by
  intro machine
  exact ⟨rfl, rfl⟩

/-- The milestones of a table that succeeds. -/
def tableMarks (env : Env σ) (group : Option (List GroupHdd)) (rows : List ProcessingMap) :
    List Milestone :=
  rows.flatMap (fun row => rowMarks env group row ++ (stepMark row).toList)

/-- A table stops at the first row that fails, and a success has gone through all
of its rows. -/
theorem playRows_segment (env : Env σ) (deleteDrive : GroupHdd → Run σ Status) (table : Table)
    (builds : searchSpecie env.raidCmdSection = some .build) (group : Option (List GroupHdd))
    (rows : List ProcessingMap) (acts : ∀ row ∈ rows, row.cmdProcessSet.cmdProcess ≠ .nonAction)
    (keeps : ∀ row ∈ rows, row.cmdProcessSet.typeEnumSub ≠ .deleteRaidDrive) (status : Status) :
    Ensures (playRows env deleteDrive table group (rows ++ [endRow]) status)
      (fun events value => (∀ event ∈ events, FromRows table rows event) ∧
        Segment (tableMarks env group rows) [table] events value) := by
  induction rows generalizing status with
  | nil =>
    refine ensures_bind (getTargetItemOpHeader_endRow env) (by simp) ?_
    rintro events items ⟨rfl, same⟩
    obtain rfl := Except.ok.inj same
    refine ensures_emit_bind (ensures_pure ⟨by simp [FromRows], ?_, fun _ _ _ => ⟨rfl, rfl⟩⟩)
    exact Or.inl (by simp [Clean])
  | cons row rows inductionHypothesis =>
    have member : row ∈ row :: rows := List.mem_cons_self
    refine ensures_bind_silent (emitsOnly_getTargetItemOpHeader env row)
      (fun fault => ⟨by simp, .faulted (by simp [Clean]) fault⟩) (fun items => ?_)
    split
    · rw [if_neg (acts row member)]
      refine ensures_emit_bind (ensures_pure ⟨by simp [FromRows], .failed ?_ (by decide)⟩)
      exact Or.inr ⟨[], table, row, _, rfl, by simp [Clean], by decide, rfl⟩
    · refine ensures_bind
        (handleRow_achieves env deleteDrive table builds group row (keeps row member) _ status)
        (fun events fault achieved => ⟨?_, .faulted (choices_quiet achieved.1).1 fault⟩) ?_
      · exact fun event inside => (achieved.1 event inside).fromRows member
      intro events returned achieved
      obtain ⟨clean, finished⟩ := choices_quiet achieved.1
      have before : ∀ event ∈ events ++ [.stepped table row returned],
          FromRows table (row :: rows) event := by
        intro event inside
        rcases List.mem_append.mp inside with inside | inside
        · exact (achieved.1 event inside).fromRows member
        · rw [List.mem_singleton.mp inside]
          exact ⟨rfl, member⟩
      refine ensures_emit_bind ?_
      by_cases isError : efiError returned = true
      · simp only [isError, if_true]
        exact ensures_pure ⟨before, .failed (Or.inr ⟨events, table, row, returned, rfl, clean,
          isError, rfl⟩) isError⟩
      · simp only [isError]
        have success := Bool.eq_false_iff.mpr isError
        have following := inductionHypothesis
          (fun row inside => acts row (List.mem_cons_of_mem _ inside))
          (fun row inside => keeps row (List.mem_cons_of_mem _ inside)) returned
        refine Ensures.weaken following (fun later value played => ?_)
        rw [← List.singleton_append, ← List.append_assoc]
        constructor
        · intro event inside
          rcases List.mem_append.mp inside with inside | inside
          · exact before event inside
          · exact (played.1 event inside).tail
        · have cleanStep : Clean [.stepped table row returned] := by
            intro other step status inside
            cases List.mem_singleton.mp inside
            exact success
          have marked : milestones (events ++ [.stepped table row returned]) =
              rowMarks env group row ++ (stepMark row).toList := by
            rw [milestones_append, achieved.2 returned rfl success]
            simp only [milestones, List.filterMap_cons, List.filterMap_nil, milestone, success]
            cases stepMark row with
            | none => rfl
            | some mark => rfl
          have ended : finishedTables (events ++ [.stepped table row returned]) = [] := by
            rw [finishedTables_append, finished]
            rfl
          exact Segment.after (clean_append.mpr ⟨clean, cleanStep⟩) marked ended played.2

/-- Disabling the command of a failed table is not observed. -/
theorem playTable_segment (env : Env σ) (deleteDrive : GroupHdd → Run σ Status) (table : Table)
    (builds : searchSpecie env.raidCmdSection = some .build) (group : Option (List GroupHdd))
    (rows : List ProcessingMap) (acts : ∀ row ∈ rows, row.cmdProcessSet.cmdProcess ≠ .nonAction)
    (keeps : ∀ row ∈ rows, row.cmdProcessSet.typeEnumSub ≠ .deleteRaidDrive) :
    Ensures (playTable env deleteDrive table group (some (rows ++ [endRow])))
      (fun events value => (∀ event ∈ events, FromRows table rows event) ∧
        Segment (tableMarks env group rows) [table] events value) := by
  refine ensures_bind (playRows_segment env deleteDrive table builds group rows acts keeps _)
    (fun events fault played => played) (fun events status played => ?_)
  split
  · exact ensures_update_bind (ensures_pure (by simpa using played))
  · exact ensures_pure (by simpa using played)

/-- A whole table: its rows, or an error when the card has no such table. -/
theorem playMap_segment (env : Env σ) (table : Table)
    (builds : searchSpecie env.raidCmdSection = some .build) (group : Option (List GroupHdd))
    (rows : List ProcessingMap) (split : table.rows env.raidCardType = rows ++ [endRow])
    (acts : ∀ row ∈ rows, row.cmdProcessSet.cmdProcess ≠ .nonAction)
    (keeps : ∀ row ∈ rows, row.cmdProcessSet.typeEnumSub ≠ .deleteRaidDrive) :
    Ensures (playMap env table group)
      (fun events value => (∀ event ∈ events, FromRows table rows event) ∧
        Segment (tableMarks env group rows) [table] events value) := by
  rw [playMap, getRaidProcessingMap]
  split_ifs
  · rw [split]
    exact playTable_segment env _ table builds group rows acts keeps
  · exact ensures_pure ⟨by simp, .failed (Or.inl (by simp [Clean])) (by decide)⟩

end Rows

section Runs

/-- The press of Yes. -/
def pressesYes : Event → Bool
  | .called _ row _ _ => row.pressesYes
  | _ => false

/-- Whenever Yes is pressed, the given milestones have been reached before. -/
def Guarded (marks : List Milestone) (events : List Event) : Prop :=
  ∀ before event after, events = before ++ event :: after → pressesYes event = true →
    milestones before = marks

/-- A part of a run that never presses Yes. -/
def Harmless (event : Event) : Prop := pressesYes event = false

/-- Where nothing but harmless events happen no confirmation is given, so there is nothing to
guard. -/
theorem guarded_harmless {marks : List Milestone} {events : List Event}
    (harmless : ∀ event ∈ events, Harmless event) : Guarded marks events := by
  intro before event after split pressed
  have quiet := harmless event (by simp [split])
  rw [Harmless, pressed] at quiet
  exact absurd quiet.symm Bool.false_ne_true

/-- An event of two parts of a run stands in the second part or in the first. -/
theorem event_position {events later before after : List Event} {event : Event}
    (split : events ++ later = before ++ event :: after) :
    (∃ rest, before = events ++ rest ∧ later = rest ++ event :: after) ∨
      ∃ rest, events = before ++ event :: rest ∧ after = rest ++ later := by
  rcases List.append_eq_append_iff.mp split with behind | ⟨rest, early, inside⟩
  · exact Or.inl behind
  · cases rest with
    | nil => exact Or.inl ⟨[], by simpa using early.symm, inside.symm⟩
    | cons first rest =>
      obtain ⟨rfl, rfl⟩ := List.cons.inj inside
      exact Or.inr ⟨rest, early, rfl⟩

/-- Behind harmless events that reach the first milestones a guarded run is guarded by all of
them. -/
theorem guarded_append {marks laterMarks : List Milestone} {events later : List Event}
    (harmless : ∀ event ∈ events, Harmless event) (marked : milestones events = marks)
    (guarded : Guarded laterMarks later) : Guarded (marks ++ laterMarks) (events ++ later) := by
  intro before event after split pressed
  rcases event_position split with ⟨rest, rfl, inside⟩ | ⟨rest, inside, -⟩
  · rw [milestones_append, marked, guarded rest event after inside pressed]
  · exact guarded_harmless harmless before event rest inside pressed

/-- The rule for a step that is taken only after a success. -/
theorem onSuccess_ensures {first next : Run σ Status}
    {before post : List Event → Except Fault Status → Prop} (ensured : Ensures first before)
    (faulted : ∀ events fault, before events (.error fault) → post events (.error fault))
    (failed : ∀ events status, before events (.ok status) → efiError status = true →
      post events (.ok status))
    (returned : ∀ events status, before events (.ok status) → efiError status = false →
      Ensures next (fun later result => post (events ++ later) result)) :
    Ensures (onSuccess first next) post := by
  refine ensures_bind ensured faulted (fun events status holds => ?_)
  split
  · rename_i isError
    exact ensures_pure (by simpa using failed events status holds isError)
  · rename_i isError
    exact returned events status holds (Bool.eq_false_iff.mpr isError)

/-- A run that goes on after a success makes the calls of its two parts only. -/
theorem emitsOnly_onSuccess {allowed : Event → Prop} {first next : Run σ Status}
    (emitsFirst : EmitsOnly allowed first) (emitsNext : EmitsOnly allowed next) :
    EmitsOnly allowed (onSuccess first next) := by
  refine emitsOnly_bind emitsFirst (fun status => ?_)
  split
  · exact emitsOnly_pure _
  · exact emitsNext

/-- Two segments follow each other: milestones and tables of the second one stand behind those
of the first one, unless the first one fails. -/
theorem onSuccess_segment {first next : Run σ Status} {marks laterMarks : List Milestone}
    {tables laterTables : List Table} (segment : Ensures first (Segment marks tables))
    (later : Ensures next (Segment laterMarks laterTables)) :
    Ensures (onSuccess first next) (Segment (marks ++ laterMarks) (tables ++ laterTables)) := by
  refine onSuccess_ensures segment ?_ ?_ ?_
  · exact fun events fault played => ⟨played.stops, by simp⟩
  · exact fun events status played isError => .failed played.stops isError
  · intro events status played success
    obtain ⟨marked, finished⟩ := played.reached status rfl success
    refine Ensures.weaken later (fun laterEvents value playedLater => ?_)
    exact Segment.after (played.stops.clean success) marked finished playedLater

/-- A part of a run that never returns success. -/
structure Fails (events : List Event) (value : Except Fault Status) : Prop where
  stops : Stops events value
  isError : ∀ status, value = .ok status → efiError status = true

/-- A run that fails is a segment for any milestones: it promises none of them. -/
theorem Fails.segment {events : List Event} {value : Except Fault Status}
    (fails : Fails events value) (marks : List Milestone) (tables : List Table) :
    Segment marks tables events value := by
  refine ⟨fails.stops, fun status same success => ?_⟩
  rw [fails.isError status same] at success
  exact absurd success.symm Bool.false_ne_true

/-- If the second of two segments fails, the whole does. -/
theorem onSuccess_fails {first next : Run σ Status} {marks : List Milestone}
    {tables : List Table} (segment : Ensures first (Segment marks tables))
    (later : Ensures next Fails) : Ensures (onSuccess first next) Fails := by
  refine onSuccess_ensures segment ?_ ?_ ?_
  · exact fun events fault played => ⟨played.stops, by simp⟩
  · intro events status played isError
    refine ⟨played.stops, fun other same => ?_⟩
    rw [← Except.ok.inj same]
    exact isError
  · intro events status played success
    refine Ensures.weaken later (fun laterEvents value fails => ⟨?_, fails.isError⟩)
    exact fails.stops.after (played.stops.clean success)

/-- A table without a row that presses Yes is harmless. -/
theorem fromRows_harmless {table : Table} {rows : List ProcessingMap}
    (harmless : ∀ row ∈ rows, row.pressesYes = false) {event : Event}
    (within : FromRows table rows event) : Harmless event := by
  cases event with
  | called other row call status => exact harmless row within.2
  | selected other drive => rfl
  | stepped other row status => rfl
  | finished other => rfl

/-- A table that neither chooses drives nor has a row with a milestone of its own
reaches none, however far it gets. -/
theorem fromRows_unmarked {table : Table} {rows : List ProcessingMap}
    (plain : ∀ row ∈ rows, row.cmdProcessSet.cmdProcess ≠ .choiceHdd ∧ stepMark row = none)
    {events : List Event} (within : ∀ event ∈ events, FromRows table rows event) :
    milestones events = [] := by
  rw [milestones, List.filterMap_eq_nil_iff]
  intro event member
  have fromRows := within event member
  cases event with
  | called other row call status => rfl
  | selected other drive =>
    obtain ⟨-, row, inside, chooses⟩ := fromRows
    exact absurd chooses (plain row inside).1
  | stepped other row status =>
    rw [milestone, (plain row fromRows.2).2, ite_self]
  | finished other => rfl

/-- What a part of a run that never presses Yes amounts to. -/
def Prepares (marks : List Milestone) (tables : List Table) (part : Run σ Status) : Prop :=
  Ensures part (Segment marks tables) ∧ EmitsOnly Harmless part

/-- Preparations follow each other, with the milestones and the tables of both in their order.
-/
theorem Prepares.followedBy {first next : Run σ Status} {marks laterMarks : List Milestone}
    {tables laterTables : List Table} (segment : Prepares marks tables first)
    (later : Prepares laterMarks laterTables next) :
    Prepares (marks ++ laterMarks) (tables ++ laterTables) (onSuccess first next) :=
  ⟨onSuccess_segment segment.1 later.1, emitsOnly_onSuccess segment.2 later.2⟩

/-- The play of a table whose rows confirm nothing prepares the milestones of its rows. The
split takes the end row off, which the loop over the rows stops at. -/
theorem playMap_prepares (env : Env σ) (table : Table)
    (builds : searchSpecie env.raidCmdSection = some .build) (group : Option (List GroupHdd))
    (rows : List ProcessingMap) (split : table.rows env.raidCardType = rows ++ [endRow])
    (acts : ∀ row ∈ rows, row.cmdProcessSet.cmdProcess ≠ .nonAction)
    (keeps : ∀ row ∈ rows, row.cmdProcessSet.typeEnumSub ≠ .deleteRaidDrive)
    (harmless : ∀ row ∈ rows, row.pressesYes = false) :
    Prepares (tableMarks env group rows) [table] (playMap env table group) := by
  have played := playMap_segment env table builds group rows split acts keeps
  refine ⟨Ensures.weaken played (fun _ _ played => played.2), ?_⟩
  refine Ensures.weaken played (fun _ _ played event member => ?_)
  exact fromRows_harmless harmless (played.1 event member)

end Runs

end SmcPkg.CmdBuild
