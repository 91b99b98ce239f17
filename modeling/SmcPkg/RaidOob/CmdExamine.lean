import SmcPkg.RaidOob.Card

/-!
# Resolving and examining commands before they run

`CollectCfgCmdData` gathers the drives of the card's inventory and writes their
names into the commands' groups. `ExamineBasicForCmdRequire` then disables the
commands that lack something. Its status variable is declared outside the loop
over the commands, and a command for which no branch assigns it is judged by the
status another command left behind.

The inventory of the card is arbitrary. The flags of the drives are an array of 256, which
`parseCmdGroupLoop_below` shows to be large enough for every parsed number.
-/

namespace SmcPkg.CmdExamine

open CString RaidCmd Card

section Collect

/-- `GetHiiString` on the card's package list; NULL when the string is missing. -/
abbrev Strings := UInt16 → Option String

/-- `GROUP_HDD_NUMBER`. -/
def groupHddNumber : Nat := 128

/-- The inventory items that stand for a drive: references and checkboxes of the
drive and volume groups. -/
def isDriveItem (itemsType : ItemsType) (body : ItemsBody) : Bool :=
  (body.lsiItemOp.opCode = .ref || body.lsiItemOp.opCode = .checkbox) &&
    (itemsType = .hdg || itemsType = .rdg || itemsType = .jbod)

/-- All items of an inventory with the type of their set. -/
def allItems (items : List ItemsSet) : List (ItemsType × ItemsBody) :=
  items.flatMap (fun set => set.itemsBody.map (fun body => (set.raidItemsType, body)))

/-- One round of the gathering loop. The drive table has a fixed size and the name
is copied without a test for NULL. -/
def gatherItem (strings : Strings) (table : List GroupHdd) (item : ItemsType × ItemsBody) :
    Checked (List GroupHdd) :=
  if isDriveItem item.1 item.2 then
    match strings item.2.lsiItemOp.prompt with
    | none => .error .nullDeref
    | some name =>
      if table.length ≥ groupHddNumber then .error .overflow
      else .ok (table ++ [⟨item.2.hdNum, item.1, some name⟩])
  else .ok table

/-- The drive table `GroupHddTable` of an inventory. -/
def gatherDrives (strings : Strings) (items : List ItemsSet) : Checked (List GroupHdd) :=
  (allItems items).foldlM (gatherItem strings) []

/-- Look a drive up by number. A drive that is not found keeps whatever name it
has, and loses its type. -/
def resolveHdd (table : List GroupHdd) (hddType : ItemsType) (drive : GroupHdd) : GroupHdd :=
  match table.find? (fun entry => entry.hdNum = drive.hdNum) with
  | some entry =>
    ⟨drive.hdNum, if hddType = entry.hddType then hddType else .null, entry.hdHame⟩
  | none => { drive with hddType := .null }

/-- Look up every drive of a group section. -/
def resolveSection (table : List GroupHdd) (hddType : ItemsType) : CmdSection → CmdSection
  | .group drives => .group (drives.map (resolveHdd table hddType))
  | part => part

/-- Look up every drive of a command. -/
def resolveCmd (table : List GroupHdd) (cmd : CmdSet) : CmdSet :=
  { cmd with raidCmdSection :=
      cmd.raidCmdSection.map (resolveSection table (getHddTypeByCmd cmd.raidCmdSection)) }

/-- `CollectCfgCmdData`. -/
def collectCfgCmdData (strings : Strings) (items : List ItemsSet) (commands : List CmdSet) :
    Checked (List CmdSet) :=
  if commands = [] then .ok []
  else do
    let table ← gatherDrives strings items
    .ok (commands.map (resolveCmd table))

end Collect

section Examine

/-- The drive loop of `ExamineForCmdGroup`: a number seen before or a missing name
is an error. -/
def examineDrives : List GroupHdd → List Nat → Status → Status × List Nat
  | [], seen, status => (status, seen)
  | drive :: drives, seen, status =>
    examineDrives drives (drive.hdNum :: seen)
      (if drive.hdNum ∈ seen ∨ drive.hdHame = none then efiInvalidParameter else status)

/-- The section loop of `ExamineForCmdGroup`. It goes on to the next section only
for span levels. -/
def examineSections (level : Nat) : List CmdSection → List Nat → Status → Status
  | [], _, status => status
  | part :: rest, seen, status =>
    let (status, seen) := match part with
      | .group drives => examineDrives drives seen status
      | _ => (status, seen)
    if !efiError status && level > raidTypeNoSpan then examineSections level rest seen status
    else status

/-- A section that is not a group. -/
def notGroup : CmdSection → Bool
  | .group _ => false
  | _ => true

/-- `ExamineForCmdGroup`. -/
def examineForCmdGroup (sections : List CmdSection) (specie : CmdSpecie) : Status :=
  if searchGroup sections = none then efiNotFound
  else if specie = .build then
    examineSections (raidLevel sections) (sections.dropWhile notGroup) [] efiSuccess
  else efiSuccess

/-- The switch of `ExamineBasicForCmdRequire`: the status a command assigns, if any
branch of it does. The DELETE case falls through to the OTHER case. -/
def assigned (sections : List CmdSection) : CmdSpecie → Option Status
  | .build => some (examineForCmdGroup sections .build)
  | .delete =>
    if (searchJbod sections).isSome then some (examineForCmdGroup sections .other)
    else some (examineForCmdGroup sections .delete)
  | .other =>
    if (searchJbod sections).isSome then some (examineForCmdGroup sections .other) else none
  | .non => none

/-- One round of `ExamineBasicForCmdRequire`, with the status carried along. -/
def examineStep (status : Status) (cmd : CmdSet) : Status × CmdSet :=
  if cmd.cmdEnable then
    match searchSpecie cmd.raidCmdSection with
    | none => (status, { cmd with cmdEnable := false })
    | some specie =>
      let status := (assigned cmd.raidCmdSection specie).getD status
      (status, { cmd with cmdEnable := !efiError status })
  else (status, cmd)

/-- The loop of `ExamineBasicForCmdRequire`. -/
def examineFrom : Status → List CmdSet → List CmdSet
  | _, [] => []
  | status, cmd :: commands =>
    let (status, examined) := examineStep status cmd
    examined :: examineFrom status commands

/-- `ExamineBasicForCmdRequire`. -/
def examineBasicForCmdRequire (commands : List CmdSet) : List CmdSet :=
  examineFrom efiSuccess commands

end Examine

section Parsed

/-- Storing a number that was read keeps all numbers below 255. -/
theorem recordHdd_below {tempVal : Nat} {numbers next : List Nat}
    (started : tempVal = 0xFFFF ∨ tempVal < 0xFF) (small : ∀ number ∈ numbers, number < 0xFF)
    (stored : recordHdd tempVal numbers = .ok next) : ∀ number ∈ next, number < 0xFF := by
  rw [recordHdd] at stored
  split_ifs at stored with unread full
  · rw [← Except.ok.inj stored]
    exact small
  · rw [← Except.ok.inj stored]
    intro number member
    rcases List.mem_append.mp member with inside | last
    · exact small number inside
    · rw [List.mem_singleton.mp last]
      exact started.resolve_left unread

/-- The numbers of a group that was read are below 255. -/
theorem readGroup_below (text rest : List UInt8) (tempVal : Nat) (numbers read : List Nat)
    (started : tempVal = 0xFFFF ∨ tempVal < 0xFF) (small : ∀ number ∈ numbers, number < 0xFF)
    (done : readGroup tempVal numbers text = .ok (some (read, rest))) :
    ∀ number ∈ read, number < 0xFF := by
  induction text generalizing tempVal numbers with
  | nil => exact absurd done (by simp [readGroup])
  | cons c text inductionHypothesis =>
    rw [readGroup] at done
    by_cases digit : isDigit c = true
    · rw [if_pos digit] at done
      by_cases large : (if tempVal = 0xFFFF then 0 else tempVal) * 10 + digitValue c ≥ 0x0FF
      · rw [if_pos large] at done
        exact absurd done (by simp)
      · simp only [large, if_false] at done
        exact inductionHypothesis _ _ (Or.inr (by omega)) small done
    · rw [if_neg digit] at done
      cases stored : recordHdd tempVal numbers with
      | error fault =>
        simp only [stored, bind, Except.bind] at done
        split_ifs at done
        simp at done
      | ok next =>
        have below := recordHdd_below started small stored
        simp only [stored, bind, Except.bind] at done
        split_ifs at done
        · exact inductionHypothesis _ _ (Or.inl rfl) below done
        · obtain ⟨rfl, -⟩ := Prod.mk.inj (Option.some.inj (Except.ok.inj done))
          exact below
        · simp at done

/-- Every drive number of a parsed group section is below 255, so the array of 256
flags that the examination indexes with it is large enough. -/
theorem parseCmdGroupLoop_below (rounds : Nat) (line : List UInt8) (parsed : List CmdSection)
    (done : parseCmdGroupLoop rounds line = .ok parsed) (drives : List GroupHdd)
    (member : .group drives ∈ parsed) : ∀ drive ∈ drives, drive.hdNum < 0xFF := by
  induction rounds generalizing line parsed with
  | zero =>
    rw [← Except.ok.inj done] at member
    exact absurd member List.not_mem_nil
  | succ rounds inductionHypothesis =>
    rw [parseCmdGroupLoop, parseCmdGroupSub] at done
    cases key : afterKey 'G' line with
    | none =>
      simp only [key, bind, Except.bind, Except.ok.injEq] at done
      rw [← done] at member
      exact absurd member List.not_mem_nil
    | some body =>
      cases read : readGroup 0xFFFF [] body with
      | error fault => simp [key, read, bind, Except.bind] at done
      | ok result =>
        match result with
        | none =>
          simp only [key, read, bind, Except.bind, Except.ok.injEq] at done
          rw [← done] at member
          exact absurd member List.not_mem_nil
        | some ([], rest) =>
          simp only [key, read, bind, Except.bind, Except.ok.injEq] at done
          rw [← done] at member
          exact absurd member List.not_mem_nil
        | some (number :: numbers, rest) =>
          have below := readGroup_below body rest 0xFFFF [] _ (Or.inl rfl) (by simp) read
          cases further : parseCmdGroupLoop rounds rest with
          | error fault => simp [key, read, further, bind, Except.bind] at done
          | ok following =>
            simp only [key, read, further, bind, Except.bind, Except.ok.injEq] at done
            rw [← done] at member
            rcases List.mem_cons.mp member with same | later
            · intro drive inside
              rw [CmdSection.group.inj same] at inside
              obtain ⟨value, listed, rfl⟩ := List.mem_map.mp inside
              exact below value listed
            · exact inductionHypothesis rest following further later

end Parsed

section Independence

/-- The status a command itself gives to the loop's variable, if it does. -/
def ownStatus (cmd : CmdSet) : Option Status :=
  if cmd.cmdEnable then
    (searchSpecie cmd.raidCmdSection).bind (assigned cmd.raidCmdSection)
  else none

/-- The latest status that some command of a list has assigned. -/
def lastStatus (commands : List CmdSet) : Option Status := (commands.filterMap ownStatus).getLast?

/-- An enabled command that assigns no status: an OTHER command without a JBOD
action. -/
def Unassigned (cmd : CmdSet) : Prop :=
  cmd.cmdEnable = true ∧ (searchSpecie cmd.raidCmdSection).isSome = true ∧ ownStatus cmd = none

/-- The enabled flag a list position gets. -/
def enabledAt (commands : List CmdSet) (position : Nat) : Option Bool :=
  (examineBasicForCmdRequire commands)[position]?.map CmdSet.cmdEnable

/-- Every command of the list is judged as if it were alone, and a DELETE or BUILD
command without a group is disabled. -/
def Independent (commands : List CmdSet) : Prop :=
  ∀ before cmd after, commands = before ++ cmd :: after →
    enabledAt commands before.length = enabledAt [cmd] 0 ∧
    (searchSpecie cmd.raidCmdSection = some .build ∨
        searchSpecie cmd.raidCmdSection = some .delete →
      searchGroup cmd.raidCmdSection = none → enabledAt commands before.length = some false)

/-- One round leaves the command's own status, or the one it was given. -/
theorem examineStep_status (status : Status) (cmd : CmdSet) :
    (examineStep status cmd).1 = (ownStatus cmd).getD status := by
  rw [examineStep, ownStatus]
  split
  · cases searchSpecie cmd.raidCmdSection <;> rfl
  · rfl

/-- The status carried to a position is the latest one assigned before it. -/
theorem examineFrom_position (before : List CmdSet) (cmd : CmdSet) (after : List CmdSet)
    (status : Status) :
    (examineFrom status (before ++ cmd :: after))[before.length]? =
      some (examineStep ((lastStatus before).getD status) cmd).2 := by
  induction before generalizing status with
  | nil => rfl
  | cons first before inductionHypothesis =>
    have onward := inductionHypothesis (examineStep status first).1
    have carried : (lastStatus (first :: before)).getD status =
        (lastStatus before).getD (examineStep status first).1 := by
      rw [examineStep_status, lastStatus, lastStatus, List.filterMap_cons]
      cases ownStatus first with
      | none => rfl
      | some own =>
        cases assignments : before.filterMap ownStatus with
        | nil => rfl
        | cons next rest =>
          rw [List.getLast?_cons_cons, List.getLast?_eq_some_getLast (List.cons_ne_nil next rest)]
          rfl
    rw [carried]
    exact onward

/-- The flag at a position, in terms of the status carried there. -/
theorem enabledAt_position (before : List CmdSet) (cmd : CmdSet) (after : List CmdSet) :
    enabledAt (before ++ cmd :: after) before.length =
      some (examineStep ((lastStatus before).getD efiSuccess) cmd).2.cmdEnable := by
  rw [enabledAt, examineBasicForCmdRequire, examineFrom_position]
  rfl

/-- The flag of a command that stands alone. -/
theorem enabledAt_alone (cmd : CmdSet) :
    enabledAt [cmd] 0 = some (examineStep efiSuccess cmd).2.cmdEnable :=
  enabledAt_position [] cmd []

/-- The carried status matters to a command that assigns none, and to no other. -/
theorem examineStep_enable (status : Status) (cmd : CmdSet) :
    (Unassigned cmd → (examineStep status cmd).2.cmdEnable = !efiError status) ∧
      (¬ Unassigned cmd →
        (examineStep status cmd).2.cmdEnable = (examineStep efiSuccess cmd).2.cmdEnable) := by
  constructor
  · rintro ⟨enabled, known, none⟩
    obtain ⟨specie, found⟩ := Option.isSome_iff_exists.mp known
    rw [ownStatus, if_pos enabled, found, Option.bind_some] at none
    simp [examineStep, enabled, found, none]
  · intro assigns
    rw [examineStep, examineStep]
    split
    · rename_i enabled
      cases found : searchSpecie cmd.raidCmdSection with
      | none => rfl
      | some specie =>
        cases own : assigned cmd.raidCmdSection specie with
        | some status => simp only [own, Option.getD_some]
        | none =>
          refine absurd ⟨enabled, by rw [found]; rfl, ?_⟩ assigns
          rw [ownStatus, if_pos enabled, found, Option.bind_some, own]
    · rfl

/-- A DELETE or BUILD command without a group is disabled in every case. -/
theorem groupless_disabled (status : Status) (cmd : CmdSet)
    (specie : searchSpecie cmd.raidCmdSection = some .build ∨
      searchSpecie cmd.raidCmdSection = some .delete)
    (groupless : searchGroup cmd.raidCmdSection = none) :
    (examineStep status cmd).2.cmdEnable = false := by
  have refused (kind : CmdSpecie) : examineForCmdGroup cmd.raidCmdSection kind = efiNotFound := by
    rw [examineForCmdGroup, if_pos groupless]
  rw [examineStep]
  split
  · rcases specie with build | delete
    · simp only [build, assigned, refused, Option.getD_some]
      decide
    · simp only [delete, assigned, refused, ite_self, Option.getD_some]
      decide
  · rename_i disabled
    simpa using disabled

/-- A list is judged command by command exactly when no enabled command without a status of its own
comes while the latest assigned status is an error. Both sides are about the pure statuses of the
commands, so the condition can be read from a list before it is examined. -/
theorem independent_iff (commands : List CmdSet) :
    Independent commands ↔
      ∀ before cmd after, commands = before ++ cmd :: after → Unassigned cmd →
        ∀ status, lastStatus before = some status → efiError status = false := by
  constructor
  · intro independent before cmd after split unassigned status last
    have alike := (independent before cmd after split).1
    rw [split, enabledAt_position, enabledAt_alone, last,
      (examineStep_enable _ cmd).1 unassigned, (examineStep_enable _ cmd).1 unassigned] at alike
    simpa [efiError, efiSuccess] using alike
  · intro clean before cmd after split
    rw [split, enabledAt_position, enabledAt_alone]
    constructor
    · by_cases unassigned : Unassigned cmd
      · rw [(examineStep_enable _ cmd).1 unassigned, (examineStep_enable _ cmd).1 unassigned]
        cases last : lastStatus before with
        | none => rfl
        | some status =>
          have good := clean before cmd after split unassigned status last
          simp only [Option.getD_some, good]
          decide
      · rw [(examineStep_enable _ cmd).2 unassigned]
    · intro specie groupless
      rw [groupless_disabled _ cmd specie groupless]

/-- A BUILD command without a group, and behind it an OTHER command. -/
def failingThenOther : List CmdSet :=
  [⟨[0x42], [.command .build], true⟩, ⟨[0x4F], [.command .other], true⟩]

/-- The OTHER command is disabled behind the failing BUILD command, but not alone. -/
theorem not_independent_failingThenOther : ¬ Independent failingThenOther := by
  intro independent
  have alike := (independent [⟨[0x42], [.command .build], true⟩] ⟨[0x4F], [.command .other], true⟩ [] rfl).1
  exact absurd alike (by decide)

end Independence

section Agreement

/-- The drives `HandleBuildRaidCmd` selects: those of the first group below level
10, those of all groups otherwise. -/
def selectedDrives (sections : List CmdSection) : List GroupHdd :=
  if raidLevel sections < raidTypeR10 then (searchGroup sections).getD []
  else (searchGroups sections).flatten

/-- Drives with different numbers that all have a name. -/
def Sound (drives : List GroupHdd) : Prop :=
  (drives.map GroupHdd.hdNum).Nodup ∧ ∀ drive ∈ drives, drive.hdHame.isSome = true

/-- An error found in the drive loop stays. -/
theorem examineDrives_error (drives : List GroupHdd) (seen : List Nat) {status : Status}
    (failed : efiError status = true) : efiError (examineDrives drives seen status).1 = true := by
  induction drives generalizing seen status with
  | nil => exact failed
  | cons drive drives inductionHypothesis =>
    refine inductionHypothesis (drive.hdNum :: seen) ?_
    split
    · decide
    · exact failed

/-- A drive loop without error has seen only new, named drives. -/
theorem examineDrives_sound (drives : List GroupHdd) (seen : List Nat) (status : Status)
    (passed : efiError (examineDrives drives seen status).1 = false) :
    Sound drives ∧ (∀ drive ∈ drives, drive.hdNum ∉ seen) ∧ efiError status = false ∧
      ∀ number, number ∈ (examineDrives drives seen status).2 ↔
        number ∈ seen ∨ number ∈ drives.map GroupHdd.hdNum := by
  induction drives generalizing seen status with
  | nil => exact ⟨⟨List.nodup_nil, by simp⟩, by simp, passed, by simp [examineDrives]⟩
  | cons drive drives inductionHypothesis =>
    rw [examineDrives] at passed ⊢
    have good : ¬ (drive.hdNum ∈ seen ∨ drive.hdHame = none) := by
      intro bad
      rw [if_pos bad] at passed
      have kept := examineDrives_error drives (drive.hdNum :: seen)
        (by decide : efiError efiInvalidParameter = true)
      exact absurd (kept.symm.trans passed) (by decide)
    rw [if_neg good] at passed ⊢
    rw [not_or] at good
    obtain ⟨⟨distinct, named⟩, unseen, clean, numbers⟩ := inductionHypothesis _ _ passed
    refine ⟨⟨?_, ?_⟩, ?_, clean, ?_⟩
    · rw [List.map_cons, List.nodup_cons]
      refine ⟨?_, distinct⟩
      intro member
      obtain ⟨other, inside, same⟩ := List.mem_map.mp member
      exact unseen other inside (by simp [same])
    · intro other member
      rcases List.mem_cons.mp member with rfl | inside
      · exact Option.isSome_iff_ne_none.mpr good.2
      · exact named other inside
    · intro other member
      rcases List.mem_cons.mp member with rfl | inside
      · exact good.1
      · exact fun again => unseen other inside (List.mem_cons_of_mem _ again)
    · intro number
      rw [numbers]
      simp only [List.mem_cons, List.map_cons]
      tauto

/-- Two sound lists without a common number are sound together. -/
theorem Sound.append {left right : List GroupHdd} (first : Sound left) (second : Sound right)
    (apart : ∀ drive ∈ right, drive.hdNum ∉ left.map GroupHdd.hdNum) : Sound (left ++ right) := by
  constructor
  · rw [List.map_append, List.nodup_append]
    refine ⟨first.1, second.1, ?_⟩
    intro number inLeft other inRight same
    obtain ⟨drive, inside, rfl⟩ := List.mem_map.mp inRight
    exact apart drive inside (same ▸ inLeft)
  · intro drive member
    rcases List.mem_append.mp member with inside | inside
    · exact first.2 drive inside
    · exact second.2 drive inside

/-- For a span level, a section loop without error has passed over all groups. -/
theorem examineSections_span {level : Nat} (span : raidTypeNoSpan < level)
    (sections : List CmdSection) (seen : List Nat) (status : Status)
    (passed : efiError (examineSections level sections seen status) = false) :
    Sound (searchGroups sections).flatten ∧
      ∀ drive ∈ (searchGroups sections).flatten, drive.hdNum ∉ seen := by
  induction sections generalizing seen status with
  | nil => exact ⟨⟨List.nodup_nil, by simp [searchGroups]⟩, by simp [searchGroups]⟩
  | cons part rest inductionHypothesis =>
    have goesOn (status : Status) (seen : List Nat)
        (ended : efiError (if !efiError status && level > raidTypeNoSpan then
          examineSections level rest seen status else status) = false) :
        efiError status = false ∧ efiError (examineSections level rest seen status) = false := by
      by_cases failed : efiError status = true
      · simp [failed] at ended
      · simpa [failed, span] using ended
    cases part with
    | group drives =>
      obtain ⟨clean, onward⟩ := goesOn _ _ passed
      obtain ⟨sound, unseen, -, numbers⟩ := examineDrives_sound drives seen status clean
      obtain ⟨soundRest, unseenRest⟩ := inductionHypothesis _ _ onward
      have split : (searchGroups (.group drives :: rest)).flatten =
          drives ++ (searchGroups rest).flatten := by
        simp [searchGroups]
      rw [split]
      constructor
      · refine sound.append soundRest ?_
        intro drive member again
        exact unseenRest drive member ((numbers _).mpr (Or.inr again))
      · intro drive member
        rcases List.mem_append.mp member with inside | inside
        · exact unseen drive inside
        · exact fun again => unseenRest drive inside ((numbers _).mpr (Or.inl again))
    | _ => exact inductionHypothesis _ _ (goesOn _ _ passed).2

/-- Below the span levels, the section loop stops behind the first group. -/
theorem examineSections_single {level : Nat} (single : ¬ level > raidTypeNoSpan)
    (drives : List GroupHdd) (rest : List CmdSection) (seen : List Nat) (status : Status) :
    examineSections level (.group drives :: rest) seen status =
      (examineDrives drives seen status).1 := by
  have stops : (!efiError (examineDrives drives seen status).1 &&
      decide (level > raidTypeNoSpan)) = false := by
    rw [decide_eq_false single, Bool.and_false]
  change (if (!efiError (examineDrives drives seen status).1 && decide (level > raidTypeNoSpan)) = true
    then examineSections level rest (examineDrives drives seen status).2
      (examineDrives drives seen status).1
    else (examineDrives drives seen status).1) = _
  rw [stops]
  rfl

/-- The sections from the first group on contain all groups. -/
theorem searchGroups_dropWhile (sections : List CmdSection) :
    searchGroups (sections.dropWhile notGroup) = searchGroups sections := by
  induction sections with
  | nil => rfl
  | cons part rest inductionHypothesis =>
    cases part with
    | group drives => rfl
    | _ => exact inductionHypothesis

/-- The validator's and the executor's choice of groups coincide: a BUILD command
that passes has sound drives to select. -/
theorem examineForCmdGroup_sound (sections : List CmdSection)
    (passed : efiError (examineForCmdGroup sections .build) = false) :
    Sound (selectedDrives sections) := by
  rw [examineForCmdGroup] at passed
  split at passed
  · exact absurd passed (by decide)
  · rename_i grouped
    rw [if_pos rfl] at passed
    rw [selectedDrives]
    split
    · rename_i single
      have noSpan : ¬ raidLevel sections > raidTypeNoSpan := by
        simp only [raidTypeNoSpan, raidTypeR10] at single ⊢
        omega
      have first : searchGroup (sections.dropWhile notGroup) = searchGroup sections := by
        rw [searchGroup, searchGroup, searchGroups_dropWhile]
      rw [← first] at grouped ⊢
      cases rest : sections.dropWhile notGroup with
      | nil =>
        rw [rest] at grouped
        exact absurd rfl grouped
      | cons part others =>
        have isGroup := List.head?_dropWhile_not notGroup sections
        rw [rest] at passed isGroup
        cases part with
        | group drives =>
          rw [examineSections_single noSpan] at passed
          exact (examineDrives_sound drives [] efiSuccess passed).1
        | _ => exact absurd isGroup (by simp [notGroup])
    · rename_i spanned
      have span : raidTypeNoSpan < raidLevel sections := by
        simp only [raidTypeNoSpan, raidTypeR10] at spanned ⊢
        omega
      rw [← searchGroups_dropWhile]
      exact (examineSections_span span _ _ _ passed).1

/-- Every examined command is the result of one round. -/
theorem examineFrom_member (commands : List CmdSet) (status : Status) (cmd : CmdSet)
    (member : cmd ∈ examineFrom status commands) :
    ∃ carried first, first ∈ commands ∧ cmd = (examineStep carried first).2 := by
  induction commands generalizing status with
  | nil => exact absurd member List.not_mem_nil
  | cons first commands inductionHypothesis =>
    rcases List.mem_cons.mp member with rfl | later
    · exact ⟨status, first, List.mem_cons_self, rfl⟩
    · obtain ⟨carried, other, inside, same⟩ := inductionHypothesis _ later
      exact ⟨carried, other, List.mem_cons_of_mem first inside, same⟩

/-- A round changes nothing but the flag. -/
theorem examineStep_sections (status : Status) (cmd : CmdSet) :
    (examineStep status cmd).2.raidCmdSection = cmd.raidCmdSection := by
  rw [examineStep]
  split
  · cases searchSpecie cmd.raidCmdSection <;> rfl
  · rfl

/-- An enabled BUILD command of an examined list has passed its own examination. -/
theorem examined_build (commands : List CmdSet) (cmd : CmdSet)
    (member : cmd ∈ examineBasicForCmdRequire commands) (enabled : cmd.cmdEnable = true)
    (build : searchSpecie cmd.raidCmdSection = some .build) :
    efiError (examineForCmdGroup cmd.raidCmdSection .build) = false := by
  obtain ⟨carried, first, -, rfl⟩ := examineFrom_member commands efiSuccess cmd member
  rw [examineStep_sections] at build ⊢
  rw [examineStep] at enabled
  split at enabled
  · simpa [build, assigned] using enabled
  · rename_i disabled
    exact absurd enabled disabled

/-- The drive items of an inventory. -/
def driveItems (items : List ItemsSet) : List (ItemsType × ItemsBody) :=
  (allItems items).filter (fun item => isDriveItem item.1 item.2)

/-- Gathering ends well exactly when the drives fit the table and have names. -/
theorem gather_ok (strings : Strings) (items : List (ItemsType × ItemsBody))
    (table : List GroupHdd) (small : table.length ≤ groupHddNumber) :
    (∃ gathered, items.foldlM (gatherItem strings) table = .ok gathered) ↔
      table.length + (items.filter (fun item => isDriveItem item.1 item.2)).length ≤
          groupHddNumber ∧
        ∀ item ∈ items.filter (fun item => isDriveItem item.1 item.2),
          (strings item.2.lsiItemOp.prompt).isSome = true := by
  induction items generalizing table with
  | nil => simp [small, pure, Except.pure]
  | cons item items inductionHypothesis =>
    by_cases drive : isDriveItem item.1 item.2 = true
    · cases name : strings item.2.lsiItemOp.prompt with
      | none => simp [gatherItem, drive, name, bind, Except.bind]
      | some text =>
        by_cases full : table.length ≥ groupHddNumber
        · simp [gatherItem, drive, name, full, bind, Except.bind]
          omega
        · have onward := inductionHypothesis (table ++ [⟨item.2.hdNum, item.1, some text⟩])
            (by simp; omega)
          simp only [List.foldlM_cons, gatherItem, drive, if_true, name, if_neg full, bind,
            Except.bind] at onward ⊢
          rw [onward]
          simp [drive, name]
          omega
    · have onward := inductionHypothesis table small
      simpa [gatherItem, drive, bind, Except.bind] using onward

/-- Collecting completes, and every BUILD command that is enabled after the
examination has sound drives to select. -/
def Agrees (strings : Strings) (items : List ItemsSet) (commands : List CmdSet) : Prop :=
  ∃ collected, collectCfgCmdData strings items commands = .ok collected ∧
    ∀ cmd ∈ examineBasicForCmdRequire collected, cmd.cmdEnable = true →
      searchSpecie cmd.raidCmdSection = some .build → Sound (selectedDrives cmd.raidCmdSection)

/-- Validator and executor agree exactly when there is no command at all, or the inventory has at most
128 drives and all of their names can be read. The inventory is arbitrary: with more drives the
table of the validator is indexed behind its end. -/
theorem agrees_iff (strings : Strings) (items : List ItemsSet) (commands : List CmdSet) :
    Agrees strings items commands ↔
      commands = [] ∨ (driveItems items).length ≤ groupHddNumber ∧
        ∀ item ∈ driveItems items, (strings item.2.lsiItemOp.prompt).isSome = true := by
  have gathered := gather_ok strings (allItems items) [] (Nat.zero_le _)
  rw [List.length_nil, Nat.zero_add] at gathered
  have sound (collected : List CmdSet) : ∀ cmd ∈ examineBasicForCmdRequire collected,
      cmd.cmdEnable = true → searchSpecie cmd.raidCmdSection = some .build →
        Sound (selectedDrives cmd.raidCmdSection) := by
    intro cmd member enabled build
    exact examineForCmdGroup_sound _ (examined_build collected cmd member enabled build)
  by_cases empty : commands = []
  · simp only [empty, true_or, iff_true]
    exact ⟨[], rfl, sound []⟩
  · rw [driveItems, ← gathered]
    simp only [empty, false_or]
    constructor
    · rintro ⟨collected, done, -⟩
      rw [collectCfgCmdData, if_neg empty] at done
      cases table : gatherDrives strings items with
      | error fault => simp [table, bind, Except.bind] at done
      | ok drives => exact ⟨drives, table⟩
    · rintro ⟨drives, table⟩
      refine ⟨commands.map (resolveCmd drives), ?_, sound _⟩
      rw [collectCfgCmdData, if_neg empty, gatherDrives, table]
      rfl

/-- An inventory with one drive more than the table holds. -/
def crowded : List ItemsSet :=
  [⟨"", "", .hdg, List.replicate 129 ⟨0, 0, ⟨.checkbox, 0, 0, 0, 0, 0, 0, 0, 0⟩⟩⟩]

/-- With 129 drives the table overflows before anything is examined. -/
theorem not_agrees_crowded :
    ¬ Agrees (fun _ => some "Drive") crowded [⟨[0x42], [.command .build], true⟩] := by
  rintro ⟨collected, done, -⟩
  have overflows : collectCfgCmdData (fun _ => some "Drive") crowded
      [⟨[0x42], [.command .build], true⟩] = .error .overflow := by decide +kernel
  rw [overflows] at done
  exact absurd done (by simp)

end Agreement

end SmcPkg.CmdExamine
