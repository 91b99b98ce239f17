import SmcPkg.RaidOob.SessionHook

/-!
# Commands over whole runs

The commands of a card stay on its list from call to call, enabled unless they have
failed, and parsing starts to link at the head of the list again. As long as no call
comes to a card with a command that would run once more, with a string that is on
the list already, or with a list that parsing would cut, every command string is
carried out in at most one call and no command is lost.
-/

namespace SmcPkg.Session

open RaidCmd VarTable Card CmdExamine ApplyData BrowserHook Traced

section Link

/-- The strings of a list of commands. -/
def strings (commands : List CmdSet) : List (List UInt16) := commands.map CmdSet.cmdString

/-- Linking behind the last command appends. -/
theorem foldl_linkCommand (accepted commands : List CmdSet) (cursor : Nat)
    (last : commands.length = cursor + 1) :
    (accepted.foldl linkCommand (commands, some cursor)).1 = commands ++ accepted := by
  induction accepted generalizing commands cursor with
  | nil => simp
  | cons cmd accepted inductionHypothesis =>
    rw [List.foldl_cons, linkCommand]
    simp only
    rw [List.take_of_length_le (by omega), inductionHypothesis _ _ (by simp [last]),
      List.append_assoc, List.singleton_append]

/-- What is on the list after linking: of the old commands only the head, once
anything is linked. -/
theorem linkCommands_eq (commands accepted : List CmdSet) :
    linkCommands commands accepted =
      if accepted = [] then commands else commands.take 1 ++ accepted := by
  rw [linkCommands]
  cases accepted with
  | nil => rfl
  | cons cmd accepted =>
    rw [if_neg (List.cons_ne_nil _ _), List.foldl_cons]
    cases commands with
    | nil =>
      simp only [linkCommand, if_true]
      exact foldl_linkCommand accepted [cmd] 0 rfl
    | cons head tail =>
      simp only [linkCommand, List.cons_ne_nil, if_false]
      rw [foldl_linkCommand accepted _ 1 (by simp)]
      simp

end Link

section Examined

/-- A command of this kind is carried out on this type of card, once it is enabled. -/
def runnable (raidCardType : RaidType) (sections : List CmdSection) : Bool :=
  (raidCardType = .raid3108 || raidCardType = .raid2208) &&
    (searchSpecie sections).any (fun specie => specie ≠ .non)

/-- A command that has a function is one that the card can run. -/
theorem raidCmdFunction_runnable {σ : Type} {raidCardType : RaidType} {sections : List CmdSection}
    {function : CmdExecute.Env σ → CmdExecute.Run σ Status}
    (found : (searchSpecie sections).bind (raidCmdFunction raidCardType) = some function) :
    runnable raidCardType sections = true := by
  obtain ⟨specie, searched, known⟩ := Option.bind_eq_some_iff.mp found
  unfold raidCmdFunction at known
  split at known
  · rename_i carded
    have real : specie ≠ .non := by
      rintro rfl
      simp at known
    simp [runnable, searched, real, carded]
  · simp at known

/-- A command after resolving or examining: the same string, of the same kind, and
enabled only if it was enabled before. -/
structure Follows (raidCardType : RaidType) (old new : CmdSet) : Prop where
  cmdString : new.cmdString = old.cmdString
  enabled : new.cmdEnable = true → old.cmdEnable = true
  kind : runnable raidCardType new.raidCmdSection = runnable raidCardType old.raidCmdSection

variable {raidCardType : RaidType}

/-- The resolution of the drives changes no specie: it rewrites groups only. -/
theorem searchSpecie_resolved (table : List GroupHdd) (hddType : ItemsType)
    (sections : List CmdSection) :
    searchSpecie (sections.map (resolveSection table hddType)) = searchSpecie sections := by
  rw [searchSpecie, searchSpecie, List.findSome?_map]
  congr 1
  funext part
  cases part <;> rfl

/-- Resolving the drives of the commands. -/
theorem collectCfgCmdData_follows {names : Strings} {items : List ItemsSet}
    {commands resolved : List CmdSet}
    (done : collectCfgCmdData names items commands = .ok resolved) :
    List.Forall₂ (Follows raidCardType) commands resolved := by
  rw [collectCfgCmdData] at done
  split at done
  case isTrue none =>
    rw [none, ← Except.ok.inj done]
    exact .nil
  case isFalse =>
    cases gathered : gatherDrives names items with
    | error fault => simp [gathered, bind, Except.bind] at done
    | ok table =>
      simp only [gathered, bind, Except.bind] at done
      rw [← Except.ok.inj done]
      refine List.forall₂_map_right_iff.mpr (List.forall₂_same.mpr (fun cmd _ => ?_))
      refine ⟨rfl, fun enabled => enabled, ?_⟩
      rw [runnable, runnable, resolveCmd, searchSpecie_resolved]

/-- The examination of a command leaves its text and sections, and at most disables it. -/
theorem examineStep_follows (status : Status) (cmd : CmdSet) :
    Follows raidCardType cmd (examineStep status cmd).2 := by
  rw [examineStep]
  split
  · rename_i enabled
    split
    · exact ⟨rfl, fun _ => enabled, rfl⟩
    · exact ⟨rfl, fun _ => enabled, rfl⟩
  · exact ⟨rfl, fun enabled => enabled, rfl⟩

/-- Examining the commands. -/
theorem examineFrom_follows (commands : List CmdSet) (status : Status) :
    List.Forall₂ (Follows raidCardType) commands (examineFrom status commands) := by
  induction commands generalizing status with
  | nil => exact .nil
  | cons cmd commands inductionHypothesis =>
    exact .cons (examineStep_follows status cmd) (inductionHypothesis _)

/-- What follows a follower of a command follows the command: it keeps the text and only
disables. -/
theorem Follows.trans {old middle new : CmdSet} (first : Follows raidCardType old middle)
    (second : Follows raidCardType middle new) : Follows raidCardType old new :=
  ⟨second.cmdString.trans first.cmdString, fun enabled => first.enabled (second.enabled enabled),
    second.kind.trans first.kind⟩

/-- Lists of commands follow each other step by step. -/
theorem follows_trans {old middle new : List CmdSet}
    (first : List.Forall₂ (Follows raidCardType) old middle)
    (second : List.Forall₂ (Follows raidCardType) middle new) :
    List.Forall₂ (Follows raidCardType) old new := by
  induction first generalizing new with
  | nil => exact second
  | cons head _ inductionHypothesis =>
    cases second with
    | cons next rest => exact .cons (head.trans next) (inductionHypothesis rest)

/-- Commands that are left alone follow themselves. -/
theorem follows_refl (commands : List CmdSet) :
    List.Forall₂ (Follows raidCardType) commands commands :=
  List.forall₂_same.mpr (fun _ _ => ⟨rfl, fun enabled => enabled, rfl⟩)

/-- Commands that follow others have their texts in the same order. -/
theorem follows_strings {old new : List CmdSet}
    (follows : List.Forall₂ (Follows raidCardType) old new) : strings new = strings old := by
  induction follows with
  | nil => rfl
  | cons head _ inductionHypothesis =>
    rw [strings, List.map_cons, head.cmdString]
    exact congrArg _ inductionHypothesis

/-- Each of the later commands has an origin among the earlier ones. -/
theorem follows_member {old new : List CmdSet}
    (follows : List.Forall₂ (Follows raidCardType) old new) {cmd : CmdSet} (member : cmd ∈ new) :
    ∃ origin ∈ old, Follows raidCardType origin cmd := by
  induction follows with
  | nil => exact absurd member List.not_mem_nil
  | @cons origin _ _ _ head _ inductionHypothesis =>
    rcases List.mem_cons.mp member with rfl | inside
    · exact ⟨origin, List.mem_cons_self, head⟩
    · obtain ⟨earlier, earlierIn, related⟩ := inductionHypothesis inside
      exact ⟨earlier, List.mem_cons_of_mem _ earlierIn, related⟩

end Examined

section Table

variable {σ : Type} {firmware : Firmware} {index : Nat} {start : CardState σ}

/-- Some command with this string is on the list, enabled and of a kind that is carried
out. -/
def Allowed (raidCardType : RaidType) (commands : List CmdSet) (cmd : CmdSet) : Prop :=
  ∃ origin ∈ commands, origin.cmdString = cmd.cmdString ∧ origin.cmdEnable = true ∧
    runnable raidCardType origin.raidCmdSection = true

/-- The events a card can leave behind in one call, with the strings that are on its
list then: nothing, or one parse and the commands carried out after it. -/
inductive Handled (start : CardState σ) (index : Nat) :
    List Event → List (List UInt16) → Prop
  | untouched : Handled start index [] (strings start.raidCmdSet)
  | handled (accepted executed : List CmdSet)
      (allowed : ∀ cmd ∈ executed,
        Allowed start.raidCardType (linkCommands start.raidCmdSet accepted) cmd) :
      Handled start index
        (.parsed index start.raidCardType start.raidCmdSet accepted
          (linkCommands start.raidCmdSet accepted) :: executed.map (Event.executed index))
        (strings (linkCommands start.raidCmdSet accepted))

/-- Before the commands are parsed. -/
def Fresh (start : CardState σ) (written : List Event) (working : Working σ) : Prop :=
  written = [] ∧ working.card.raidCmdSet = start.raidCmdSet ∧
    working.card.raidCardType = start.raidCardType

/-- The commands have been parsed, and perhaps resolved and examined. -/
def Ready (start : CardState σ) (index : Nat) (written : List Event) (working : Working σ) :
    Prop :=
  ∃ accepted, written = [.parsed index start.raidCardType start.raidCmdSet accepted
      (linkCommands start.raidCmdSet accepted)] ∧
    List.Forall₂ (Follows start.raidCardType) (linkCommands start.raidCmdSet accepted)
      working.card.raidCmdSet ∧
    working.card.raidCardType = start.raidCardType

/-- However far the table has come. -/
def Ended (start : CardState σ) (index : Nat) (written : List Event) (working : Working σ) :
    Prop :=
  Handled start index written (strings working.card.raidCmdSet)

/-- The events at a fault. -/
def Faulted (start : CardState σ) (index : Nat) (written : List Event) (_ : Working σ) : Prop :=
  ∃ final, Handled start index written final

/-- A card before its first row is as one that has ended: nothing is accepted. -/
theorem Fresh.ended {written : List Event} {working : Working σ}
    (fresh : Fresh start written working) : Ended start index written working := by
  obtain ⟨rfl, same, -⟩ := fresh
  rw [Ended, same]
  exact .untouched

/-- A card whose commands are examined, and none of them run, is as one that has ended. -/
theorem Ready.ended {written : List Event} {working : Working σ}
    (ready : Ready start index written working) : Ended start index written working := by
  obtain ⟨accepted, rfl, follows, -⟩ := ready
  rw [Ended, follows_strings follows]
  exact .handled accepted [] (by simp)

/-- At the end of a card all that a fault may leave holds as well. -/
theorem Ended.faulted {written : List Event} {working : Working σ}
    (ended : Ended start index written working) : Faulted start index written working :=
  ⟨_, ended⟩

/-- A condition that only depends on the commands and the type of the card. -/
def Settled (holds : List Event → Working σ → Prop) : Prop :=
  ∀ written working later, later.card.raidCmdSet = working.card.raidCmdSet →
    later.card.raidCardType = working.card.raidCardType → holds written working →
    holds written later

/-- Steps that write no command leave a card as it is before its first row. -/
theorem fresh_settled : Settled (Fresh start) := by
  rintro written working later commands raidCardType ⟨none, same, kind⟩
  exact ⟨none, commands.trans same, raidCardType.trans kind⟩

/-- Steps that write no command leave the examined commands. -/
theorem ready_settled : Settled (Ready start index) := by
  rintro written working later commands raidCardType ⟨accepted, events, follows, kind⟩
  exact ⟨accepted, events, by rw [commands]; exact follows, raidCardType.trans kind⟩

/-- Steps that write no command leave a card that has ended. -/
theorem ended_settled : Settled (Ended start index) := by
  intro written working later commands raidCardType ended
  rw [Ended, commands]
  exact ended

/-- The rows that leave the commands alone. -/
def leavesCommands : ChangeFunc → Bool
  | .parseRaidCfgCmdString => false
  | .collectCfgCmdData => false
  | .examineBasicForCmdRequire => false
  | .handleRaidCfgCmdString => false
  | _ => true

/-- The records of the changed questions are read without a command, so whatever settles stays
over the loop. -/
theorem accessRecords_settled {holds faulted : List Event → Working σ → Prop}
    (settled : Settled holds) (failing : ∀ written working, holds written working →
      faulted written working) (records : List ChRecord) :
    Leads holds (accessRecords records) (fun _ => holds) faulted := by
  induction records with
  | nil => exact leads_pure (fun _ _ before => before)
  | cons record records inductionHypothesis =>
    refine leads_bind (fun _ => holds) ?_ (fun _ => inductionHypothesis)
    rw [accessRecord]
    split
    · refine leads_current_bind (fun seen => ?_)
      split
      · rintro written working ⟨before, rfl⟩
        simp only [changeCard, update, List.append_nil]
        exact settled written working _ rfl rfl before
      · exact leads_fail (fun written working before => failing written working before.1)
    · exact leads_pure (fun _ _ before => before)

/-- A row of the table that leaves the commands alone keeps whatever settles, also where it
faults. -/
theorem func_settled {holds faulted : List Event → Working σ → Prop} (settled : Settled holds)
    (failing : ∀ written working, holds written working → faulted written working)
    {row : ChangeFunc} (leaves : leavesCommands row = true) :
    Leads holds (row.func firmware index) (fun _ => holds) faulted := by
  cases row with
  | initialLsiVarHashTable => exact leads_pure (fun _ _ before => before)
  | checkChangeableItemsInChangedVar =>
    refine leads_current_bind (fun seen => ?_)
    refine leads_lift_bind (fun _ _ before => failing _ _ before.1) (fun marks _ => ?_)
    exact leads_changeCard (fun written working before => settled written working _ rfl rfl before.1)
  | changedVarToOOBVarBuffer =>
    refine leads_current_bind (fun seen => ?_)
    refine leads_lift_bind (fun _ _ before => failing _ _ before.1) (fun tables _ => ?_)
    exact leads_changeCard (fun written working before => settled written working _ rfl rfl before.1)
  | hookBrowser2Protocol =>
    refine leads_current_bind (fun seen => ?_)
    refine leads_update_bind (leads_pure ?_)
    rintro written working ⟨earlier, rfl, before, -⟩
    exact settled written earlier _ rfl rfl before
  | accessRAIDRecordtoChangeSetting =>
    refine leads_current_bind (fun seen => ?_)
    refine leads_bind (fun _ => holds) ?_ (fun _ => leads_pure (fun _ _ before => before))
    exact Leads.weaken (accessRecords_settled settled failing _) (fun _ _ before => before.1)
      (fun _ _ _ after => after)
  | parseRaidCfgCmdString => simp [leavesCommands] at leaves
  | collectCfgCmdData => simp [leavesCommands] at leaves
  | examineBasicForCmdRequire => simp [leavesCommands] at leaves
  | handleRaidCfgCmdString => simp [leavesCommands] at leaves

/-- The row of the parser makes the commands of the card ready: those of the variable, in their
order, and each as it was parsed. -/
theorem parseRow_ready : Leads (Fresh start) (parseRow firmware index)
    (fun status written working => status = efiSuccess ∧ Ready start index written working)
    (Faulted start index) := by
  refine leads_current_bind (fun seen => ?_)
  refine leads_lift_bind (fun _ _ before => before.1.ended.faulted) (fun accepted _ => ?_)
  refine leads_emit_bind (leads_changeCard ?_)
  rintro written working ⟨earlier, rfl, ⟨rfl, same, kind⟩, rfl⟩
  refine ⟨rfl, accepted, by rw [same, kind]; rfl, ?_, kind⟩
  rw [← same]
  exact follows_refl _

/-- The row that resolves the drives leaves the commands ready. -/
theorem collectRow_ready : Leads (Ready start index) (collectRow : Step σ Status)
    (fun status written working => status = efiSuccess ∧ Ready start index written working)
    (Faulted start index) := by
  refine leads_current_bind (fun seen => ?_)
  refine leads_lift_bind (fun _ _ before => before.1.ended.faulted) (fun resolved done => ?_)
  refine leads_changeCard ?_
  rintro written working ⟨⟨accepted, events, follows, kind⟩, rfl⟩
  exact ⟨rfl, accepted, events, follows_trans follows (collectCfgCmdData_follows done), kind⟩

/-- The row that examines the commands leaves them ready: it disables some and runs none. -/
theorem examineRow_ready : Leads (Ready start index) (examineRow : Step σ Status)
    (fun status written working => status = efiSuccess ∧ Ready start index written working)
    (Faulted start index) := by
  refine leads_changeCard ?_
  rintro written working ⟨accepted, events, follows, kind⟩
  exact ⟨rfl, accepted, events, follows_trans follows (examineFrom_follows _ _), kind⟩

/-- While the commands are carried out: every command written down was allowed. -/
def Carrying (start : CardState σ) (index : Nat) (accepted : List CmdSet) (written : List Event)
    (working : Working σ) : Prop :=
  working.card.raidCardType = start.raidCardType ∧ ∃ executed : List CmdSet,
    written = .parsed index start.raidCardType start.raidCmdSet accepted
      (linkCommands start.raidCmdSet accepted) :: executed.map (Event.executed index) ∧
    ∀ cmd ∈ executed, Allowed start.raidCardType (linkCommands start.raidCmdSet accepted) cmd

/-- A fault between two commands leaves what was accepted so far. -/
theorem Carrying.faulted {accepted : List CmdSet} {written : List Event} {working : Working σ}
    (carrying : Carrying start index accepted written working) :
    Faulted start index written working := by
  obtain ⟨-, executed, rfl, allowed⟩ := carrying
  exact ⟨_, .handled accepted executed allowed⟩

/-- Carrying out a command keeps the type of the card and the string of the command. -/
theorem runFunction_keeps (firmware : Firmware) (function : CmdExecute.Env σ → CmdExecute.Run σ Status) (cmd : CmdSet)
    (working : Working σ) :
    ∃ later value, runFunction firmware function cmd working = ⟨[], later, value⟩ ∧
      later.card.raidCardType = working.card.raidCardType ∧
      ∀ result, value = .ok result → result.cmdString = cmd.cmdString := by
  refine ⟨_, _, rfl, rfl, ?_⟩
  intro result done
  rcases value : (function ⟨working.card.access, working.card.raidCardType, cmd.raidCmdSection,
    firmware.fuel⟩ ⟨working.card.driver, working.card.tables, working.card.generation,
      cmd.cmdEnable⟩).value with fault | status
  · rw [value] at done
    simp [Except.map] at done
  · rw [value] at done
    rw [← Except.ok.inj done]

/-- A command is run only if it is enabled, can be run and comes where the build rules allow it;
what it leaves carries on the commands accepted before it. -/
theorem handleCommand_carrying {accepted : List CmdSet} {cmd : CmdSet}
    (allowed : cmd.cmdEnable = true → runnable start.raidCardType cmd.raidCmdSection = true →
      Allowed start.raidCardType (linkCommands start.raidCmdSet accepted) cmd) :
    Leads (Carrying start index accepted) (handleCommand firmware index cmd : Step σ CmdSet)
      (fun later written working => later.cmdString = cmd.cmdString ∧
        Carrying start index accepted written working) (Faulted start index) := by
  refine leads_current_bind (fun seen => ?_)
  split
  · rename_i enabled
    split
    · exact leads_pure (fun _ _ before => ⟨rfl, before.1⟩)
    · rename_i function found
      refine leads_emit_bind ?_
      rintro written working ⟨earlier, rfl, ⟨kind, executed, rfl, all⟩, rfl⟩
      have runs := raidCmdFunction_runnable found
      rw [kind] at runs
      obtain ⟨later, value, ran, same, renamed⟩ :=
        runFunction_keeps firmware function cmd working
      have more : Carrying start index accepted
          (.parsed index start.raidCardType start.raidCmdSet accepted
            (linkCommands start.raidCmdSet accepted) ::
              (executed ++ [cmd]).map (Event.executed index)) later := by
        refine ⟨same.trans kind, executed ++ [cmd], rfl, ?_⟩
        intro other member
        rcases List.mem_append.mp member with inside | last
        · exact all other inside
        · rw [List.mem_singleton.mp last]
          exact allowed enabled runs
      rw [List.map_append, List.map_singleton, ← List.cons_append] at more
      rw [ran]
      cases value with
      | ok result => exact ⟨renamed result rfl, by rw [List.append_nil]; exact more⟩
      | error fault =>
        change Faulted start index (_ ++ []) later
        rw [List.append_nil]
        exact more.faulted
  · exact leads_pure (fun _ _ before => ⟨rfl, before.1⟩)

/-- The loop over the commands carries the accepted ones along. The rules are asked for each
command behind those that were accepted, which is how the loop asks them. -/
theorem handleCommands_carrying {accepted : List CmdSet} (commands : List CmdSet)
    (allowed : ∀ cmd ∈ commands, cmd.cmdEnable = true →
      runnable start.raidCardType cmd.raidCmdSection = true →
      Allowed start.raidCardType (linkCommands start.raidCmdSet accepted) cmd) :
    Leads (Carrying start index accepted)
      (handleCommands firmware index commands : Step σ (List CmdSet))
      (fun later written working => strings later = strings commands ∧
        Carrying start index accepted written working) (Faulted start index) := by
  induction commands with
  | nil => exact leads_pure (fun _ _ before => ⟨rfl, before⟩)
  | cons cmd commands inductionHypothesis =>
    rw [handleCommands]
    refine leads_bind _ (handleCommand_carrying (allowed cmd List.mem_cons_self)) (fun first => ?_)
    refine leads_bind (fun later written working => first.cmdString = cmd.cmdString ∧
      strings later = strings commands ∧ Carrying start index accepted written working) ?_
      (fun later => leads_pure ?_)
    · intro written working before
      have rest := inductionHypothesis (fun other member =>
        allowed other (List.mem_cons_of_mem _ member)) written working before.2
      rcases ran : handleCommands firmware index commands working with ⟨events, final, value⟩
      rw [ran] at rest
      cases value with
      | ok later => exact ⟨before.1, rest⟩
      | error fault => exact rest
    · rintro written working ⟨renamed, rest, carrying⟩
      refine ⟨?_, carrying⟩
      rw [strings, List.map_cons, renamed]
      exact congrArg _ rest

/-- The row that runs the commands ends the card. -/
theorem handleRow_ended : Leads (Ready start index) (handleRow firmware index : Step σ Status)
    (fun status written working => status = efiSuccess ∧ Ended start index written working)
    (Faulted start index) := by
  intro written working before
  obtain ⟨accepted, rfl, follows, kind⟩ := before
  have allowed : ∀ cmd ∈ working.card.raidCmdSet, cmd.cmdEnable = true →
      runnable start.raidCardType cmd.raidCmdSection = true →
      Allowed start.raidCardType (linkCommands start.raidCmdSet accepted) cmd := by
    intro cmd member enabled runs
    obtain ⟨origin, originIn, related⟩ := follows_member follows member
    exact ⟨origin, originIn, related.cmdString.symm, related.enabled enabled,
      related.kind.symm.trans runs⟩
  have carried : Leads (Carrying start index accepted)
      (handleCommands firmware index working.card.raidCmdSet >>= fun commands =>
        changeCard (fun card => { card with raidCmdSet := commands }) >>= fun _ => pure efiSuccess)
      (fun status written working => status = efiSuccess ∧ Ended start index written working)
      (Faulted start index) := by
    refine leads_bind _ (handleCommands_carrying working.card.raidCmdSet allowed)
      (fun commands => leads_changeCard ?_)
    rintro written later ⟨same, -, executed, rfl, all⟩
    refine ⟨rfl, ?_⟩
    rw [Ended, same, follows_strings follows]
    exact .handled accepted executed all
  exact carried _ working ⟨kind, [], rfl, by simp⟩

/-- A row that leaves the commands alone, in front of further rows. -/
theorem leads_leaving {holds : List Event → Working σ → Prop} {row : ChangeFunc}
    {rows : List ChangeFunc} {status : Status} (settled : Settled holds)
    (ends : ∀ written working, holds written working → Ended start index written working)
    (leaves : leavesCommands row = true)
    (leadsRows : ∀ answer, Leads holds (changeRows firmware index answer rows)
      (fun _ => Ended start index) (Faulted start index)) :
    Leads holds (changeRows firmware index status (row :: rows)) (fun _ => Ended start index)
      (Faulted start index) := by
  refine leads_changeRows (Leads.weaken (func_settled settled
    (fun _ _ before => (ends _ _ before).faulted) leaves) (fun _ _ before => before) ?_) leadsRows
  intro answer written working after
  split
  · exact ends written working after
  · exact after

/-- The table of a card, however it ends. -/
theorem changeRows_handled (firmware : Firmware) (start : CardState σ) (index : Nat) (status : Status) :
    Leads (Fresh start) (changeRows firmware index status mSmcLsiInsideChangeFunc)
      (fun _ => Ended start index) (Faulted start index) := by
  have fresh : ∀ written (working : Working σ), Fresh start written working →
      Ended start index written working := fun _ _ fresh => fresh.ended
  refine leads_leaving fresh_settled fresh rfl (fun _ => ?_)
  refine leads_leaving fresh_settled fresh rfl (fun _ => ?_)
  refine leads_leaving fresh_settled fresh rfl (fun _ => ?_)
  refine leads_leaving fresh_settled fresh rfl (fun _ => ?_)
  refine leads_leaving fresh_settled fresh rfl (fun _ => ?_)
  refine leads_leaving fresh_settled fresh rfl (fun _ => ?_)
  refine leads_succeeding parseRow_ready (fun _ => ?_)
  refine leads_succeeding collectRow_ready (fun _ => ?_)
  refine leads_succeeding examineRow_ready (fun _ => ?_)
  refine leads_leaving ready_settled (fun _ _ ready => ready.ended) rfl (fun _ => ?_)
  refine leads_succeeding handleRow_ended (fun _ => ?_)
  refine leads_leaving ended_settled (fun _ _ ended => ended) rfl (fun _ => ?_)
  exact leads_pure (fun _ _ ended => ended)

end Table

section Runs

variable {σ : Type} {firmware : Firmware}

/-- Parsing into this list is harmless: no command on it would be carried out once
more, nothing is linked into a list of two or more commands, and no accepted string
is on it already. -/
def Clean (raidCardType : RaidType) (before accepted : List CmdSet) : Prop :=
  (∀ cmd ∈ before, cmd.cmdEnable = true → runnable raidCardType cmd.raidCmdSection = false) ∧
    (accepted ≠ [] → before.length ≤ 1) ∧ ∀ cmd ∈ accepted, cmd.cmdString ∉ strings before

/-- Every parse of a call is harmless. -/
def CleanCall (events : List Event) : Prop :=
  ∀ card raidCardType before accepted after,
    Event.parsed card raidCardType before accepted after ∈ events →
      Clean raidCardType before accepted

/-- Every command string is carried out on a card in at most one call. -/
def ExecutedOnce (calls : List (List Event)) : Prop :=
  calls.Pairwise (fun earlier later => ∀ card cmd again, Event.executed card cmd ∈ earlier →
    Event.executed card again ∈ later → cmd.cmdString ≠ again.cmdString)

/-- No parse loses a command. -/
def NeverDrops (calls : List (List Event)) : Prop :=
  ∀ events ∈ calls, ∀ card raidCardType before accepted after,
    Event.parsed card raidCardType before accepted after ∈ events → before <+: after

/-- A harmless parse keeps every command in its place. -/
theorem Clean.kept {raidCardType : RaidType} {before accepted : List CmdSet}
    (clean : Clean raidCardType before accepted) : before <+: linkCommands before accepted := by
  rw [linkCommands_eq]
  split
  · exact List.prefix_rfl
  · rename_i holds
    rw [List.take_of_length_le (clean.2.1 holds)]
    exact List.prefix_append _ _

/-- After a harmless parse only new commands are carried out. -/
theorem Clean.new {raidCardType : RaidType} {before accepted : List CmdSet} {cmd : CmdSet}
    (clean : Clean raidCardType before accepted)
    (allowed : Allowed raidCardType (linkCommands before accepted) cmd) :
    cmd.cmdString ∉ strings before := by
  obtain ⟨origin, originIn, same, enabled, runs⟩ := allowed
  have old : origin ∈ before → False := by
    intro member
    have still := clean.1 origin member enabled
    rw [runs] at still
    exact absurd still.symm Bool.false_ne_true
  rw [linkCommands_eq] at originIn
  split at originIn
  · exact absurd originIn old
  · rcases List.mem_append.mp originIn with head | fresh
    · exact absurd (List.mem_of_mem_take head) old
    · rw [← same]
      exact clean.2.2 origin fresh

/-- What one call does to a card, when its parse is harmless. -/
theorem Handled.clean {start : CardState σ} {index : Nat} {events : List Event}
    {final : List (List UInt16)} (handled : Handled start index events final)
    (clean : CleanCall events) :
    (∀ text ∈ strings start.raidCmdSet, text ∈ final) ∧
      ∀ card cmd, Event.executed card cmd ∈ events →
        card = index ∧ cmd.cmdString ∉ strings start.raidCmdSet ∧ cmd.cmdString ∈ final := by
  cases handled with
  | untouched => exact ⟨fun _ member => member, by simp⟩
  | handled accepted executed allowed =>
    have parse := clean _ _ _ _ _ List.mem_cons_self
    constructor
    · intro text member
      obtain ⟨cmd, cmdIn, rfl⟩ := List.mem_map.mp member
      exact List.mem_map_of_mem (parse.kept.subset cmdIn)
    · intro card cmd member
      rcases List.mem_cons.mp member with impossible | inside
      · exact absurd impossible (by simp)
      · obtain ⟨origin, originIn, same⟩ := List.mem_map.mp inside
        obtain ⟨rfl, rfl⟩ := Event.executed.inj same
        refine ⟨rfl, parse.new (allowed origin originIn), ?_⟩
        obtain ⟨source, sourceIn, equal, -, -⟩ := allowed origin originIn
        rw [← equal]
        exact List.mem_map_of_mem sourceIn

/-- The strings on the lists of the cards. -/
def cardStrings (cards : List (CardState σ)) : List (List (List UInt16)) :=
  cards.map (fun card => strings card.raidCmdSet)

/-- The events of the cards of a call one after the other, with the strings on their
lists afterwards. -/
inductive Passed : Nat → List (CardState σ) → List Event → List (List (List UInt16)) → Prop
  | rest (index : Nat) (cards : List (CardState σ)) : Passed index cards [] (cardStrings cards)
  | card (index : Nat) (card : CardState σ) (cards : List (CardState σ)) (events more : List Event)
      (final : List (List UInt16)) (later : List (List (List UInt16)))
      (handled : Handled card index events final) (others : Passed (index + 1) cards more later) :
      Passed index (card :: cards) (events ++ more) (final :: later)

/-- The table on one card. -/
theorem onCard_handled (index : Nat) (status : Status) (card : CardState σ) :
    Ensures (onCard firmware index status card) (fun events value =>
      ∃ final, Handled card index events final ∧
        ∀ result, value = .ok result → final = strings result.2.raidCmdSet) := by
  intro browser
  have table := changeRows_handled firmware card index status [] ⟨card, browser⟩
    ⟨rfl, rfl, rfl⟩
  rw [onCard]
  rcases ran : changeRows firmware index status mSmcLsiInsideChangeFunc ⟨card, browser⟩ with
    ⟨events, later, value⟩
  rw [ran] at table
  cases value with
  | ok answer =>
    refine ⟨_, table, fun result done => ?_⟩
    rw [← Except.ok.inj done]
  | error fault =>
    obtain ⟨final, handled⟩ := table
    exact ⟨final, handled, fun result done => by simp [Except.map] at done⟩

/-- The loop over the cards. -/
theorem handleCards_passed (firmware : Firmware) (cards : List (CardState σ)) (index : Nat) (status : Status) :
    Ensures (handleCards firmware index status cards) (fun events value =>
      ∃ after, Passed index cards events after ∧
        ∀ result, value = .ok result → after = cardStrings result.2) := by
  have stopped : ∀ (index : Nat) (answer : Status) (cards : List (CardState σ)),
      Ensures (pure (answer, cards) : Traced Event Browser Fault _) (fun events value =>
        ∃ after, Passed index cards events after ∧
          ∀ result, value = .ok result → after = cardStrings result.2) := by
    intro index answer cards
    refine ensures_pure ⟨_, .rest index cards, fun result done => ?_⟩
    rw [← Except.ok.inj done]
  induction cards generalizing index status with
  | nil => exact stopped index status []
  | cons card cards inductionHypothesis =>
    rw [handleCards]
    split
    · exact stopped index status (card :: cards)
    · refine ensures_bind (onCard_handled index status card) ?_ ?_
      · rintro events fault ⟨final, handled, -⟩
        refine ⟨final :: cardStrings cards, ?_, fun result done => by simp at done⟩
        have passed := Passed.card index card cards events [] final _ handled (.rest _ cards)
        rwa [List.append_nil] at passed
      · rintro events ⟨answer, next⟩ ⟨final, handled, same⟩
        have known := same _ rfl
        by_cases failed : efiError answer = true
        · simp only [failed, if_true]
          refine ensures_pure ⟨final :: cardStrings cards, ?_, fun result done => ?_⟩
          · exact .card index card cards events [] final _ handled (.rest _ cards)
          · rw [← Except.ok.inj done, known]
            rfl
        · simp only [failed]
          refine ensures_bind (inductionHypothesis (index + 1) answer) ?_ ?_
          · rintro more fault ⟨later, others, -⟩
            exact ⟨final :: later, .card index card cards events more final later handled others,
              fun result done => by simp at done⟩
          · rintro more ⟨_, rest⟩ ⟨later, others, sameRest⟩
            refine ensures_pure ⟨final :: later, ?_, fun result done => ?_⟩
            · rw [List.append_nil]
              exact .card index card cards events more final later handled others
            · rw [← Except.ok.inj done, known, sameRest _ rfl]
              rfl

/-- What a call does to the lists of the cards, when its parses are harmless. -/
theorem Passed.clean {index : Nat} {cards : List (CardState σ)} {events : List Event}
    {after : List (List (List UInt16))} (passed : Passed index cards events after)
    (clean : CleanCall events) :
    (∀ (place : Nat) (card : CardState σ), cards[place]? = some card →
      ∃ final, after[place]? = some final ∧ ∀ text ∈ strings card.raidCmdSet, text ∈ final) ∧
    ∀ which cmd, Event.executed which cmd ∈ events →
      ∃ (place : Nat) (card : CardState σ) (final : List (List UInt16)), which = index + place ∧
        cards[place]? = some card ∧ after[place]? = some final ∧
        cmd.cmdString ∉ strings card.raidCmdSet ∧ cmd.cmdString ∈ final := by
  induction passed with
  | rest index cards =>
    refine ⟨fun place card found => ⟨strings card.raidCmdSet, ?_, fun _ member => member⟩, by simp⟩
    rw [cardStrings, List.getElem?_map, found]
    rfl
  | card index card cards events more final later handled others inductionHypothesis =>
    obtain ⟨kept, executed⟩ := handled.clean (fun _ _ _ _ _ member =>
      clean _ _ _ _ _ (List.mem_append_left _ member))
    obtain ⟨keptRest, executedRest⟩ := inductionHypothesis (fun _ _ _ _ _ member =>
      clean _ _ _ _ _ (List.mem_append_right _ member))
    constructor
    · intro place other found
      cases place with
      | zero =>
        obtain rfl := Option.some.inj found
        exact ⟨final, rfl, kept⟩
      | succ place => exact keptRest place other found
    · intro which cmd member
      rcases List.mem_append.mp member with here | there
      · obtain ⟨rfl, new, listed⟩ := executed which cmd here
        exact ⟨0, card, final, rfl, rfl, rfl, new, listed⟩
      · obtain ⟨place, other, last, rfl, found, foundLast, new, listed⟩ := executedRest which cmd there
        exact ⟨place + 1, other, last, by omega, found, foundLast, new, listed⟩

/-- As many lists of texts are left as there are cards. -/
theorem Passed.length {index : Nat} {cards : List (CardState σ)} {events : List Event}
    {after : List (List (List UInt16))} (passed : Passed index cards events after) :
    after.length = cards.length := by
  induction passed with
  | rest index cards => rw [cardStrings, List.length_map]
  | card index card cards events more final later handled others inductionHypothesis =>
    rw [List.length_cons, List.length_cons, inductionHypothesis]

/-- A parse leaves the linked list. -/
theorem Passed.linked {index : Nat} {cards : List (CardState σ)} {events : List Event}
    {after : List (List (List UInt16))} (passed : Passed index cards events after) :
    ∀ card raidCardType before accepted later,
      Event.parsed card raidCardType before accepted later ∈ events →
        later = linkCommands before accepted := by
  induction passed with
  | rest index cards => simp
  | card index card cards events more final later handled others inductionHypothesis =>
    intro which raidCardType before accepted list member
    rcases List.mem_append.mp member with here | there
    · cases handled with
      | untouched => simp at here
      | handled taken executed allowed =>
        simp only [List.mem_cons, Event.parsed.injEq, List.mem_map, reduceCtorEq, and_false,
          exists_false, or_false] at here
        obtain ⟨-, -, rfl, rfl, rfl⟩ := here
        rfl
    · exact inductionHypothesis which raidCardType before accepted list there

/-- Filing a changed variable leaves the commands of the cards. -/
theorem collectData_cardStrings {name : List UInt16} {guid : Guid} {contents : List UInt8}
    {protocol later : Protocol σ} {status : Status}
    (done : smcLsiRaidLibCollectData firmware name guid contents protocol = .ok (status, later)) :
    cardStrings later.cards = cardStrings protocol.cards := by
  have kept : ∀ {answer : Status}, Except.ok (ε := Fault) (answer, protocol) = .ok (status, later) →
      cardStrings later.cards = cardStrings protocol.cards := by
    intro answer same
    rw [← (Prod.mk.inj (Except.ok.inj same)).2]
  rw [smcLsiRaidLibCollectData] at done
  split at done
  · exact kept done
  · split at done
    · exact absurd done (by simp)
    · cases searched : searchHiiHandleTableByVarName firmware.fuel (unicodeStrToAsciiStr name) guid
          protocol.cards with
      | error fault => simp [searched, bind, Except.bind] at done
      | ok found =>
        simp only [searched, bind, Except.bind] at done
        cases found with
        | none => exact kept done
        | some index =>
          cases there : protocol.cards[index]? with
          | none =>
            simp only [there] at done
            exact kept done
          | some card =>
            simp only [there] at done
            cases variable_ : searchLsiVarByName firmware.fuel card.tables
                (unicodeStrToAsciiStr name) (some guid) with
            | error fault => simp [variable_] at done
            | ok var =>
              simp only [variable_] at done
              cases var with
              | none => exact kept done
              | some a =>
                simp only at done
                split at done
                · exact kept done
                · rw [← (Prod.mk.inj (Except.ok.inj done)).2]
                  apply List.ext_getElem?
                  intro place
                  simp only [cardStrings, List.getElem?_map, List.getElem?_set]
                  by_cases same : index = place
                  · rw [← same, there]
                    simp [CardState.file, (List.getElem?_eq_some_iff.mp there).1]
                  · simp [same]

/-- One call. -/
theorem perform_passed (firmware : Firmware) (request : Request) (protocol : Protocol σ) :
    ∃ after, Passed 0 protocol.cards (perform firmware request protocol).events after ∧
      ∀ status, (perform firmware request protocol).value = .ok status →
        after = cardStrings (perform firmware request protocol).state.cards := by
  cases request with
  | collectData name guid contents =>
    rw [perform]
    simp only
    cases done : smcLsiRaidLibCollectData firmware name guid contents protocol with
    | error fault => exact ⟨_, .rest 0 _, fun status returned => by simp at returned⟩
    | ok result =>
      exact ⟨_, .rest 0 _, fun _ _ => (collectData_cardStrings done).symm⟩
  | handleData =>
    rw [perform]
    simp only [smcLsiRaidLibHandleData]
    split
    · obtain ⟨after, passed, same⟩ := handleCards_passed firmware protocol.cards 0
        efiSuccess protocol.browser
      rcases ran : handleCards firmware 0 efiSuccess protocol.cards protocol.browser with
        ⟨events, later, value⟩
      rw [ran] at passed same
      cases value with
      | error fault => exact ⟨after, passed, fun status returned => by simp at returned⟩
      | ok result => exact ⟨after, passed, fun _ _ => same result rfl⟩
    · exact ⟨_, .rest 0 _, fun _ _ => rfl⟩

/-- Unfold one call of a run. -/
theorem runCalls_cons (request : Request) (requests : List Request) (protocol : Protocol σ) :
    runCalls firmware (request :: requests) protocol =
      (perform firmware request protocol).events ::
        match (perform firmware request protocol).value with
        | .error _ => []
        | .ok _ => runCalls firmware requests (perform firmware request protocol).state := by
  rw [runCalls]
  rcases perform firmware request protocol with ⟨events, later, value⟩
  cases value with
  | error fault => rfl
  | ok status => rfl

/-- A run of harmless calls carries out only strings that are not on the lists when it
starts. -/
theorem runCalls_new (requests : List Request) (protocol : Protocol σ)
    (clean : ∀ events ∈ runCalls firmware requests protocol, CleanCall events) :
    ∀ events ∈ runCalls firmware requests protocol, ∀ which cmd,
      Event.executed which cmd ∈ events →
        ∃ listed, (cardStrings protocol.cards)[which]? = some listed ∧ cmd.cmdString ∉ listed := by
  induction requests generalizing protocol with
  | nil => simp [runCalls]
  | cons request requests inductionHypothesis =>
    obtain ⟨after, passed, same⟩ := perform_passed firmware request protocol
    rw [runCalls_cons] at clean ⊢
    obtain ⟨grows, executed⟩ := passed.clean (clean _ List.mem_cons_self)
    intro events member which cmd carried
    rcases List.mem_cons.mp member with rfl | inside
    · obtain ⟨place, card, final, rfl, found, -, new, -⟩ := executed which cmd carried
      refine ⟨strings card.raidCmdSet, ?_, new⟩
      rw [cardStrings, List.getElem?_map, Nat.zero_add, found]
      rfl
    · cases value : (perform firmware request protocol).value with
      | error fault =>
        rw [value] at inside
        exact absurd inside List.not_mem_nil
      | ok status =>
        rw [value] at inside clean
        obtain ⟨listed, later, new⟩ := inductionHypothesis _
          (fun other otherIn => clean other (List.mem_cons_of_mem _ otherIn)) events inside which cmd
          carried
        rw [← same status value] at later
        have inside : which < protocol.cards.length := by
          rw [← passed.length]
          exact (List.getElem?_eq_some_iff.mp later).1
        have found := List.getElem?_eq_getElem inside
        obtain ⟨final, foundFinal, kept⟩ := grows which _ found
        obtain rfl := Option.some.inj (later.symm.trans foundFinal)
        refine ⟨strings protocol.cards[which].raidCmdSet, ?_, fun old => new (kept _ old)⟩
        rw [cardStrings, List.getElem?_map, found]
        rfl

/-- In every run whose parses are all harmless, every command string is carried out on a card in at
most one call, and no command is lost. Whether a parse is harmless is read from the list that it
finds and from the strings that it accepts, so nothing is assumed of the firmware. -/
theorem runCalls_once (firmware : Firmware) (requests : List Request) (protocol : Protocol σ)
    (clean : ∀ events ∈ runCalls firmware requests protocol, CleanCall events) :
    ExecutedOnce (runCalls firmware requests protocol) ∧
      NeverDrops (runCalls firmware requests protocol) := by
  induction requests generalizing protocol with
  | nil => simp [runCalls, ExecutedOnce, NeverDrops]
  | cons request requests inductionHypothesis =>
    obtain ⟨after, passed, same⟩ := perform_passed firmware request protocol
    rw [runCalls_cons] at clean ⊢
    have cleanFirst := clean _ List.mem_cons_self
    obtain ⟨grows, executed⟩ := passed.clean cleanFirst
    have keptFirst : ∀ card raidCardType before accepted later,
        Event.parsed card raidCardType before accepted later ∈
          (perform firmware request protocol).events → before <+: later := by
      intro card raidCardType before accepted later member
      rw [passed.linked _ _ _ _ _ member]
      exact (cleanFirst _ _ _ _ _ member).kept
    cases value : (perform firmware request protocol).value with
    | error fault =>
      refine ⟨List.pairwise_singleton _ _, ?_⟩
      intro events member
      rw [List.mem_singleton.mp member]
      exact keptFirst
    | ok status =>
      simp only [value] at clean ⊢
      have cleanRest := fun other otherIn => clean other (List.mem_cons_of_mem _ otherIn)
      obtain ⟨once, never⟩ := inductionHypothesis _ cleanRest
      constructor
      · refine List.pairwise_cons.mpr ⟨?_, once⟩
        intro events member which cmd again first second equal
        obtain ⟨place, -, final, rfl, -, foundFinal, -, listed⟩ := executed which cmd first
        obtain ⟨list, found, new⟩ := runCalls_new requests _ cleanRest events member _ again second
        rw [← same status value, Nat.zero_add, foundFinal] at found
        rw [← Option.some.inj found, ← equal] at new
        exact new listed
      · intro events member
        rcases List.mem_cons.mp member with rfl | inside
        · exact keptFirst
        · exact never events inside

/-- A driver that accepts everything and changes nothing. -/
def quietDriver : CmdExecute.Driver Unit :=
  ⟨true, fun state => (none, state), fun _ _ => none, fun state _ => (0, state),
    fun _ state tables => (efiSuccess, state, tables), fun _ => ""⟩

/-- A variable of sixteen bytes for commands, and another one of one byte. -/
def twoVars : VarTables where
  node := fun a => if a = 0 then ⟨[83], 0, 1, 16, some 0⟩ else ⟨[82], 0, 2, 1, some 1⟩
  nodes := 2
  buffer := fun p => if p = 0 then List.replicate 16 0 else [0]
  buffers := 2
  byName := ⟨fun _ => none, fun bucket =>
    if bucket = varHashByName [83] then some 0
    else if bucket = varHashByName [82] then some 1 else none⟩
  byId := ⟨fun _ => none, fun bucket =>
    if bucket = 1 then some 0 else if bucket = 2 then some 1 else none⟩

/-- A card with one command item. -/
def oneCard : Protocol Unit :=
  ⟨[⟨quietDriver, .raid3108, [⟨"CMDFORM", "CMDFORM", .smcCmd,
    [⟨1, 0, ⟨.string, 0, 1, 1, 0, 0, 0, 0, 0⟩⟩]⟩], twoVars, ⟨[], []⟩, [], (), 0⟩], false,
    ⟨1, 2, false, 0⟩⟩

/-- The fronts of the names are the two letters. -/
def quietFirmware : Firmware := ⟨[82], [83], fun _ => efiSuccess, 2⟩

/-- The command with the string `C:[O]` in braces. -/
def otherCmd : CmdSet := ⟨[123, 67, 58, 91, 79, 93, 125], [.command .other], true⟩

/-- Submit that string in the variable for commands. -/
def submitCommand : Request :=
  .collectData [83] 0 [123, 0, 67, 0, 58, 0, 91, 0, 79, 0, 93, 0, 125, 0, 0, 0]

/-- Submit the other variable. -/
def submitByte : Request := .collectData [82] 0 [0]

/-- The events of the call that parses the command and carries it out. -/
def firstCall : List Event := [.parsed 0 .raid3108 [] [otherCmd] [otherCmd], .executed 0 otherCmd]

/-- Submitted and handled once, the command runs once. -/
theorem runCalls_once_single :
    ExecutedOnce (runCalls quietFirmware [submitCommand, .handleData] oneCard) ∧
      NeverDrops (runCalls quietFirmware [submitCommand, .handleData] oneCard) := by
  apply runCalls_once
  have computed : runCalls quietFirmware [submitCommand, .handleData] oneCard =
      [[], firstCall] := by decide +kernel
  rw [computed]
  intro events member card raidCardType before accepted after parsed
  rcases List.mem_cons.mp member with rfl | last
  · exact absurd parsed List.not_mem_nil
  · rw [List.mem_singleton.mp last] at parsed
    simp only [firstCall, List.mem_cons, Event.parsed.injEq, reduceCtorEq, List.not_mem_nil,
      or_false] at parsed
    obtain ⟨-, -, rfl, rfl, -⟩ := parsed
    simp [Clean, strings]

/-- Submitted once, the command runs again when another variable is handled. -/
theorem not_executedOnce_again : ¬ ExecutedOnce
    (runCalls quietFirmware [submitCommand, .handleData, submitByte, .handleData] oneCard) := by
  have computed : runCalls quietFirmware [submitCommand, .handleData, submitByte, .handleData]
      oneCard = [[], firstCall, [], [.parsed 0 .raid3108 [otherCmd] [otherCmd] [otherCmd, otherCmd],
        .executed 0 otherCmd, .executed 0 otherCmd]] := by decide +kernel
  rw [computed]
  intro once
  have pair := List.rel_of_pairwise_cons (List.pairwise_cons.mp once).2
    (List.mem_cons_of_mem _ List.mem_cons_self)
  exact pair 0 otherCmd otherCmd (by simp [firstCall]) (by simp) rfl

end Runs

end SmcPkg.Session
