import Mathlib

/-!
# Polling of the memory's temperature

Two software SMIs pause and resume the polling of the temperature sensors on the memory
modules: one bit in each `SMB_CMD_CFG` register of each socket that is present. A pause notes
the bit and clears it, a resume sets what was noted. The notes are kept from one SMI to the
next, and every pause makes them anew.

The contents of the configuration space are arbitrary. A write is assumed to change the register
that it names and no other; what the memory controller does with the bit is not covered.
-/

namespace SmcPkg.Cltt

section Model

/-- The dword that port 0xcfc shows for an address at port 0xcf8. Without its highest bit the
address selects no register, and nothing answers. -/
structure ConfigSpace where
  read : UInt32 → UInt32
  disabled : ∀ address, address < 0x80000000 → read address = 0xffffffff

/-- `IoWrite32` at port 0xcfc. -/
def ConfigSpace.write (space : ConfigSpace) (address value : UInt32) : ConfigSpace where
  read other := if other = address ∧ 0x80000000 ≤ address then value else space.read other
  disabled other below := by
    rw [if_neg]
    · exact space.disabled other below
    · rintro ⟨rfl, enabled⟩
      exact absurd enabled (UInt32.not_le.mpr below)

/-- `DECS_VIDDID`. -/
def decsVidDid : UInt32 := 0x20168086

/-- `SMB_TSOD_POLL_EN`. -/
def smbTsodPollEn : UInt32 := 0x00100000

/-- `CPUBUSNO`. -/
def cpuBusNo : UInt32 := 0xCC

/-- `SMC_PAUSE_CLTT`. -/
def smcPauseCltt : UInt64 := 0x13

/-- `SMC_RESUME_CLTT`. -/
def smcResumeCltt : UInt64 := 0x14

/-- `CLTT_STRUCT`. -/
structure ClttStruct where
  decs : UInt32
  smbCmdCfg : UInt32
  orgValue : UInt32
  deriving DecidableEq

/-- `sClttStruct`. Two of its six entries are not given and zero. -/
def sClttStruct : List ClttStruct := [
  ⟨0x80004200, 0x9C, 0⟩, ⟨0x80004200, 0xA0, 0⟩,
  ⟨0x80804200, 0x9C, 0⟩, ⟨0x80804200, 0xA0, 0⟩,
  ⟨0, 0, 0⟩, ⟨0, 0, 0⟩]

/-- The address of the register of an entry on a bus: device 30, function 5. -/
def smbCmdCfgAddress (cpuBusNo1 smbCmdCfg : UInt32) : UInt32 :=
  0x80000000 + (cpuBusNo1 <<< (16 : UInt32)) + ((30 : UInt32) <<< (11 : UInt32)) +
    ((5 : UInt32) <<< (8 : UInt32)) + smbCmdCfg

/-- The register of an entry, if its socket is present. -/
def register (space : ConfigSpace) (entry : ClttStruct) : Option UInt32 :=
  if space.read entry.decs = decsVidDid then
    some (smbCmdCfgAddress ((space.read (entry.decs + cpuBusNo) >>> 8) &&& 0xff) entry.smbCmdCfg)
  else none

/-- The body of the loop for an entry. -/
def clttEntry (input : UInt64) (entry : ClttStruct) (space : ConfigSpace) :
    ClttStruct × ConfigSpace :=
  match register space entry with
  | none => (entry, space)
  | some address =>
    if input = smcPauseCltt then
      ({ entry with orgValue := space.read address &&& smbTsodPollEn },
        space.write address (space.read address &&& ~~~smbTsodPollEn))
    else (entry, space.write address (space.read address ||| entry.orgValue))

/-- The loop over the entries. -/
def clttLoop (input : UInt64) : List ClttStruct → ConfigSpace → List ClttStruct × ConfigSpace
  | [], space => ([], space)
  | entry :: rest, space =>
    let (entry, space) := clttEntry input entry space
    let (rest, space) := clttLoop input rest space
    (entry :: rest, space)

/-- The static entries and the registers. -/
structure State where
  entries : List ClttStruct
  space : ConfigSpace

/-- `PauseResumeCLTT`, with `SwSmiInputValue`. -/
def pauseResumeCltt (input : UInt64) (state : State) : State :=
  if input = smcPauseCltt ∨ input = smcResumeCltt then
    let (entries, space) := clttLoop input state.entries state.space
    ⟨entries, space⟩
  else state

/-- What other agents do to the registers. They leave the sockets and their buses alone, and
the bit that enables polling. -/
structure Change where
  apply : ConfigSpace → ConfigSpace
  sockets : ∀ space, ∀ entry ∈ sClttStruct, register (apply space) entry = register space entry
  polling : ∀ space, ∀ entry ∈ sClttStruct, ∀ address ∈ register space entry,
    (apply space).read address &&& smbTsodPollEn = space.read address &&& smbTsodPollEn

/-- What happens to the registers. -/
inductive Event where
  | smi (input : UInt64)
  | others (change : Change)

/-- The states, event by event. -/
def step (state : State) : Event → State
  | .smi input => pauseResumeCltt input state
  | .others change => { state with space := change.apply state.space }

/-- The state after some events from the start of the system on. -/
def after (space : ConfigSpace) (events : List Event) : State :=
  events.foldl step ⟨sClttStruct, space⟩

end Model

section Purpose

/-- A PAUSE. -/
def Event.IsPause : Event → Prop
  | .smi input => input = smcPauseCltt
  | .others _ => False

/-- A RESUME. -/
def Event.IsResume : Event → Prop
  | .smi input => input = smcResumeCltt
  | .others _ => False

/-- No PAUSE has come since the last RESUME. -/
def Running (events : List Event) : Prop :=
  ∀ earlier pause rest, events = earlier ++ pause :: rest → pause.IsPause →
    ∃ event ∈ rest, event.IsResume

/-- A RESUME that ends a pause, which starts with the first PAUSE since the last RESUME. -/
structure Paused (events earlier middle : List Event) (pause resume : Event) : Prop where
  whole : earlier ++ pause :: middle ++ [resume] <+: events
  running : Running earlier
  pauses : pause.IsPause
  ongoing : ∀ event ∈ middle, ¬ event.IsResume
  resumes : resume.IsResume

/-- The enable bit of a register. -/
def pollEn (state : State) (address : UInt32) : UInt32 := state.space.read address &&& smbTsodPollEn

/-- The registers of the sockets that are present. -/
def registers (space : ConfigSpace) : List UInt32 := sClttStruct.filterMap (register space)

/-- Every pause gives the registers back their bits, and the SMIs change no others. -/
structure Lawful (space : ConfigSpace) (events : List Event) : Prop where
  restored : ∀ earlier middle pause resume, Paused events earlier middle pause resume →
    ∀ address ∈ registers space,
      pollEn (after space (earlier ++ pause :: middle ++ [resume])) address =
        pollEn (after space earlier) address
  framed : ∀ earlier input, earlier ++ [.smi input] <+: events → ∀ address,
    (after space (earlier ++ [.smi input])).space.read address &&& ~~~smbTsodPollEn =
        (after space earlier).space.read address &&& ~~~smbTsodPollEn ∧
      (address ∉ registers space →
        (after space (earlier ++ [.smi input])).space.read address =
          (after space earlier).space.read address)

/-- No pause holds a second PAUSE, unless polling was not enabled anyway. -/
def Unrepeated (space : ConfigSpace) (events : List Event) : Prop :=
  ∀ earlier middle pause resume, Paused events earlier middle pause resume →
    (∃ event ∈ middle, event.IsPause) →
      ∀ address ∈ registers space, pollEn (after space earlier) address = 0

end Purpose

section Masks

variable (value noted mask : UInt32)

/-- Of cleared bits none is left. -/
theorem cleared_and : (value &&& ~~~mask) &&& mask = 0 := by
  rw [UInt32.and_assoc, UInt32.not_and_self, UInt32.and_zero]

/-- Bits are noted below a mask one by one. -/
theorem or_and : (value ||| noted) &&& mask = (value &&& mask) ||| (noted &&& mask) := by
  apply UInt32.toBitVec_inj.mp
  ext i
  simp [Bool.and_or_distrib_right]

/-- A clearing leaves the other bits. -/
theorem cleared_other : (value &&& ~~~mask) &&& ~~~mask = value &&& ~~~mask := by
  rw [UInt32.and_assoc, UInt32.and_self]

/-- A note inside of the mask leaves the other bits. -/
theorem or_other (inside : noted &&& mask = noted) :
    (value ||| noted) &&& ~~~mask = value &&& ~~~mask := by
  rw [or_and, ← inside, UInt32.and_assoc, UInt32.and_not_self, UInt32.and_zero, UInt32.or_zero]

end Masks

section Registers

variable {space : ConfigSpace} {entry other : ClttStruct} {address value : UInt32}

/-- A register of the enabled part is read back. -/
theorem read_write_same (enabled : 0x80000000 ≤ address) :
    (space.write address value).read address = value :=
  if_pos ⟨rfl, enabled⟩

/-- The other registers stay. -/
theorem read_write_other {place : UInt32} (apart : place ≠ address) :
    (space.write address value).read place = space.read place :=
  if_neg (fun same => apart same.1)

/-- An entry of the table, whatever it has noted. -/
def Known (entry : ClttStruct) : Prop :=
  ∃ given ∈ sClttStruct, given.decs = entry.decs ∧ given.smbCmdCfg = entry.smbCmdCfg

/-- The entries of the table have the two registers of a controller, or none. -/
theorem known_cases (known : Known entry) :
    (entry.decs = 0x80004200 ∨ entry.decs = 0x80804200 ∨ entry.decs = 0) ∧
      (entry.smbCmdCfg = 0x9C ∨ entry.smbCmdCfg = 0xA0 ∨ entry.smbCmdCfg = 0) := by
  obtain ⟨given, listed, decs, smbCmdCfg⟩ := known
  rw [← decs, ← smbCmdCfg]
  simp only [sClttStruct, List.mem_cons, List.not_mem_nil, or_false] at listed
  rcases listed with rfl | rfl | rfl | rfl | rfl | rfl <;> decide

/-- The registers lie at function 5 of device 30, and their addresses are enabled. -/
theorem smbCmdCfgAddress_spec (bus : UInt32) {offset : UInt32}
    (small : offset = 0x9C ∨ offset = 0xA0 ∨ offset = 0) :
    0x80000000 ≤ smbCmdCfgAddress (bus &&& 0xff) offset ∧
      (smbCmdCfgAddress (bus &&& 0xff) offset).toNat / 0x100 % 0x100 = 0xF5 := by
  have byte : (bus &&& 0xff).toNat < 0x100 := by
    rw [UInt32.toNat_and]
    exact Nat.and_lt_two_pow _ (show 0xff < 2 ^ 8 by decide)
  have number : offset.toNat < 0x100 := by
    rcases small with rfl | rfl | rfl <;> decide
  have value : (smbCmdCfgAddress (bus &&& 0xff) offset).toNat =
      0x80000000 + (bus &&& 0xff).toNat * 0x10000 + 0xF500 + offset.toNat := by
    have shifted : ((bus &&& 0xff) <<< (16 : UInt32)).toNat = (bus &&& 0xff).toNat * 0x10000 := by
      rw [UInt32.toNat_shiftLeft]
      simp only [UInt32.reduceToNat, Nat.reduceMod, Nat.shiftLeft_eq]
      omega
    simp only [smbCmdCfgAddress, UInt32.toNat_add, shifted]
    have device : ((30 : UInt32) <<< (11 : UInt32)).toNat = 0xF000 := by decide
    have function : ((5 : UInt32) <<< (8 : UInt32)).toNat = 0x500 := by decide
    rw [device, function]
    simp only [UInt32.reduceToNat]
    omega
  constructor
  · rw [UInt32.le_iff_toNat_le, value]
    simp only [UInt32.reduceToNat]
    omega
  · rw [value]
    omega

/-- A register is written at an enabled address that tells nothing about the sockets. -/
theorem register_apart (known : Known other) (found : register space other = some address) :
    0x80000000 ≤ address ∧ ∀ entry, Known entry →
      entry.decs ≠ address ∧ entry.decs + cpuBusNo ≠ address := by
  rw [register] at found
  split at found
  · obtain rfl := Option.some.inj found
    obtain ⟨enabled, device⟩ := smbCmdCfgAddress_spec
      (space.read (other.decs + cpuBusNo) >>> 8) (known_cases known).2
    refine ⟨enabled, fun entry known => ⟨fun same => ?_, fun same => ?_⟩⟩
    · rw [← same] at device
      rcases (known_cases known).1 with decs | decs | decs <;> rw [decs] at device <;>
        exact absurd device (by decide)
    · rw [← same] at device
      rcases (known_cases known).1 with decs | decs | decs <;> rw [decs] at device <;>
        exact absurd device (by decide)
  · cases found

/-- So a write to a register leaves the sockets as they are. -/
theorem register_write (known : Known entry) (knownOther : Known other)
    (found : register space other = some address) :
    register (space.write address value) entry = register space entry := by
  obtain ⟨-, apart⟩ := register_apart knownOther found
  obtain ⟨decs, bus⟩ := apart entry known
  rw [register, register, read_write_other decs, read_write_other bus]

end Registers

section Loop

variable {space : ConfigSpace} {entry : ClttStruct} {entries : List ClttStruct}
variable {input : UInt64} {address : UInt32}

/-- What the entries of a register have noted. -/
def noted (space : ConfigSpace) (address : UInt32) : List ClttStruct → UInt32
  | [] => 0
  | entry :: rest =>
    if register space entry = some address then entry.orgValue ||| noted space address rest
    else noted space address rest

/-- Nothing is noted for a register that no entry has. -/
theorem noted_absent (absent : address ∉ entries.filterMap (register space)) :
    noted space address entries = 0 := by
  induction entries with
  | nil => rfl
  | cons entry rest inductionHypothesis =>
    simp only [List.mem_filterMap, List.mem_cons, exists_eq_or_imp, not_or] at absent
    rw [noted, if_neg absent.1]
    exact inductionHypothesis (by simpa only [List.mem_filterMap] using absent.2)

/-- Notes depend on the sockets only. -/
theorem noted_congr {other : ConfigSpace}
    (same : ∀ entry ∈ entries, register other entry = register space entry) :
    noted other address entries = noted space address entries := by
  induction entries with
  | nil => rfl
  | cons entry rest inductionHypothesis =>
    rw [List.forall_mem_cons] at same
    rw [noted, noted, same.1, inductionHypothesis same.2]

/-- The body of the loop keeps the place of the entry and the sockets. -/
theorem clttEntry_known (known : Known entry) :
    Known (clttEntry input entry space).1 ∧
      (∀ other, Known other →
        register (clttEntry input entry space).2 other = register space other) ∧
      ∀ other, register other (clttEntry input entry space).1 = register other entry := by
  rw [clttEntry]
  cases found : register space entry with
  | none => exact ⟨known, fun _ _ => rfl, fun _ => rfl⟩
  | some address =>
    by_cases pause : input = smcPauseCltt
    · simp only [if_pos pause]
      exact ⟨known, fun other knownOther => register_write knownOther known found, fun _ => rfl⟩
    · simp only [if_neg pause]
      exact ⟨known, fun other knownOther => register_write knownOther known found, fun _ => trivial⟩

/-- The loop handles one entry after the other. -/
theorem clttLoop_cons : clttLoop input (entry :: entries) space =
    ((clttEntry input entry space).1 ::
        (clttLoop input entries (clttEntry input entry space).2).1,
      (clttLoop input entries (clttEntry input entry space).2).2) := rfl

/-- The loop keeps the places of the entries and the sockets. -/
theorem clttLoop_known (known : ∀ entry ∈ entries, Known entry) :
    (∀ entry ∈ (clttLoop input entries space).1, Known entry) ∧
      (∀ other, Known other →
        register (clttLoop input entries space).2 other = register space other) ∧
      ∀ other, (clttLoop input entries space).1.filterMap (register other) =
        entries.filterMap (register other) := by
  induction entries generalizing space with
  | nil => exact ⟨known, fun _ _ => rfl, fun _ => rfl⟩
  | cons entry rest inductionHypothesis =>
    rw [List.forall_mem_cons] at known
    obtain ⟨knownHead, socketsHead, placeHead⟩ := @clttEntry_known space entry input known.1
    obtain ⟨knownRest, socketsRest, placesRest⟩ :=
      @inductionHypothesis (clttEntry input entry space).2 known.2
    refine ⟨List.forall_mem_cons.mpr ⟨knownHead, knownRest⟩, fun other knownOther => ?_,
      fun other => ?_⟩
    · exact (socketsRest other knownOther).trans (socketsHead other knownOther)
    · rw [clttLoop_cons, List.filterMap_cons, List.filterMap_cons, placeHead, placesRest]

/-- A PAUSE clears the bit of each register, and the entries note what it was. -/
theorem clttLoop_pause (known : ∀ entry ∈ entries, Known entry) :
    ((clttLoop smcPauseCltt entries space).2.read address =
        if address ∈ entries.filterMap (register space) then
          space.read address &&& ~~~smbTsodPollEn else space.read address) ∧
      noted space address (clttLoop smcPauseCltt entries space).1 =
        if address ∈ entries.filterMap (register space) then
          space.read address &&& smbTsodPollEn else 0 := by
  induction entries generalizing space with
  | nil => exact ⟨rfl, rfl⟩
  | cons entry rest inductionHypothesis =>
    rw [List.forall_mem_cons] at known
    obtain ⟨knownHead, socketsHead, placeHead⟩ := @clttEntry_known space entry smcPauseCltt known.1
    obtain ⟨readRest, notedRest⟩ :=
      @inductionHypothesis (clttEntry smcPauseCltt entry space).2 known.2
    have places : rest.filterMap (register (clttEntry smcPauseCltt entry space).2) =
        rest.filterMap (register space) :=
      List.filterMap_congr (fun other member => socketsHead other (known.2 other member))
    have notes : noted (clttEntry smcPauseCltt entry space).2 address
        (clttLoop smcPauseCltt rest (clttEntry smcPauseCltt entry space).2).1 =
        noted space address
          (clttLoop smcPauseCltt rest (clttEntry smcPauseCltt entry space).2).1 :=
      noted_congr (fun other member => socketsHead other ((clttLoop_known known.2).1 other member))
    rw [places] at readRest notedRest
    rw [notes] at notedRest
    rw [clttLoop_cons, noted, placeHead, readRest, notedRest, List.filterMap_cons]
    cases found : register space entry with
    | none =>
      have same : (clttEntry smcPauseCltt entry space).2 = space := by rw [clttEntry, found]
      rw [same]
      exact ⟨rfl, if_neg (by simp)⟩
    | some own =>
      have enabled := (register_apart known.1 found).1
      have written : (clttEntry smcPauseCltt entry space).2 =
          space.write own (space.read own &&& ~~~smbTsodPollEn) := by
        rw [clttEntry, found]
        rfl
      have value : (clttEntry smcPauseCltt entry space).1.orgValue =
          space.read own &&& smbTsodPollEn := by
        rw [clttEntry, found]
        rfl
      rw [written, value]
      by_cases same : address = own
      · subst same
        simp only [read_write_same enabled, List.mem_cons_self, if_true, cleared_and,
          cleared_other, ite_self, UInt32.or_zero, and_self]
      · have apart : some own ≠ some address := fun equal => same (Option.some.inj equal).symm
        rw [read_write_other same, if_neg apart]
        simp only [List.mem_cons, same, false_or, and_self]

/-- A RESUME sets what the entries have noted. -/
theorem clttLoop_resume (resume : input ≠ smcPauseCltt) (known : ∀ entry ∈ entries, Known entry) :
    (clttLoop input entries space).1 = entries ∧
      (clttLoop input entries space).2.read address =
        space.read address ||| noted space address entries := by
  induction entries generalizing space with
  | nil => exact ⟨rfl, UInt32.or_zero.symm⟩
  | cons entry rest inductionHypothesis =>
    rw [List.forall_mem_cons] at known
    obtain ⟨-, socketsHead, -⟩ := @clttEntry_known space entry input known.1
    obtain ⟨entriesRest, readRest⟩ := @inductionHypothesis (clttEntry input entry space).2 known.2
    have notes : noted (clttEntry input entry space).2 address rest = noted space address rest :=
      noted_congr (fun other member => socketsHead other (known.2 other member))
    have kept : (clttEntry input entry space).1 = entry := by
      rw [clttEntry]
      cases register space entry with
      | none => rfl
      | some own => simp only [if_neg resume]
    rw [notes] at readRest
    rw [clttLoop_cons, kept, entriesRest, readRest, noted]
    refine ⟨rfl, ?_⟩
    cases found : register space entry with
    | none =>
      have same : (clttEntry input entry space).2 = space := by rw [clttEntry, found]
      rw [same, if_neg (by simp)]
    | some own =>
      have enabled := (register_apart known.1 found).1
      have written : (clttEntry input entry space).2 =
          space.write own (space.read own ||| entry.orgValue) := by
        simp only [clttEntry, found, if_neg resume]
      rw [written]
      by_cases same : address = own
      · subst same
        rw [read_write_same enabled, if_pos rfl, UInt32.or_assoc]
      · have apart : some own ≠ some address := fun equal => same (Option.some.inj equal).symm
        rw [read_write_other same, if_neg apart]

/-- A note is a value of the one bit. -/
def Marked (entry : ClttStruct) : Prop := entry.orgValue &&& smbTsodPollEn = entry.orgValue

/-- Marks of the entries stay below the poll bit over the loop. -/
theorem clttLoop_marked (marked : ∀ entry ∈ entries, Marked entry) :
    ∀ entry ∈ (clttLoop input entries space).1, Marked entry := by
  induction entries generalizing space with
  | nil => exact marked
  | cons entry rest inductionHypothesis =>
    rw [List.forall_mem_cons] at marked
    rw [clttLoop_cons, List.forall_mem_cons]
    refine ⟨?_, inductionHypothesis marked.2⟩
    rw [clttEntry]
    cases register space entry with
    | none => exact marked.1
    | some address =>
      by_cases pause : input = smcPauseCltt
      · simp only [if_pos pause, Marked]
        rw [UInt32.and_assoc, UInt32.and_self]
      · simp only [if_neg pause]
        exact marked.1

/-- What is noted are poll bits. -/
theorem noted_marked (marked : ∀ entry ∈ entries, Marked entry) :
    noted space address entries &&& smbTsodPollEn = noted space address entries := by
  induction entries with
  | nil => exact UInt32.zero_and
  | cons entry rest inductionHypothesis =>
    rw [List.forall_mem_cons] at marked
    rw [noted]
    split
    · rw [or_and, marked.1, inductionHypothesis marked.2]
    · exact inductionHypothesis marked.2

end Loop

section Steps

variable {state : State} {address : UInt32} {input : UInt64}

/-- The entries are those of the table, with notes of the one bit. -/
structure Sound (state : State) : Prop where
  known : ∀ entry ∈ state.entries, Known entry
  places : ∀ other, state.entries.filterMap (register other) = registers other
  marked : ∀ entry ∈ state.entries, Marked entry

/-- What the entries of a register have noted. -/
def notedIn (state : State) (address : UInt32) : UInt32 := noted state.space address state.entries

/-- The table at the start is sound. -/
theorem sound_start (space : ConfigSpace) : Sound ⟨sClttStruct, space⟩ where
  known entry listed := ⟨entry, listed, rfl, rfl⟩
  places _ := rfl
  marked := show ∀ entry ∈ sClttStruct, entry.orgValue &&& smbTsodPollEn = entry.orgValue by decide

/-- The register of an entry is that of its entry in the table. -/
theorem register_known {space other : ConfigSpace} {entry : ClttStruct}
    (same : ∀ given ∈ sClttStruct, register other given = register space given)
    (known : Known entry) : register other entry = register space entry := by
  obtain ⟨given, listed, decs, smbCmdCfg⟩ := known
  have found := same given listed
  simp only [register, decs, smbCmdCfg] at found ⊢
  exact found

/-- The entries and the sockets after an event. -/
theorem step_sound (sound : Sound state) (event : Event) :
    Sound (step state event) ∧ registers (step state event).space = registers state.space := by
  cases event with
  | smi input =>
    rw [step, pauseResumeCltt]
    split
    · obtain ⟨known, sockets, places⟩ := @clttLoop_known state.space state.entries input sound.known
      refine ⟨⟨known, fun other => (places other).trans (sound.places other),
        clttLoop_marked sound.marked⟩, ?_⟩
      exact List.filterMap_congr (fun entry listed => sockets entry ⟨entry, listed, rfl, rfl⟩)
    · exact ⟨sound, rfl⟩
  | others change =>
    refine ⟨⟨sound.known, sound.places, sound.marked⟩, ?_⟩
    exact List.filterMap_congr (fun entry listed => change.sockets state.space entry listed)

/-- A PAUSE. -/
theorem step_pause (sound : Sound state) (listed : address ∈ registers state.space) :
    pollEn (step state (.smi smcPauseCltt)) address = 0 ∧
      notedIn (step state (.smi smcPauseCltt)) address = pollEn state address := by
  have paused : step state (.smi smcPauseCltt) =
      ⟨(clttLoop smcPauseCltt state.entries state.space).1,
        (clttLoop smcPauseCltt state.entries state.space).2⟩ := by
    rw [step, pauseResumeCltt, if_pos (Or.inl rfl)]
  obtain ⟨read, notes⟩ := @clttLoop_pause state.space state.entries address sound.known
  rw [sound.places, if_pos listed] at read notes
  obtain ⟨known, sockets, -⟩ :=
    @clttLoop_known state.space state.entries smcPauseCltt sound.known
  have same : notedIn (step state (.smi smcPauseCltt)) address =
      noted state.space address (clttLoop smcPauseCltt state.entries state.space).1 := by
    rw [notedIn, paused]
    exact noted_congr (fun entry member => sockets entry (known entry member))
  rw [same, notes, pollEn, paused]
  refine ⟨?_, rfl⟩
  rw [read, cleared_and]

/-- A RESUME. -/
theorem step_resume (sound : Sound state) :
    pollEn (step state (.smi smcResumeCltt)) address =
      pollEn state address ||| notedIn state address := by
  have resumed : step state (.smi smcResumeCltt) =
      ⟨(clttLoop smcResumeCltt state.entries state.space).1,
        (clttLoop smcResumeCltt state.entries state.space).2⟩ := by
    rw [step, pauseResumeCltt, if_pos (Or.inr rfl)]
  obtain ⟨-, read⟩ := @clttLoop_resume state.space state.entries smcResumeCltt address (by decide)
    sound.known
  rw [pollEn, resumed, read, or_and, noted_marked sound.marked]
  rfl

/-- What is neither a PAUSE nor a RESUME. -/
theorem step_quiet (sound : Sound state) {event : Event} (pause : ¬ event.IsPause)
    (resume : ¬ event.IsResume) (listed : address ∈ registers state.space) :
    pollEn (step state event) address = pollEn state address ∧
      notedIn (step state event) address = notedIn state address := by
  cases event with
  | smi input =>
    have ignored : step state (.smi input) = state := by
      rw [step, pauseResumeCltt]
      exact if_neg (not_or.mpr ⟨pause, resume⟩)
    rw [ignored]
    exact ⟨rfl, rfl⟩
  | others change =>
    obtain ⟨entry, given, found⟩ := List.mem_filterMap.mp listed
    refine ⟨change.polling state.space entry given address found, ?_⟩
    exact noted_congr (fun entry member =>
      register_known (change.sockets state.space) (sound.known entry member))

/-- The bits that are not for polling, and the other registers. -/
theorem step_framed (sound : Sound state) :
    (step state (.smi input)).space.read address &&& ~~~smbTsodPollEn =
        state.space.read address &&& ~~~smbTsodPollEn ∧
      (address ∉ registers state.space →
        (step state (.smi input)).space.read address = state.space.read address) := by
  rw [step, pauseResumeCltt]
  split
  · by_cases pause : input = smcPauseCltt
    · subst pause
      obtain ⟨read, -⟩ := @clttLoop_pause state.space state.entries address sound.known
      rw [sound.places] at read
      simp only [read]
      refine ⟨?_, fun unlisted => if_neg unlisted⟩
      split
      · exact cleared_other _ _
      · rfl
    · obtain ⟨-, read⟩ :=
        @clttLoop_resume state.space state.entries input address pause sound.known
      simp only [read]
      refine ⟨or_other _ _ _ (noted_marked sound.marked), fun unlisted => ?_⟩
      rw [noted_absent (by rwa [sound.places]), UInt32.or_zero]
  · exact ⟨rfl, fun _ => rfl⟩

end Steps

section Runs

variable {space : ConfigSpace} {events : List Event}

/-- Over any run of events the state stays sound, and the registers stay those of the start. -/
theorem run_sound {state : State} (sound : Sound state) (events : List Event) :
    Sound (events.foldl step state) ∧
      registers (events.foldl step state).space = registers state.space := by
  induction events generalizing state with
  | nil => exact ⟨sound, rfl⟩
  | cons event rest inductionHypothesis =>
    obtain ⟨soundNext, same⟩ := step_sound sound event
    obtain ⟨soundLater, sameLater⟩ := inductionHypothesis soundNext
    exact ⟨soundLater, sameLater.trans same⟩

/-- While polling is paused the notes stay, unless there is another PAUSE. -/
theorem pause_ongoing {state : State} {middle : List Event} (sound : Sound state)
    (paused : ∀ address ∈ registers state.space, pollEn state address = 0)
    (ongoing : ∀ event ∈ middle, ¬ event.IsResume) :
    ∀ address ∈ registers state.space,
      pollEn (middle.foldl step state) address = 0 ∧
        ((∀ event ∈ middle, ¬ event.IsPause) →
          notedIn (middle.foldl step state) address = notedIn state address) ∧
        ((∃ event ∈ middle, event.IsPause) → notedIn (middle.foldl step state) address = 0) := by
  have later : ∀ (state : State), Sound state →
      (∀ address ∈ registers state.space, pollEn state address = 0) →
      ∀ address ∈ registers state.space, pollEn (middle.foldl step state) address = 0 ∧
        ((∀ event ∈ middle, ¬ event.IsPause) →
          notedIn (middle.foldl step state) address = notedIn state address) ∧
        ((notedIn state address = 0 ∨ ∃ event ∈ middle, event.IsPause) →
          notedIn (middle.foldl step state) address = 0) := by
    induction middle with
    | nil =>
      intro state _ paused address listed
      exact ⟨paused address listed, fun _ => rfl, fun either =>
        either.elim id (fun found => absurd found (by simp))⟩
    | cons event rest inductionHypothesis =>
      intro state sound paused address listed
      rw [List.forall_mem_cons] at ongoing
      obtain ⟨soundNext, same⟩ := step_sound sound event
      by_cases pause : event.IsPause
      · have isPause : event = .smi smcPauseCltt := by
          cases event with
          | smi input => exact congrArg Event.smi pause
          | others change => exact absurd pause id
        subst isPause
        have pausedNext : ∀ other ∈ registers (step state (.smi smcPauseCltt)).space,
            pollEn (step state (.smi smcPauseCltt)) other = 0 := by
          intro other member
          exact (step_pause sound (same ▸ member)).1
        obtain ⟨off, -, lost⟩ := inductionHypothesis ongoing.2 _ soundNext pausedNext address
          (same ▸ listed)
        have cleared : notedIn (step state (.smi smcPauseCltt)) address = 0 :=
          (step_pause sound listed).2.trans (paused address listed)
        exact ⟨off, fun none => absurd pause (none _ List.mem_cons_self),
          fun _ => lost (Or.inl cleared)⟩
      · have kept := fun other member =>
          @step_quiet state other sound event pause ongoing.1 member
        have pausedNext : ∀ other ∈ registers (step state event).space,
            pollEn (step state event) other = 0 := by
          intro other member
          rw [same] at member
          rw [(kept other member).1, paused other member]
        obtain ⟨off, stays, lost⟩ := inductionHypothesis ongoing.2 _ soundNext pausedNext address
          (same ▸ listed)
        rw [(kept address listed).2] at stays lost
        refine ⟨off, fun none => stays (fun other member => none other
          (List.mem_cons_of_mem _ member)), fun either => lost ?_⟩
        simpa [pause] using either
  intro address listed
  obtain ⟨off, stays, lost⟩ := later state sound paused address listed
  exact ⟨off, stays, fun again => lost (Or.inr again)⟩

/-- The bit of a register after the RESUME that ends a pause. -/
theorem pause_over {earlier middle : List Event} {pause resume : Event}
    (held : Paused events earlier middle pause resume) {address : UInt32}
    (listed : address ∈ registers space) :
    ((∀ event ∈ middle, ¬ event.IsPause) →
        pollEn (after space (earlier ++ pause :: middle ++ [resume])) address =
          pollEn (after space earlier) address) ∧
      ((∃ event ∈ middle, event.IsPause) →
        pollEn (after space (earlier ++ pause :: middle ++ [resume])) address = 0) := by
  have isPause : pause = .smi smcPauseCltt := by
    cases pause with
    | smi input => exact congrArg Event.smi held.pauses
    | others change => exact absurd held.pauses id
  have isResume : resume = .smi smcResumeCltt := by
    cases resume with
    | smi input => exact congrArg Event.smi held.resumes
    | others change => exact absurd held.resumes id
  subst isPause isResume
  obtain ⟨sound, same⟩ := run_sound (sound_start space) earlier
  change Sound (after space earlier) at sound
  change registers (after space earlier).space = registers space at same
  obtain ⟨soundNext, sameNext⟩ := step_sound sound (.smi smcPauseCltt)
  have paused : ∀ other ∈ registers (step (after space earlier) (.smi smcPauseCltt)).space,
      pollEn (step (after space earlier) (.smi smcPauseCltt)) other = 0 := by
    intro other member
    exact (step_pause sound (sameNext ▸ member)).1
  have here : address ∈ registers (step (after space earlier) (.smi smcPauseCltt)).space := by
    rw [sameNext, same]
    exact listed
  obtain ⟨off, stays, lost⟩ := pause_ongoing soundNext paused held.ongoing address here
  have soundLater := (run_sound soundNext middle).1
  have whole : after space (earlier ++ .smi smcPauseCltt :: middle ++ [.smi smcResumeCltt]) =
      step (middle.foldl step (step (after space earlier) (.smi smcPauseCltt)))
        (.smi smcResumeCltt) := by
    simp only [after, List.foldl_append, List.foldl_cons, List.foldl_nil]
  rw [whole, step_resume soundLater, off, UInt32.zero_or]
  refine ⟨fun once => ?_, lost⟩
  rw [stays once, (step_pause sound (same ▸ listed)).2]

/-- Resumed polling is what it was before the pause, and nothing else changes, exactly if no pause
holds a second PAUSE while polling was enabled. Runs have SMIs with any values in any order, and
other agents may change what is not the subject between them. -/
theorem throttles_iff (space : ConfigSpace) (events : List Event) :
    Lawful space events ↔ Unrepeated space events := by
  constructor
  · intro lawful earlier middle pause resume held again address listed
    rw [← lawful.restored earlier middle pause resume held address listed]
    exact (pause_over held listed).2 again
  · intro unrepeated
    refine ⟨fun earlier middle pause resume held address listed => ?_,
      fun earlier input within address => ?_⟩
    · by_cases again : ∃ event ∈ middle, event.IsPause
      · rw [(pause_over held listed).2 again]
        exact (unrepeated earlier middle pause resume held again address listed).symm
      · refine (pause_over held listed).1 (fun event member isPause => ?_)
        exact again ⟨event, member, isPause⟩
    · obtain ⟨sound, same⟩ := run_sound (sound_start space) earlier
      have next : after space (earlier ++ [.smi input]) = step (after space earlier) (.smi input) := by
        simp only [after, List.foldl_append, List.foldl_cons, List.foldl_nil]
      have framed := @step_framed (after space earlier) address input sound
      rw [show registers (after space earlier).space = registers space from same] at framed
      rw [next]
      exact framed

/-- The first socket on bus 0x3F, with polling enabled in its first register. -/
def oneSocket : ConfigSpace where
  read address :=
    if address < 0x80000000 then 0xffffffff
    else if address = 0x80004200 then decsVidDid
    else if address = 0x800042CC then 0x3F00
    else if address = smbCmdCfgAddress 0x3F 0x9C then smbTsodPollEn
    else 0
  disabled _ below := if_pos below

/-- Two agents ask for a pause, one after the other. -/
def twoPauses : List Event := [.smi smcPauseCltt, .smi smcPauseCltt, .smi smcResumeCltt]

/-- The second PAUSE notes that polling is off. -/
theorem not_every_throttle : ¬ ∀ space events, Lawful space events := by
  intro always
  have held : Paused twoPauses [] [.smi smcPauseCltt] (.smi smcPauseCltt) (.smi smcResumeCltt) := by
    refine ⟨List.prefix_rfl, ?_, rfl, ?_, rfl⟩
    · intro earlier pause rest split
      simp at split
    · intro event member
      rw [List.mem_singleton.mp member]
      exact show smcPauseCltt ≠ smcResumeCltt by decide
  have restored := (always oneSocket twoPauses).restored _ _ _ _ held
    (smbCmdCfgAddress 0x3F 0x9C) (by decide +kernel)
  exact absurd restored (by decide +kernel)

end Runs

end SmcPkg.Cltt
