import SmcPkg.Lib.Bytes
import SmcPkg.Lib.Precedence
import SmcPkg.RaidOob.Card

/-!
# Provisioning of a TPM

A table names NV indexes and holds the commands that create and write them. The commands are
sent one after another, and an index that is to be protected is locked for good. There are two
kinds of tables, and each is either built in or read from the storage of the management engine.

The TPM answers every command with any code, and the table is arbitrary bytes. What an index is
worth that was written but not locked is not covered.
-/

namespace SmcPkg.TpmProvision

open Bytes Card Precedence

section Table

/-- `NV_INFO`. -/
structure NvInfo where
  nvIndex : UInt32
  bWrite : Bool
  bWriteProtect : Bool
  createCmdSize : UInt32
  createCmdOffset : UInt16
  writeCmdSize : UInt32
  writeCmdOffset : UInt16

/-- The entry of a table that lies at a place of its image. -/
def nvInfoAt (image : Memory) (place : Nat) : NvInfo where
  nvIndex := word32 image place
  bWrite := image (place + 4) ≠ 0
  bWriteProtect := image (place + 5) ≠ 0
  createCmdSize := word32 image (place + 8)
  createCmdOffset := word16 image (place + 12)
  writeCmdSize := word32 image (place + 14)
  writeCmdOffset := word16 image (place + 18)

/-- A command of a table. -/
def commandAt (image : Memory) (offset : UInt16) (size : UInt32) : List UInt8 :=
  bytesOf (shifted offset.toNat image) size.toNat

end Table

section Commands

/-- What comes back for a command. -/
structure Answer where
  status : Status
  respCode : UInt32

/-- The answers of a TPM. Each command is sent once at most for an entry of a table. -/
structure Tpm where
  policy : Nat → Answer
  readPublic : Nat → Status
  create : Nat → Answer
  write : Nat → Answer

/-- What a run does. -/
inductive Event
  | policySet (command : List UInt8) (answer : Answer)
  | created (nvIndex : UInt32) (command : List UInt8) (answer : Answer)
  | wrote (nvIndex : UInt32) (command : List UInt8) (answer : Answer)
  | locked (nvIndex : UInt32)
  | finished

/-- `EFI_DEVICE_ERROR`. -/
def efiDeviceError : Status := 0x8000000000000007#64

/-- `Tpm12SendCommand` and `Tpm20SendCommand`. -/
def sendCommand (answer : Answer) : Answer :=
  ⟨if efiError answer.status then efiDeviceError else efiSuccess, answer.respCode⟩

/-- A command was sent and answered with success. -/
def Answer.good (answer : Answer) : Bool := answer.status = efiSuccess && answer.respCode = 0

/-- A write that was answered with success. -/
def Event.provisions : Event → Bool
  | .wrote _ _ answer => answer.good
  | _ => false

/-- The flag of the BMC, if an index was written. -/
def report (events : List Event) : List Event :=
  if events.any Event.provisions then events ++ [.finished] else events

end Commands

section Provision

variable (image : Memory) (tpm : Tpm)

/-- The entry of a TPM 1.2 table. -/
def params1 (index : Nat) : NvInfo := nvInfoAt image (56 + 20 * index)

/-- Whether the command of an entry is a write, and not of the index 0x150. -/
def writes1 (info : NvInfo) : Bool :=
  image (info.writeCmdOffset.toNat + 0x9) = 0xCD &&
    word32 image (info.writeCmdOffset.toNat + 0xA) ≠ 0x150

/-- The commands that are sent in a round of the loops over a TPM 1.2 table. -/
def commands1 (index : Nat) : List Event :=
  let info := params1 image index
  let created :=
    if image (info.createCmdOffset.toNat + 0x9) = 0xCC then
      [Event.created info.nvIndex (commandAt image info.createCmdOffset info.createCmdSize)
        (sendCommand (tpm.create index))]
    else []
  let wrote :=
    if info.bWrite && writes1 image info then
      [Event.wrote info.nvIndex (commandAt image info.writeCmdOffset info.writeCmdSize)
        (sendCommand (tpm.write index))]
    else []
  created ++ wrote

/-- One round of the loops over a TPM 1.2 table. -/
def provisionIndex1 (index : Nat) : List Event :=
  let info := params1 image index
  commands1 image tpm index ++
    if info.bWrite && info.bWriteProtect then [Event.locked info.nvIndex] else []

/-- The loops over a TPM 1.2 table, unless its version is another. -/
def provisionIndexes1 : List Event :=
  if image 12 ≠ 1 then []
  else (List.range (image 54).toNat).flatMap (provisionIndex1 image tpm)

/-- `ALG_INFO` of a TPM 2.0 table, by the place in the image. -/
def algParams (algIndex : Nat) : Nat := 56 + 16 * algIndex

/-- The loop that looks for an algorithm. -/
def searchAlg : Nat → Nat → List Event × Option Nat
  | 0, _ => ([], none)
  | count + 1, algIndex =>
    let place := algParams algIndex
    let answer := sendCommand (tpm.policy algIndex)
    let event := Event.policySet
      (commandAt image (word16 image (place + 8)) (word32 image (place + 4))) answer
    if answer.good then ([event], some algIndex)
    else
      let (events, found) := searchAlg count (algIndex + 1)
      (event :: events, found)

/-- `Tpm2IndexExist`. -/
def tpm2IndexExist (index : Nat) : Bool := !efiError (tpm.readPublic index)

/-- One round of the loops over a TPM 2.0 table. -/
def provisionIndex2 (paramsOffset nvInfoSize index : Nat) : List Event :=
  let info := nvInfoAt image (paramsOffset + index * nvInfoSize)
  if tpm2IndexExist tpm index then []
  else
    let created := Event.created info.nvIndex
      (commandAt image info.createCmdOffset info.createCmdSize) (sendCommand (tpm.create index))
    if info.bWrite then
      let answer := sendCommand (tpm.write index)
      let wrote := Event.wrote info.nvIndex
        (commandAt image info.writeCmdOffset info.writeCmdSize) answer
      if answer.good && info.bWriteProtect then [created, wrote, .locked info.nvIndex]
      else [created, wrote]
    else [created]

/-- The loops over a TPM 2.0 table, behind the search for an algorithm. -/
def provisionIndexes2 : List Event :=
  match searchAlg image tpm (image 54).toNat 0 with
  | (events, none) => events
  | (events, some algIndex) =>
    let place := algParams algIndex
    events ++ (List.range (image (place + 12)).toNat).flatMap (provisionIndex2 image tpm
      (word16 image (place + 14)).toNat (image (place + 13)).toNat)

end Provision

section Functions

/-- A table in the storage of the management engine: what the first entry holds, and what all
entries hold together. -/
structure MeTable where
  header : Memory
  image : Memory

/-- `ME_STORAGE_MAX_BUFFER`. -/
def meStorageMaxBuffer : Nat := 512

/-- `ME_STORAGE_MAX_INDEX`. -/
def meStorageMaxIndex : Nat := 255

/-- How many entries a table takes. -/
def tableEntries (table : MeTable) : Nat :=
  let size := (word32 table.header 8).toNat
  size / meStorageMaxBuffer + if size % meStorageMaxBuffer ≠ 0 then 1 else 0

/-- The tests on a table in the storage. -/
def tableAccepted (table : MeTable) (signature : List UInt8) : Bool :=
  startsWith table.header signature && tableEntries table ≤ meStorageMaxIndex + 1

/-- The walk through the storage comes to an end. Its index has eight bits, so it does not for
the largest table that is accepted. -/
def walkEnds (table : MeTable) : Bool := tableEntries table ≤ meStorageMaxIndex

/-- `TPM12_PROVISION_TABLE_SIGNATURE`. -/
def tpm12Signature : List UInt8 := [0x54, 0x50, 0x4D, 0x31, 0x50, 0x72, 0x6F, 0x76]

/-- `TPM20_PROVISION_TABLE_SIGNATURE`. -/
def tpm20Signature : List UInt8 := [0x54, 0x50, 0x4D, 0x32, 0x50, 0x52, 0x4F, 0x56]

/-- `Tpm1Provision`, with the table if there is one. -/
def tpm1Provision (table : Option Memory) (tpm : Tpm) : List Event :=
  match table with
  | none => []
  | some image => report (provisionIndexes1 image tpm)

/-- `Tpm2Provision`. -/
def tpm2Provision (table : Option Memory) (tpm : Tpm) : List Event :=
  match table with
  | none => []
  | some image => report (provisionIndexes2 image tpm)

/-- `SmcTpm1ProvisionByPpiXOob`. -/
def smcTpm1ProvisionByPpiXOob (table : MeTable) (tpm : Tpm) : List Event :=
  if tableAccepted table tpm12Signature && walkEnds table then
    provisionIndexes1 table.image tpm
  else []

/-- `SmcTpm2ProvisionByPpiXOob`. -/
def smcTpm2ProvisionByPpiXOob (table : MeTable) (tpm : Tpm) : List Event :=
  if tableAccepted table tpm20Signature && walkEnds table then
    provisionIndexes2 table.image tpm
  else []

end Functions

section Locks

/-- The event locks an index. -/
def Locks (event : Event) (nvIndex : UInt32) : Prop := event = .locked nvIndex

/-- The event writes an index with success. -/
def Fills (event : Event) (nvIndex : UInt32) : Prop :=
  ∃ command answer, event = .wrote nvIndex command answer ∧ answer.good

/-- An index is locked only after it was written with success. -/
def LocksBacked (events : List Event) : Prop := BackedAfter Locks Fills [] events

/-- An entry writes an index with success. -/
def FillsIndex (image : Memory) (tpm : Tpm) (index : Nat) (nvIndex : UInt32) : Prop :=
  (params1 image index).nvIndex = nvIndex ∧ (params1 image index).bWrite ∧
    writes1 image (params1 image index) ∧ (sendCommand (tpm.write index)).good

/-- Each entry of a TPM 1.2 table that is to be locked comes with or behind one that writes the
same index with success. -/
def LocksCovered (image : Memory) (tpm : Tpm) : Prop :=
  image 12 = 1 → ∀ index < (image 54).toNat,
    (params1 image index).bWrite → (params1 image index).bWriteProtect →
      ∃ earlier ≤ index, FillsIndex image tpm earlier (params1 image index).nvIndex

/-- An index that is created is not filled yet. -/
theorem fills_created (nvIndex key : UInt32) (command : List UInt8) (answer : Answer) :
    ¬ Fills (.created nvIndex command answer) key := by
  rintro ⟨_, _, same, -⟩
  exact absurd same (by simp)

/-- A lock fills nothing. -/
theorem fills_locked (nvIndex key : UInt32) : ¬ Fills (.locked nvIndex) key := by
  rintro ⟨_, _, same, -⟩
  exact absurd same (by simp)

/-- A write fills its own index, if the TPM has taken it. -/
theorem fills_wrote (nvIndex key : UInt32) (command : List UInt8) (answer : Answer) :
    Fills (.wrote nvIndex command answer) key ↔ nvIndex = key ∧ answer.good := by
  constructor
  · rintro ⟨_, _, same, good⟩
    obtain ⟨rfl, -, rfl⟩ : nvIndex = key ∧ _ ∧ answer = _ := by simpa using same
    exact ⟨rfl, good⟩
  · rintro ⟨rfl, good⟩
    exact ⟨command, answer, rfl, good⟩

/-- The flag of the BMC has no part in it. -/
theorem locksBacked_report (events : List Event) :
    LocksBacked (report events) ↔ LocksBacked events := by
  unfold report LocksBacked
  split
  · rw [backedAfter_append]
    constructor
    · intro both
      exact both.1
    · intro backed
      refine ⟨backed, backedAfter_of_quiet _ ?_⟩
      intro event member key locks
      obtain rfl : event = .finished := by simpa using member
      exact absurd locks (by simp [Locks])
  · rfl

section OneRound

variable (image : Memory) (tpm : Tpm) (past : List Event)

/-- What the commands of a round of the first kind write. -/
theorem mem_commands1 (index : Nat) (key : UInt32) :
    (∃ event ∈ commands1 image tpm index, Fills event key) ↔ FillsIndex image tpm index key := by
  unfold commands1 FillsIndex
  constructor
  · rintro ⟨event, member, fills⟩
    obtain created | wrote := List.mem_append.mp member
    · split at created
      · obtain rfl := List.mem_singleton.mp created
        exact absurd fills (fills_created _ _ _ _)
      · exact absurd created (by simp)
    · split at wrote
      case isTrue writes =>
        obtain rfl := List.mem_singleton.mp wrote
        obtain ⟨same, good⟩ := (fills_wrote _ _ _ _).mp fills
        obtain ⟨write, proper⟩ := Bool.and_eq_true_iff.mp writes
        exact ⟨same, write, proper, good⟩
      case isFalse => exact absurd wrote (by simp)
  · rintro ⟨same, write, proper, good⟩
    let info := params1 image index
    refine ⟨.wrote info.nvIndex (commandAt image info.writeCmdOffset info.writeCmdSize)
      (sendCommand (tpm.write index)), ?_, (fills_wrote _ _ _ _).mpr ⟨same, good⟩⟩
    simp [info, write, proper]

/-- The commands in front of a lock lock nothing. -/
theorem commands1_quiet (index : Nat) :
    ∀ event ∈ commands1 image tpm index, ∀ key, ¬ Locks event key := by
  rintro event member key rfl
  obtain created | wrote := List.mem_append.mp member
  · split at created <;> simp at created
  · split at wrote <;> simp at wrote

/-- What a round of the first kind writes. -/
theorem mem_provisionIndex1 (index : Nat) (key : UInt32) :
    (∃ event ∈ provisionIndex1 image tpm index, Fills event key) ↔
      FillsIndex image tpm index key := by
  rw [← mem_commands1]
  constructor
  · rintro ⟨event, member, fills⟩
    obtain sent | locked := List.mem_append.mp member
    · exact ⟨event, sent, fills⟩
    · split at locked
      · obtain rfl := List.mem_singleton.mp locked
        exact absurd fills (fills_locked _ _)
      · exact absurd locked (by simp)
  · rintro ⟨event, sent, fills⟩
    exact ⟨event, List.mem_append_left _ sent, fills⟩

/-- A round of the first kind is backed if what it locks is written by then. -/
theorem backedAfter_provisionIndex1 (index : Nat) :
    BackedAfter Locks Fills past (provisionIndex1 image tpm index) ↔
      ((params1 image index).bWrite → (params1 image index).bWriteProtect →
        (∃ event ∈ past, Fills event (params1 image index).nvIndex) ∨
          FillsIndex image tpm index (params1 image index).nvIndex) := by
  rw [← mem_commands1, provisionIndex1, backedAfter_append]
  constructor
  · rintro ⟨-, locked⟩ write protect
    rw [if_pos (by simp [write, protect]), backedAfter_cons] at locked
    obtain ⟨event, member, fills⟩ := locked.1 _ rfl
    obtain old | new := List.mem_append.mp member
    · exact Or.inl ⟨event, old, fills⟩
    · exact Or.inr ⟨event, new, fills⟩
  · intro covered
    refine ⟨backedAfter_of_quiet _ (commands1_quiet image tpm index), ?_⟩
    split
    case isTrue locks =>
      obtain ⟨write, protect⟩ := Bool.and_eq_true_iff.mp locks
      rw [backedAfter_cons]
      refine ⟨?_, backedAfter_nil _⟩
      intro key locked
      obtain rfl : (params1 image index).nvIndex = key := by simpa [Locks] using locked
      obtain ⟨event, old, fills⟩ | ⟨event, new, fills⟩ := covered write protect
      · exact ⟨event, List.mem_append_left _ old, fills⟩
      · exact ⟨event, List.mem_append_right _ new, fills⟩
    case isFalse => exact backedAfter_nil _

/-- A round of the second kind is backed whatever was before. -/
theorem backedAfter_provisionIndex2 (paramsOffset nvInfoSize index : Nat) :
    BackedAfter Locks Fills past (provisionIndex2 image tpm paramsOffset nvInfoSize index) := by
  unfold provisionIndex2
  extract_lets info created answer wrote
  have silent : ∀ key, ¬ Locks created key := by
    intro key locks
    exact absurd locks (by simp [Locks, created])
  have silentToo : ∀ key, ¬ Locks wrote key := by
    intro key locks
    exact absurd locks (by simp [Locks, wrote])
  split
  · exact backedAfter_nil _
  · split
    · split
      case isTrue locks =>
        have good : answer.good := (Bool.and_eq_true_iff.mp locks).1
        simp only [backedAfter_cons]
        refine ⟨fun key locked => absurd locked (silent key),
          fun key locked => absurd locked (silentToo key), ?_, backedAfter_nil _⟩
        intro key locked
        obtain rfl : info.nvIndex = key := by simpa [Locks] using locked
        exact ⟨wrote, by simp, (fills_wrote _ _ _ _).mpr ⟨rfl, good⟩⟩
      case isFalse =>
        refine backedAfter_of_quiet _ ?_
        intro event member
        obtain rfl | rfl : event = created ∨ event = wrote := by simpa using member
        · exact silent
        · exact silentToo
    · refine backedAfter_of_quiet _ ?_
      intro event member
      obtain rfl : event = created := by simpa using member
      exact silent

end OneRound

section AllRounds

variable (image : Memory) (tpm : Tpm)

/-- For a TPM 1.2 the locks are backed exactly if the image and the answers say so: the walk
locks whatever the write has come to. -/
theorem locksBacked_provisionIndexes1 :
    LocksBacked (provisionIndexes1 image tpm) ↔ LocksCovered image tpm := by
  unfold provisionIndexes1 LocksBacked LocksCovered
  by_cases version : image 12 = 1
  · rw [if_neg (by simp [version]), backedAfter_rounds]
    simp only [backedAfter_provisionIndex1, List.nil_append, version, true_implies]
    have found : ∀ index key, (∃ event ∈ (List.range index).flatMap (provisionIndex1 image tpm),
        Fills event key) ↔ ∃ earlier < index, FillsIndex image tpm earlier key := by
      intro index key
      simp only [← mem_provisionIndex1, List.mem_flatMap, List.mem_range]
      constructor
      · rintro ⟨event, ⟨earlier, bound, member⟩, fills⟩
        exact ⟨earlier, bound, event, member, fills⟩
      · rintro ⟨earlier, bound, event, member, fills⟩
        exact ⟨event, ⟨earlier, bound, member⟩, fills⟩
    constructor
    · intro covered index bound write protect
      obtain past | own := covered index bound write protect
      · obtain ⟨earlier, less, fills⟩ := (found index _).mp past
        exact ⟨earlier, by omega, fills⟩
      · exact ⟨index, by omega, own⟩
    · intro covered index bound write protect
      obtain ⟨earlier, less, fills⟩ := covered index bound write protect
      by_cases own : earlier = index
      · exact Or.inr (own ▸ fills)
      · exact Or.inl ((found index _).mpr ⟨earlier, by omega, fills⟩)
  · rw [if_pos (by simpa using version)]
    constructor
    · intro _ same
      exact absurd same version
    · intro _
      exact backedAfter_nil _

/-- The search for a policy locks nothing. -/
theorem searchAlg_quiet (count algIndex : Nat) :
    ∀ event ∈ (searchAlg image tpm count algIndex).1, ∀ key, ¬ Locks event key := by
  induction count generalizing algIndex with
  | zero => simp [searchAlg]
  | succ count ih =>
    intro event member key locks
    rw [searchAlg] at member
    split at member
    · obtain rfl : event = _ := List.mem_singleton.mp member
      exact absurd locks (by simp [Locks])
    · obtain rfl | later := List.mem_cons.mp member
      · exact absurd locks (by simp [Locks])
      · exact ih (algIndex + 1) event later key locks

/-- For a TPM 2.0 every lock is backed by a write that was taken. -/
theorem locksBacked_provisionIndexes2 : LocksBacked (provisionIndexes2 image tpm) := by
  have quiet := searchAlg_quiet image tpm (image 54).toNat 0
  unfold provisionIndexes2 LocksBacked
  split
  case h_1 events same =>
    rw [same] at quiet
    exact backedAfter_of_quiet _ quiet
  case h_2 events algIndex same =>
    rw [same] at quiet
    rw [backedAfter_append, backedAfter_rounds]
    refine ⟨backedAfter_of_quiet _ quiet, ?_⟩
    intro index _
    exact backedAfter_provisionIndex2 image tpm _ _ _ index

end AllRounds

/-- When the functions lock only what they have written. The functions for TPM 2.0 always do; those
for TPM 1.2 need that what they lock is covered by a write that the TPM has accepted. The TPM may
refuse any command, and the table may hold anything. -/
theorem locksBacked_iff (table : Option Memory) (stored : MeTable) (tpm : Tpm) :
    (LocksBacked (tpm1Provision table tpm) ↔ ∀ image, table = some image →
        LocksCovered image tpm) ∧
      LocksBacked (tpm2Provision table tpm) ∧
      (LocksBacked (smcTpm1ProvisionByPpiXOob stored tpm) ↔
        (tableAccepted stored tpm12Signature && walkEnds stored → LocksCovered stored.image tpm)) ∧
      LocksBacked (smcTpm2ProvisionByPpiXOob stored tpm) := by
  have silent : LocksBacked [] := backedAfter_nil _
  refine ⟨?_, ?_, ?_, ?_⟩
  · cases table with
    | none => simp [tpm1Provision, silent]
    | some image => simp [tpm1Provision, locksBacked_report, locksBacked_provisionIndexes1]
  · cases table with
    | none => exact silent
    | some image =>
      exact (locksBacked_report _).mpr (locksBacked_provisionIndexes2 image tpm)
  · unfold smcTpm1ProvisionByPpiXOob
    by_cases accepted : tableAccepted stored tpm12Signature && walkEnds stored
    · simp only [accepted, true_implies]
      exact locksBacked_provisionIndexes1 stored.image tpm
    · simp [accepted, silent]
  · unfold smcTpm2ProvisionByPpiXOob
    split
    · exact locksBacked_provisionIndexes2 stored.image tpm
    · exact silent

/-- A table with one index that is to be written and locked. -/
def oneIndex : Memory := fun place =>
  if place = 12 ∨ place = 54 ∨ place = 60 ∨ place = 61 then 1
  else if place = 74 then 100
  else if place = 109 then 0xCD
  else 0

/-- A TPM that refuses every write. -/
def refusesWrites : Tpm where
  policy _ := ⟨efiSuccess, 0⟩
  readPublic _ := efiSuccess
  create _ := ⟨efiSuccess, 0⟩
  write _ := ⟨efiSuccess, 2⟩

/-- A TPM 1.2 that refuses the write gets the lock all the same. -/
theorem not_always_backed :
    ¬ ∀ (table : Option Memory) (stored : MeTable) (tpm : Tpm),
      LocksBacked (tpm1Provision table tpm) ∧ LocksBacked (tpm2Provision table tpm) ∧
        LocksBacked (smcTpm1ProvisionByPpiXOob stored tpm) ∧
        LocksBacked (smcTpm2ProvisionByPpiXOob stored tpm) := by
  intro always
  have backed := (always (some oneIndex) ⟨oneIndex, oneIndex⟩ refusesWrites).1
  have run : tpm1Provision (some oneIndex) refusesWrites =
      [.wrote 0 [] ⟨efiSuccess, 2⟩] ++ .locked 0 :: [] := by rfl
  obtain ⟨event, member, command, answer, same, good⟩ := backed _ _ _ 0 run rfl
  obtain rfl : event = .wrote 0 [] ⟨efiSuccess, 2⟩ := by simpa using member
  obtain ⟨-, rfl⟩ : _ ∧ (⟨efiSuccess, 2⟩ : Answer) = answer := by simpa using same
  exact absurd good (by decide)

end Locks

end SmcPkg.TpmProvision
