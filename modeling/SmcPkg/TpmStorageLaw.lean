import SmcPkg.TpmStorage

/-!
# When a provisioning table is assembled as it should be

The walk as a run of reads: what it lays out, what it writes and whether a read failed. None
fails exactly if no call does and no entry is longer than the one before it, and then what is
laid out are the entries. From that the exact conditions on the storage, for both kinds of
tables.
-/

namespace SmcPkg.TpmStorage

open Bytes Card ReadRuns TpmProvision

section Walks

variable {storage : MeStorage} {walk : Walk} {readings : List Reading}

/-- What a call leaves, and how far it moves the place. -/
def Reading.piece (reading : Reading) : Piece := ⟨reading.data, reading.size⟩

@[simp] theorem Walk.step_size (reading : Reading) :
    (walk.step reading).meStorageEntryMaxBuffSize = reading.size := rfl

/-- What the steps lay out. -/
theorem steps_table :
    (readings.foldl Walk.step walk).table =
      lay walk.tblWalkThrough (readings.map Reading.piece) walk.table := by
  induction readings generalizing walk with
  | nil => rfl
  | cons reading readings inductionHypothesis => exact inductionHypothesis

/-- What the steps write. -/
theorem steps_writes :
    (readings.foldl Walk.step walk).writes = walk.writes ++
      extents walk.tblWalkThrough (readings.map Reading.piece) := by
  induction readings generalizing walk with
  | nil => exact (List.append_nil _).symm
  | cons reading readings inductionHypothesis =>
    exact inductionHypothesis.trans (List.append_assoc _ _ _)

/-- The steps remember every error. -/
theorem steps_failed :
    (readings.foldl Walk.step walk).failed =
      (walk.failed || readings.any fun reading => efiError reading.status) := by
  induction readings generalizing walk with
  | nil => exact (Bool.or_false _).symm
  | cons reading readings inductionHypothesis =>
    rw [List.foldl_cons, inductionHypothesis, List.any_cons, ← Bool.or_assoc]
    rfl

/-- The readings of the walk from an index on, each with the room that the one before has left. -/
def readingsFrom (storage : MeStorage) : Nat → Nat → Nat → List Reading
  | _, _, 0 => []
  | index, room, count + 1 =>
    storage.entryRead (index + 1) (UInt8.ofNat index) room ::
      readingsFrom storage (index + 1)
        (storage.entryRead (index + 1) (UInt8.ofNat index) room).size count

/-- With fewer entries than the index can count, the walk ends behind the last. -/
theorem walkThrough_ends {entries : Nat} (few : entries ≤ 255) {index count fuel : Nat}
    (left : index + count = entries) (enough : count < fuel) (calls : walk.calls = index + 1) :
    walkThrough storage entries fuel (UInt8.ofNat index) walk =
      some ((readingsFrom storage index walk.meStorageEntryMaxBuffSize count).foldl
        Walk.step walk) := by
  induction count generalizing index fuel walk with
  | zero =>
    obtain ⟨fuel, rfl⟩ := Nat.exists_eq_succ_of_ne_zero (Nat.ne_of_gt enough)
    have last : ¬ (UInt8.ofNat index).toNat < entries := by
      rw [UInt8.toNat_ofNat', Nat.mod_eq_of_lt (by omega)]
      omega
    rw [walkThrough, if_neg last]
    rfl
  | succ count inductionHypothesis =>
    obtain ⟨fuel, rfl⟩ := Nat.exists_eq_succ_of_ne_zero (Nat.ne_of_gt (Nat.zero_lt_of_lt enough))
    have inside : (UInt8.ofNat index).toNat < entries := by
      rw [UInt8.toNat_ofNat', Nat.mod_eq_of_lt (by omega)]
      omega
    have next : UInt8.ofNat index + 1 = UInt8.ofNat (index + 1) := by
      rw [UInt8.ofNat_add]
      rfl
    have after : (walk.step (storage.entryRead walk.calls (UInt8.ofNat index)
        walk.meStorageEntryMaxBuffSize)).calls = index + 1 + 1 := congrArg (· + 1) calls
    rw [walkThrough, if_pos inside, next,
      inductionHypothesis (by omega) (Nat.lt_of_succ_lt_succ enough) after, calls, readingsFrom,
      List.foldl_cons, Walk.step_size]

/-- The index never gets to 256. -/
theorem walkThrough_endless {fuel : Nat} {index : UInt8} :
    walkThrough storage 256 fuel index walk = none := by
  induction fuel generalizing index walk with
  | zero => rfl
  | succ fuel inductionHypothesis =>
    rw [walkThrough, if_pos (UInt8.toNat_lt index)]
    exact inductionHypothesis

end Walks

section Inputs

variable (storage : MeStorage) (pool : Memory)

/-- What the reads of the walk leave, with how far they move the place. -/
def pieces : List Piece :=
  (readingsFrom storage 0 (headerRead storage).size (tblEntries storage)).map Reading.piece

/-- The memory from the table on, with the pieces in it. -/
def gathered : Memory := lay 0 (pieces storage) (tblBuffer storage pool)

/-- The entries that are read. -/
def parts : List (List UInt8) :=
  (List.range (tblEntries storage)).map fun k => storage.entries (UInt8.ofNat k)

/-- No call of the walk nor the one before it fails, the first entry fits the header buffer, and
no entry that is read is longer than the one before it. -/
structure Unfailed : Prop where
  calls : ∀ call ≤ tblEntries storage, storage.failure call = none
  first : (storage.entries 0).length ≤ meStorageMaxBuffer
  notLonger : ∀ k, k + 1 < tblEntries storage →
    (storage.entries (UInt8.ofNat (k + 1))).length ≤ (storage.entries (UInt8.ofNat k)).length

/-- What the entries that are read hold is what all entries hold, up to the length of the table. -/
def Agrees : Prop :=
  ∀ i < tblBufferSize storage, (parts storage).flatten.getD i 0 = (stored storage).getD i 0

/-- The table that the entries hold, with what lies behind it. -/
def storedTable : Memory := fun i =>
  if i < tblBufferSize storage then (stored storage).getD i 0 else pool i

/-- The conditions on the storage, with those on a table for it to send nothing and for its
    commands to lie inside. -/
def WellStored (signature : List UInt8) (Silent : Memory → Prop)
    (Inside : Memory → Nat → Prop) : Prop :=
  headerAccepted storage signature →
    tblEntries storage ≤ 255 ∧
    (∀ extent ∈ extents 0 (pieces storage), extent.BytesWithin (tblBufferSize storage)) ∧
    (¬ Unfailed storage → Silent (gathered storage pool)) ∧
    (Unfailed storage →
      Agrees storage ∧ Inside (storedTable storage pool) (tblBufferSize storage))

variable {storage} {pool}

/-- A call succeeds exactly if it does not fail for a reason of its own and the entry fits, and
then it brings the entry. -/
theorem entryRead_failed {call room : Nat} {index : UInt8} :
    efiError (storage.entryRead call index room).status = false ↔
      storage.failure call = none ∧ (storage.entries index).length ≤ room := by
  unfold MeStorage.entryRead
  cases storage.failure call with
  | some failed => simp [FailedRead.reading, failed.failed]
  | none =>
    by_cases fits : (storage.entries index).length ≤ room
    · simp [fits, efiError, efiSuccess]
    · simp [fits, FailedRead.reading, storage.bufferTooSmall.failed]

/-- A read with room leaves the whole entry, and moves the place behind it. -/
theorem entryRead_piece {call room : Nat} {index : UInt8} (unfailed : storage.failure call = none)
    (fits : (storage.entries index).length ≤ room) :
    (storage.entryRead call index room).piece = solid (storage.entries index) := by
  rw [MeStorage.entryRead, unfailed]
  simp only [if_pos fits]
  rfl

/-- None of the readings of the walk fails exactly if no call does and the entries do not grow. -/
theorem readingsFrom_failed {index room count : Nat} :
    ((readingsFrom storage index room count).any fun reading => efiError reading.status) = false ↔
      (∀ call, index < call → call ≤ index + count → storage.failure call = none) ∧
        Descending room
          ((List.range' index count).map fun k => storage.entries (UInt8.ofNat k)) := by
  induction count generalizing index room with
  | zero =>
    refine iff_of_true rfl ⟨fun call above below => ?_, trivial⟩
    omega
  | succ count inductionHypothesis =>
    rw [readingsFrom, List.any_cons, Bool.or_eq_false_iff, inductionHypothesis, entryRead_failed,
      List.range'_succ, List.map_cons, Descending]
    constructor
    · rintro ⟨⟨first, fits⟩, rest, descending⟩
      have size : (storage.entryRead (index + 1) (UInt8.ofNat index) room).size =
          (storage.entries (UInt8.ofNat index)).length :=
        congrArg Piece.advance (entryRead_piece first fits)
      rw [size] at descending
      refine ⟨fun call above below => ?_, fits, descending⟩
      obtain rfl | later := Nat.eq_or_lt_of_le (Nat.succ_le_of_lt above)
      · exact first
      · exact rest call later (by omega)
    · rintro ⟨calls, fits, descending⟩
      have first : storage.failure (index + 1) = none := calls _ (by omega) (by omega)
      have size : (storage.entryRead (index + 1) (UInt8.ofNat index) room).size =
          (storage.entries (UInt8.ofNat index)).length :=
        congrArg Piece.advance (entryRead_piece first fits)
      rw [size]
      exact ⟨⟨first, fits⟩, fun call above below => calls call (by omega) (by omega), descending⟩

/-- Where none fails, the entries are what the reads leave. -/
theorem readingsFrom_entries {index room count : Nat}
    (calls : ∀ call, index < call → call ≤ index + count → storage.failure call = none)
    (descending : Descending room
      ((List.range' index count).map fun k => storage.entries (UInt8.ofNat k))) :
    (readingsFrom storage index room count).map Reading.piece =
      ((List.range' index count).map fun k => storage.entries (UInt8.ofNat k)).map solid := by
  induction count generalizing index room with
  | zero => rfl
  | succ count inductionHypothesis =>
    rw [List.range'_succ, List.map_cons, Descending] at descending
    obtain ⟨fits, descending⟩ := descending
    have here := entryRead_piece (calls (index + 1) (by omega) (by omega)) fits
    have size : (storage.entryRead (index + 1) (UInt8.ofNat index) room).size =
        (storage.entries (UInt8.ofNat index)).length := congrArg Piece.advance here
    rw [← size] at descending
    have rest := inductionHypothesis (fun call above below => calls call (by omega) (by omega))
      descending
    rw [readingsFrom, List.map_cons, here, rest, List.range'_succ, List.map_cons, List.map_cons]

/-- The first read and those of the walk, none of which fails. -/
theorem unfailed_iff :
    (efiError (headerRead storage).status ||
        (readingsFrom storage 0 (headerRead storage).size (tblEntries storage)).any
          fun reading => efiError reading.status) = false ↔ Unfailed storage := by
  rw [Bool.or_eq_false_iff, readingsFrom_failed, headerRead, entryRead_failed, Nat.zero_add]
  constructor
  · rintro ⟨⟨header, first⟩, calls, descending⟩
    have size : (storage.entryRead 0 0 meStorageMaxBuffer).size = (storage.entries 0).length :=
      congrArg Piece.advance (entryRead_piece header first)
    rw [size, descending_range'] at descending
    refine ⟨fun call below => ?_, first, fun k below => descending.2 k (Nat.zero_le k) ?_⟩
    · obtain rfl | later := Nat.eq_zero_or_pos call
      · exact header
      · exact calls call later below
    · rw [Nat.zero_add]
      exact below
  · rintro ⟨calls, first, notLonger⟩
    have header := calls 0 (Nat.zero_le _)
    have size : (storage.entryRead 0 0 meStorageMaxBuffer).size = (storage.entries 0).length :=
      congrArg Piece.advance (entryRead_piece header first)
    rw [size, descending_range']
    refine ⟨⟨header, first⟩, fun call _ below => calls call below, fun _ => Nat.le_refl _,
      fun k _ below => notLonger k ?_⟩
    rw [Nat.zero_add] at below
    exact below

/-- Where no read fails, the pieces are the entries. -/
theorem pieces_unfailed (unfailed : Unfailed storage) :
    pieces storage = (parts storage).map solid := by
  have header := unfailed.calls 0 (Nat.zero_le _)
  have size : (headerRead storage).size = (storage.entries 0).length :=
    congrArg Piece.advance (entryRead_piece header unfailed.first)
  rw [pieces, parts, List.range_eq_range', size]
  refine readingsFrom_entries (fun call _ below => unfailed.calls call (by omega)) ?_
  rw [descending_range']
  refine ⟨fun _ => Nat.le_refl _, fun k _ below => unfailed.notLonger k ?_⟩
  rw [Nat.zero_add] at below
  exact below

/-- The walk of an accepted table that is not too long for the index. -/
theorem walk_ends (few : tblEntries storage ≤ 255) :
    ∃ walk, (∀ fuel, tblEntries storage < fuel →
        walkThrough storage (tblEntries storage) fuel 0 (startWalk storage pool) = some walk) ∧
      walk.table = gathered storage pool ∧
      walk.writes = extents 0 (pieces storage) ∧
      (walk.failed = false ↔ Unfailed storage) := by
  refine ⟨(readingsFrom storage 0 (headerRead storage).size (tblEntries storage)).foldl
    Walk.step (startWalk storage pool), ?_, ?_, ?_, ?_⟩
  · intro fuel enough
    have first : UInt8.ofNat 0 = 0 := rfl
    rw [← first]
    exact walkThrough_ends few (Nat.zero_add _) enough rfl
  · rw [steps_table, gathered, pieces, startWalk]
  · rw [steps_writes, pieces, startWalk, List.nil_append]
  · rw [steps_failed]
    exact unfailed_iff

/-- More fuel leaves the end of a walk as it is. -/
theorem walkThrough_more {entries fuel more : Nat} {index : UInt8} {walk result : Walk}
    (ran : walkThrough storage entries fuel index walk = some result) (enough : fuel ≤ more) :
    walkThrough storage entries more index walk = some result := by
  induction fuel generalizing more index walk with
  | zero => exact nomatch ran
  | succ fuel inductionHypothesis =>
    obtain ⟨more, rfl⟩ := Nat.exists_eq_succ_of_ne_zero
      (Nat.ne_of_gt (Nat.lt_of_lt_of_le (Nat.zero_lt_succ fuel) enough))
    rw [walkThrough] at ran ⊢
    split at ran
    case isTrue inside =>
      rw [if_pos inside]
      exact inductionHypothesis ran (Nat.le_of_succ_le_succ enough)
    case isFalse outside =>
      rw [if_neg outside]
      exact ran

/-- Where no read fails, the gathered table holds the bytes of the entries that are read. -/
theorem gathered_inside {i : Nat} (unfailed : Unfailed storage)
    (inside : i < tblBufferSize storage) :
    gathered storage pool i = (parts storage).flatten.getD i 0 := by
  rw [gathered, pieces_unfailed unfailed]
  by_cases filled : i < (parts storage).flatten.length
  · have byte := @lay_inside 0 i (parts storage) (tblBuffer storage pool) filled
    rw [Nat.zero_add] at byte
    exact byte
  · rw [lay_outside (Or.inr (by omega)), tblBuffer, if_pos inside,
      List.getD_eq_default _ _ (Nat.le_of_not_lt filled)]

/-- With the pieces inside, and the bytes of all entries in them, the table is that of the
entries. -/
theorem gathered_eq (unfailed : Unfailed storage)
    (fits : ∀ extent ∈ extents 0 (pieces storage), extent.BytesWithin (tblBufferSize storage))
    (agrees : Agrees storage) : gathered storage pool = storedTable storage pool := by
  have total := fits
  rw [pieces_unfailed unfailed, extents_within (Nat.zero_le _), Nat.zero_add] at total
  funext i
  by_cases inside : i < tblBufferSize storage
  · rw [gathered_inside unfailed inside, storedTable, if_pos inside, agrees i inside]
  · rw [gathered, pieces_unfailed unfailed, lay_outside (Or.inr (by omega)), tblBuffer,
      storedTable, if_neg inside, if_neg inside]

end Inputs

section Generic

variable {storage : MeStorage} {pool : Memory} {provisioner : Provisioner}
  {Silent : Memory → Prop} {Inside : Memory → Nat → Prop}

/-- A function whose walk ends is right exactly if its one run is. -/
theorem sound_run {walk : Walk} (accepted : headerAccepted storage provisioner.signature)
    (ends : ∀ fuel, tblEntries storage < fuel →
      walkThrough storage (tblEntries storage) fuel 0 (startWalk storage pool) = some walk) :
    provisioner.Sound storage pool ↔ Run.Sound storage
      ⟨some walk, provisioner.sent walk.table, provisioner.events walk.table⟩ := by
  constructor
  · rintro ⟨fuel, run, ran, sound⟩
    rw [Provisioner.run, if_pos accepted] at ran
    obtain ⟨other, walked, same⟩ := Option.bind_eq_some_iff.mp ran
    obtain rfl := Option.some.inj same
    have more := walkThrough_more walked (Nat.le_add_right fuel (tblEntries storage + 1))
    rw [ends _ (by omega)] at more
    obtain rfl := Option.some.inj more
    exact sound
  · intro sound
    refine ⟨tblEntries storage + 1, _, ?_, sound⟩
    rw [Provisioner.run, if_pos accepted, ends _ (Nat.lt_succ_self _)]
    rfl

/-- The conditions are exact for a function whose conditions on a table are. -/
theorem sound_iff (silent : ∀ image, provisioner.events image = [] ↔ Silent image)
    (inside : ∀ image length,
      (∀ place ∈ provisioner.sent image, place.Within length) ↔ Inside image length)
    (quiet : ∀ image, provisioner.events image = [] → provisioner.sent image = []) :
    provisioner.Sound storage pool ↔
      WellStored storage pool provisioner.signature Silent Inside := by
  by_cases accepted : headerAccepted storage provisioner.signature
  swap
  · refine iff_of_true ⟨0, ⟨none, [], []⟩, if_neg accepted, rfl, rfl⟩ ?_
    exact fun always => absurd always accepted
  have limit : tblEntries storage ≤ 256 := by
    have both := Bool.and_eq_true_iff.mp accepted
    exact of_decide_eq_true both.2
  obtain few | many := Nat.lt_or_ge 255 (tblEntries storage)
  · -- The walk over 256 entries.
    have all : tblEntries storage = 256 := by omega
    refine iff_of_false ?_ ?_
    · rintro ⟨fuel, run, ran, -⟩
      rw [Provisioner.run, if_pos accepted, all, walkThrough_endless] at ran
      exact nomatch ran
    · exact fun well => absurd (well accepted).1 (by omega)
  · obtain ⟨walk, ends, table, writes, failed⟩ := @walk_ends storage pool many
    rw [sound_run accepted ends]
    constructor
    · rintro ⟨assembled, inTable, sent, refused⟩ -
      have written : ∀ extent ∈ extents 0 (pieces storage),
          extent.BytesWithin (tblBufferSize storage) := by
        rw [← writes]
        exact inTable
      refine ⟨many, written, ?_, ?_⟩
      · intro failure
        rw [← silent, ← table]
        exact refused (Bool.eq_true_of_not_eq_false fun fine => failure (failed.mp fine))
      · intro unfailed
        have whole := assembled (failed.mpr unfailed)
        have agrees : Agrees storage := by
          intro i below
          rw [← gathered_inside unfailed below, ← table]
          exact whole i below
        rw [← inside, ← gathered_eq unfailed written agrees, ← table]
        exact ⟨agrees, sent⟩
    · intro well
      obtain ⟨-, fits, failing, unfailing⟩ := well accepted
      have refused : walk.failed = true → provisioner.events walk.table = [] := by
        intro failure
        rw [silent, table]
        exact failing fun unfailed => absurd (failed.mpr unfailed) (by simp [failure])
      refine ⟨?_, by rw [writes]; exact fits, ?_, refused⟩
      · intro fine i below
        have unfailed := failed.mp fine
        rw [table, gathered_inside unfailed below, (unfailing unfailed).1 i below]
      · by_cases unfailed : Unfailed storage
        · obtain ⟨agrees, commands⟩ := unfailing unfailed
          rw [inside, table, gathered_eq unfailed fits agrees]
          exact commands
        · have failure : walk.failed = true :=
            Bool.eq_true_of_not_eq_false fun fine => unfailed (failed.mp fine)
          rw [quiet _ (refused failure)]
          exact fun _ member => nomatch member

end Generic

section FirstKind

variable (image : Memory) (tpm : Tpm)

/-- A TPM 1.2 table for which nothing is sent: of another version, or with entries that neither
    create nor write nor lock. -/
def Silent1 : Prop :=
  image 12 = 1 → ∀ index < (image 54).toNat,
    creates1 image (params1 image index) = false ∧
      ((params1 image index).bWrite → writes1 image (params1 image index) = false ∧
        (params1 image index).bWriteProtect = false)

/-- A TPM 1.2 table whose commands lie inside. -/
def Inside1 (length : Nat) : Prop :=
  image 12 = 1 → ∀ index < (image 54).toNat,
    (creates1 image (params1 image index) →
      (createPlace (params1 image index)).Within length) ∧
    ((params1 image index).bWrite → writes1 image (params1 image index) →
      (writePlace (params1 image index)).Within length)

/-- The events of a round send what lies at the places of the round. -/
theorem sentIndex1_commands (index : Nat) :
    (provisionIndex1 image tpm index).filterMap eventCommand =
      (sentIndex1 image index).map (Place.command image) := by
  have locks (condition : Bool) : (if condition then [Event.locked (params1 image index).nvIndex]
      else []).filterMap eventCommand = [] := by
    cases condition <;> rfl
  rw [provisionIndex1, List.filterMap_append, locks, List.append_nil, commands1, sentIndex1,
    List.filterMap_append, List.map_append]
  congr 1
  · unfold creates1
    split_ifs with creates other
    · rfl
    · exact absurd (decide_eq_true creates) other
    · exact absurd (of_decide_eq_true ‹_›) creates
    · rfl
  · split <;> rfl

/-- The commands of the TPM 1.2 walk are those of the places that it sends. -/
theorem sentIndexes1_commands :
    (provisionIndexes1 image tpm).filterMap eventCommand =
      (sentIndexes1 image).map (Place.command image) := by
  unfold provisionIndexes1 sentIndexes1
  split
  · rfl
  · rw [List.filterMap_flatMap, List.map_flatMap]
    exact List.flatMap_congr fun index _ => sentIndex1_commands image tpm index

/-- The TPM 1.2 walk does nothing exactly if the image is silent. -/
theorem provisionIndexes1_nil : provisionIndexes1 image tpm = [] ↔ Silent1 image := by
  unfold provisionIndexes1 Silent1
  by_cases version : image 12 = 1
  · rw [if_neg (not_not.mpr version), List.flatMap_eq_nil_iff]
    simp only [List.mem_range, version, forall_const]
    refine forall₂_congr fun index below => ?_
    simp only [provisionIndex1, commands1, creates1, List.append_eq_nil_iff]
    cases (params1 image index).bWrite <;> cases (params1 image index).bWriteProtect <;>
      simp [and_comm]
  · rw [if_pos version]
    exact iff_of_true rfl fun same => absurd same version

/-- All places of the TPM 1.2 walk lie in the image exactly if the indexes do. -/
theorem sentIndexes1_inside (length : Nat) :
    (∀ place ∈ sentIndexes1 image, place.Within length) ↔ Inside1 image length := by
  unfold sentIndexes1 Inside1
  by_cases version : image 12 = 1
  · rw [if_neg (not_not.mpr version)]
    simp only [List.mem_flatMap, List.mem_range, version, forall_const]
    constructor
    · intro all index below
      constructor
      · intro creates
        exact all _ ⟨index, below, by simp [sentIndex1, creates]⟩
      · intro write writes
        exact all _ ⟨index, below, by simp [sentIndex1, write, writes]⟩
    · rintro all place ⟨index, below, member⟩
      obtain ⟨created, wrote⟩ := all index below
      obtain create | write := List.mem_append.mp member
      · split at create
        case isTrue creates =>
          rw [List.mem_singleton.mp create]
          exact created creates
        case isFalse => exact nomatch create
      · split at write
        case isTrue writes =>
          obtain ⟨bWrite, proper⟩ := Bool.and_eq_true_iff.mp writes
          rw [List.mem_singleton.mp write]
          exact wrote bWrite proper
        case isFalse => exact nomatch write
  · rw [if_pos version]
    exact iff_of_true (fun _ member => nomatch member) fun same => absurd same version

end FirstKind

section SecondKind

variable (image : Memory) (tpm : Tpm)

/-- A TPM 2.0 table for which nothing is sent: without algorithms. -/
def Silent2 : Prop := image 54 = 0

/-- An algorithm that is tried: the TPM takes the policy of none before it. -/
def Tried (algIndex : Nat) : Prop := ∀ earlier < algIndex, takesPolicy tpm earlier = false

/-- A TPM 2.0 table whose commands lie inside: the policies that are tried, and what is sent for
    the algorithm whose policy is taken. -/
def Inside2 (length : Nat) : Prop :=
  ∀ algIndex < (image 54).toNat, Tried tpm algIndex →
    (policyPlace image algIndex).Within length ∧
    (takesPolicy tpm algIndex → ∀ index < (image (algParams algIndex + 12)).toNat,
      tpm2IndexExist tpm index = false →
        (createPlace (params2 image algIndex index)).Within length ∧
        ((params2 image algIndex index).bWrite →
          (writePlace (params2 image algIndex index)).Within length))

/-- The policies are sent from the places that the search comes to. -/
theorem sentPolicies_commands (count algIndex : Nat) :
    (searchAlg image tpm count algIndex).1.filterMap eventCommand =
      (sentPolicies image tpm count algIndex).map (Place.command image) := by
  induction count generalizing algIndex with
  | zero => rfl
  | succ count inductionHypothesis =>
    rw [searchAlg, sentPolicies, takesPolicy]
    dsimp only
    split
    · rfl
    · exact congrArg (_ :: ·) (inductionHypothesis (algIndex + 1))

/-- The algorithm that is found is the first whose policy is taken. -/
theorem searchAlg_found {count algIndex found : Nat} :
    (searchAlg image tpm count algIndex).2 = some found ↔
      algIndex ≤ found ∧ found < algIndex + count ∧ takesPolicy tpm found = true ∧
        ∀ earlier, algIndex ≤ earlier → earlier < found → takesPolicy tpm earlier = false := by
  induction count generalizing algIndex with
  | zero =>
    refine iff_of_false (fun same => nomatch same) ?_
    rintro ⟨above, below, -⟩
    omega
  | succ count inductionHypothesis =>
    have named : (sendCommand (tpm.policy algIndex)).good = takesPolicy tpm algIndex := rfl
    rw [searchAlg]
    dsimp only
    rw [named]
    by_cases takes : takesPolicy tpm algIndex = true
    · rw [if_pos takes]
      constructor
      · rintro ⟨⟩
        exact ⟨Nat.le_refl _, by omega, takes, fun earlier above below => by omega⟩
      · rintro ⟨above, -, -, noEarlier⟩
        obtain rfl | later := Nat.eq_or_lt_of_le above
        · rfl
        · exact absurd takes (Bool.eq_false_iff.mp (noEarlier _ (Nat.le_refl _) later))
    · rw [if_neg takes]
      refine inductionHypothesis.trans ?_
      have refuses := Bool.eq_false_iff.mpr takes
      constructor
      · rintro ⟨above, below, good, noEarlier⟩
        refine ⟨by omega, by omega, good, fun earlier reaches before => ?_⟩
        obtain rfl | later := Nat.eq_or_lt_of_le reaches
        · exact refuses
        · exact noEarlier earlier later before
      · rintro ⟨above, below, good, noEarlier⟩
        obtain rfl | later := Nat.eq_or_lt_of_le above
        · exact absurd good takes
        · exact ⟨later, by omega, good, fun earlier reaches => noEarlier earlier (by omega)⟩

/-- The policies that are sent are those that are tried. -/
theorem mem_sentPolicies {count algIndex : Nat} {place : Place} :
    place ∈ sentPolicies image tpm count algIndex ↔
      ∃ tried, algIndex ≤ tried ∧ tried < algIndex + count ∧ place = policyPlace image tried ∧
        ∀ earlier, algIndex ≤ earlier → earlier < tried → takesPolicy tpm earlier = false := by
  induction count generalizing algIndex with
  | zero =>
    refine iff_of_false (fun member => nomatch member) ?_
    rintro ⟨tried, above, below, -⟩
    omega
  | succ count inductionHypothesis =>
    rw [sentPolicies, List.mem_cons]
    constructor
    · rintro (rfl | member)
      · exact ⟨algIndex, Nat.le_refl _, by omega, rfl, fun earlier above below => by omega⟩
      · split at member
        · exact nomatch member
        case isFalse refuses =>
          obtain ⟨tried, above, below, same, noEarlier⟩ := inductionHypothesis.mp member
          refine ⟨tried, by omega, by omega, same, fun earlier reaches before => ?_⟩
          obtain rfl | later := Nat.eq_or_lt_of_le reaches
          · exact Bool.eq_false_iff.mpr refuses
          · exact noEarlier earlier later before
    · rintro ⟨tried, above, below, same, noEarlier⟩
      obtain rfl | later := Nat.eq_or_lt_of_le above
      · exact Or.inl same
      · have refuses := noEarlier algIndex (Nat.le_refl _) later
        rw [refuses]
        exact Or.inr (inductionHypothesis.mpr
          ⟨tried, later, by omega, same, fun earlier reaches => noEarlier earlier (by omega)⟩)

/-- An index of a TPM 2.0 is sent from its places. -/
theorem sentIndex2_commands (algIndex index : Nat) :
    (provisionIndex2 image tpm (word16 image (algParams algIndex + 14)).toNat
        (image (algParams algIndex + 13)).toNat index).filterMap eventCommand =
      (sentIndex2 image tpm algIndex index).map (Place.command image) := by
  unfold provisionIndex2 sentIndex2 params2
  dsimp only
  split_ifs <;> rfl

/-- The commands of the TPM 2.0 walk are those of the places that it sends. -/
theorem sentIndexes2_commands :
    (provisionIndexes2 image tpm).filterMap eventCommand =
      (sentIndexes2 image tpm).map (Place.command image) := by
  have policies := sentPolicies_commands image tpm (image 54).toNat 0
  unfold provisionIndexes2 sentIndexes2
  rcases searched : searchAlg image tpm (image 54).toNat 0 with ⟨events, _ | algIndex⟩
  · rw [searched] at policies
    rw [List.append_nil]
    exact policies
  · rw [searched] at policies
    dsimp only at policies ⊢
    rw [List.filterMap_append, List.map_append, policies, List.filterMap_flatMap, List.map_flatMap]
    congr 1
    exact List.flatMap_congr fun index _ => sentIndex2_commands image tpm algIndex index

/-- The TPM 2.0 walk does nothing exactly if the image is silent. -/
theorem provisionIndexes2_nil : provisionIndexes2 image tpm = [] ↔ Silent2 image := by
  unfold provisionIndexes2 Silent2
  constructor
  · intro nothing
    by_contra nonzero
    have count : (image 54).toNat ≠ 0 := fun zero => nonzero (UInt8.toNat_inj.mp zero)
    obtain ⟨count, same⟩ := Nat.exists_eq_succ_of_ne_zero count
    have first : (searchAlg image tpm (image 54).toNat 0).1 ≠ [] := by
      rw [same, searchAlg]
      dsimp only
      split <;> exact List.cons_ne_nil _ _
    rcases searched : searchAlg image tpm (image 54).toNat 0 with ⟨events, _ | algIndex⟩
    · rw [searched] at nothing first
      exact first nothing
    · rw [searched] at nothing first
      exact first (List.append_eq_nil_iff.mp nothing).1
  · intro nothing
    rw [nothing]
    rfl

/-- All places of the TPM 2.0 walk lie in the image exactly if policies and indexes do. -/
theorem sentIndexes2_inside (length : Nat) :
    (∀ place ∈ sentIndexes2 image tpm, place.Within length) ↔ Inside2 image tpm length := by
  unfold sentIndexes2 Inside2
  simp only [List.forall_mem_append]
  constructor
  · rintro ⟨policies, indexes⟩ algIndex below tried
    refine ⟨policies _ ?_, ?_⟩
    · exact (mem_sentPolicies image tpm).mpr ⟨algIndex, Nat.zero_le _, by omega, rfl,
        fun earlier _ before => tried earlier before⟩
    · intro takes index inside absent
      have found : (searchAlg image tpm (image 54).toNat 0).2 = some algIndex :=
        (searchAlg_found image tpm).mpr ⟨Nat.zero_le _, by omega, takes,
          fun earlier _ before => tried earlier before⟩
      rw [found] at indexes
      have round (place : Place) (member : place ∈ sentIndex2 image tpm algIndex index) :
          place.Within length :=
        indexes place (List.mem_flatMap.mpr ⟨index, List.mem_range.mpr inside, member⟩)
      constructor
      · exact round _ (by simp [sentIndex2, absent])
      · intro write
        exact round _ (by simp [sentIndex2, absent, write])
  · intro all
    constructor
    · intro place member
      obtain ⟨tried, -, below, rfl, noEarlier⟩ := (mem_sentPolicies image tpm).mp member
      exact (all tried (by omega) fun earlier before => noEarlier earlier (Nat.zero_le _) before).1
    · cases found : (searchAlg image tpm (image 54).toNat 0).2 with
      | none => exact fun _ member => nomatch member
      | some algIndex =>
        obtain ⟨-, below, takes, noEarlier⟩ := (searchAlg_found image tpm).mp found
        have inside := (all algIndex (by omega) fun earlier before =>
          noEarlier earlier (Nat.zero_le _) before).2 takes
        intro place member
        obtain ⟨index, ranged, sent⟩ := List.mem_flatMap.mp member
        unfold sentIndex2 at sent
        dsimp only at sent
        split at sent
        · exact nomatch sent
        case isFalse absent =>
          obtain ⟨created, wrote⟩ :=
            inside index (List.mem_range.mp ranged) (Bool.eq_false_iff.mpr absent)
          obtain rfl | write := List.mem_cons.mp sent
          · exact created
          · split at write
            case isTrue bWrite =>
              rw [List.mem_singleton.mp write]
              exact wrote bWrite
            case isFalse => exact nomatch write

end SecondKind

section Assembly

variable (storage : MeStorage) (pool : Memory) (tpm : Tpm)

/-- For a TPM 1.2 the run is sound exactly if the image is well stored. -/
theorem tpm1_sound_iff :
    (tpm1ByPpiXOob tpm).Sound storage pool ↔
      WellStored storage pool tpm12Signature Silent1 Inside1 := by
  refine sound_iff (fun image => provisionIndexes1_nil image tpm) sentIndexes1_inside ?_
  intro image nothing
  have commands := sentIndexes1_commands image tpm
  rw [show provisionIndexes1 image tpm = [] from nothing] at commands
  exact List.map_eq_nil_iff.mp commands.symm

/-- For a TPM 2.0 the run is sound exactly if the image is well stored. -/
theorem tpm2_sound_iff :
    (tpm2ByPpiXOob tpm).Sound storage pool ↔
      WellStored storage pool tpm20Signature Silent2 fun image => Inside2 image tpm := by
  refine sound_iff (fun image => provisionIndexes2_nil image tpm)
    (fun image => sentIndexes2_inside image tpm) ?_
  intro image nothing
  have commands := sentIndexes2_commands image tpm
  rw [show provisionIndexes2 image tpm = [] from nothing] at commands
  exact List.map_eq_nil_iff.mp commands.symm

/-- Both functions assemble and use their tables as they should exactly where the storage is well
stored for them. The storage answers each read in any way, the pool holds anything at first, and
the TPM answers every command with any code. -/
theorem assembly_iff :
    ((tpm1ByPpiXOob tpm).Sound storage pool ↔
      WellStored storage pool tpm12Signature Silent1 Inside1) ∧
    ((tpm2ByPpiXOob tpm).Sound storage pool ↔
      WellStored storage pool tpm20Signature Silent2 fun image => Inside2 image tpm) :=
  ⟨tpm1_sound_iff storage pool tpm, tpm2_sound_iff storage pool tpm⟩

/-- A table of 60 bytes in an entry of 100. -/
def longEntry : MeStorage where
  entries := fun _ => tpm12Signature ++ le32 60 ++ List.replicate 88 0
  failure := fun _ => none
  bufferTooSmall := ⟨errorCode 5, [], true, by decide⟩

/-- An entry that is longer than the table is written behind the table. -/
theorem not_always_assembled :
    ¬ ∀ (storage : MeStorage) (pool : Memory) (tpm : Tpm),
      (tpm1ByPpiXOob tpm).Sound storage pool ∧ (tpm2ByPpiXOob tpm).Sound storage pool := by
  intro always
  let tpm : Tpm := ⟨fun _ => ⟨0, 0⟩, fun _ => 0, fun _ => ⟨0, 0⟩, fun _ => ⟨0, 0⟩⟩
  have well := (tpm1_sound_iff longEntry (fun _ => 0) tpm).mp (always longEntry _ tpm).1
  have fits := (well (by decide)).2.1
  revert fits
  decide

end Assembly

end SmcPkg.TpmStorage
