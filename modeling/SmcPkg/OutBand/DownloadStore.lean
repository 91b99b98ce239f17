import SmcPkg.OutBand.DownloadLaw

/-!
# What a download stores

A file that passed its test goes to its region of the ROM hole. The whole region is
written, so a file that is smaller than the region takes the tail of the shared buffer
along: bytes of an earlier attempt, or of the pool.
-/

namespace SmcPkg.Download

open Bytes Card RomHole

section Store

variable {kind : Kind} {replies : Replies} {pool : Memory} {region : Region} {n : Nat}

/-- A file is stored at most once, in its region and after its success was acknowledged,
and every byte of the region was read in the last attempt, whose test passed. -/
def StoresVerified (kind : Kind) (region : Region) (events : List Event) : Prop :=
  ∀ before target data later, events = before ++ Event.write target data :: later →
    target = region ∧ NoWrite before ∧ NoWrite later ∧
      ∃ earlier reply read status,
        before = earlier ++ transfer reply read ++ [Event.done 0 status] ∧
        noError read.status = true ∧ noError status = true ∧
        kind.verify data reply.fileSize = true ∧
        ∀ i < smcRomHoleSize region, i < reply.fileSize.toNat ∧ data i = read.data i

/-- The file that is verified first is not smaller than the region, if its success is
acknowledged. -/
def FillsRegion (kind : Kind) (region : Region) (replies : Replies) (pool : Option Memory) : Prop :=
  ∀ buffer, pool = some buffer → noError replies.done = true →
    ∀ n, IsLast kind replies buffer n → VerifiedAt kind replies buffer n →
      smcRomHoleSize region ≤ (replies.start n).fileSize.toNat

/-- A call that stores a file as it is. -/
def storing (kind : Kind) (region : Region) (replies : Replies) (pool : Memory) : List Event :=
  let made := download kind replies 4 0 pool
  made.events ++ reportAndStore region replies made

/-- Nothing follows a passed test. -/
def Plain (kind : Kind) : Prop := ∀ buffer, kind.restore buffer = ([], buffer)

/-- Where the last attempt verifies, its data are transferred and the end is reported with
success. -/
theorem storing_verified (plain : Plain kind) (last : IsLast kind replies pool n)
    (verified : VerifiedAt kind replies pool n) :
    storing kind region replies pool = (eventsUpTo kind replies pool n ++
      transfer (replies.start n) (replies.read n) ++ [Event.done 0 replies.done]) ++
      if efiError replies.done then []
      else [Event.write region (filled replies n (bufferAt kind replies pool n))] := by
  obtain ⟨m, other, made⟩ := download_last kind replies pool
  rw [last.unique other] at verified ⊢
  simp only [storing, made, eventsUpTo_succ, attemptAt_verified verified, verifiedAttempt,
    reportAndStore, plain _, if_true]
  simp

/-- Where it does not, nothing is transferred, and a process that was begun is ended with a
failure. -/
theorem storing_failed (last : IsLast kind replies pool n)
    (unverified : ¬ VerifiedAt kind replies pool n) :
    storing kind region replies pool = eventsUpTo kind replies pool (n + 1) ++
      if (attemptAt kind replies pool n).downloadProcess then [.done 1 replies.done] else [] := by
  obtain ⟨m, other, made⟩ := download_last kind replies pool
  rw [last.unique other] at unverified ⊢
  simp only [storing, made, reportAndStore, (attemptAt_failed unverified).success]
  simp

/-- Nothing is stored unless a file was verified. -/
theorem storing_failed_noWrite (last : IsLast kind replies pool n)
    (unverified : ¬ VerifiedAt kind replies pool n) :
    NoWrite (storing kind region replies pool) := by
  rw [storing_failed last unverified, eventsUpTo_succ]
  apply NoWrite.append
  · exact (eventsUpTo_noWrite last.2.1).append (attemptAt_failed unverified).noWrite
  · intro target data member
    split at member <;> simp at member

/-- A write behind a part without writes. -/
theorem write_behind {front tail before later : List Event} {target : Region} {data : Memory}
    (none : NoWrite front)
    (split : front ++ tail = before ++ Event.write target data :: later) :
    ∃ between, before = front ++ between ∧ tail = between ++ Event.write target data :: later := by
  rcases List.append_eq_append_iff.mp split with ⟨between, same, rest⟩ | ⟨between, same, rest⟩
  · exact ⟨between, same, rest⟩
  · cases between with
    | nil => exact ⟨[], by simpa using same.symm, by simpa using rest.symm⟩
    | cons first between =>
      have head : first = Event.write target data := by simp_all
      exact absurd (by simp [same, head]) (none target data)

/-- A list of events with one write at its end. -/
theorem write_at_end {events before later : List Event} {target : Region} {data stored : Memory}
    (none : NoWrite events)
    (split : events ++ [Event.write region stored] = before ++ Event.write target data :: later) :
    before = events ∧ target = region ∧ data = stored ∧ later = [] := by
  obtain ⟨between, same, rest⟩ := write_behind none split
  cases between with
  | nil => simp_all
  | cons first between => simp at rest

/-- The transfer of the plain storing writes no region. -/
theorem transfer_noWrite {reply : StartReply} {read : ReadReply} :
    NoWrite (transfer reply read) := by
  intro target data member
  simp [transfer] at member

/-- Up to the report nothing is written. -/
theorem eventsVerified_noWrite (last : IsLast kind replies pool n) :
    NoWrite (eventsUpTo kind replies pool n ++ transfer (replies.start n) (replies.read n) ++
      [Event.done 0 replies.done]) := by
  apply ((eventsUpTo_noWrite last.2.1).append transfer_noWrite).append
  intro target data member
  simp at member

/-- A file that was read lies at the front of the buffer. -/
theorem filled_inside {buffer : Memory} {i : Nat} (read : noError (replies.read n).status = true)
    (inside : i < (replies.start n).fileSize.toNat) :
    filled replies n buffer i = (replies.read n).data i := by
  have success : efiError (replies.read n).status = false := by simpa [noError] using read
  rw [filled, readDataToBios, if_neg (by simp [success]), overlay_inside inside]

/-- A call stores only verified bytes exactly when the first verified file fills the
region. -/
theorem storing_storesVerified_iff (plain : Plain kind) (status : kind.succeeds = noError) :
    StoresVerified kind region (storing kind region replies pool) ↔
      FillsRegion kind region replies (some pool) := by
  constructor
  · rintro stores buffer same acknowledged n last verified
    obtain rfl : pool = buffer := by simpa using same
    have success : efiError replies.done = false := by simpa [noError] using acknowledged
    have events : storing kind region replies pool = _ := storing_verified plain last verified
    rw [if_neg (by simp [success])] at events
    obtain ⟨-, -, -, earlier, reply, read, status, shape, -, -, -, bytes⟩ :=
      stores _ _ _ [] events
    obtain ⟨front, -⟩ := List.append_inj' shape rfl
    obtain ⟨-, tail⟩ := List.append_inj' front rfl
    simp only [transfer, List.cons.injEq, Event.start.injEq] at tail
    rw [tail.1]
    by_contra small
    exact Nat.lt_irrefl _ (bytes _ (Nat.lt_of_not_le small)).1
  · intro fills before target data later split
    obtain ⟨n, last, -⟩ := download_last kind replies pool
    by_cases verified : VerifiedAt kind replies pool n
    · rw [storing_verified plain last verified] at split
      by_cases refused : efiError replies.done = true
      · rw [if_pos refused, List.append_nil] at split
        exact absurd (by simp [split]) (eventsVerified_noWrite last target data)
      · rw [if_neg refused] at split
        have acknowledged : noError replies.done = true := by simpa [noError] using refused
        obtain ⟨rfl, rfl, rfl, rfl⟩ := write_at_end (eventsVerified_noWrite last) split
        have read : noError (replies.read n).status = true := by
          have succeeded := verified.2.2.1
          rwa [status] at succeeded
        refine ⟨rfl, eventsVerified_noWrite last, ?_, _, _, _, _, rfl, read, acknowledged,
          verified.2.2.2, ?_⟩
        · intro region data member
          simp at member
        · intro i inside
          have below := Nat.lt_of_lt_of_le inside (fills pool rfl acknowledged n last verified)
          exact ⟨below, filled_inside read below⟩
    · have none : NoWrite (storing kind region replies pool) := storing_failed_noWrite last verified
      rw [split] at none
      exact absurd (by simp) (none target data)

end Store

section Restore

variable {env : StorageEnv} {replies : Replies} {pool : Memory} {n : Nat}

/-- A step of the transfer itself. -/
def Event.transfers : Event → Bool
  | .start _ => true
  | .read _ _ => true
  | .checksum _ => true
  | .done _ _ => true
  | .preservation _ _ => false
  | .write _ _ => false

/-- A region is written only if the signature is absent, and only right after an image of
the full size was read and its checksum matched. -/
def RestoresVerified (env : StorageEnv) (events : List Event) : Prop :=
  ∀ before target data later, events = before ++ Event.write target data :: later →
    startsWith (readRegion env.hole .smbiosForBmc) smcSignature = false ∧
      ∃ earlier reply read between,
        before = earlier ++ transfer reply read ++ between ∧
        (∀ event ∈ between, event.transfers = false) ∧
        reply.fileSize.toNat = romHoleSize ∧ read.status = efiSuccess ∧
        lastByteChecksum read.data reply.fileSize = true

/-- The buffer of the storage before the first attempt. -/
def clearedPool (pool : Memory) : Memory := setMem 0 romHoleSize 0xFF pool

/-- A signature that is there but cannot be read does no harm: no image is verified, or
nothing is written for it. -/
def SignatureSeen (env : StorageEnv) (replies : Replies) (pool : Option Memory) : Prop :=
  startsWith (readRegion env.hole .smbiosForBmc) smcSignature = true →
    env.readStatus ≠ efiSuccess → ∀ buffer, pool = some buffer →
      ∀ n, IsLast (biosStorageKind replies) replies (clearedPool buffer) n →
        VerifiedAt (biosStorageKind replies) replies (clearedPool buffer) n →
          replies.preservation.status ≠ efiSuccess ∧ env.bakerville = false

/-- What follows a verified image. -/
def restoring (env : StorageEnv) (replies : Replies) (image : Memory) : List Event :=
  (restoreRegions replies image).1 ++
    if env.bakerville then [.write .full (restoreRegions replies image).2] else []

/-- The image that an attempt has read. -/
def imageAt (replies : Replies) (pool : Memory) (n : Nat) : Memory :=
  filled replies n (bufferAt (biosStorageKind replies) replies (clearedPool pool) n)

/-- Of the BIOS storage, data that verify are transferred, and the region is written as the flag
says. -/
theorem storage_verified (unsigned : env.signed = false)
    (last : IsLast (biosStorageKind replies) replies (clearedPool pool) n)
    (verified : VerifiedAt (biosStorageKind replies) replies (clearedPool pool) n) :
    downloadBiosStorageFromBmc (some pool) env replies =
      (eventsUpTo (biosStorageKind replies) replies (clearedPool pool) n ++
        transfer (replies.start n) (replies.read n)) ++
          (restoring env replies (imageAt replies pool n) ++ [Event.done 0 replies.done]) := by
  obtain ⟨m, other, made⟩ := download_last (biosStorageKind replies) replies (clearedPool pool)
  rw [last.unique other] at verified ⊢
  rw [clearedPool] at made
  simp only [downloadBiosStorageFromBmc, unsigned, made, eventsUpTo_succ, restoring, imageAt]
  rw [← clearedPool, attemptAt_verified verified]
  simp [verifiedAttempt, biosStorageKind]

/-- Of the BIOS storage, data that do not verify are not transferred. -/
theorem storage_failed (unsigned : env.signed = false)
    (last : IsLast (biosStorageKind replies) replies (clearedPool pool) n)
    (unverified : ¬ VerifiedAt (biosStorageKind replies) replies (clearedPool pool) n) :
    downloadBiosStorageFromBmc (some pool) env replies =
      eventsUpTo (biosStorageKind replies) replies (clearedPool pool) (n + 1) ++
        if (attemptAt (biosStorageKind replies) replies (clearedPool pool) n).downloadProcess then
          [.done 1 replies.done] else [] := by
  obtain ⟨m, other, made⟩ := download_last (biosStorageKind replies) replies (clearedPool pool)
  rw [last.unique other] at unverified ⊢
  rw [clearedPool] at made
  simp only [downloadBiosStorageFromBmc, unsigned, made]
  rw [← clearedPool]
  simp [(attemptAt_failed unverified).success]

/-- Then no region is written. -/
theorem storage_failed_noWrite (unsigned : env.signed = false)
    (last : IsLast (biosStorageKind replies) replies (clearedPool pool) n)
    (unverified : ¬ VerifiedAt (biosStorageKind replies) replies (clearedPool pool) n) :
    NoWrite (downloadBiosStorageFromBmc (some pool) env replies) := by
  rw [storage_failed unsigned last unverified, eventsUpTo_succ]
  apply NoWrite.append
  · exact (eventsUpTo_noWrite last.2.1).append (attemptAt_failed unverified).noWrite
  · intro target data member
    split at member <;> simp at member

/-- The events that follow a verified image are no steps of a transfer. -/
theorem restoring_transfers {image : Memory} :
    ∀ event ∈ restoring env replies image, event.transfers = false := by
  intro event member
  rw [restoring, restoreRegions] at member
  split at member <;> split at member <;> simp at member <;> aesop

/-- When a verified image leads to a write. -/
theorem restoring_noWrite_iff (image : Memory) :
    NoWrite (restoring env replies image) ↔
      replies.preservation.status ≠ efiSuccess ∧ env.bakerville = false := by
  rw [restoring]
  constructor
  · intro none
    constructor
    · intro success
      rw [restoreRegions, if_pos success] at none
      exact none _ _ (List.mem_append_left _ (List.mem_cons_of_mem _ List.mem_cons_self))
    · by_contra platform
      rw [if_pos (by simpa using platform)] at none
      exact none _ _ (List.mem_append_right _ List.mem_cons_self)
  · rintro ⟨refused, platform⟩ target data member
    rw [restoreRegions, if_neg refused, if_neg (by simp [platform])] at member
    simp at member

/-- A write before the last event. -/
theorem write_before_last {body before later : List Event} {target : Region} {data : Memory}
    {status : Status}
    (split : body ++ [Event.done 0 status] = before ++ Event.write target data :: later) :
    ∃ rest, body = before ++ Event.write target data :: rest := by
  rcases List.append_eq_append_iff.mp split with ⟨more, -, tail⟩ | ⟨more, inside, tail⟩
  · cases more with
    | nil => simp at tail
    | cons first more => simp at tail
  · cases more with
    | nil => simp at tail
    | cons first more =>
      obtain ⟨rfl, -⟩ : Event.write target data = first ∧ _ := by simpa using tail
      exact ⟨more, inside⟩

/-- Before the region is written nothing else is. -/
theorem storage_events_noWrite
    (last : IsLast (biosStorageKind replies) replies (clearedPool pool) n) :
    NoWrite (eventsUpTo (biosStorageKind replies) replies (clearedPool pool) n ++
      transfer (replies.start n) (replies.read n)) :=
  (eventsUpTo_noWrite last.2.1).append transfer_noWrite

/-- The image that was verified is the one that was read. -/
theorem verified_image {buffer : Memory}
    (verified : Verified (biosStorageKind replies) replies n buffer) :
    (replies.start n).fileSize.toNat = romHoleSize ∧ (replies.read n).status = efiSuccess ∧
      lastByteChecksum (replies.read n).data (replies.start n).fileSize = true := by
  obtain ⟨⟨-, accepted, -⟩, -, read, passed⟩ := verified
  have size : (replies.start n).fileSize.toNat = romHoleSize := by
    simpa [biosStorageKind] using accepted
  have success : (replies.read n).status = efiSuccess := by
    simpa [biosStorageKind] using read
  have image : ∀ i, i < romHoleSize → filled replies n buffer i = (replies.read n).data i := by
    intro i inside
    apply filled_inside
    · rw [success]
      decide
    · rwa [size]
  have exactly : (replies.start n).fileSize = 0x10000 := UInt32.toNat_inj.mp size
  refine ⟨size, success, ?_⟩
  have matched : lastByteChecksum (filled replies n buffer) (replies.start n).fileSize = true := passed
  have count : ((0x10000 : UInt32) - 1).toNat = 65535 := rfl
  simp only [lastByteChecksum, exactly, count, decide_eq_true_eq] at matched ⊢
  rw [image 65535 (by decide), byteSum_congr (fun i below => ?_)] at matched
  · exact matched
  · rw [Nat.zero_add]
    exact image i (by rw [romHoleSize]; omega)

/-- A call restores only verified images exactly when the signature is not overlooked. -/
theorem storage_restoresVerified_iff (env : StorageEnv) (replies : Replies)
    (pool : Option Memory) :
    RestoresVerified env (downloadBiosStorageFromBmc pool env replies) ↔
      SignatureSeen env replies pool := by
  constructor
  · rintro restores present unread buffer rfl n last verified
    have unsigned : env.signed = false := by simp [StorageEnv.signed, unread]
    rw [storage_verified unsigned last verified] at restores
    apply (restoring_noWrite_iff (imageAt replies buffer n)).mp
    intro target data member
    obtain ⟨before, later, split⟩ := List.append_of_mem
      (List.mem_append_right (eventsUpTo (biosStorageKind replies) replies (clearedPool buffer) n ++
        transfer (replies.start n) (replies.read n))
          (List.mem_append_left [Event.done 0 replies.done] member))
    have absent := (restores before target data later split).1
    rw [present] at absent
    exact Bool.noConfusion absent
  · intro seen before target data later split
    cases pool with
    | none => simp [downloadBiosStorageFromBmc] at split
    | some pool =>
      have unsigned : env.signed = false := by
        by_contra signed
        rw [downloadBiosStorageFromBmc, if_pos (by simpa using signed)] at split
        simp at split
      obtain ⟨n, last, -⟩ := download_last (biosStorageKind replies) replies (clearedPool pool)
      by_cases verified : VerifiedAt (biosStorageKind replies) replies (clearedPool pool) n
      · rw [storage_verified unsigned last verified] at split
        obtain ⟨between, front, tail⟩ := write_behind (storage_events_noWrite last) split
        obtain ⟨rest, body⟩ := write_before_last tail
        constructor
        · by_contra present
          have there : startsWith (readRegion env.hole .smbiosForBmc) smcSignature = true := by
            simpa using present
          have unread : env.readStatus ≠ efiSuccess := by
            intro success
            simp [StorageEnv.signed, success, there] at unsigned
          have none := (restoring_noWrite_iff (imageAt replies pool n)).mpr
            (seen there unread pool rfl n last verified)
          rw [body] at none
          exact none target data (by simp)
        · refine ⟨_, _, _, between, front, ?_, verified_image verified⟩
          intro event member
          have inside : event ∈ restoring env replies (imageAt replies pool n) := by
            rw [body]
            exact List.mem_append_left _ member
          exact restoring_transfers event inside
      · have none := storage_failed_noWrite unsigned last verified
        rw [split] at none
        exact absurd (by simp) (none target data)

/-- What the three functions write to the ROM hole is what they have verified exactly when a verified
file fills its region and no signature is overlooked. The replies of the BMC are arbitrary tables
by attempt and poll, and so are the pool and what it holds. -/
theorem downloads_store_verified_iff (env : StorageEnv) (replies : Replies)
    (pool : Option Memory) :
    (StoresVerified biosCfgKind .inBand (downloadBiosCfgFromBMC pool replies) ↔
        FillsRegion biosCfgKind .inBand replies pool) ∧
      (StoresVerified smbiosKind .currentSmbios (downloadSmbiosFileFromBmc pool replies) ↔
        FillsRegion smbiosKind .currentSmbios replies pool) ∧
      (RestoresVerified env (downloadBiosStorageFromBmc pool env replies) ↔
        SignatureSeen env replies pool) := by
  refine ⟨?_, ?_, storage_restoresVerified_iff env replies pool⟩
  · cases pool with
    | none =>
      apply iff_of_true
      · simp [StoresVerified, downloadBiosCfgFromBMC]
      · simp [FillsRegion]
    | some pool => exact storing_storesVerified_iff (fun _ => rfl) rfl
  · cases pool with
    | none =>
      apply iff_of_true
      · simp [StoresVerified, downloadSmbiosFileFromBmc]
      · simp [FillsRegion]
    | some pool => exact storing_storesVerified_iff (fun _ => rfl) rfl

/-- A BMC whose first file of three bytes is broken and whose second of two is not. -/
def shrinkingReplies : Replies where
  start n := ⟨efiSuccess, if n = 0 then 3 else 2, 1⟩
  ready _ _ := ⟨efiSuccess, some 2⟩
  read n := ⟨efiSuccess, if n = 0 then memoryOf [1, 1, 9] (fun _ => 0) else fun _ => 5⟩
  done := efiSuccess
  preservation := ⟨efiSuccess, 0⟩

/-- The third byte of the region is one of the broken file. -/
theorem not_storesVerified_shrinking : ¬ StoresVerified biosCfgKind .inBand
    (downloadBiosCfgFromBMC (some (fun _ => 0)) shrinkingReplies) := by
  intro stores
  obtain ⟨-, -, -, earlier, reply, read, status, shape, -, -, -, bytes⟩ :=
    stores ([Event.start ⟨efiSuccess, 3, 1⟩, Event.read 3 (shrinkingReplies.read 0),
      Event.checksum false] ++ transfer ⟨efiSuccess, 2, 1⟩ (shrinkingReplies.read 1) ++
        [Event.done 0 efiSuccess]) .inBand
      (overlay 2 (fun _ => 5) (overlay 3 (memoryOf [1, 1, 9] (fun _ => 0)) (fun _ => 0))) [] rfl
  obtain ⟨front, -⟩ := List.append_inj' shape rfl
  obtain ⟨-, tail⟩ := List.append_inj' front rfl
  simp only [transfer, List.cons.injEq, Event.read.injEq] at tail
  have third := (bytes 2 (by decide)).2
  rw [← tail.2.1.2] at third
  exact absurd third (by decide)

end Restore

end SmcPkg.Download
