import SmcPkg.OutBand.DownloadStore

/-!
# What a download reports

The flag that a transfer is in progress is reset in every attempt, and the report is
made after the last one. A transfer that the BMC has opened in an earlier attempt is
closed only if the last attempt is opened as well.
-/

namespace SmcPkg.Download

open Bytes Card RomHole

section Handshake

variable {kind : Kind} {replies : Replies} {pool : Memory} {n : Nat}

/-- The BMC has opened a transfer. -/
def Opened (reply : StartReply) : Prop := noError reply.status = true ∧ reply.rspStatus = 1

/-- `DownloadOobDataDone`. -/
def Event.isDone : Event → Bool
  | .done _ _ => true
  | _ => false

/-- A transfer that the BMC has opened is closed by exactly one report, of success exactly
when a file was verified. -/
def Closes (events : List Event) : Prop :=
  (∃ reply, Event.start reply ∈ events ∧ Opened reply) →
    ∃ result status, events.filter Event.isDone = [.done result status] ∧
      (Event.checksum true ∈ events ∧ result = 0 ∨ Event.checksum true ∉ events ∧ result = 1)

/-- If some attempt was opened, the function takes up the last one. -/
def LastOpened (kind : Kind) (replies : Replies) (pool : Memory) : Prop :=
  ∀ n, IsLast kind replies pool n → (∃ m ≤ n, Opened (replies.start m)) → Proceeds kind replies n

/-- A failed attempt has started once, with its own reply. -/
theorem Failed.start_mem {made : Attempt} {buffer : Memory} {reply : StartReply}
    (failed : Failed kind replies n buffer made) :
    Event.start reply ∈ made.events ↔ reply = replies.start n := by
  rcases failed.events with events | events | events <;> simp [events]

/-- A failed attempt reports no end and no matching sum. -/
theorem Failed.open_ended {made : Attempt} {buffer : Memory}
    (failed : Failed kind replies n buffer made) :
    made.events.filter Event.isDone = [] ∧ Event.checksum true ∉ made.events := by
  rcases failed.events with events | events | events <;> simp [events, Event.isDone]

/-- Attempts that are not verified leave the transfer open. -/
theorem eventsUpTo_open (before : ∀ m < n, ¬ VerifiedAt kind replies pool m) :
    (∀ reply, Event.start reply ∈ eventsUpTo kind replies pool n ↔
        ∃ m < n, reply = replies.start m) ∧
      (eventsUpTo kind replies pool n).filter Event.isDone = [] ∧
      Event.checksum true ∉ eventsUpTo kind replies pool n := by
  induction n with
  | zero => simp [eventsUpTo]
  | succ n inductionHypothesis =>
    obtain ⟨starts, dones, checksums⟩ := inductionHypothesis (fun m less => before m (by omega))
    have failed := attemptAt_failed (before n (by omega))
    rw [eventsUpTo_succ]
    refine ⟨?_, ?_, ?_⟩
    · intro reply
      rw [List.mem_append, starts, failed.start_mem]
      constructor
      · rintro (⟨m, less, same⟩ | same)
        · exact ⟨m, by omega, same⟩
        · exact ⟨n, by omega, same⟩
      · rintro ⟨m, less, same⟩
        rcases Nat.lt_succ_iff_lt_or_eq.mp less with earlier | rfl
        · exact Or.inl ⟨m, earlier, same⟩
        · exact Or.inr same
    · rw [List.filter_append, dones, failed.open_ended.1, List.append_nil]
    · rw [List.mem_append]
      rintro (early | late)
      · exact checksums early
      · exact failed.open_ended.2 late

/-- Where the last attempt does not verify none has. -/
theorem IsLast.unverified (last : IsLast kind replies pool n)
    (unverified : ¬ VerifiedAt kind replies pool n) :
    ∀ m < n + 1, ¬ VerifiedAt kind replies pool m := by
  intro m less
  rcases Nat.lt_succ_iff_lt_or_eq.mp less with earlier | rfl
  · exact (last.2.1 m earlier).1
  · exact unverified

/-- The report after attempts none of which was verified. -/
theorem closes_failed (last : IsLast kind replies pool n)
    (unverified : ¬ VerifiedAt kind replies pool n) {status : Status} {events : List Event}
    (shape : events = eventsUpTo kind replies pool (n + 1) ++
      if (attemptAt kind replies pool n).downloadProcess then [Event.done 1 status] else []) :
    Closes events ↔ LastOpened kind replies pool := by
  obtain ⟨starts, dones, checksums⟩ := eventsUpTo_open (last.unverified unverified)
  have process := (attemptAt_failed unverified).process
  by_cases proceeds : Proceeds kind replies n
  · rw [if_pos (process.mpr proceeds)] at shape
    apply iff_of_true
    · rintro -
      exact ⟨1, status, by simp [shape, dones, Event.isDone], Or.inr ⟨by simp [shape, checksums], rfl⟩⟩
    · intro m other _
      rwa [other.unique last]
  · rw [if_neg (fun taken => proceeds (process.mp taken)), List.append_nil] at shape
    subst shape
    constructor
    · rintro closes m other ⟨k, below, opened⟩
      rw [other.unique last] at below
      obtain ⟨result, status, reported, -⟩ :=
        closes ⟨_, (starts _).mpr ⟨k, by omega, rfl⟩, opened⟩
      rw [dones] at reported
      simp at reported
    · rintro lastOpened ⟨reply, member, opened⟩
      obtain ⟨m, less, rfl⟩ := (starts reply).mp member
      exact absurd (lastOpened n last ⟨m, by omega, opened⟩) proceeds

/-- The report after a verified attempt. -/
theorem closes_verified (last : IsLast kind replies pool n)
    (verified : VerifiedAt kind replies pool n) (status : Status) {events body : List Event}
    (quiet : body.filter Event.isDone = [Event.done 0 status])
    (shape : events = (eventsUpTo kind replies pool n ++
      transfer (replies.start n) (replies.read n)) ++ body) :
    Closes events ↔ LastOpened kind replies pool := by
  obtain ⟨-, dones, -⟩ := eventsUpTo_open (fun m less => (last.2.1 m less).1)
  apply iff_of_true
  · rintro -
    refine ⟨0, status, ?_, Or.inl ⟨?_, rfl⟩⟩
    · rw [shape, List.filter_append, List.filter_append, dones, quiet]
      rfl
    · rw [shape]
      simp [transfer]
  · intro m other _
    rw [other.unique last]
    exact verified.1

/-- Where nothing was done nothing is left open. -/
theorem closes_nil : Closes [] := by
  rintro ⟨reply, member, -⟩
  simp at member

/-- A file that is stored as it is. -/
theorem storing_closes_iff (plain : Plain kind) (region : Region) :
    Closes (storing kind region replies pool) ↔ LastOpened kind replies pool := by
  obtain ⟨n, last, -⟩ := download_last kind replies pool
  by_cases verified : VerifiedAt kind replies pool n
  · have shape : storing kind region replies pool = _ := storing_verified plain last verified
    rw [List.append_assoc _ [Event.done 0 replies.done]] at shape
    apply closes_verified last verified replies.done _ shape
    split <;> rfl
  · exact closes_failed last verified (storing_failed last verified)

/-- The storage, whose handshake is not begun when the signature is there. -/
theorem storage_closes_iff (env : StorageEnv) (unsigned : env.signed = false) :
    Closes (downloadBiosStorageFromBmc (some pool) env replies) ↔
      LastOpened (biosStorageKind replies) replies (clearedPool pool) := by
  obtain ⟨n, last, -⟩ := download_last (biosStorageKind replies) replies (clearedPool pool)
  by_cases verified : VerifiedAt (biosStorageKind replies) replies (clearedPool pool) n
  · apply closes_verified last verified replies.done _ (storage_verified unsigned last verified)
    have none : ∀ event ∈ restoring env replies (imageAt replies pool n),
        ¬ event.isDone = true := by
      intro event member done
      have transfers := restoring_transfers event member
      cases event <;> simp_all [Event.isDone, Event.transfers]
    rw [List.filter_append, List.filter_eq_nil_iff.mpr none]
    rfl
  · exact closes_failed last verified (storage_failed unsigned last verified)

/-- The three handshakes close exactly when the last attempt is taken up if any attempt was opened.
Without a pool there is no handshake, and the download of the storage starts none where the region
has a signature already. -/
theorem downloads_close_iff (env : StorageEnv) (replies : Replies) (pool : Option Memory) :
    (Closes (downloadBiosCfgFromBMC pool replies) ↔
        ∀ buffer, pool = some buffer → LastOpened biosCfgKind replies buffer) ∧
      (Closes (downloadSmbiosFileFromBmc pool replies) ↔
        ∀ buffer, pool = some buffer → LastOpened smbiosKind replies buffer) ∧
      (Closes (downloadBiosStorageFromBmc pool env replies) ↔
        env.signed = false → ∀ buffer, pool = some buffer →
          LastOpened (biosStorageKind replies) replies (clearedPool buffer)) := by
  cases pool with
  | none => simp [downloadBiosCfgFromBMC, downloadSmbiosFileFromBmc, downloadBiosStorageFromBmc,
      closes_nil]
  | some pool =>
    simp only [Option.some.injEq, forall_eq']
    refine ⟨?_, ?_, ?_⟩
    · exact storing_closes_iff (fun _ => rfl) .inBand
    · exact storing_closes_iff (fun _ => rfl) .currentSmbios
    · by_cases signed : env.signed = true
      · simp [downloadBiosStorageFromBmc, signed, closes_nil]
      · have unsigned : env.signed = false := by simpa using signed
        rw [storage_closes_iff env unsigned]
        simp [unsigned]

/-- A BMC that opens a transfer, does not get the file ready, and then has no file. -/
def withdrawnReplies : Replies where
  start n := ⟨efiSuccess, 2, if n = 0 then 1 else 0⟩
  ready _ _ := ⟨efiSuccess, some 0⟩
  read _ := ⟨efiSuccess, fun _ => 0⟩
  done := efiSuccess
  preservation := ⟨efiSuccess, 0⟩

/-- The opened transfer is never closed. -/
theorem not_closes_withdrawn :
    ¬ Closes (downloadBiosCfgFromBMC (some (fun _ => 0)) withdrawnReplies) := by
  intro closes
  have events : downloadBiosCfgFromBMC (some (fun _ => 0)) withdrawnReplies =
      [.start ⟨efiSuccess, 2, 1⟩, .start ⟨efiSuccess, 2, 0⟩] := rfl
  rw [events] at closes
  obtain ⟨result, status, reported, -⟩ := closes ⟨⟨efiSuccess, 2, 1⟩, by simp, by decide, rfl⟩
  simp [Event.isDone] at reported

end Handshake

end SmcPkg.Download
