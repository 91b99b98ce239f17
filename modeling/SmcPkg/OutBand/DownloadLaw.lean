import SmcPkg.OutBand.Download

/-!
# The attempts of a download

A call is the list of its attempts up to the first that is verified or told that there
is no file. Each attempt works on the buffer that the attempts before it have left, and
the flags that decide about the report are those of the last attempt alone.
-/

namespace SmcPkg.Download

open Bytes Card RomHole

section Step

variable {kind : Kind} {replies : Replies} {n : Nat} {buffer : Memory}

/-- The BMC has opened a transfer that the function takes up. -/
def Proceeds (kind : Kind) (replies : Replies) (n : Nat) : Prop :=
  kind.succeeds (replies.start n).status = true ∧ kind.accepts (replies.start n).fileSize = true ∧
    (replies.start n).rspStatus = 1

/-- The BMC has no file. -/
def Unavailable (kind : Kind) (replies : Replies) (n : Nat) : Prop :=
  kind.succeeds (replies.start n).status = true ∧ kind.accepts (replies.start n).fileSize = true ∧
    (replies.start n).rspStatus = 0

/-- The buffer after the file of an attempt has been read. -/
def filled (replies : Replies) (n : Nat) (buffer : Memory) : Memory :=
  readDataToBios (replies.start n).fileSize (replies.read n) buffer

/-- The file becomes ready, is read, and passes its test. -/
def Verified (kind : Kind) (replies : Replies) (n : Nat) (buffer : Memory) : Prop :=
  Proceeds kind replies n ∧ waitBmc kind (replies.ready n) 200 0 0 = 2 ∧
    kind.succeeds (replies.read n).status = true ∧
    kind.verify (filled replies n buffer) (replies.start n).fileSize = true

/-- How an attempt that is not verified can end. -/
inductive Failed (kind : Kind) (replies : Replies) (n : Nat) (buffer : Memory) : Attempt → Prop
  | started (process stopped : Bool) (processes : process = true ↔ Proceeds kind replies n)
      (stops : stopped = true ↔ Unavailable kind replies n) :
      Failed kind replies n buffer ⟨[.start (replies.start n)], buffer, process, false, stopped⟩
  | unread (proceeds : Proceeds kind replies n) :
      Failed kind replies n buffer ⟨[.start (replies.start n),
        .read (replies.start n).fileSize (replies.read n)], filled replies n buffer, true, false,
          false⟩
  | mismatch (proceeds : Proceeds kind replies n) :
      Failed kind replies n buffer ⟨[.start (replies.start n),
        .read (replies.start n).fileSize (replies.read n), .checksum false],
          filled replies n buffer, true, false, false⟩

/-- A transfer of a file that passes its test. -/
def transfer (reply : StartReply) (read : ReadReply) : List Event :=
  [.start reply, .read reply.fileSize read, .checksum true]

/-- A verified attempt. -/
def verifiedAttempt (kind : Kind) (replies : Replies) (n : Nat) (buffer : Memory) : Attempt :=
  ⟨transfer (replies.start n) (replies.read n) ++ (kind.restore (filled replies n buffer)).1,
    (kind.restore (filled replies n buffer)).2, true, true, true⟩

/-- A download that proceeds has been offered. -/
theorem Proceeds.not_unavailable (proceeds : Proceeds kind replies n) :
    ¬ Unavailable kind replies n := by
  rintro ⟨-, -, zero⟩
  rw [proceeds.2.2] at zero
  exact absurd zero (by decide)

/-- One attempt. -/
theorem tryDownload_cases (kind : Kind) (replies : Replies) (n : Nat) (buffer : Memory) :
    Verified kind replies n buffer ∧
        tryDownload kind replies n buffer = verifiedAttempt kind replies n buffer ∨
      ¬ Verified kind replies n buffer ∧
        Failed kind replies n buffer (tryDownload kind replies n buffer) := by
  rw [tryDownload]
  by_cases succeeded : kind.succeeds (replies.start n).status = true
  · by_cases accepted : kind.accepts (replies.start n).fileSize = true
    · rw [if_neg (by simp [succeeded, accepted])]
      by_cases available : (replies.start n).rspStatus = 1
      · have proceeds : Proceeds kind replies n := ⟨succeeded, accepted, available⟩
        rw [if_pos available]
        by_cases ready : waitBmc kind (replies.ready n) 200 0 0 = 2
        · rw [if_pos ready]
          by_cases read : kind.succeeds (replies.read n).status = true
          · rw [if_pos read]
            by_cases passed : kind.verify (filled replies n buffer) (replies.start n).fileSize = true
            · rw [filled] at passed
              rw [if_pos passed]
              exact Or.inl ⟨⟨proceeds, ready, read, passed⟩, rfl⟩
            · have failed := passed
              rw [filled] at failed
              rw [if_neg failed]
              exact Or.inr ⟨fun verified => passed verified.2.2.2, .mismatch proceeds⟩
          · rw [if_neg read]
            exact Or.inr ⟨fun verified => read verified.2.2.1, .unread proceeds⟩
        · rw [if_neg ready]
          refine Or.inr ⟨fun verified => ready verified.2.1, .started true false ?_ ?_⟩
          · exact iff_of_true rfl proceeds
          · exact iff_of_false (by simp) proceeds.not_unavailable
      · rw [if_neg available]
        have stays : ¬ Proceeds kind replies n := fun proceeds => available proceeds.2.2
        by_cases unavailable : (replies.start n).rspStatus = 0
        · rw [if_pos unavailable]
          refine Or.inr ⟨fun verified => stays verified.1, .started false true ?_ ?_⟩
          · exact iff_of_false (by simp) stays
          · exact iff_of_true rfl ⟨succeeded, accepted, unavailable⟩
        · rw [if_neg unavailable]
          refine Or.inr ⟨fun verified => stays verified.1, .started false false ?_ ?_⟩
          · exact iff_of_false (by simp) stays
          · exact iff_of_false (by simp) (fun none => unavailable none.2.2)
    · rw [if_pos (by simp [accepted])]
      refine Or.inr ⟨fun verified => accepted verified.1.2.1, .started false false ?_ ?_⟩
      · exact iff_of_false (by simp) (fun proceeds => accepted proceeds.2.1)
      · exact iff_of_false (by simp) (fun none => accepted none.2.1)
  · rw [if_pos (by simp [succeeded])]
    refine Or.inr ⟨fun verified => succeeded verified.1.1, .started false false ?_ ?_⟩
    · exact iff_of_false (by simp) (fun proceeds => succeeded proceeds.1)
    · exact iff_of_false (by simp) (fun none => succeeded none.1)

/-- An attempt that failed has no success. -/
theorem Failed.success {made : Attempt} (failed : Failed kind replies n buffer made) :
    made.downloadSuccess = false := by
  cases failed <;> rfl

/-- A failed attempt leaves the process open exactly if the read was begun. -/
theorem Failed.process {made : Attempt} (failed : Failed kind replies n buffer made) :
    made.downloadProcess = true ↔ Proceeds kind replies n := by
  cases failed with
  | started process stopped processes stops => exact processes
  | unread proceeds => exact iff_of_true rfl proceeds
  | mismatch proceeds => exact iff_of_true rfl proceeds

/-- A failed attempt stops the others exactly if nothing is offered. -/
theorem Failed.stopped {made : Attempt} (failed : Failed kind replies n buffer made) :
    made.stopped = true ↔ Unavailable kind replies n := by
  cases failed with
  | started process stopped processes stops => exact stops
  | unread proceeds => exact iff_of_false (by simp) proceeds.not_unavailable
  | mismatch proceeds => exact iff_of_false (by simp) proceeds.not_unavailable

/-- What a failed attempt has done: the start, at most the read, and at most the end of a
transfer whose data did not match. -/
theorem Failed.events {made : Attempt} (failed : Failed kind replies n buffer made) :
    made.events = [.start (replies.start n)] ∨
      made.events = [.start (replies.start n), .read (replies.start n).fileSize (replies.read n)] ∨
      made.events = [.start (replies.start n), .read (replies.start n).fileSize (replies.read n),
        .checksum false] := by
  cases failed with
  | started process stopped processes stops => exact Or.inl rfl
  | unread proceeds => exact Or.inr (Or.inl rfl)
  | mismatch proceeds => exact Or.inr (Or.inr rfl)

/-- The attempt leaves the loop. -/
theorem tryDownload_stopped :
    (tryDownload kind replies n buffer).stopped = true ↔
      Verified kind replies n buffer ∨ Unavailable kind replies n := by
  rcases tryDownload_cases kind replies n buffer with ⟨verified, made⟩ | ⟨unverified, failed⟩
  · rw [made]
    exact iff_of_true rfl (Or.inl verified)
  · rw [failed.stopped, or_iff_right unverified]

end Step

section Loop

variable {kind : Kind} {replies : Replies} {pool : Memory}

/-- The buffer before an attempt. -/
def bufferAt (kind : Kind) (replies : Replies) (pool : Memory) : Nat → Memory
  | 0 => pool
  | n + 1 => (tryDownload kind replies n (bufferAt kind replies pool n)).buffer

/-- An attempt of a call. -/
def attemptAt (kind : Kind) (replies : Replies) (pool : Memory) (n : Nat) : Attempt :=
  tryDownload kind replies n (bufferAt kind replies pool n)

/-- The attempt is verified, with what the attempts before it have left in the buffer. -/
def VerifiedAt (kind : Kind) (replies : Replies) (pool : Memory) (n : Nat) : Prop :=
  Verified kind replies n (bufferAt kind replies pool n)

/-- The call goes on after this attempt if it has attempts left. -/
def GoesOn (kind : Kind) (replies : Replies) (pool : Memory) (n : Nat) : Prop :=
  ¬ VerifiedAt kind replies pool n ∧ ¬ Unavailable kind replies n

/-- The last of the five attempts that the call makes. -/
def IsLast (kind : Kind) (replies : Replies) (pool : Memory) (n : Nat) : Prop :=
  n ≤ 4 ∧ (∀ m < n, GoesOn kind replies pool m) ∧ (n = 4 ∨ ¬ GoesOn kind replies pool n)

/-- There is one last attempt at most. -/
theorem IsLast.unique {n m : Nat} (last : IsLast kind replies pool n)
    (other : IsLast kind replies pool m) : n = m := by
  obtain ⟨bound, before, ends⟩ := last
  obtain ⟨boundOther, beforeOther, endsOther⟩ := other
  rcases Nat.lt_trichotomy n m with less | same | more
  · rcases ends with full | stops
    · omega
    · exact absurd (beforeOther n less) stops
  · exact same
  · rcases endsOther with full | stops
    · omega
    · exact absurd (before m more) stops

/-- The requests and tests of the attempts up to one of them. -/
def eventsUpTo (kind : Kind) (replies : Replies) (pool : Memory) (n : Nat) : List Event :=
  (List.range n).flatMap (fun m => (attemptAt kind replies pool m).events)

/-- The events of one more attempt stand behind the others. -/
theorem eventsUpTo_succ (n : Nat) : eventsUpTo kind replies pool (n + 1) =
    eventsUpTo kind replies pool n ++ (attemptAt kind replies pool n).events := by
  rw [eventsUpTo, List.range_succ, List.flatMap_append]
  simp [eventsUpTo]

/-- The loop from an attempt on. -/
theorem download_from (kind : Kind) (replies : Replies) (pool : Memory) (rounds n : Nat) :
    ∃ last, n ≤ last ∧ last ≤ n + rounds ∧
      (∀ m, n ≤ m → m < last → GoesOn kind replies pool m) ∧
      (last = n + rounds ∨ ¬ GoesOn kind replies pool last) ∧
      download kind replies rounds n (bufferAt kind replies pool n) =
        { attemptAt kind replies pool last with
          events := ((List.range' n (last - n)).flatMap
            (fun m => (attemptAt kind replies pool m).events)) ++
              (attemptAt kind replies pool last).events } := by
  induction rounds generalizing n with
  | zero =>
    refine ⟨n, Nat.le_refl n, Nat.le_refl n, by omega, Or.inl rfl, ?_⟩
    simp [download, attemptAt]
  | succ rounds inductionHypothesis =>
    rw [download]
    by_cases stopped : (attemptAt kind replies pool n).stopped = true
    · have ends : ¬ GoesOn kind replies pool n := by
        intro goes
        rcases tryDownload_stopped.mp stopped with verified | unavailable
        · exact goes.1 verified
        · exact goes.2 unavailable
      refine ⟨n, Nat.le_refl n, by omega, by omega, Or.inr ends, ?_⟩
      rw [attemptAt] at stopped
      simp only [stopped, if_true]
      simp [attemptAt]
    · have goes : GoesOn kind replies pool n :=
        ⟨fun verified => stopped (tryDownload_stopped.mpr (Or.inl verified)),
          fun unavailable => stopped (tryDownload_stopped.mpr (Or.inr unavailable))⟩
      obtain ⟨last, above, below, between, ends, done⟩ := inductionHypothesis (n + 1)
      refine ⟨last, by omega, by omega, ?_, ?_, ?_⟩
      · intro m reaches before
        rcases Nat.eq_or_lt_of_le reaches with rfl | later
        · exact goes
        · exact between m later before
      · rcases ends with full | stops
        · exact Or.inl (by omega)
        · exact Or.inr stops
      · have next : (tryDownload kind replies n (bufferAt kind replies pool n)).buffer =
            bufferAt kind replies pool (n + 1) := rfl
        rw [attemptAt] at stopped
        simp only [stopped, Bool.false_eq_true, if_false, next, done]
        have split : List.range' n (last - n) = n :: List.range' (n + 1) (last - (n + 1)) := by
          rw [show last - n = (last - (n + 1)) + 1 by omega, List.range'_succ]
        simp [split, attemptAt]

/-- A call of five attempts. -/
theorem download_last (kind : Kind) (replies : Replies) (pool : Memory) : ∃ n, IsLast kind replies pool n ∧
    download kind replies 4 0 pool =
      { attemptAt kind replies pool n with events := eventsUpTo kind replies pool (n + 1) } := by
  obtain ⟨n, -, bound, before, ends, done⟩ := download_from kind replies pool 4 0
  refine ⟨n, ⟨by omega, fun m less => before m (Nat.zero_le m) less, by simpa using ends⟩, ?_⟩
  rw [eventsUpTo_succ, eventsUpTo, List.range_eq_range']
  exact done

/-- No region is written. -/
def NoWrite (events : List Event) : Prop := ∀ region data, Event.write region data ∉ events

/-- Events without a write follow each other. -/
theorem NoWrite.append {events more : List Event} (none : NoWrite events) (after : NoWrite more) :
    NoWrite (events ++ more) := by
  intro region data member
  rcases List.mem_append.mp member with first | second
  · exact none region data first
  · exact after region data second

/-- A failed attempt writes nothing. -/
theorem Failed.noWrite {n : Nat} {buffer : Memory} {made : Attempt}
    (failed : Failed kind replies n buffer made) : NoWrite made.events := by
  intro region data member
  rcases failed.events with events | events | events <;> rw [events] at member <;> simp at member

/-- An attempt after which the call goes on has failed. -/
theorem attemptAt_failed {n : Nat} (unverified : ¬ VerifiedAt kind replies pool n) :
    Failed kind replies n (bufferAt kind replies pool n) (attemptAt kind replies pool n) := by
  rcases tryDownload_cases kind replies n (bufferAt kind replies pool n) with
    ⟨verified, -⟩ | ⟨-, failed⟩
  · exact absurd verified unverified
  · exact failed

/-- An attempt that verifies its data is the one that the replies describe. -/
theorem attemptAt_verified {n : Nat} (verified : VerifiedAt kind replies pool n) :
    attemptAt kind replies pool n =
      verifiedAttempt kind replies n (bufferAt kind replies pool n) := by
  rcases tryDownload_cases kind replies n (bufferAt kind replies pool n) with
    ⟨-, made⟩ | ⟨unverified, -⟩
  · exact made
  · exact absurd verified unverified

/-- Before the last attempt nothing is written. -/
theorem eventsUpTo_noWrite {n : Nat} (before : ∀ m < n, GoesOn kind replies pool m) :
    NoWrite (eventsUpTo kind replies pool n) := by
  induction n with
  | zero =>
    intro region data member
    simp [eventsUpTo] at member
  | succ n inductionHypothesis =>
    rw [eventsUpTo_succ]
    apply NoWrite.append
    · exact inductionHypothesis (fun m less => before m (by omega))
    · exact (attemptAt_failed (before n (by omega)).1).noWrite

end Loop

end SmcPkg.Download
