import SmcPkg.OutBand.DownloadStore

/-!
# What a download does with its buffer

Two of the downloads keep a file in a buffer of `MAX_DOWNLOAD_SIZE`. They copy as many
bytes into it as the BMC announces, sum the bytes that the announced size or the
file's own header names, and hand a verified file to the ROM hole. What a call reads
and writes of the buffer is a list of uses here, one attempt after the other; no use
is checked against the size of the buffer, so that the sizes of every file that is
read decide.
-/

namespace SmcPkg.Download

open Bytes Card RomHole

section Uses

/-- A use of the buffer: a file that is copied to its front, one field that is read, the
    loop of a checksum behind `front` bytes of the file, which leaves `back` bytes of
    it, and the region that the ROM hole takes. -/
inductive BufferUse
  | received (size : Nat)
  | field (start size : Nat)
  | summed (front count back size : Nat)
  | stored (region : Region)
deriving DecidableEq

/-- The end of the bytes in use. -/
def BufferUse.stop : BufferUse → Nat
  | .received size => size
  | .field start size => start + size
  | .summed front count _ _ => front + count
  | .stored region => smcRomHoleSize region

/-- The loop of a checksum runs over the bytes of the file that was received: all of them
    but those of the header before and of the checksum behind. -/
def BufferUse.Exact : BufferUse → Prop
  | .summed front count back size => front + count + back = size
  | _ => True

/-- What a function does with its buffer to test a file. -/
structure Receiver where
  kind : Kind
  region : Region
  uses : Memory → UInt32 → List BufferUse

/-- `DownloadBiosCfgFromBMC`: the loop counts to the announced size less one, in 32 bits, and
    the byte there is the checksum. -/
def biosCfgReceiver : Receiver where
  kind := biosCfgKind
  region := .inBand
  uses _ fileSize :=
    [.summed 0 (fileSize - 1).toNat 1 fileSize.toNat, .field (fileSize - 1).toNat 1]

/-- `DownloadSmbiosFileFromBmc`: the loop counts to the size in the file's header, if that
    is below the size of the buffer. -/
def smbiosReceiver : Receiver where
  kind := smbiosKind
  region := .currentSmbios
  uses buffer fileSize :=
    if headerFileSize buffer < maxDownloadSize then
      [.field 6 4, .summed headerSize (headerFileSize buffer).toNat 0 fileSize.toNat, .field 10 1]
    else [.field 6 4]

/-- The file of an attempt is copied to the buffer. -/
def Reads (receiver : Receiver) (replies : Replies) (n : Nat) : Prop :=
  (replies.start n).rspStatus = 1 ∧ noError (replies.start n).status = true ∧
    waitBmc receiver.kind (replies.ready n) 200 0 0 = 2 ∧ noError (replies.read n).status = true

instance (receiver : Receiver) (replies : Replies) (n : Nat) :
    Decidable (Reads receiver replies n) :=
  inferInstanceAs (Decidable (_ ∧ _))

/-- The uses of one attempt. -/
def attemptUses (receiver : Receiver) (replies : Replies) (n : Nat) (buffer : Memory) :
    List BufferUse :=
  if Reads receiver replies n then
    .received (replies.start n).fileSize.toNat ::
      receiver.uses (filled replies n buffer) (replies.start n).fileSize
  else []

/-- The uses of the loop over the attempts. -/
def loopUses (receiver : Receiver) (replies : Replies) : Nat → Nat → Memory → List BufferUse
  | 0, n, buffer => attemptUses receiver replies n buffer
  | rounds + 1, n, buffer =>
    let made := tryDownload receiver.kind replies n buffer
    attemptUses receiver replies n buffer ++
      if made.stopped then [] else loopUses receiver replies rounds (n + 1) made.buffer

/-- The uses of a call. -/
def callUses (receiver : Receiver) (replies : Replies) (pool : Memory) : List BufferUse :=
  let made := download receiver.kind replies 4 0 pool
  loopUses receiver replies 4 0 pool ++
    if made.downloadProcess && made.downloadSuccess && !efiError replies.done then
      [.stored receiver.region]
    else []

def Event.readSize : Event → Option UInt32
  | .read fileSize _ => some fileSize
  | _ => none

/-- The announced size of the file that was read last. -/
def lastSize (events : List Event) : Option UInt32 :=
  events.reverse.findSome? Event.readSize

/-- A call that stays inside its buffer, sums what was received, and stores no image larger
    than the region. -/
structure Contained (receiver : Receiver) (replies : Replies) (pool : Memory)
    (events : List Event) : Prop where
  inside : ∀ use ∈ callUses receiver replies pool, use.stop ≤ maxDownloadSize.toNat
  exact : ∀ use ∈ callUses receiver replies pool, use.Exact
  fits : ∀ region data, Event.write region data ∈ events →
    ∃ size, lastSize events = some size ∧ size.toNat ≤ smcRomHoleSize region

end Uses

section Sizes

/-- The sizes that `DownloadBiosCfgFromBMC` can take: the file has a last byte, and fits the
    buffer. -/
def BiosCfgSizes (_ : Memory) (fileSize : UInt32) : Prop :=
  1 ≤ fileSize.toNat ∧ fileSize ≤ maxDownloadSize

/-- The sizes that `DownloadSmbiosFileFromBmc` can take: the file fits the buffer, and the
    size in its header is that of the bytes behind the header, or too large to be summed. -/
def SmbiosSizes (file : Memory) (fileSize : UInt32) : Prop :=
  fileSize ≤ maxDownloadSize ∧
    (maxDownloadSize ≤ headerFileSize file ∨
      headerSize + (headerFileSize file).toNat = fileSize.toNat)

/-- Every file that is read has such sizes, and one that is verified and acknowledged is not
    larger than the region. -/
structure Sized (receiver : Receiver) (sizes : Memory → UInt32 → Prop) (replies : Replies)
    (pool : Memory) : Prop where
  read : ∀ n ≤ 4, (∀ m < n, GoesOn receiver.kind replies pool m) → Reads receiver replies n →
    sizes (filled replies n (bufferAt receiver.kind replies pool n)) (replies.start n).fileSize
  stored : ∀ n, IsLast receiver.kind replies pool n → VerifiedAt receiver.kind replies pool n →
    noError replies.done = true →
      (replies.start n).fileSize.toNat ≤ smcRomHoleSize receiver.region

/-- Uses that stay inside and sum what was received. -/
def Fine (uses : List BufferUse) : Prop :=
  ∀ use ∈ uses, use.stop ≤ maxDownloadSize.toNat ∧ use.Exact

/-- Uses of the buffer are fine exactly if each of them is. -/
theorem fine_append (uses more : List BufferUse) : Fine (uses ++ more) ↔ Fine uses ∧ Fine more :=
  List.forall_mem_append

/-- The receiver of the settings stays in the buffer exactly if the sizes it reads do. -/
theorem biosCfg_fine (buffer : Memory) (fileSize : UInt32) :
    Fine (.received fileSize.toNat :: biosCfgReceiver.uses buffer fileSize) ↔
      BiosCfgSizes buffer fileSize := by
  have buffers : maxDownloadSize.toNat = 262144 := rfl
  have bound := fileSize.toNat_lt
  have less : (fileSize - 1).toNat = (2 ^ 32 - 1 + fileSize.toNat) % 2 ^ 32 := by
    rw [UInt32.toNat_sub]
    rfl
  simp only [Fine, biosCfgReceiver, BiosCfgSizes, List.forall_mem_cons, BufferUse.stop,
    BufferUse.Exact, buffers, UInt32.le_iff_toNat_le, less]
  constructor
  · rintro ⟨⟨received, -⟩, ⟨-, exact_⟩, -, -⟩
    omega
  · rintro ⟨last, fits⟩
    refine ⟨⟨fits, trivial⟩, ⟨?_, ?_⟩, ⟨?_, trivial⟩, ?_⟩
    · omega
    · omega
    · omega
    · intro use inside
      exact absurd inside List.not_mem_nil

/-- So does the receiver of the SMBIOS data. -/
theorem smbios_fine (buffer : Memory) (fileSize : UInt32) :
    Fine (.received fileSize.toNat :: smbiosReceiver.uses buffer fileSize) ↔
      SmbiosSizes buffer fileSize := by
  have buffers : maxDownloadSize.toNat = 262144 := rfl
  have header : headerSize = 18 := rfl
  by_cases summed : headerFileSize buffer < maxDownloadSize
  · have small := UInt32.lt_iff_toNat_lt.mp summed
    simp only [Fine, smbiosReceiver, if_pos summed, SmbiosSizes, List.forall_mem_cons,
      BufferUse.stop, BufferUse.Exact, UInt32.le_iff_toNat_le]
    rw [buffers] at small ⊢
    constructor
    · rintro ⟨⟨received, -⟩, -, ⟨-, exact_⟩, -⟩
      omega
    · rintro ⟨fits, own⟩
      refine ⟨⟨fits, trivial⟩, ⟨by omega, trivial⟩, ⟨by omega, by omega⟩, ⟨by omega, trivial⟩, ?_⟩
      intro use inside
      exact absurd inside List.not_mem_nil
  · have large := UInt32.not_lt.mp summed
    simp only [Fine, smbiosReceiver, if_neg summed, SmbiosSizes, List.forall_mem_cons,
      BufferUse.stop, BufferUse.Exact, UInt32.le_iff_toNat_le]
    rw [UInt32.le_iff_toNat_le] at large
    rw [buffers] at large ⊢
    constructor
    · rintro ⟨⟨received, -⟩, -⟩
      exact ⟨received, Or.inl large⟩
    · rintro ⟨fits, -⟩
      refine ⟨⟨fits, trivial⟩, ⟨by omega, trivial⟩, ?_⟩
      intro use inside
      exact absurd inside List.not_mem_nil

end Sizes

section Runs

variable {receiver : Receiver} {sizes : Memory → UInt32 → Prop} {replies : Replies} {pool : Memory}

/-- The sizes are those with which a file is tested inside the buffer, over its bytes. -/
def Decides (receiver : Receiver) (sizes : Memory → UInt32 → Prop) : Prop :=
  ∀ buffer fileSize,
    Fine (.received fileSize.toNat :: receiver.uses buffer fileSize) ↔ sizes buffer fileSize

/-- One attempt. -/
theorem attemptUses_fine (decides : Decides receiver sizes) (n : Nat) (buffer : Memory) :
    Fine (attemptUses receiver replies n buffer) ↔
      (Reads receiver replies n →
        sizes (filled replies n buffer) (replies.start n).fileSize) := by
  unfold attemptUses
  by_cases reads : Reads receiver replies n
  · rw [if_pos reads, decides]
    exact ⟨fun fine _ => fine, fun fine => fine reads⟩
  · rw [if_neg reads]
    constructor
    · intro _ read
      exact absurd read reads
    · intro _ use inside
      exact absurd inside List.not_mem_nil

/-- The loop from an attempt on: the attempts that are made. -/
theorem loopUses_fine (decides : Decides receiver sizes) (rounds n : Nat) :
    Fine (loopUses receiver replies rounds n (bufferAt receiver.kind replies pool n)) ↔
      ∀ m, n ≤ m → m ≤ n + rounds →
        (∀ l, n ≤ l → l < m → GoesOn receiver.kind replies pool l) → Reads receiver replies m →
          sizes (filled replies m (bufferAt receiver.kind replies pool m))
            (replies.start m).fileSize := by
  induction rounds generalizing n with
  | zero =>
    rw [loopUses, attemptUses_fine decides]
    constructor
    · intro fine m reaches upTo _ reads
      obtain rfl : n = m := by omega
      exact fine reads
    · intro fine reads
      exact fine n (Nat.le_refl n) (Nat.le_refl n) (fun l reaches before => by omega) reads
  | succ rounds inductionHypothesis =>
    have next : (tryDownload receiver.kind replies n (bufferAt receiver.kind replies pool n)).buffer =
        bufferAt receiver.kind replies pool (n + 1) := rfl
    have stops : (tryDownload receiver.kind replies n
        (bufferAt receiver.kind replies pool n)).stopped = true ↔
          ¬ GoesOn receiver.kind replies pool n := by
      rw [tryDownload_stopped, GoesOn, not_and_or, not_not, not_not]
      rfl
    rw [loopUses, fine_append, attemptUses_fine decides, next]
    by_cases goes : GoesOn receiver.kind replies pool n
    · rw [if_neg (by rw [stops]; exact not_not.mpr goes), inductionHypothesis]
      constructor
      · rintro ⟨first, later⟩ m reaches upTo before reads
        obtain rfl | above := Nat.eq_or_lt_of_le reaches
        · exact first reads
        · exact later m above (by omega) (fun l reaches below => before l (by omega) below) reads
      · intro fine
        refine ⟨fun reads => fine n (Nat.le_refl n) (by omega) (fun l reaches below => by omega) reads,
          ?_⟩
        intro m reaches upTo before reads
        refine fine m (by omega) (by omega) ?_ reads
        intro l start below
        obtain rfl | above := Nat.eq_or_lt_of_le start
        · exact goes
        · exact before l above below
    · rw [if_pos (stops.mpr goes)]
      constructor
      · rintro ⟨first, -⟩ m reaches upTo before reads
        obtain rfl | above := Nat.eq_or_lt_of_le reaches
        · exact first reads
        · exact absurd (before n (Nat.le_refl n) above) goes
      · intro fine
        refine ⟨fun reads => fine n (Nat.le_refl n) (by omega) (fun l reaches below => by omega) reads,
          ?_⟩
        intro use inside
        exact absurd inside List.not_mem_nil

/-- A region is smaller than the buffer. -/
theorem region_inside (region : Region) : smcRomHoleSize region ≤ maxDownloadSize.toNat := by
  cases region <;> decide

/-- A call stays in its buffer exactly if every attempt that reads has sizes that do. -/
theorem callUses_fine (decides : Decides receiver sizes) :
    Fine (callUses receiver replies pool) ↔
      ∀ n ≤ 4, (∀ m < n, GoesOn receiver.kind replies pool m) → Reads receiver replies n →
        sizes (filled replies n (bufferAt receiver.kind replies pool n))
          (replies.start n).fileSize := by
  have storesInside : Fine
      (if (download receiver.kind replies 4 0 pool).downloadProcess &&
          (download receiver.kind replies 4 0 pool).downloadSuccess && !efiError replies.done then
        [.stored receiver.region]
      else []) := by
    intro use inside
    split at inside
    · obtain rfl := List.mem_singleton.mp inside
      exact ⟨region_inside receiver.region, trivial⟩
    · exact absurd inside List.not_mem_nil
  rw [callUses, fine_append, and_iff_left storesInside]
  refine (loopUses_fine decides 4 0).trans ?_
  constructor
  · intro fine n upTo before
    exact fine n (Nat.zero_le n) (by omega) fun m _ below => before m below
  · intro fine n _ upTo before
    exact fine n (by omega) fun m below => before m (Nat.zero_le m) below

/-- An image is stored only from a verified file, so its size is the announced one. -/
theorem storing_fits_iff (plain : Plain receiver.kind) :
    (∀ region data, Event.write region data ∈ storing receiver.kind receiver.region replies pool →
      ∃ size, lastSize (storing receiver.kind receiver.region replies pool) = some size ∧
        size.toNat ≤ smcRomHoleSize region) ↔
      ∀ n, IsLast receiver.kind replies pool n → VerifiedAt receiver.kind replies pool n →
        noError replies.done = true →
          (replies.start n).fileSize.toNat ≤ smcRomHoleSize receiver.region := by
  have storedAt {n : Nat} (last : IsLast receiver.kind replies pool n)
      (verified : VerifiedAt receiver.kind replies pool n) :
      lastSize (storing receiver.kind receiver.region replies pool) =
        some (replies.start n).fileSize := by
    rw [storing_verified plain last verified]
    split <;> simp [lastSize, transfer, List.findSome?_cons, Event.readSize]
  constructor
  · intro fits n last verified acknowledged
    have stored : Event.write receiver.region
        (filled replies n (bufferAt receiver.kind replies pool n)) ∈
          storing receiver.kind receiver.region replies pool := by
      have success : efiError replies.done = false := by simpa [noError] using acknowledged
      rw [storing_verified plain last verified, if_neg (by simp [success])]
      simp
    obtain ⟨size, same, bound⟩ := fits _ _ stored
    rw [storedAt last verified] at same
    obtain rfl := Option.some.inj same
    exact bound
  · intro sized region data stored
    obtain ⟨n, last, -⟩ := download_last receiver.kind replies pool
    by_cases verified : VerifiedAt receiver.kind replies pool n
    · refine ⟨(replies.start n).fileSize, storedAt last verified, ?_⟩
      rw [storing_verified plain last verified, List.mem_append] at stored
      obtain early | late := stored
      · exact absurd early (eventsVerified_noWrite last region data)
      · split at late
        · exact absurd late List.not_mem_nil
        case isFalse success =>
          have acknowledged : noError replies.done = true := by simpa [noError] using success
          obtain ⟨rfl, -⟩ := Event.write.inj (List.mem_singleton.mp late)
          exact sized n last verified acknowledged
    · exact absurd stored (storing_failed_noWrite last verified region data)

/-- A call stays inside its buffer, sums what was received and stores no image that is too
    large exactly when every file that it reads has fitting sizes. -/
theorem contained_iff (decides : Decides receiver sizes) (plain : Plain receiver.kind) :
    Contained receiver replies pool (storing receiver.kind receiver.region replies pool) ↔
      Sized receiver sizes replies pool := by
  constructor
  · rintro ⟨inside, exact_, fits⟩
    refine ⟨?_, (storing_fits_iff plain).mp fits⟩
    exact (callUses_fine decides).mp fun use member => ⟨inside use member, exact_ use member⟩
  · rintro ⟨read, stored⟩
    have fine := (callUses_fine decides).mpr read
    exact ⟨fun use member => (fine use member).1, fun use member => (fine use member).2,
      (storing_fits_iff plain).mpr stored⟩

/-- The two downloads keep to their buffers exactly when the sizes that are announced are right for
them, for every sequence of replies of the BMC and every content of the buffer. The sizes are
asked for attempt by attempt, as far as the attempts go. -/
theorem downloads_contained_iff (replies : Replies) (pool : Memory) :
    (Contained biosCfgReceiver replies pool (downloadBiosCfgFromBMC (some pool) replies) ↔
      Sized biosCfgReceiver BiosCfgSizes replies pool) ∧
    (Contained smbiosReceiver replies pool (downloadSmbiosFileFromBmc (some pool) replies) ↔
      Sized smbiosReceiver SmbiosSizes replies pool) :=
  ⟨contained_iff biosCfg_fine fun _ => rfl, contained_iff smbios_fine fun _ => rfl⟩

/-- A BMC that announces a file without bytes. -/
def emptyFile : Replies where
  start _ := ⟨efiSuccess, 0, 1⟩
  ready _ _ := ⟨efiSuccess, some 2⟩
  read _ := ⟨efiSuccess, fun _ => 0⟩
  done := efiSuccess
  preservation := ⟨efiSuccess, 0⟩

/-- The loop of the checksum runs over 4294967295 bytes. -/
theorem not_contained_emptyFile :
    ¬ Contained biosCfgReceiver emptyFile (fun _ => 0)
      (downloadBiosCfgFromBMC (some fun _ => 0) emptyFile) := by
  intro contained
  have reads : Reads biosCfgReceiver emptyFile 0 := by decide
  have summed : BufferUse.summed 0 4294967295 1 0 ∈
      callUses biosCfgReceiver emptyFile (fun _ => 0) := by
    apply List.mem_append_left
    apply List.mem_append_left
    rw [attemptUses, if_pos reads]
    exact List.mem_cons_of_mem _ (List.mem_cons_self ..)
  exact absurd (contained.inside _ summed) (by decide)

end Runs

end SmcPkg.Download
