import SmcPkg.OutBand.UploadLaw

/-!
# The upload of the feature flags

`UploadFeatureSupportFlagsFileToBmc` makes a file of the platform policy's feature
flags, a header of 16 bytes and a payload of 24, and sends it to the BMC unless the
variable `SMCFSFHEADER` holds the same header. The header knows the payload by an
8-bit sum, its reserved bytes are those of the pool, and the status of storing the
variable is not read; a skipped upload is the right one exactly when no later
policy meets one of its headers again with another file between.

The flags, the contents of the pool and every status are inputs of each boot. Of the BMC only
what it has acknowledged counts.
-/

namespace SmcPkg.FeatureFlags

open Bytes Card Download Upload

section File

/-- `SUM_FEATURE_FLAGS`. -/
structure SumFeatureFlags where
  sumFeatureFlagMajorVersion : UInt8
  sumFeatureFlagMinorVersion : UInt16
  sumPlatformId : UInt8
  sumWithWithoutBmc : UInt8
  sumInbandJumperlessUpdateBios : UInt8
  sumBiosConfigurationSupportOutband : UInt8
  sumBiosConfigurationSupportInband : UInt8
  sumMeDisablingUpdateBios : UInt8
  sumEditDmiSupportOutband : UInt8
  sumEditDmiSupportInband : UInt8
  sumPresistentDmiBiosCfgSupportOutband : UInt8
  sumFullSmbiosSupportOutband : UInt8
  sumFullSmbiosSupportInband : UInt8
  sumVpdSupportOutband : UInt8
  sumVpdSupportInband : UInt8
  sumHddInformationBiosSupport : UInt8
  sumMctpFwUpdateBiosSupport : UInt8
  sumVpdType40BiosSupport : UInt8
  sumFru1DataBiosSupport : UInt8
  sumIntelRcEventLogSupport : UInt8
  sumTpmProvisionSupport : UInt8
  sumAutoTpmProvisionSupport : UInt8
  sumTpmV12Support : UInt8
  sumTpmV20Support : UInt8
  sumDefaultPreserveSmbiosSupport : UInt8
  sumDefaultProgramNvramSupport : UInt8
  sumDefaultUpdateMeSupport : UInt8
  sumTpmCustomProvisionTableSupport : UInt8

/-- The bits that a flag puts into its byte. -/
def flagBits (flag mask shift : UInt8) : UInt8 :=
  if flag ≠ 0 then (flag &&& mask) <<< shift else 0

/-- The flags with their bytes in the payload, in the order of `FsfPayload`. -/
def contributions (flags : SumFeatureFlags) : List (Nat × UInt8) :=
  [(0, flagBits flags.sumPlatformId 0x7f 0),
   (0, flagBits flags.sumWithWithoutBmc 1 7),
   (4, flagBits flags.sumInbandJumperlessUpdateBios 1 1),
   (4, flagBits flags.sumBiosConfigurationSupportOutband 1 3),
   (4, flagBits flags.sumBiosConfigurationSupportInband 1 4),
   (4, flagBits flags.sumMeDisablingUpdateBios 1 5),
   (5, flagBits flags.sumEditDmiSupportOutband 1 1),
   (5, flagBits flags.sumEditDmiSupportInband 1 2),
   (6, flagBits flags.sumPresistentDmiBiosCfgSupportOutband 1 1),
   (10, flagBits flags.sumFullSmbiosSupportOutband 1 1),
   (10, flagBits flags.sumFullSmbiosSupportInband 1 2),
   (10, flagBits flags.sumVpdSupportOutband 1 4),
   (10, flagBits flags.sumVpdSupportInband 1 5),
   (10, flagBits flags.sumHddInformationBiosSupport 1 6),
   (11, flagBits flags.sumMctpFwUpdateBiosSupport 1 5),
   (11, flagBits flags.sumVpdType40BiosSupport 1 6),
   (12, flagBits flags.sumFru1DataBiosSupport 1 0),
   (14, flagBits flags.sumIntelRcEventLogSupport 1 1),
   (16, flagBits flags.sumTpmProvisionSupport 1 1),
   (16, flagBits flags.sumAutoTpmProvisionSupport 1 3),
   (16, flagBits flags.sumTpmCustomProvisionTableSupport 1 5),
   (17, flagBits flags.sumTpmV12Support 1 0),
   (17, flagBits flags.sumTpmV20Support 1 1),
   (18, flagBits flags.sumDefaultPreserveSmbiosSupport 1 0),
   (18, flagBits flags.sumDefaultProgramNvramSupport 1 1),
   (18, flagBits flags.sumDefaultUpdateMeSupport 1 2)]

/-- `PAYLOAD_SIZE`. -/
def payloadSize : Nat := 24

/-- `FsfPayload`. -/
def fsfPayload (flags : SumFeatureFlags) : Image :=
  (contributions flags).foldl
    (fun payload (index, bits) => payload.modify index (· ||| bits))
    (List.replicate payloadSize 0)

/-- The checksums: sums in 32 bits, cut to a byte. -/
def byteTotal (bytes : Image) : UInt8 := bytes.sum

/-- `PlatInfo_H` up to the checksum of the header. The reserved bytes are not written, and
    stay as the pool has them. -/
def headerFront (flags : SumFeatureFlags) (pool : Memory) : Image :=
  [flags.sumFeatureFlagMajorVersion] ++ le16 flags.sumFeatureFlagMinorVersion.toNat ++
    le16 payloadSize ++ (List.range 9).map (fun i => pool (5 + i)) ++
    [byteTotal (fsfPayload flags)]

/-- The header, as `GenerateFeatureSupportFlags` leaves it. -/
def header (flags : SumFeatureFlags) (pool : Memory) : Image :=
  headerFront flags pool ++ [byteTotal (headerFront flags pool)]

/-- `GenerateFeatureSupportFlags`: the file in the buffer. -/
def generateFeatureSupportFlags (flags : SumFeatureFlags) (pool : Memory) : Image :=
  header flags pool ++ fsfPayload flags

end File

section Upload

/-- A boot: the policy's flags, the buffer as the pool gives it, and the status of storing
    the variable. -/
structure Boot where
  flags : SumFeatureFlags
  pool : Memory
  setStatus : Status

def Boot.header (boot : Boot) : Image := FeatureFlags.header boot.flags boot.pool

def Boot.file (boot : Boot) : Image := generateFeatureSupportFlags boot.flags boot.pool

/-- Whether `SetVariable` keeps the header of the boot. -/
def Boot.Stores (boot : Boot) : Prop := noError boot.setStatus = true

instance (boot : Boot) : Decidable boot.Stores := inferInstanceAs (Decidable (_ = _))

/-- What the boot meets: whether the variables were cleared before it, the two pools, the
    files that the BMC reports, the status of reading the variable, and the attempts. -/
structure Environment where
  cleared : Bool
  bufferAllocated : Bool
  varAllocated : Bool
  oobFileStatus0 : UInt32
  getStatus : Status
  attempts : Nat → AttemptReply

/-- `OOB_FILE_TYPE_BIOS_FEATURE_FLAG`. -/
def featureFlagType : UInt32 := 7

/-- The file is available on the BMC. -/
def Environment.available (environment : Environment) : Bool :=
  environment.oobFileStatus0 &&& (1 <<< featureFlagType) ≠ 0

/-- What outlasts a boot: the variable `SMCFSFHEADER`, and the file that the BMC
    acknowledged last. -/
structure World where
  smcFsfHeader : Option Image
  acknowledged : Option Image

/-- The attempts, with the retries left and the attempt. The BMC takes the file over when it
    acknowledges the last step; the variable is then written, and the loop left, whether
    or not that succeeds. -/
def sendAttempts (boot : Boot) (environment : Environment) : Nat → Nat → World → World
  | 0, _, world => world
  | fileRetry + 1, attempt, world =>
    let reply := environment.attempts attempt
    if noError reply.prepare ∧ noError reply.start ∧ noError (dataToBMCDone reply) then
      { acknowledged := some boot.file
        smcFsfHeader := if boot.Stores then some boot.header else world.smcFsfHeader }
    else sendAttempts boot environment fileRetry (attempt + 1) world

/-- `UploadFeatureSupportFlagsFileToBmc`. -/
def uploadFeatureSupportFlagsFileToBmc (boot : Boot) (environment : Environment) (world : World) :
    Outcome × World :=
  if environment.bufferAllocated = false ∨ environment.varAllocated = false then (.absent, world)
  else if environment.available = true ∧ noError environment.getStatus = true ∧
      world.smcFsfHeader = some boot.header then
    (.skipped, world)
  else (.attempted, sendAttempts boot environment 3 0 world)

/-- The world as a boot finds it. -/
def Environment.enter (environment : Environment) (world : World) : World :=
  if environment.cleared then { world with smcFsfHeader := none } else world

/-- The world after the boots before the k-th, from one without the variable. -/
def worldAt (boots : Nat → Boot) (environments : Nat → Environment) (held : Option Image) :
    Nat → World
  | 0 => ⟨none, held⟩
  | k + 1 =>
    (uploadFeatureSupportFlagsFileToBmc (boots k) (environments k)
      ((environments k).enter (worldAt boots environments held k))).2

/-- How a boot ends. -/
def outcomeAt (boots : Nat → Boot) (environments : Nat → Environment) (held : Option Image)
    (k : Nat) : Outcome :=
  (uploadFeatureSupportFlagsFileToBmc (boots k) (environments k)
    ((environments k).enter (worldAt boots environments held k))).1

/-- Every boot that skips the upload would have sent the file acknowledged last. -/
def SkipsRight (boots : Nat → Boot) (environments : Nat → Environment) (held : Option Image) :
    Prop :=
  ∀ k, outcomeAt boots environments held k = .skipped →
    (worldAt boots environments held k).acknowledged = some (boots k).file

end Upload

section Headers

/-- Two boots whose headers are the same: their versions, the reserved bytes of their
    buffers and the sums of their payloads. -/
structure HeadersAgree (first second : Boot) : Prop where
  major : first.flags.sumFeatureFlagMajorVersion = second.flags.sumFeatureFlagMajorVersion
  minor : first.flags.sumFeatureFlagMinorVersion = second.flags.sumFeatureFlagMinorVersion
  reserved : ∀ i < 9, first.pool (5 + i) = second.pool (5 + i)
  payloadSum : byteTotal (fsfPayload first.flags) = byteTotal (fsfPayload second.flags)

/-- A 16-bit number has bytes of its own. -/
theorem le16_inj {first second : UInt16} :
    le16 first.toNat = le16 second.toNat ↔ first = second := by
  constructor
  · intro same
    simp only [le16, List.cons.injEq, and_true] at same
    have low := congrArg UInt8.toNat same.1
    have high := congrArg UInt8.toNat same.2
    simp only [UInt8.toNat_ofNat'] at low high
    have firstBound := first.toNat_lt
    have secondBound := second.toNat_lt
    apply UInt16.toNat_inj.mp
    omega
  · rintro rfl
    rfl

/-- The fronts of two headers are the same exactly if the headers agree in what is compared. -/
theorem headerFront_eq_iff (first second : Boot) :
    headerFront first.flags first.pool = headerFront second.flags second.pool ↔
      HeadersAgree first second := by
  constructor
  · intro same
    simp only [headerFront] at same
    have parts := List.append_inj' same (by simp)
    have fronts := List.append_inj' parts.1 (by simp)
    have lengths := List.append_inj' fronts.1 (by simp)
    have versions := List.append_inj' lengths.1 (by simp [le16])
    refine ⟨(List.cons.inj versions.1).1, le16_inj.mp versions.2, ?_, (List.cons.inj parts.2).1⟩
    intro i inside
    exact List.map_inj_left.mp fronts.2 i (List.mem_range.mpr inside)
  · intro agree
    have reserved : (List.range 9).map (fun i => first.pool (5 + i)) =
        (List.range 9).map (fun i => second.pool (5 + i)) :=
      List.map_inj_left.mpr fun i inside => agree.reserved i (List.mem_range.mp inside)
    simp only [headerFront, agree.major, agree.minor, reserved, agree.payloadSum]

/-- What the remembered header tells of a file. -/
theorem header_eq_iff (first second : Boot) :
    first.header = second.header ↔ HeadersAgree first second := by
  rw [← headerFront_eq_iff]
  constructor
  · intro same
    exact (List.append_inj' same (by simp)).1
  · intro same
    simp only [Boot.header, header, same]

end Headers

section Remembering

variable {boots : Nat → Boot} {environments : Nat → Environment} {held : Option Image}

/-- The attempts leave the world, or the BMC has acknowledged the boot's file. -/
theorem sendAttempts_cases (boot : Boot) (environment : Environment) (fileRetry attempt : Nat)
    (world : World) :
    sendAttempts boot environment fileRetry attempt world = world ∨
      sendAttempts boot environment fileRetry attempt world =
        { acknowledged := some boot.file
          smcFsfHeader := if boot.Stores then some boot.header else world.smcFsfHeader } := by
  induction fileRetry generalizing attempt with
  | zero => exact Or.inl rfl
  | succ fileRetry inductionHypothesis =>
    unfold sendAttempts
    dsimp only
    split
    · exact Or.inr rfl
    · exact inductionHypothesis (attempt + 1)

/-- A call leaves the world, or the BMC has acknowledged the boot's file. -/
theorem upload_cases (boot : Boot) (environment : Environment) (world : World) :
    (uploadFeatureSupportFlagsFileToBmc boot environment world).2 = world ∨
      (uploadFeatureSupportFlagsFileToBmc boot environment world).2 =
        { acknowledged := some boot.file
          smcFsfHeader := if boot.Stores then some boot.header else world.smcFsfHeader } := by
  unfold uploadFeatureSupportFlagsFileToBmc
  split
  · exact Or.inl rfl
  · split
    · exact Or.inl rfl
    · exact sendAttempts_cases boot environment 3 0 world

/-- A call skips the upload on the remembered header alone. -/
theorem upload_skipped {boot : Boot} {environment : Environment} {world : World}
    (skipped : (uploadFeatureSupportFlagsFileToBmc boot environment world).1 = .skipped) :
    world.smcFsfHeader = some boot.header := by
  unfold uploadFeatureSupportFlagsFileToBmc at skipped
  split at skipped
  · exact nomatch skipped
  · split at skipped
    case isTrue taken => exact taken.2.2
    case isFalse => exact nomatch skipped

/-- The variable holds the header of the i-th boot and the BMC has acknowledged the file of
    the j-th: the last one whose header was stored, and the last one sent. -/
structure Remembers (boots : Nat → Boot) (i j : Nat) (world : World) : Prop where
  order : i ≤ j
  stored : (boots i).Stores
  later : i = j ∨ ¬ (boots j).Stores
  header : world.smcFsfHeader = some (boots i).header
  acknowledged : world.acknowledged = some (boots j).file

/-- At the start of a boot the remembered header is lost or stays. -/
theorem enter_cases (environment : Environment) (world : World) :
    (environment.enter world).smcFsfHeader = none ∨ environment.enter world = world := by
  unfold Environment.enter
  split
  · exact Or.inl rfl
  · exact Or.inr rfl

/-- One boot: what is remembered stays, or is the boot's own header, or the boot's file is
    the one acknowledged last beside an older header. -/
theorem upload_remembers {k : Nat} {world : World} (environment : Environment)
    (before : world.smcFsfHeader = none ∨ ∃ i j, j < k ∧ Remembers boots i j world) :
    let after := (uploadFeatureSupportFlagsFileToBmc (boots k) environment world).2
    after.smcFsfHeader = none ∨ ∃ i j, j < k + 1 ∧ Remembers boots i j after := by
  intro after
  obtain (kept : after = world) | (sent : after = _) := upload_cases (boots k) environment world
  · obtain empty | ⟨i, j, earlier, remembers⟩ := before
    · exact Or.inl (by rw [kept, empty])
    · refine Or.inr ⟨i, j, Nat.lt_succ_of_lt earlier, ?_⟩
      rw [kept]
      exact remembers
  · by_cases stores : (boots k).Stores
    · refine Or.inr ⟨k, k, Nat.lt_succ_self k, ?_⟩
      rw [sent, if_pos stores]
      exact ⟨Nat.le_refl k, stores, Or.inl rfl, rfl, rfl⟩
    · obtain empty | ⟨i, j, earlier, remembers⟩ := before
      · exact Or.inl (by rw [sent, if_neg stores, empty])
      · refine Or.inr ⟨i, k, Nat.lt_succ_self k, ?_⟩
        rw [sent, if_neg stores]
        exact ⟨Nat.le_trans remembers.order (Nat.le_of_lt earlier), remembers.stored,
          Or.inr stores, remembers.header, rfl⟩

/-- Every run: the variable is empty, or holds the header of an earlier boot. -/
theorem worldAt_remembers (k : Nat) :
    (worldAt boots environments held k).smcFsfHeader = none ∨
      ∃ i j, j < k ∧ Remembers boots i j (worldAt boots environments held k) := by
  induction k with
  | zero => exact Or.inl rfl
  | succ k inductionHypothesis =>
    apply upload_remembers
    obtain cleared | same := enter_cases (environments k) (worldAt boots environments held k)
    · exact Or.inl cleared
    · rw [same]
      exact inductionHypothesis

end Remembering

section Law

/-- No header is met again with another file: where the header of the i-th boot was stored,
    and the j-th boot is that one or one whose header could not be stored, a later boot
    with the same header has the file of the j-th. -/
def Distinguished (boots : Nat → Boot) : Prop :=
  ∀ i j k, i ≤ j → j < k → (boots i).Stores → (i = j ∨ ¬ (boots j).Stores) →
    HeadersAgree (boots i) (boots k) → (boots j).file = (boots k).file

/-- Boots that the headers tell apart are skipped rightly. -/
theorem skipsRight_of_distinguished {boots : Nat → Boot} (distinguished : Distinguished boots)
    (environments : Nat → Environment) (held : Option Image) :
    SkipsRight boots environments held := by
  intro k skipped
  have seen := upload_skipped skipped
  obtain cleared | same := enter_cases (environments k) (worldAt boots environments held k)
  · exact nomatch cleared.symm.trans seen
  · rw [same] at seen
    obtain empty | ⟨i, j, earlier, remembers⟩ := worldAt_remembers k
    · exact nomatch empty.symm.trans seen
    · have headers : (boots i).header = (boots k).header :=
        Option.some.inj (remembers.header.symm.trans seen)
      rw [remembers.acknowledged, distinguished i j k remembers.order earlier remembers.stored
        remembers.later ((header_eq_iff _ _).mp headers)]

/-- Every step of an attempt succeeds. -/
def goodReply : AttemptReply := ⟨efiSuccess, efiSuccess, true, fun _ => ⟨efiSuccess, 2⟩⟩

/-- A boot on which the BMC has no file and takes the one sent. -/
def sending : Environment := ⟨false, true, true, 0, efiSuccess, fun _ => goodReply⟩

/-- A boot on which the BMC has the file. -/
def looking : Environment := ⟨false, true, true, 0x80, efiSuccess, fun _ => goodReply⟩

/-- A boot without memory for the file. -/
def idle : Environment := ⟨false, false, true, 0, efiSuccess, fun _ => goodReply⟩

/-- A boot that sends remembers its header and its file. -/
theorem upload_sending (boot : Boot) (world : World) :
    (uploadFeatureSupportFlagsFileToBmc boot sending (sending.enter world)).2 =
      { acknowledged := some boot.file
        smcFsfHeader := if boot.Stores then some boot.header else world.smcFsfHeader } := by
  have unavailable : ¬ (sending.available = true ∧ noError sending.getStatus = true ∧
      world.smcFsfHeader = some boot.header) := fun taken => absurd taken.1 (by decide)
  have succeeds : noError goodReply.prepare ∧ noError goodReply.start ∧
      noError (dataToBMCDone goodReply) := by decide
  rw [show sending.enter world = world from rfl, uploadFeatureSupportFlagsFileToBmc,
    if_neg (by decide), if_neg unavailable]
  unfold sendAttempts
  exact if_pos succeeds

/-- A boot with the same header skips the upload. -/
theorem upload_looking (boot : Boot) (world : World)
    (same : world.smcFsfHeader = some boot.header) :
    (uploadFeatureSupportFlagsFileToBmc boot looking (looking.enter world)).1 = .skipped := by
  have taken : looking.available = true ∧ noError looking.getStatus = true ∧
      world.smcFsfHeader = some boot.header := ⟨by decide, by decide, same⟩
  rw [show looking.enter world = world from rfl, uploadFeatureSupportFlagsFileToBmc,
    if_neg (by decide), if_pos taken]

/-- The boots that send are the i-th and the j-th; the k-th looks. -/
def schedule (i j k n : Nat) : Environment :=
  if n = i ∨ n = j then sending else if n = k then looking else idle

/-- An idle boot changes nothing. -/
theorem worldAt_idle {boots : Nat → Boot} {held : Option Image} {i j k n : Nat}
    (notFirst : n ≠ i) (notSecond : n ≠ j) (notLast : n ≠ k) :
    worldAt boots (schedule i j k) held (n + 1) = worldAt boots (schedule i j k) held n := by
  have here : schedule i j k n = idle := by simp [schedule, notFirst, notSecond, notLast]
  simp only [worldAt, here]
  rfl

/-- A sending boot leaves its file and its header. -/
theorem worldAt_sending {boots : Nat → Boot} {held : Option Image} {i j k n : Nat}
    (sends : n = i ∨ n = j) :
    worldAt boots (schedule i j k) held (n + 1) =
      { acknowledged := some (boots n).file
        smcFsfHeader := if (boots n).Stores then some (boots n).header
          else (worldAt boots (schedule i j k) held n).smcFsfHeader } := by
  have here : schedule i j k n = sending := by simp [schedule, sends]
  simp only [worldAt, here]
  exact upload_sending (boots n) _

/-- In the schedule the i-th header is stored, and the j-th file acknowledged last. -/
theorem schedule_remembers {boots : Nat → Boot} {held : Option Image} {i j k : Nat}
    (order : i ≤ j) (later : j < k) (stored : (boots i).Stores)
    (beside : i = j ∨ ¬ (boots j).Stores) :
    (worldAt boots (schedule i j k) held k).smcFsfHeader = some (boots i).header ∧
      (worldAt boots (schedule i j k) held k).acknowledged = some (boots j).file := by
  have stays (n m : Nat) (above : ∀ l, n ≤ l → l < n + m → l ≠ i ∧ l ≠ j ∧ l ≠ k) :
      worldAt boots (schedule i j k) held (n + m) = worldAt boots (schedule i j k) held n := by
    induction m with
    | zero => rfl
    | succ m inductionHypothesis =>
      obtain ⟨notFirst, notSecond, notLast⟩ := above (n + m) (by omega) (by omega)
      rw [← Nat.add_assoc, worldAt_idle notFirst notSecond notLast]
      exact inductionHypothesis fun l reaches below => above l reaches (by omega)
  have first : (worldAt boots (schedule i j k) held (i + 1)).smcFsfHeader =
      some (boots i).header := by
    rw [worldAt_sending (Or.inl rfl), if_pos stored]
  have second : (worldAt boots (schedule i j k) held (j + 1)).smcFsfHeader =
      some (boots i).header := by
    obtain rfl | fails := beside
    · exact first
    · have apart : i < j := by
        refine Nat.lt_of_le_of_ne order ?_
        rintro rfl
        exact fails stored
      have between := stays (i + 1) (j - (i + 1)) (by omega)
      rw [Nat.add_sub_cancel' apart] at between
      rw [worldAt_sending (Or.inr rfl), if_neg fails]
      dsimp only
      rw [between]
      exact first
  have after := stays (j + 1) (k - (j + 1)) (by omega)
  rw [Nat.add_sub_cancel' later] at after
  rw [after]
  refine ⟨second, ?_⟩
  rw [worldAt_sending (Or.inr rfl)]

/-- A sequence of policies skips its uploads rightly, whatever the BMC and the firmware services
answer, exactly when no header is met again with another file. The condition is on the policies,
the buffers and the statuses of the stores, and not on any answer. -/
theorem skipsRight_iff (boots : Nat → Boot) :
    (∀ environments held, SkipsRight boots environments held) ↔ Distinguished boots := by
  constructor
  · intro right i j k order later stored beside agree
    obtain ⟨header, acknowledged⟩ :=
      @schedule_remembers boots none i j k order later stored beside
    have here : schedule i j k k = looking := by
      have notFirst : k ≠ i := by omega
      have notSecond : k ≠ j := by omega
      simp [schedule, notFirst, notSecond]
    have skipped : outcomeAt boots (schedule i j k) none k = .skipped := by
      rw [outcomeAt, here]
      apply upload_looking
      rw [header, (header_eq_iff _ _).mpr agree]
    exact Option.some.inj (acknowledged.symm.trans (right (schedule i j k) none k skipped))
  · intro distinguished environments held
    exact skipsRight_of_distinguished distinguished environments held

end Law

section Colliding

/-- A policy without features. -/
def noFeatures : SumFeatureFlags :=
  ⟨1, 0, 0, 0, 0, 0, 0, 0, 0, 0, 0, 0, 0, 0, 0, 0, 0, 0, 0, 0, 0, 0, 0, 0, 0, 0, 0, 0⟩

/-- The first boot updates the BIOS in band without a jumper, every later one edits the DMI
    data out of band: one bit each, at the same place of two bytes. -/
def movedFlag (n : Nat) : Boot where
  flags :=
    if n = 0 then { noFeatures with sumInbandJumperlessUpdateBios := 1 }
    else { noFeatures with sumEditDmiSupportOutband := 1 }
  pool := fun _ => 0
  setStatus := efiSuccess

/-- The second boot does not send its file, and the BMC has that of the first. -/
theorem not_skipsRight_movedFlag :
    ¬ SkipsRight movedFlag (fun n => if n = 0 then sending else looking) none := by
  intro right
  have skipped : outcomeAt movedFlag (fun n => if n = 0 then sending else looking) none 1 =
      .skipped := by
    decide
  exact absurd (right 1 skipped) (by decide)

end Colliding

end SmcPkg.FeatureFlags
