import SmcPkg.OutBand.Upload

/-!
# What the stored digests say

A digest is stored only after the BMC has acknowledged the file it belongs to, and every
acknowledged file has its digest stored. Over any boots the stored digests are those of
the files acknowledged last, so an equal digest means that the BMC holds the file.
-/

namespace SmcPkg.Upload

open Bytes Card RomHole Download

section Attempts

/-- The digests of a world are those of the files acknowledged last, which the BMC holds
and which belong to a set of files. -/
structure Kept (md5 : Image → Digest) (images : Set Image) (world : World) : Prop where
  digests : ∀ type : FileType, world.nvram type.variableName = (world.acknowledged type).map md5
  copies : ∀ type image, world.acknowledged type = some image → world.bmc type = some image
  known : ∀ type image, world.acknowledged type = some image → image ∈ images

variable {md5 : Image → Digest} {images : Set Image} {world : World}

/-- Each type has a variable of its own. -/
theorem variableName_injective : Function.Injective FileType.variableName := by
  intro type other
  cases type <;> cases other <;> decide

/-- A file that is acknowledged and whose digest is stored. -/
theorem Kept.replaced (kept : Kept md5 images world) {type : FileType} {image : Image}
    (member : image ∈ images) {status : Status} (stored : efiError status = false) :
    Kept md5 images
      ((world.acknowledge type image).setVariable type.variableName (md5 image) status) := by
  simp only [World.setVariable, stored, World.acknowledge]
  constructor
  · intro other
    by_cases same : other = type
    · subst same
      simp
    · have names : other.variableName ≠ type.variableName :=
        fun equal => same (variableName_injective equal)
      simp [same, names, kept.digests other]
  · intro other copy
    by_cases same : other = type
    · subst same
      simp
    · simpa [same] using kept.copies other copy
  · intro other copy
    by_cases same : other = type
    · subst same
      simp only [Function.update_self, Option.some.injEq, Bool.false_eq_true, if_false]
      rintro rfl
      exact member
    · simpa [same] using kept.known other copy

/-- The last step ends with success or an error. -/
theorem donePolls_cases (polls : Nat → DonePoll) (commandRetry poll : Nat) :
    donePolls polls commandRetry poll = efiSuccess ∨
      donePolls polls commandRetry poll = efiAborted := by
  induction commandRetry generalizing poll with
  | zero => exact Or.inr rfl
  | succ commandRetry inductionHypothesis =>
    rw [donePolls]
    split
    · split
      · exact Or.inl rfl
      · split
        · exact Or.inr rfl
        · exact inductionHypothesis (poll + 1)
    · exact inductionHypothesis (poll + 1)

/-- The end of an upload is a success or an error. -/
theorem dataToBMCDone_cases (reply : AttemptReply) :
    dataToBMCDone reply = efiSuccess ∨ efiError (dataToBMCDone reply) = true := by
  rw [dataToBMCDone]
  split
  · rcases donePolls_cases reply.polls (20 * 3) 0 with success | aborted
    · exact Or.inl success
    · rw [aborted]
      exact Or.inr rfl
  · exact Or.inr rfl

/-- A test for success that tells success from an error. -/
structure Job.Tests (job : Job) : Prop where
  success : job.succeeds efiSuccess = true
  error : ∀ status, efiError status = true → job.succeeds status = false

/-- The attempts keep the digests. -/
theorem uploadAttempts_kept {job : Job} (tests : job.Tests) (same : job.uploaded = job.digested)
    (member : job.digested ∈ images) {exchange : Exchange}
    (stored : efiError exchange.setStatus = false) (fileRetry attempt : Nat)
    (kept : Kept md5 images world) :
    Kept md5 images
      (uploadAttempts job true (md5 job.digested) exchange fileRetry attempt world) := by
  induction fileRetry generalizing attempt with
  | zero => exact kept
  | succ fileRetry inductionHypothesis =>
    rw [uploadAttempts]
    by_cases prepared : job.succeeds (exchange.attempts attempt).prepare = true
    · by_cases started : job.succeeds (exchange.attempts attempt).start = true
      · rcases dataToBMCDone_cases (exchange.attempts attempt) with success | failed
        · simp only [prepared, started, success, tests.success, if_true, same]
          exact kept.replaced member stored
        · have refused : dataToBMCDone (exchange.attempts attempt) ≠ efiSuccess := by
            intro success
            rw [success] at failed
            exact absurd failed (by decide)
          simp only [prepared, started, refused, tests.error _ failed, if_true, if_false,
            Bool.false_eq_true]
          exact inductionHypothesis (attempt + 1)
      · simp only [prepared, started, if_true, if_false, Bool.false_eq_true]
        exact inductionHypothesis (attempt + 1)
    · simp only [prepared, if_false, Bool.false_eq_true]
      exact inductionHypothesis (attempt + 1)

end Attempts

section Calls

variable {md5 : Image → Digest} {images : Set Image} {world : World} {boot : BootInput}
  {type : FileType}

/-- What holds of every job: its tests, its type, and that a short file is sent as it was
digested. -/
structure Job.Sound (job : Job) (type : FileType) : Prop where
  tests : job.Tests
  typed : job.type = type
  sent : job.digested.length < 2 ^ 32 → job.uploaded = job.digested

/-- A job without an error passes its tests. -/
theorem noError_tests {digested uploaded : Image} :
    (Job.mk noError type digested uploaded).Tests := by
  constructor
  · rfl
  · intro status error
    simp [noError, error]

/-- The job of a file in memory is sound. -/
theorem wideJob_sound (memory : Memory) (size : Nat) : (wideJob type memory size).Sound type := by
  refine ⟨noError_tests, rfl, ?_⟩
  intro short
  have length : size < 2 ^ 32 := by simpa [wideJob, bytesOf] using short
  rw [wideJob, Nat.mod_eq_of_lt length]

/-- So is that of a file whose size is in its header. -/
theorem memoryJob_sound (memory : Memory) : (memoryJob type memory).Sound type :=
  ⟨noError_tests, rfl, fun _ => rfl⟩

/-- The job of the BIOS storage, where there is one, is sound. -/
theorem biosStorageJob_sound {read : RegionRead} {hole : Memory} {job : Job}
    (found : biosStorageJob read hole = some job) : job.Sound .biosStorage := by
  rw [biosStorageJob] at found
  split at found
  · simp at found
  · obtain rfl : _ = job := by simpa using found
    refine ⟨⟨by simp, ?_⟩, rfl, fun _ => rfl⟩
    intro status error
    by_contra success
    obtain rfl : status = efiSuccess := by simpa using success
    exact absurd error (by decide)

/-- Every file of a boot is sound. -/
theorem job_sound {sources : Sources} {job : Job} (found : sources.job type = some job) :
    job.Sound type := by
  cases type with
  | hii =>
    obtain ⟨-, rfl⟩ : _ ∧ _ = job := by simpa [Sources.job, hiiJob] using found
    exact memoryJob_sound _
  | bin =>
    obtain ⟨-, rfl⟩ : _ ∧ _ = job := by simpa [Sources.job, biosCfgJob] using found
    exact wideJob_sound _ _
  | dmi =>
    rw [Sources.job, smbiosFileJob] at found
    split at found
    · simp at found
    · obtain ⟨-, rfl⟩ : _ ∧ _ = job := by simpa using found
      exact wideJob_sound _ _
  | fullSmbios =>
    obtain ⟨-, rfl⟩ : _ ∧ _ = job := by simpa [Sources.job, fullSmBiosJob] using found
    exact memoryJob_sound _
  | biosStorage => exact biosStorageJob_sound found

/-- The five functions are one function of the file. -/
theorem uploadOf_job :
    uploadOf md5 boot type world =
      uploadJob md5 boot.policy (boot.job type) (boot.exchange type) world := by
  cases type <;> rfl

/-- The files of a boot belong to a set. -/
def Contributes (boot : BootInput) (images : Set Image) : Prop :=
  ∀ type job, boot.job type = some job → job.digested ∈ images

/-- A call keeps the digests. -/
theorem uploadOf_kept (supported : boot.policy.md5Support = true)
    (stored : efiError (boot.exchange type).setStatus = false) (contributes : Contributes boot images)
    (kept : Kept md5 images world) : Kept md5 images (uploadOf md5 boot type world).2 := by
  rw [uploadOf_job]
  cases found : boot.job type with
  | none => exact kept
  | some job =>
    rw [uploadJob, uploadFile, supported]
    have sound := job_sound found
    split
    · exact kept
    · exact uploadAttempts_kept sound.tests (sound.sent (boot.short type job found))
        (contributes type job found) stored 3 0 kept

/-- A skipped call: the BMC reports the file, and holds it as it is. -/
theorem uploadOf_skipped (contributes : Contributes boot images)
    (distinct : Set.InjOn md5 images) (kept : Kept md5 images world)
    (skipped : (uploadOf md5 boot type world).1 = .skipped) :
    boot.policy.available type = true ∧
      ∃ job, boot.job type = some job ∧ world.bmc type = some job.uploaded := by
  rw [uploadOf_job] at skipped
  cases found : boot.job type with
  | none =>
    rw [found] at skipped
    exact absurd skipped (by simp [uploadJob])
  | some job =>
    have sound := job_sound found
    rw [found, uploadJob, uploadFile] at skipped
    split at skipped
    · rename_i condition
      simp only [Bool.and_eq_true, decide_eq_true_eq, sound.typed] at condition
      obtain ⟨⟨-, available⟩, old⟩ := condition
      refine ⟨available, job, rfl, ?_⟩
      have digest : world.nvram type.variableName = some (md5 job.digested) := by
        rw [getVariable] at old
        split at old
        · exact old
        · simp at old
      rw [kept.digests type] at digest
      obtain ⟨image, acknowledged, equal⟩ := Option.map_eq_some_iff.mp digest
      have same : image = job.digested :=
        distinct (kept.known type image acknowledged) (contributes type job found) equal
      rw [sound.sent (boot.short type job found), ← same]
      exact kept.copies type image acknowledged
    · exact absurd skipped (by simp)

end Calls

section Run

/-- The files of some boots. -/
def imagesOf (boots : List BootInput) : Set Image :=
  { image | ∃ boot ∈ boots, ∃ type job, boot.job type = some job ∧ job.digested = image }

/-- A machine whose variables are empty. The BMC may hold anything. -/
def fresh (bmc : FileType → Option Image) : World := ⟨fun _ => none, bmc, fun _ => none⟩

/-- At the start nothing is remembered, so nothing is wrong. -/
theorem fresh_kept (md5 : Image → Digest) (images : Set Image) (bmc : FileType → Option Image) :
    Kept md5 images (fresh bmc) := by
  constructor
  · intro type
    rfl
  · intro type image acknowledged
    simp [fresh] at acknowledged
  · intro type image acknowledged
    simp [fresh] at acknowledged

/-- Calls keep the digests. -/
theorem runCalls_kept {md5 : Image → Digest} {images : Set Image}
    {calls : List (BootInput × FileType)} {world : World}
    (supported : ∀ call ∈ calls, call.1.policy.md5Support = true)
    (stored : ∀ call ∈ calls, efiError (call.1.exchange call.2).setStatus = false)
    (contributes : ∀ call ∈ calls, Contributes call.1 images) (kept : Kept md5 images world) :
    Kept md5 images (runCalls md5 calls world) := by
  induction calls generalizing world with
  | nil => exact kept
  | cons call calls inductionHypothesis =>
    rw [runCalls, List.foldl_cons]
    apply inductionHypothesis
    · exact fun call member => supported call (List.mem_cons_of_mem _ member)
    · exact fun call member => stored call (List.mem_cons_of_mem _ member)
    · exact fun call member => contributes call (List.mem_cons_of_mem _ member)
    · exact uploadOf_kept (supported call List.mem_cons_self) (stored call List.mem_cons_self)
        (contributes call List.mem_cons_self) kept

/-- A call belongs to its boot. -/
theorem mem_callsOf {boots : List BootInput} {call : BootInput × FileType}
    (member : call ∈ callsOf boots) : call.1 ∈ boots := by
  simp only [callsOf, List.mem_flatMap, List.mem_map] at member
  obtain ⟨boot, inside, type, -, rfl⟩ := member
  exact inside

/-- Over any boots with MD5 support in which the digests can be stored and no two files
collide: after every call the digest stored for a type is that of the file acknowledged
last, and a call skips its upload only if the BMC reports the file and its copy is the
current file. -/
theorem uploads_bookkept (md5 : Image → Digest) (boots : List BootInput)
    (bmc : FileType → Option Image)
    (supported : ∀ boot ∈ boots, boot.policy.md5Support = true)
    (stored : ∀ boot ∈ boots, ∀ type, efiError (boot.exchange type).setStatus = false)
    (distinct : Set.InjOn md5 (imagesOf boots)) :
    (∀ earlier later, callsOf boots = earlier ++ later → ∀ type : FileType,
        (runCalls md5 earlier (fresh bmc)).nvram type.variableName =
          ((runCalls md5 earlier (fresh bmc)).acknowledged type).map md5) ∧
      ∀ earlier boot type later, callsOf boots = earlier ++ (boot, type) :: later →
        (uploadOf md5 boot type (runCalls md5 earlier (fresh bmc))).1 = .skipped →
          boot.policy.available type = true ∧
            ∃ job, boot.job type = some job ∧
              (runCalls md5 earlier (fresh bmc)).bmc type = some job.uploaded := by
  have contributes : ∀ boot ∈ boots, Contributes boot (imagesOf boots) :=
    fun boot member type job found => ⟨boot, member, type, job, found, rfl⟩
  have kept : ∀ earlier later, callsOf boots = earlier ++ later →
      Kept md5 (imagesOf boots) (runCalls md5 earlier (fresh bmc)) := by
    intro earlier later split
    have inside : ∀ call ∈ earlier, call.1 ∈ boots := by
      intro call member
      apply mem_callsOf
      rw [split]
      exact List.mem_append_left _ member
    apply runCalls_kept
    · exact fun call member => supported call.1 (inside call member)
    · exact fun call member => stored call.1 (inside call member) call.2
    · exact fun call member => contributes call.1 (inside call member)
    · exact fresh_kept md5 _ bmc
  constructor
  · intro earlier later split
    exact (kept earlier later split).digests
  · intro earlier boot type later split skipped
    have member : boot ∈ boots := by
      have inside : (boot, type) ∈ callsOf boots := by simp [split]
      exact mem_callsOf inside
    exact uploadOf_skipped (contributes boot member) distinct (kept earlier _ split) skipped

/-- An HII file without forms. -/
def emptyHii : Image := [0x5F, 0x48, 0x49, 0x49, 0, 0, 0, 0, 0, 0, 0, 0, 0, 0, 0, 0, 0, 0]

/-- The digest of that file. -/
def emptyHiiDigest : Digest := #v[0x8C, 0x0D, 0xED, 0x59, 0xD6, 0x0D, 0x06, 0xDA,
  0xE5, 0x05, 0x5D, 0xE2, 0x18, 0xBB, 0xC1, 0x4F]

/-- MD5 on that file. -/
def md5OfEmptyHii (image : Image) : Digest :=
  if image = emptyHii then emptyHiiDigest else Vector.replicate 16 0

/-- A machine that has only that file. -/
def emptyHiiSources : Sources where
  smram := memoryOf emptyHii (fun _ => 0)
  hole _ := 0
  smbiosRead := ⟨some (fun _ => 0), efiSuccess⟩
  storageRead := ⟨none, efiSuccess⟩

/-- The job for the empty image has it. -/
theorem emptyHii_job {type : FileType} {job : Job} (found : emptyHiiSources.job type = some job) :
    job.digested = emptyHii := by
  cases type with
  | hii =>
    obtain rfl : memoryJob .hii (shifted 0 (memoryOf emptyHii (fun _ => 0))) = job :=
      Option.some.inj found
    rfl
  | bin => exact nomatch (show none = some job from found)
  | dmi => exact nomatch (show none = some job from found)
  | fullSmbios => exact nomatch (show none = some job from found)
  | biosStorage => exact nomatch (show none = some job from found)

/-- A boot in which every step succeeds. -/
def emptyHiiBoot : BootInput where
  toSources := emptyHiiSources
  policy := ⟨true, 1⟩
  exchange _ :=
    ⟨efiSuccess, fun _ => ⟨efiSuccess, efiSuccess, true, fun _ => ⟨efiSuccess, 2⟩⟩, efiSuccess⟩
  short type job found := by
    rw [emptyHii_job found]
    decide

/-- The second of two such boots skips the file, which the BMC holds. -/
theorem uploads_bookkept_twice :
    let world := runCalls md5OfEmptyHii [(emptyHiiBoot, .bin), (emptyHiiBoot, .dmi),
      (emptyHiiBoot, .hii), (emptyHiiBoot, .fullSmbios), (emptyHiiBoot, .biosStorage),
      (emptyHiiBoot, .bin), (emptyHiiBoot, .dmi)] (fresh (fun _ => none))
    (uploadOf md5OfEmptyHii emptyHiiBoot .hii world).1 = .skipped ∧
      ∃ job, emptyHiiBoot.job .hii = some job ∧ world.bmc .hii = some job.uploaded := by
  intro world
  have skipped : (uploadOf md5OfEmptyHii emptyHiiBoot .hii world).1 = .skipped := by decide
  have success : efiError efiSuccess = false := by decide
  have only : ∀ boot ∈ [emptyHiiBoot, emptyHiiBoot], boot = emptyHiiBoot := by simp
  have single : ∀ image ∈ imagesOf [emptyHiiBoot, emptyHiiBoot], image = emptyHii := by
    rintro image ⟨boot, member, type, job, found, rfl⟩
    obtain rfl := only boot member
    exact emptyHii_job found
  have law := uploads_bookkept md5OfEmptyHii [emptyHiiBoot, emptyHiiBoot] (fun _ => none)
    (fun boot member => by rw [only boot member]; rfl)
    (fun boot member type => by rw [only boot member]; exact success)
    (fun image member other also _ => (single image member).trans (single other also).symm)
  exact ⟨skipped, (law.2 _ emptyHiiBoot .hii _ rfl skipped).2⟩

end Run

end SmcPkg.Upload
