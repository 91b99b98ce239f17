import SmcPkg.InBand.BiosCfgBoot
import SmcPkg.InBand.SmiLaw
import SmcPkg.InBand.Smram

/-!
# Frames of the pool in SMRAM

No size is compared with the size of a sub-area. A copy into the pool keeps to its
sub-area exactly when the header of the file claims no more, and an upload reads what the
header in the pool claims. Over a run of both SMIs the pool is used area by area exactly
when every file fits, and every header that no copy has put there fits by itself.
-/

namespace SmcPkg.Smram

open BiosCfg Bytes Download RomHole Smi Upload

section Areas

variable {handler : Handler} {area other : Area} {count : Nat} {place : UInt64}

/-- The first address of a sub-area. -/
def Area.start (area : Area) (handler : Handler) : UInt64 :=
  handler.smram + UInt64.ofNat area.offset

/-- An area starts at its offset. -/
theorem area_start (area : Area) (handler : Handler) :
    (area.start handler - handler.smram).toNat = area.offset := by
  have small : area.offset < 2 ^ 64 := by cases area <;> decide
  exact offset_ofNat handler.smram small

/-- No address is in two sub-areas. -/
theorem area_apart (one : area.Holds handler place) (two : other.Holds handler place) :
    area = other := by
  obtain ⟨oneAbove, oneBelow⟩ := one
  obtain ⟨twoAbove, twoBelow⟩ := two
  have hii : Area.hii.offset + Area.hii.size = Area.fullSmbios.offset := rfl
  have fullSmbios : Area.fullSmbios.offset + Area.fullSmbios.size = Area.biosCfg.offset := rfl
  cases area with
  | hii =>
    cases other with
    | hii => rfl
    | fullSmbios => omega
    | biosCfg => omega
  | fullSmbios =>
    cases other with
    | hii => omega
    | fullSmbios => rfl
    | biosCfg => omega
  | biosCfg =>
    cases other with
    | hii => omega
    | fullSmbios => omega
    | biosCfg => rfl

/-- An address at a distance from the start of a sub-area. -/
theorem poolPlace_start (area : Area)
    (small : (place - area.start handler).toNat < area.size) :
    poolPlace handler place = (place - area.start handler).toNat + area.offset := by
  have bound : area.size + area.offset < 2 ^ 64 := by cases area <;> decide
  rw [poolPlace, offset_add handler.smram (area.start handler), area_start]
  omega

/-- A range from the start of a sub-area stays in it exactly when it is no longer. -/
theorem reached_holds_iff :
    (∀ place, Reached (area.start handler) count place → area.Holds handler place) ↔
      count ≤ area.size := by
  have bound : area.size + area.offset < 2 ^ 64 := by cases area <;> decide
  constructor
  · intro within
    apply Nat.le_of_not_lt
    intro long
    have distance := offset_ofNat (area.start handler) (by omega : area.size < 2 ^ 64)
    have held := within (area.start handler + UInt64.ofNat area.size)
      (by rw [Reached, distance]; exact long)
    have position : poolPlace handler (area.start handler + UInt64.ofNat area.size) =
        area.size + area.offset := by
      rw [poolPlace, offset_add handler.smram (area.start handler), area_start, distance]
      omega
    have below := held.2
    omega
  · intro short place reached
    have near : (place - area.start handler).toNat < area.size := by
      change (place - area.start handler).toNat < count at reached
      omega
    have position := poolPlace_start area near
    exact ⟨by omega, by omega⟩

end Areas

section Sizes

variable {handler : Handler} {area other : Area} {space : Space} {pBuffer : UInt64}

/-- The size in the header of a sub-area. -/
def storedSize (handler : Handler) (area : Area) (space : Space) : UInt32 :=
  headerFileSize (view space (area.start handler))

/-- The size in the header of a file in the transfer buffer. -/
def offeredSize (pBuffer : UInt64) (area : Area) (space : Space) : UInt32 :=
  headerFileSize (view space (pBuffer + UInt64.ofNat area.offset))

/-- A file of a claimed size fits its sub-area. -/
def Fits (area : Area) (size : UInt32) : Prop :=
  size.toNat + 18 + area.behind.toNat ≤ area.size

instance (area : Area) (size : UInt32) : Decidable (Fits area size) :=
  inferInstanceAs (Decidable (_ ≤ _))

/-- The size in a header depends on the front of its sub-area. -/
theorem storedSize_congr {after : Space}
    (same : ∀ place, Reached (area.start handler) 18 place → after place = space place) :
    storedSize handler area after = storedSize handler area space := by
  apply headerFileSize_congr
  intro i below
  apply same
  rw [Reached, offset_ofNat _ (by omega)]
  omega

/-- The front of a sub-area is in it. -/
theorem front_holds {place : UInt64} (reached : Reached (area.start handler) 18 place) :
    area.Holds handler place := by
  apply reached_holds_iff.mpr _ place reached
  cases area <;> decide

/-- A copy leaves what it does not reach. -/
theorem copyFile_outside {place : UInt64}
    (outside : ¬ Reached (area.start handler)
      ((offeredSize pBuffer area space).toNat + 18 + area.behind.toNat) place) :
    (copyFile handler pBuffer area space).space place = space place :=
  if_neg outside

/-- A copy brings its header along. -/
theorem storedSize_copied :
    storedSize handler area (copyFile handler pBuffer area space).space =
      offeredSize pBuffer area space := by
  apply headerFileSize_congr
  intro i below
  have distance : (area.start handler + UInt64.ofNat i - area.start handler).toNat = i :=
    offset_ofNat _ (by omega)
  change store space (area.start handler)
    ((offeredSize pBuffer area space).toNat + 18 + area.behind.toNat) _ _ = _
  rw [store, distance, if_pos (by omega)]

/-- A copy that fits leaves the headers of the other sub-areas. -/
theorem storedSize_kept (fits : Fits area (offeredSize pBuffer area space))
    (apart : other ≠ area) :
    storedSize handler other (copyFile handler pBuffer area space).space =
      storedSize handler other space := by
  apply storedSize_congr
  intro place reached
  apply copyFile_outside
  intro written
  exact apart (area_apart (front_holds reached) (reached_holds_iff.mpr fits place written))

/-- A size that fits is computed without wrapping around. -/
theorem smramLength_fits {size : UInt32} (fits : Fits area size) :
    (size + 18 + area.behind).toNat ≤ area.size := by
  have eighteen : (18 : UInt32).toNat = 18 := rfl
  have bound : area.size < 2 ^ 32 := by cases area <;> decide
  rw [Fits] at fits
  rw [UInt32.toNat_add, UInt32.toNat_add, eighteen]
  omega

end Sizes

section Runs

/-- The sub-area that an upload of a file type copies. -/
def areaOfType (areaType : UInt8) : Option Area :=
  if areaType = 0 then some .biosCfg
  else if areaType = 1 then some .hii
  else if areaType = 3 then some .fullSmbios
  else none

/-- An upload of a sub-area copies from its start on. -/
theorem uploadBranch_area {areaType : UInt8} {area : Area} (named : areaOfType areaType = some area)
    (handler : Handler) (header : UInt64) (space : Space) (hole : Memory) :
    uploadBranch handler header areaType space hole =
      copySmram handler header area.offset area.behind space hole := by
  rw [areaOfType] at named
  rw [uploadBranch]
  split_ifs at named ⊢ with first second third fourth
  · cases named
    rfl
  · cases named
    rfl
  · rw [third] at fourth
    exact absurd fourth (by decide)
  · cases named
    rfl

/-- The SMIs, and what happens in the memory of the machine between them. -/
inductive Event
  | combine (pBuffer : UInt64) (dataPort : UInt8)
  | upload (header : UInt64) (areaType : UInt8) (hole : Memory)
  | outside (memory : Space)

/-- The memory after an event. Only the SMIs reach the pool. -/
def step (handler : Handler) (space : Space) : Event → Space
  | .combine pBuffer dataPort => (smcInBandSwSmiE8Handler handler pBuffer dataPort space).space
  | .upload header areaType hole => (uploadDataToRAM handler header areaType space hole).space
  | .outside memory =>
    fun place => if poolPlace handler place < smramTotalSize then space place else memory place

/-- The size of what an upload copies. -/
def uploadLength (handler : Handler) (header : UInt64) (areaType : UInt8) (space : Space)
    (hole : Memory) : Nat :=
  (uploadBranch handler header areaType (setReturnStatus space header 0) hole).totalLength.toNat

/-- An SMI keeps to its sub-area: a copy writes and changes no other byte, and an upload
reads no other byte of SMRAM. -/
def OwnArea (handler : Handler) (space : Space) : Event → Prop
  | .combine pBuffer dataPort =>
    let after := smcInBandSwSmiE8Handler handler pBuffer dataPort space
    ∀ place, (after.space place ≠ space place ∨
        ∃ range ∈ after.written, Reached range.1 range.2 place) →
      ∃ area, areaOfPort dataPort = some area ∧ area.Holds handler place
  | .upload header areaType hole =>
    ∀ area, areaOfType areaType = some area → ∀ place,
      Reached (area.start handler) (uploadLength handler header areaType space hole) place →
        area.Holds handler place
  | .outside _ => True

/-- Every SMI of a run keeps to its sub-area. -/
def Disjoint (handler : Handler) : Space → List Event → Prop
  | _, [] => True
  | space, event :: rest =>
    OwnArea handler space event ∧ Disjoint handler (step handler space event) rest

/-- The sub-areas whose size in the header is the one that a copy brought, after an event. -/
def refresh (handler : Handler) (copied : Area → Prop) (space : Space) : Event → Area → Prop
  | .combine _ dataPort => fun area => areaOfPort dataPort = some area ∨ copied area
  | .upload header areaType hole => fun area => copied area ∧
      storedSize handler area (step handler space (.upload header areaType hole)) =
        storedSize handler area space
  | .outside _ => copied

/-- The sizes that an SMI takes: the one that a header in the transfer buffer claims fits,
and the one in the pool is what a copy brought, or fits as it is. -/
def Sized (handler : Handler) (copied : Area → Prop) (space : Space) : Event → Prop
  | .combine pBuffer dataPort =>
    ∀ area, areaOfPort dataPort = some area → Fits area (offeredSize pBuffer area space)
  | .upload header areaType _ =>
    ∀ area, areaOfType areaType = some area →
      let cleared := setReturnStatus space header 0
      (copied area ∧ storedSize handler area cleared = storedSize handler area space) ∨
        (storedSize handler area cleared + 18 + area.behind).toNat ≤ area.size
  | .outside _ => True

/-- Every SMI of a run takes a size that fits. -/
def WellSized (handler : Handler) : (Area → Prop) → Space → List Event → Prop
  | _, _, [] => True
  | copied, space, event :: rest =>
    Sized handler copied space event ∧
      WellSized handler (refresh handler copied space event) (step handler space event) rest

variable {handler : Handler} {copied : Area → Prop} {space : Space} {event : Event}

/-- The sizes that copies brought fit. -/
def Trusted (handler : Handler) (copied : Area → Prop) (space : Space) : Prop :=
  ∀ area, copied area → Fits area (storedSize handler area space)

/-- A copy keeps to its sub-area exactly when the claimed size fits. -/
theorem combine_own_iff {pBuffer : UInt64} {dataPort : UInt8} :
    OwnArea handler space (.combine pBuffer dataPort) ↔
      ∀ area, areaOfPort dataPort = some area → Fits area (offeredSize pBuffer area space) := by
  cases port : areaOfPort dataPort with
  | none =>
    simp [OwnArea, smcInBandSwSmiE8Handler, port]
  | some area =>
    simp only [OwnArea, smcInBandSwSmiE8Handler, port, Option.some.injEq]
    constructor
    · rintro own _ rfl
      refine reached_holds_iff.mp (fun place (reached : Reached (area.start handler) _ place) => ?_)
      obtain ⟨_, rfl, held⟩ := own place (Or.inr ⟨_, List.mem_singleton_self _, reached⟩)
      exact held
    · intro fits place touched
      refine ⟨area, rfl, reached_holds_iff.mpr (fits area rfl) place ?_⟩
      rcases touched with changed | ⟨range, member, reached⟩
      · by_contra outside
        exact changed (copyFile_outside outside)
      · rw [List.mem_singleton.mp member] at reached
        exact reached

/-- An upload keeps to its sub-area exactly when the size in the pool fits. -/
theorem upload_own_iff {header : UInt64} {areaType : UInt8} {hole : Memory} :
    OwnArea handler space (.upload header areaType hole) ↔
      ∀ area, areaOfType areaType = some area →
        (storedSize handler area (setReturnStatus space header 0) + 18 + area.behind).toNat ≤
          area.size := by
  apply forall₂_congr
  intro area named
  rw [reached_holds_iff, uploadLength, uploadBranch_area named]
  rfl

/-- Under trusted sizes an SMI keeps to its sub-area exactly when it is well sized. -/
theorem own_iff_sized (trusted : Trusted handler copied space) :
    OwnArea handler space event ↔ Sized handler copied space event := by
  cases event with
  | combine pBuffer dataPort => exact combine_own_iff
  | upload header areaType hole =>
    rw [upload_own_iff]
    apply forall₂_congr
    intro area _
    constructor
    · exact Or.inr
    · rintro (⟨brought, same⟩ | fits)
      · rw [same]
        exact smramLength_fits (trusted area brought)
      · exact fits
  | outside memory => exact Iff.rfl

/-- A well-sized event leaves trusted sizes. -/
theorem trusted_step (trusted : Trusted handler copied space)
    (sized : Sized handler copied space event) :
    Trusted handler (refresh handler copied space event) (step handler space event) := by
  intro area brought
  cases event with
  | combine pBuffer dataPort =>
    simp only [step, smcInBandSwSmiE8Handler]
    cases port : areaOfPort dataPort with
    | none =>
      rcases brought with named | before
      · rw [port] at named
        cases named
      · exact trusted area before
    | some target =>
      have fits := sized target port
      by_cases own : area = target
      · rw [own, storedSize_copied]
        exact fits
      · change Fits area (storedSize handler area (copyFile handler pBuffer target space).space)
        rw [storedSize_kept fits own]
        rcases brought with named | before
        · rw [port] at named
          exact absurd (Option.some.inj named).symm own
        · exact trusted area before
  | upload header areaType hole =>
    rw [brought.2]
    exact trusted area brought.1
  | outside memory =>
    refine (congrArg (Fits area) (storedSize_congr ?_)).mpr (trusted area brought)
    intro place reached
    exact if_pos ((area_cover handler place).mpr ⟨area, front_holds reached⟩)

/-- From trusted sizes on, a run uses the pool area by area exactly when it is well sized. -/
theorem disjoint_iff_of_trusted (events : List Event) (trusted : Trusted handler copied space) :
    Disjoint handler space events ↔ WellSized handler copied space events := by
  induction events generalizing copied space with
  | nil => exact Iff.rfl
  | cons event rest inductionHypothesis =>
    rw [Disjoint, WellSized, own_iff_sized trusted]
    apply and_congr_right
    intro sized
    exact inductionHypothesis (trusted_step trusted sized)

/-- A run of both SMIs in any order uses the pool area by area exactly when every file that is copied
fits its sub-area and every size that no copy brought fits. Between the SMIs the memory outside of
the pool may change in any way. -/
theorem disjoint_iff (handler : Handler) (space : Space) (events : List Event) :
    Disjoint handler space events ↔ WellSized handler (fun _ => False) space events := by
  apply disjoint_iff_of_trusted
  intro area brought
  exact brought.elim

/-- A transfer buffer at the second page whose file claims all of the first sub-area for
its payload. -/
def overlongSpace : Space :=
  fun place =>
    memoryOf [0x24, 0x48, 0x49, 0x49, 0, 0, 0, 0, 6, 0] (fun _ => 0) (place - 0x1000).toNat

/-- The header of the file makes the copy run into the next sub-area. -/
theorem not_disjoint_overlong :
    ¬ ∀ handler space events, Disjoint handler space events := by
  intro disjoint
  have separate := disjoint lowMemoryHandler overlongSpace [.combine 0x1000 1]
  have fits := combine_own_iff.mp separate.1 .hii rfl
  have size : offeredSize 0x1000 .hii overlongSpace = 0x60000 := by decide +kernel
  rw [size] at fits
  exact absurd fits (by decide)

end Runs

end SmcPkg.Smram
