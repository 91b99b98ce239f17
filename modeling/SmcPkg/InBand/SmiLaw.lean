import SmcPkg.InBand.Smi

/-!
# Isolation of the SMI handler

Of all that the handler touches for the caller only the communication buffer has been
checked. The address of the data buffer comes from that buffer and is used as it is, so a
call keeps to checked memory exactly when its data lies in the communication buffer too.
The size of an upload is reported behind the copy.
-/

namespace SmcPkg.Smi

open Bytes Card Download RomHole Upload

section Ranges

variable {header start : UInt64} {count : Nat}

/-- An address lies in a range. -/
def Reached (start : UInt64) (count : Nat) (address : UInt64) : Prop :=
  (address - start).toNat < count

/-- A range lies in the communication buffer. -/
def Inside (header start : UInt64) (count : Nat) : Prop :=
  count = 0 ∨ (start - header).toNat + count ≤ communicationBufferSize

/-- Offsets add up. -/
theorem offset_add (header start address : UInt64) :
    (address - header).toNat =
      ((address - start).toNat + (start - header).toNat) % 2 ^ 64 := by
  have sum : address - header = (address - start) + (start - header) := by
    rw [UInt64.sub_eq_add_neg, UInt64.sub_eq_add_neg address, UInt64.sub_eq_add_neg start]
    rw [← UInt64.add_assoc, UInt64.add_assoc address, UInt64.add_left_neg, UInt64.add_zero]
  rw [sum, UInt64.toNat_add]

/-- The distance of two addresses does not wrap. -/
theorem offset_ofNat (start : UInt64) {offset : Nat} (small : offset < 2 ^ 64) :
    (start + UInt64.ofNat offset - start).toNat = offset := by
  rw [UInt64.add_comm, UInt64.add_sub_cancel, UInt64.toNat_ofNat_of_lt' small]

/-- A range of moderate size lies in the buffer exactly when its addresses do. -/
theorem inside_iff (small : count ≤ 2 ^ 32) :
    Inside header start count ↔
      ∀ address, Reached start count address → Reached header communicationBufferSize address := by
  have limit : communicationBufferSize = 0x40000 := rfl
  constructor
  · intro inside address reached
    rcases inside with empty | inside
    · subst empty
      exact absurd reached (Nat.not_lt_zero _)
    · change (address - start).toNat < count at reached
      change (address - header).toNat < _
      rw [offset_add header start address]
      omega
  · intro within
    rcases Nat.eq_zero_or_pos count with empty | positive
    · exact Or.inl empty
    · right
      have first : (start - header).toNat < communicationBufferSize := by
        apply within start
        change (start - start).toNat < count
        simpa using positive
      have offset := offset_ofNat start (show count - 1 < 2 ^ 64 by omega)
      have last : (start + UInt64.ofNat (count - 1) - header).toNat < communicationBufferSize := by
        apply within
        change (start + UInt64.ofNat (count - 1) - start).toNat < count
        omega
      rw [offset_add header start, offset] at last
      omega

/-- The fields of the base header lie in the buffer. -/
theorem inside_header {offset : UInt64} (field : offset.toNat + count ≤ 17) :
    Inside header (header + offset) count := by
  have limit : communicationBufferSize = 0x40000 := rfl
  right
  rw [UInt64.add_comm, UInt64.add_sub_cancel]
  omega

/-- A part of a range. -/
theorem Inside.part {offset : UInt64} {part : Nat} (inside : Inside header start count)
    (fits : offset.toNat + part ≤ count) : Inside header (start + offset) part := by
  have limit : communicationBufferSize = 0x40000 := rfl
  rcases inside with empty | inside
  · exact Or.inl (by omega)
  · right
    rw [offset_add header start, UInt64.add_comm start, UInt64.add_sub_cancel]
    omega

end Ranges

section Traces

/-- What the caller may rely on: every address that is touched lies in a range that was
checked before, at most a buffer of data is copied out, and a size over that limit is
reported before any data is copied. -/
structure Isolated (outcome : Outcome) : Prop where
  checked : ∀ before action after, outcome.actions = before ++ action :: after →
    ∀ address, Reached action.touched.1 action.touched.2 address →
      ∃ start count, Action.validate start count true ∈ before ∧ Reached start count address
  bounded : (outcome.actions.map Action.copiedOut).sum ≤ communicationBufferSize
  reported : communicationBufferSize < outcome.totalLength.toNat →
    ∀ before action after, outcome.actions = before ++ action :: after → 0 < action.copied →
      ∃ header, Action.report header 1 ∈ before

/-- The action is a check. -/
def Action.checks : Action → Bool
  | .validate _ _ _ => true
  | _ => false

/-- The action reports a size over the limit. -/
def Action.refuses : Action → Bool
  | .report _ status => status = 1
  | _ => false

variable {outcome : Outcome} {header : UInt64}

/-- After one check the touched addresses have to lie in its range. -/
theorem checked_iff {check : Action} {rest : List Action}
    (opening : check = .validate header communicationBufferSize true)
    (plain : ∀ action ∈ rest, action.checks = false)
    (small : ∀ action ∈ rest, action.touched.2 ≤ 2 ^ 32) :
    (∀ before action after, check :: rest = before ++ action :: after →
      ∀ address, Reached action.touched.1 action.touched.2 address →
        ∃ start count, Action.validate start count true ∈ before ∧ Reached start count address) ↔
      ∀ action ∈ rest, Inside header action.touched.1 action.touched.2 := by
  subst opening
  constructor
  · intro checked action member
    rw [inside_iff (small action member)]
    intro address reached
    obtain ⟨before, after, split⟩ := List.append_of_mem member
    obtain ⟨start, count, earlier, within⟩ :=
      checked (.validate header communicationBufferSize true :: before) action after
        (by rw [split, List.cons_append]) address reached
    rcases List.mem_cons.mp earlier with same | earlier
    · injection same with sameStart sameCount
      subst sameStart sameCount
      exact within
    · have later : Action.validate start count true ∈ rest := by
        rw [split]
        exact List.mem_append_left _ earlier
      exact Bool.noConfusion (plain _ later)
  · intro inside before action after split address reached
    cases before with
    | nil =>
      obtain ⟨rfl, -⟩ := List.cons.inj split
      exact absurd reached (Nat.not_lt_zero _)
    | cons first before =>
      obtain ⟨rfl, parts⟩ := List.cons.inj split
      have member : action ∈ rest := by
        rw [parts]
        exact List.mem_append_right _ List.mem_cons_self
      refine ⟨header, communicationBufferSize, List.mem_cons_self, ?_⟩
      exact (inside_iff (small action member)).mp (inside action member) address reached

/-- Where a size over the limit is reported last, no data may be copied before. -/
theorem reported_iff {actions front tail : List Action} (parts : actions = front ++ tail)
    (quiet : ∀ action ∈ front, action.refuses = false)
    (still : ∀ action ∈ tail, action.copied = 0) :
    (∀ before action after, actions = before ++ action :: after → 0 < action.copied →
      ∃ header, Action.report header 1 ∈ before) ↔ ∀ action ∈ front, action.copied = 0 := by
  subst parts
  constructor
  · intro reported action member
    by_contra copies
    obtain ⟨before, after, split⟩ := List.append_of_mem member
    obtain ⟨header, earlier⟩ := reported before action (after ++ tail)
      (by rw [split, List.append_assoc, List.cons_append]) (Nat.pos_of_ne_zero copies)
    have later : Action.report header 1 ∈ front := by
      rw [split]
      exact List.mem_append_left _ earlier
    exact Bool.noConfusion (quiet _ later)
  · intro idle before action after split copies
    have member : action ∈ front ++ tail := by
      rw [split]
      exact List.mem_append_right _ List.mem_cons_self
    rcases List.mem_append.mp member with early | late
    · exact absurd (idle action early) (Nat.pos_iff_ne_zero.mp copies)
    · exact absurd (still action late) (Nat.pos_iff_ne_zero.mp copies)

/-- What isolation amounts to for a call that passes its check. -/
theorem isolated_iff (front tail : List Action)
    (actions : outcome.actions =
      .validate header communicationBufferSize true :: (front ++ tail))
    (plain : ∀ action ∈ front ++ tail, action.checks = false)
    (small : ∀ action ∈ front ++ tail, action.touched.2 ≤ 2 ^ 32)
    (quiet : ∀ action ∈ front, action.refuses = false)
    (still : ∀ action ∈ tail, action.copied = 0) :
    Isolated outcome ↔
      (∀ action ∈ front ++ tail, Inside header action.touched.1 action.touched.2) ∧
      ((front ++ tail).map Action.copiedOut).sum ≤ communicationBufferSize ∧
      (communicationBufferSize < outcome.totalLength.toNat →
        ∀ action ∈ front, action.copied = 0) := by
  have opened : outcome.actions =
      (.validate header communicationBufferSize true :: front) ++ tail := actions
  have quietly : ∀ action ∈ Action.validate header communicationBufferSize true :: front,
      action.refuses = false := by
    intro action member
    rcases List.mem_cons.mp member with rfl | member
    · rfl
    · exact quiet action member
  constructor
  · rintro ⟨checked, bounded, reported⟩
    rw [actions] at checked bounded
    refine ⟨(checked_iff rfl plain small).mp checked, ?_, ?_⟩
    · simpa [Action.copiedOut] using bounded
    · intro large action member
      exact (reported_iff opened quietly still).mp (reported large) action
        (List.mem_cons_of_mem _ member)
  · rintro ⟨inside, bounded, idle⟩
    constructor
    · rw [actions]
      exact (checked_iff rfl plain small).mpr inside
    · rw [actions]
      simpa [Action.copiedOut] using bounded
    · intro large
      apply (reported_iff opened quietly still).mpr
      intro action member
      rcases List.mem_cons.mp member with rfl | member
      · rfl
      · exact idle large action member

end Traces

section Branches

variable {handler : Handler} {header : UInt64} {space : Space} {hole : Memory} {areaType : UInt8}

/-- The data of an upload lies in the communication buffer. -/
def UploadContained (handler : Handler) (header : UInt64) (areaType : UInt8) (space : Space)
    (hole : Memory) : Prop :=
  let data := dataBufferAddress space header
  if areaType = 0 then Inside header data (smramLength handler smramBiosCfgOffset 1 space).toNat
  else if areaType = 1 then Inside header data (smramLength handler smramHiiOffset 0 space).toNat
  else if areaType = 2 then
    match smcRomHoleReadRegion handler.flash hole .currentSmbios with
    | none => Inside header (data + 6) 4
    | some bytes =>
      Inside header data (smcRomHoleSize .currentSmbios) ∧
        (headerFileSize bytes + 18).toNat ≤ communicationBufferSize
  else if areaType = 3 then
    Inside header data (smramLength handler smramFullSmbiosOffset 0 space).toNat
  else if areaType = 0x80 then Inside header data 40
  else True

/-- The data of a file that is staged lies in the communication buffer. -/
def StageContained (handler : Handler) (header : UInt64) (region : Region) (behind : UInt32)
    (space : Space) : Prop :=
  let data := dataBufferAddress space header
  Inside header (data + 6) 4 ∧
    ((headerFileSize (view space data) + 18 + behind).toNat ≤ smcRomHoleSize region →
      handler.flash.copies = true → Inside header data (smcRomHoleSize region))

/-- The data of a download lies in the communication buffer. -/
def DownloadContained (handler : Handler) (header : UInt64) (areaType : UInt8) (space : Space) :
    Prop :=
  if areaType = 0 then StageContained handler header .inBand 1 space
  else if areaType = 2 then StageContained handler header .currentSmbios 0 space
  else True

/-- What is asked of the actions of an upload branch. -/
def Sound (header : UInt64) (branch : Outcome) : Prop :=
  (∀ action ∈ branch.actions, Inside header action.touched.1 action.touched.2) ∧
  (branch.actions.map Action.copiedOut).sum ≤ communicationBufferSize ∧
  (communicationBufferSize < branch.totalLength.toNat →
    ∀ action ∈ branch.actions, action.copied = 0)

/-- Actions that neither check nor refuse, over ranges of moderate size. -/
def Modest (actions : List Action) : Prop :=
  ∀ action ∈ actions,
    action.checks = false ∧ action.refuses = false ∧ action.touched.2 ≤ 2 ^ 32

/-- The copy of an area writes no more than it has read. -/
theorem copySmram_modest (offset : Nat) (behind : UInt32) :
    Modest (copySmram handler header offset behind space hole).actions := by
  have below := (smramLength handler offset behind space).toNat_lt
  simp [Modest, copySmram, Action.checks, Action.refuses, Action.touched]
  omega

/-- So does the copy of the SMBIOS image. -/
theorem copySmbios_modest : Modest (copySmbios handler header space hole).actions := by
  rw [copySmbios]
  cases smcRomHoleReadRegion handler.flash hole .currentSmbios with
  | none => simp [Modest, Action.checks, Action.refuses, Action.touched]
  | some bytes =>
    simp [Modest, Action.checks, Action.refuses, Action.touched, smcRomHoleSize]

/-- So does the copy of the feature flags. -/
theorem copyFeatureFlags_modest : Modest (copyFeatureFlags handler header space hole).actions := by
  simp [Modest, copyFeatureFlags, Action.checks, Action.refuses, Action.touched]

/-- Every branch of the upload writes no more than it has read. -/
theorem uploadBranch_modest :
    Modest (uploadBranch handler header areaType space hole).actions := by
  rw [uploadBranch]
  split_ifs
  · exact copySmram_modest _ _
  · exact copySmram_modest _ _
  · exact copySmbios_modest
  · exact copySmram_modest _ _
  · exact copyFeatureFlags_modest
  · exact fun action member => absurd member List.not_mem_nil

/-- A copy of a size that is reported afterwards. -/
theorem copy_sound_iff {branch : Outcome} {data : UInt64} {totalLength : UInt32}
    (size : branch.totalLength = totalLength)
    (actions : branch.actions = [.access (header + 9) 8, .copyOut data totalLength.toNat]) :
    Sound header branch ↔ Inside header data totalLength.toNat := by
  have address : Inside header (header + 9) 8 := inside_header (by decide)
  simp only [Sound, size, actions, List.forall_mem_cons, Action.touched, Action.copied,
    Action.copiedOut, List.map_cons, List.map_nil, List.sum_cons, List.sum_nil,
    List.not_mem_nil, false_implies, implies_true, and_true]
  constructor
  · rintro ⟨⟨-, inside⟩, -⟩
    exact inside
  · intro inside
    have bounded : totalLength.toNat ≤ communicationBufferSize := by
      rcases inside with empty | inside
      · omega
      · omega
    refine ⟨⟨address, inside⟩, by omega, ?_⟩
    intro large
    omega

/-- A region is copied whatever size its header names. -/
theorem region_sound_iff {branch : Outcome} {data : UInt64} {totalLength : UInt32}
    (size : branch.totalLength = totalLength)
    (actions : branch.actions =
      [.access (header + 9) 8, .copyOut data 4096, .access (data + 6) 4]) :
    Sound header branch ↔
      Inside header data 4096 ∧ totalLength.toNat ≤ communicationBufferSize := by
  have address : Inside header (header + 9) 8 := inside_header (by decide)
  have limit : communicationBufferSize = 0x40000 := rfl
  simp only [Sound, size, actions, List.forall_mem_cons, Action.touched, Action.copied,
    Action.copiedOut, List.map_cons, List.map_nil, List.sum_cons, List.sum_nil,
    List.not_mem_nil, false_implies, implies_true, and_true]
  constructor
  · rintro ⟨⟨-, inside, -⟩, -, idle⟩
    refine ⟨inside, ?_⟩
    by_contra large
    have copies := idle (Nat.not_le.mp large)
    omega
  · rintro ⟨inside, bounded⟩
    refine ⟨⟨address, inside, inside.part (by simp)⟩, by omega, ?_⟩
    intro large
    omega

/-- The copy of the SMBIOS image stays in the buffer of the caller exactly if the size that the
image names does. -/
theorem copySmbios_sound_iff :
    Sound header (copySmbios handler header space hole) ↔
      match smcRomHoleReadRegion handler.flash hole .currentSmbios with
      | none => Inside header (dataBufferAddress space header + 6) 4
      | some bytes =>
        Inside header (dataBufferAddress space header) (smcRomHoleSize .currentSmbios) ∧
          (headerFileSize bytes + 18).toNat ≤ communicationBufferSize := by
  have address : Inside header (header + 9) 8 := inside_header (by decide)
  rw [copySmbios]
  cases smcRomHoleReadRegion handler.flash hole .currentSmbios with
  | none => simp [Sound, Action.touched, Action.copied, Action.copiedOut, address]
  | some bytes => exact region_sound_iff rfl rfl

/-- The flags stay in the buffer exactly if forty bytes do. -/
theorem copyFeatureFlags_sound_iff :
    Sound header (copyFeatureFlags handler header space hole) ↔
      Inside header (dataBufferAddress space header) 40 := by
  have address : Inside header (header + 9) 8 := inside_header (by decide)
  have limit : communicationBufferSize = 0x40000 := rfl
  simp only [Sound, copyFeatureFlags, List.forall_mem_cons, Action.touched, Action.copied,
    Action.copiedOut, List.map_cons, List.map_nil, List.sum_cons, List.sum_nil,
    List.not_mem_nil, false_implies, implies_true, and_true]
  constructor
  · rintro ⟨⟨-, -, payload, -, -, -, front, -⟩, -⟩
    have first := front.resolve_left (by decide)
    have second := payload.resolve_left (by decide)
    rw [offset_add header (dataBufferAddress space header), UInt64.add_comm,
      UInt64.add_sub_cancel] at second
    have offset : (16 : UInt64).toNat = 16 := rfl
    right
    omega
  · intro data
    have front : Inside header (dataBufferAddress space header) 3 := by
      rcases data with empty | data
      · exact absurd empty (by decide)
      · exact Or.inr (by omega)
    have summed : Inside header (dataBufferAddress space header) 15 := by
      rcases data with empty | data
      · exact absurd empty (by decide)
      · exact Or.inr (by omega)
    refine ⟨⟨address, front, data.part (by decide), data.part (by decide), data.part (by decide),
      data.part (by decide), summed, data.part (by decide)⟩, by omega, ?_⟩
    intro large
    have size : (40 : UInt32).toNat = 40 := rfl
    omega

/-- The upload stays in the buffer exactly if the branch that is taken does. -/
theorem uploadBranch_sound_iff :
    Sound header (uploadBranch handler header areaType space hole) ↔
      UploadContained handler header areaType space hole := by
  rw [uploadBranch, UploadContained]
  split_ifs
  · exact copy_sound_iff rfl rfl
  · exact copy_sound_iff rfl rfl
  · exact copySmbios_sound_iff
  · exact copy_sound_iff rfl rfl
  · exact copyFeatureFlags_sound_iff
  · simp [Sound]

end Branches

section Commands

variable {handler : Handler} {header : UInt64} {space : Space} {hole : Memory}
variable {outcome : Outcome}

/-- What the handler does before a branch is taken. -/
def opening (header : UInt64) : List Action :=
  [.access (header + 2) 1, .access (header + 7) 1, .report header 0]

/-- What the handler reads first lies in the header it has tested. -/
theorem opening_inside (header : UInt64) :
    ∀ action ∈ opening header, Inside header action.touched.1 action.touched.2 := by
  have command : Inside header (header + 2) 1 := inside_header (by decide)
  have fileType : Inside header (header + 7) 1 := inside_header (by decide)
  have status : Inside header (header + 8) 1 := inside_header (by decide)
  simp [opening, Action.touched, command, fileType, status]

/-- Each of the tests asks for no more than it has looked at. -/
theorem opening_modest (header : UInt64) : Modest (opening header) := by
  simp [Modest, opening, Action.checks, Action.refuses, Action.touched]

/-- The tests copy nothing into the buffers. -/
theorem opening_copied (header : UInt64) : ∀ action ∈ opening header, action.copied = 0 := by
  simp [opening, Action.copied]

/-- The tests copy nothing out. -/
theorem opening_copiedOut (header : UInt64) :
    ((opening header).map Action.copiedOut).sum = 0 := by
  simp [opening, Action.copiedOut]

/-- Isolation of a call whose branch does `middle`, and `tail` after it. -/
theorem command_isolated_iff (middle tail : List Action)
    (actions : outcome.actions =
      .validate header communicationBufferSize true :: (opening header ++ (middle ++ tail)))
    (modest : Modest middle)
    (plain : ∀ action ∈ tail, action.checks = false)
    (small : ∀ action ∈ tail, action.touched.2 ≤ 2 ^ 32)
    (still : ∀ action ∈ tail, action.copied = 0)
    (quiet : (tail.map Action.copiedOut).sum = 0)
    (inside : ∀ action ∈ tail, Inside header action.touched.1 action.touched.2) :
    Isolated outcome ↔
      Sound header ⟨outcome.space, outcome.hole, outcome.totalLength, middle⟩ := by
  have front := opening_modest header
  have split : outcome.actions =
      .validate header communicationBufferSize true :: ((opening header ++ middle) ++ tail) := by
    rw [actions, List.append_assoc]
  have modestly : ∀ action ∈ opening header ++ middle,
      action.checks = false ∧ action.refuses = false ∧ action.touched.2 ≤ 2 ^ 32 := by
    intro action member
    rcases List.mem_append.mp member with early | late
    · exact front action early
    · exact modest action late
  have plainly : ∀ action ∈ opening header ++ middle ++ tail, action.checks = false := by
    intro action member
    rcases List.mem_append.mp member with early | late
    · exact (modestly action early).1
    · exact plain action late
  have smally : ∀ action ∈ opening header ++ middle ++ tail, action.touched.2 ≤ 2 ^ 32 := by
    intro action member
    rcases List.mem_append.mp member with early | late
    · exact (modestly action early).2.2
    · exact small action late
  have quietly : ∀ action ∈ opening header ++ middle, action.refuses = false :=
    fun action member => (modestly action member).2.1
  have sum : ((opening header ++ middle ++ tail).map Action.copiedOut).sum =
      (middle.map Action.copiedOut).sum := by
    rw [List.map_append, List.map_append, List.sum_append, List.sum_append, quiet,
      opening_copiedOut]
    omega
  rw [isolated_iff _ _ split plainly smally quietly still, sum, Sound]
  constructor
  · rintro ⟨within, bounded, idle⟩
    refine ⟨?_, bounded, ?_⟩
    · intro action member
      exact within action (List.mem_append_left _ (List.mem_append_right _ member))
    · intro large action member
      exact idle large action (List.mem_append_right _ member)
  · rintro ⟨within, bounded, idle⟩
    refine ⟨?_, bounded, ?_⟩
    · intro action member
      rcases List.mem_append.mp member with early | late
      · rcases List.mem_append.mp early with first | second
        · exact opening_inside header action first
        · exact within action second
      · exact inside action late
    · intro large action member
      rcases List.mem_append.mp member with first | second
      · exact opening_copied header action first
      · exact idle large action second

/-- An upload is isolated exactly when its data lies in the communication buffer. -/
theorem upload_isolated_iff {areaType : UInt8} {branch : Outcome} {status : UInt8}
    (taken : branch = uploadBranch handler header areaType space hole)
    (size : outcome.totalLength = branch.totalLength)
    (actions : outcome.actions =
      .validate header communicationBufferSize true :: (opening header ++ (branch.actions ++
        [.access (header + 3) 4, .report header status]))) :
    Isolated outcome ↔ UploadContained handler header areaType space hole := by
  have total : Inside header (header + 3) 4 := inside_header (by decide)
  have reported : Inside header (header + 8) 1 := inside_header (by decide)
  have modest : Modest branch.actions := by
    rw [taken]
    exact uploadBranch_modest
  rw [command_isolated_iff _ _ actions modest (by simp [Action.checks]) (by simp [Action.touched])
    (by simp [Action.copied]) (by simp [Action.copiedOut])
    (by simp [Action.touched, total, reported]), size]
  rw [← uploadBranch_sound_iff, ← taken]
  rfl

/-- A staged file is isolated exactly when what is used of it lies in the communication
buffer. -/
theorem stage_isolated_iff {region : Region} {behind : UInt32} {branch : Outcome}
    (taken : branch = stageFile handler header region behind space hole)
    (small : smcRomHoleSize region ≤ communicationBufferSize)
    (size : outcome.totalLength = branch.totalLength)
    (actions : outcome.actions =
      .validate header communicationBufferSize true :: (opening header ++ branch.actions)) :
    Isolated outcome ↔ StageContained handler header region behind space := by
  have limit : communicationBufferSize = 0x40000 := rfl
  have address : Inside header (header + 9) 8 := inside_header (by decide)
  have reported : Inside header (header + 8) 1 := inside_header (by decide)
  rw [StageContained]
  simp only [stageFile] at taken
  generalize dataBufferAddress space header = data at taken ⊢
  generalize headerFileSize (view space data) + 18 + behind = totalLength at taken ⊢
  by_cases fits : totalLength.toNat ≤ smcRomHoleSize region
  · rw [if_pos fits] at taken
    have length : outcome.totalLength = totalLength := by rw [size, taken]
    have closed : ¬ communicationBufferSize < outcome.totalLength.toNat := by
      rw [length]
      omega
    have modest : Modest branch.actions := by
      rw [taken]
      cases handler.flash.copies with
      | false => simp [Modest, Action.checks, Action.refuses, Action.touched]
      | true =>
        simp [Modest, Action.checks, Action.refuses, Action.touched]
        omega
    rw [command_isolated_iff branch.actions [] (by rw [actions, List.append_nil]) modest (by simp)
      (by simp) (by simp) (by simp) (by simp)]
    simp only [Sound, closed, false_implies, and_true, taken]
    cases handler.flash.copies with
    | false => simp [Action.touched, Action.copiedOut, address]
    | true => simp [Action.touched, Action.copiedOut, address, fits]
  · rw [if_neg fits] at taken
    rw [command_isolated_iff [.access (header + 9) 8, .access (data + 6) 4] [.report header 1]
      (by rw [actions, taken]; rfl) (by simp [Modest, Action.checks, Action.refuses, Action.touched])
      (by simp [Action.checks]) (by simp [Action.touched]) (by simp [Action.copied])
      (by simp [Action.copiedOut]) (by simp [Action.touched, reported])]
    simp [Sound, Action.touched, Action.copied, Action.copiedOut, address, fits]

end Commands

section Handler

variable {handler : Handler} {call : Call} {space : Space} {hole : Memory}

/-- The call is turned away, or it uses no data, or its data lies in the communication
buffer, as far as the handler uses it, and the size is not over the limit. -/
def Contained (handler : Handler) (call : Call) (space : Space) (hole : Memory) : Prop :=
  let header := call.commBuff
  let cleared := setReturnStatus space header 0
  call.cpu = -1 ∨ efiError (handler.validate header communicationBufferSize) = true ∨
    ((view space header 2 = 1 →
        DownloadContained handler header (view space header 7) cleared) ∧
      (view space header 2 = 3 →
        UploadContained handler header (view space header 7) cleared hole))

/-- A call that is turned away touches nothing. -/
theorem turnedAway_isolated {outcome : Outcome} (size : outcome.totalLength = 0)
    (idle : ∀ action ∈ outcome.actions, action.checks = true) : Isolated outcome := by
  have checks : ∀ action ∈ outcome.actions, action.touched.2 = 0 ∧ action.copiedOut = 0 := by
    intro action member
    have check := idle action member
    cases action with
    | validate start count passed => exact ⟨rfl, rfl⟩
    | access start count => exact Bool.noConfusion check
    | copyOut start count => exact Bool.noConfusion check
    | copyIn start count => exact Bool.noConfusion check
    | report header status => exact Bool.noConfusion check
  constructor
  · intro before action after split address reached
    have member : action ∈ outcome.actions := by
      rw [split]
      exact List.mem_append_right _ List.mem_cons_self
    rw [(checks action member).1] at reached
    exact absurd reached (Nat.not_lt_zero _)
  · rw [List.sum_eq_zero]
    · exact Nat.zero_le _
    · intro count member
      obtain ⟨action, inActions, rfl⟩ := List.mem_map.mp member
      exact (checks action inActions).2
  · intro large
    rw [size] at large
    exact absurd large (Nat.not_lt_zero _)

/-- A command that uses no data. -/
theorem unused_isolated {header : UInt64} {outcome : Outcome}
    (actions : outcome.actions =
      .validate header communicationBufferSize true :: (opening header ++ [])) :
    Isolated outcome := by
  rw [command_isolated_iff [] [] actions (by simp [Modest]) (by simp) (by simp) (by simp)
    (by simp) (by simp)]
  simp [Sound]

/-- A command that is not known only looks at the header. -/
theorem unknown_isolated {header : UInt64} {outcome : Outcome}
    (actions : outcome.actions =
      [.validate header communicationBufferSize true, .access (header + 2) 1]) :
    Isolated outcome := by
  have command : Inside header (header + 2) 1 := inside_header (by decide)
  rw [isolated_iff [.access (header + 2) 1] [] actions (by simp [Action.checks])
    (by simp [Action.touched]) (by simp [Action.refuses]) (by simp)]
  simp [Action.touched, Action.copied, Action.copiedOut, command]

/-- A download is isolated exactly when its data lies in the communication buffer. -/
theorem download_isolated_iff {header : UInt64} {areaType : UInt8} {outcome branch : Outcome}
    (taken : branch = downloadBranch handler header areaType space hole)
    (size : outcome.totalLength = branch.totalLength)
    (actions : outcome.actions =
      .validate header communicationBufferSize true :: (opening header ++ branch.actions)) :
    Isolated outcome ↔ DownloadContained handler header areaType space := by
  rw [downloadBranch] at taken
  rw [DownloadContained]
  split_ifs at taken ⊢
  · exact stage_isolated_iff taken (by simp [smcRomHoleSize, communicationBufferSize]) size actions
  · exact stage_isolated_iff taken (by simp [smcRomHoleSize, communicationBufferSize]) size actions
  · rw [taken] at actions
    exact iff_of_true (unused_isolated actions) trivial

/-- The call passes its check. -/
theorem handler_accepted (present : call.cpu ≠ -1)
    (accepted : efiError (handler.validate call.commBuff communicationBufferSize) = false) :
    (smcInBandSwSmiE6Handler handler call space hole).2 =
      { runCommand handler call.commBuff space hole with
        actions := .validate call.commBuff communicationBufferSize true ::
          .access (call.commBuff + 2) 1 ::
            (runCommand handler call.commBuff space hole).actions } := by
  simp only [smcInBandSwSmiE6Handler, if_neg present, accepted]
  rfl

/-- A command is isolated behind the opening, if its own actions are. -/
theorem command_isolated {header : UInt64} {outcome : Outcome}
    (ran : outcome =
      { runCommand handler header space hole with
        actions := .validate header communicationBufferSize true :: .access (header + 2) 1 ::
          (runCommand handler header space hole).actions }) :
    Isolated outcome ↔
      (view space header 2 = 1 →
        DownloadContained handler header (view space header 7) (setReturnStatus space header 0)) ∧
      (view space header 2 = 3 →
        UploadContained handler header (view space header 7) (setReturnStatus space header 0)
          hole) := by
  rw [runCommand] at ran
  by_cases download : view space header 2 = 1
  · have other : ¬ view space header 2 = 3 := by
      rw [download]
      decide
    rw [if_pos download] at ran
    rw [download_isolated_iff rfl (by rw [ran]; rfl) (by rw [ran]; rfl)]
    exact ⟨fun contained => ⟨fun _ => contained, fun upload => absurd upload other⟩,
      fun both => both.1 download⟩
  by_cases upload : view space header 2 = 3
  · rw [if_neg download, if_pos upload] at ran
    rw [upload_isolated_iff rfl (by rw [ran]; rfl) (by rw [ran]; rfl)]
    exact ⟨fun contained => ⟨fun taken => absurd taken download, fun _ => contained⟩,
      fun both => both.2 upload⟩
  · rw [if_neg download, if_neg upload] at ran
    apply iff_of_true (unknown_isolated (by rw [ran]))
    exact ⟨fun taken => absurd taken download, fun taken => absurd taken upload⟩

/-- The handler keeps to checked memory, copies at most a buffer out and reports before it copies
exactly for the calls whose data lies in the communication buffer. The check of the buffer and the
flash are any functions, and memory may hold anything. -/
theorem handler_isolated_iff (handler : Handler) (call : Call) (space : Space) (hole : Memory) :
    Isolated (smcInBandSwSmiE6Handler handler call space hole).2 ↔
      Contained handler call space hole := by
  rw [Contained]
  by_cases absent : call.cpu = -1
  · rw [smcInBandSwSmiE6Handler, if_pos absent]
    exact iff_of_true (turnedAway_isolated rfl (by simp)) (Or.inl absent)
  cases answer : efiError (handler.validate call.commBuff communicationBufferSize) with
  | true =>
    simp only [smcInBandSwSmiE6Handler, if_neg absent, answer]
    exact iff_of_true (turnedAway_isolated rfl (by simp [Action.checks]))
      (Or.inr (Or.inl trivial))
  | false =>
    rw [command_isolated (handler_accepted absent answer)]
    simp only [absent, false_or, Bool.false_eq_true]

/-- A handler that accepts buffers in the first megabyte above the first page. -/
def lowMemoryHandler : Handler where
  validate := fun start count =>
    if 0x1000 ≤ start.toNat ∧ start.toNat + count ≤ 0x100000 then efiSuccess else efiAccessDenied
  smram := 0x80000000
  flash := ⟨true, efiSuccess, efiSuccess, efiSuccess, efiSuccess, efiSuccess, fun _ => 0xFF⟩
  flags := ⟨1, 0, Vector.replicate 24 0⟩

/-- A request for the feature flags with its data at the third megabyte. -/
def intruderSpace : Space :=
  fun place =>
    memoryOf [17, 0, 3, 0, 0, 0, 0, 0x80, 0, 0, 0, 0x20, 0, 0, 0, 0, 0] (fun _ => 0)
      (place - 0x1000).toNat

/-- The buffer of the example lies in the memory of somebody else. -/
theorem intruderSpace_data :
    dataBufferAddress (setReturnStatus intruderSpace 0x1000 0) 0x1000 = 0x200000 := by
  decide

/-- The flags are written to an address that was not checked. -/
theorem not_isolated_intruder :
    ¬ ∀ handler call space hole,
      Isolated (smcInBandSwSmiE6Handler handler call space hole).2 := by
  intro isolated
  have header : Call.commBuff ⟨0, 0x1000, 0, efiSuccess⟩ = 0x1000 := by decide
  have accepted : efiError (lowMemoryHandler.validate 0x1000 communicationBufferSize) = false := by
    simp [lowMemoryHandler, communicationBufferSize]
    decide
  have ran := isolated lowMemoryHandler ⟨0, 0x1000, 0, efiSuccess⟩ intruderSpace (fun _ => 0xFF)
  rw [command_isolated (handler_accepted (by decide) (by rw [header]; exact accepted))] at ran
  rw [header] at ran
  have upload : view intruderSpace 0x1000 2 = 3 := by decide
  have fileType : view intruderSpace 0x1000 7 = 0x80 := by decide
  have contained := ran.2 upload
  rw [fileType] at contained
  have data : Inside 0x1000 0x200000 40 := by
    rw [← intruderSpace_data]
    exact contained
  have limit : communicationBufferSize = 0x40000 := rfl
  have offset : ((0x200000 : UInt64) - 0x1000).toNat = 0x1FF000 := by decide
  rcases data with empty | inside
  · omega
  · omega

end Handler

end SmcPkg.Smi
