import SmcPkg.InBand.BiosCfg

/-!
# Round trip of the BIOS configuration image

What `CombineBiosCfg` writes for a list of variables is what `UpdateBiosCfgToSystem`
hands on, as far as the names fit its array and consist of one-byte characters. The
walk over an image is an induction on the records that are left.
-/

namespace SmcPkg.BiosCfg

open Bytes Card Download

section Names

/-- A name after it went through the image. -/
def narrow (name : List UInt16) : List UInt16 :=
  ((lowBytes name).map UInt8.toUInt16).takeWhile (· ≠ 0)

/-- A character survives in a byte exactly if it is below 0x100. -/
theorem narrow_char {c : UInt16} : c.toUInt8.toUInt16 = c ↔ c < 0x100 := by
  rw [← UInt16.toNat_inj, UInt16.lt_iff_toNat_lt]
  simp

/-- A name is cut where a low byte is zero. -/
theorem narrow_cons (c : UInt16) (name : List UInt16) :
    narrow (c :: name) =
      if c.toUInt8.toUInt16 = 0 then [] else c.toUInt8.toUInt16 :: narrow name := by
  rw [narrow, lowBytes, List.map_cons, List.map_cons, List.takeWhile_cons]
  by_cases zero : c.toUInt8.toUInt16 = 0
  · rw [if_pos zero, if_neg (by simp only [zero]; decide)]
  · rw [if_neg zero, if_pos (by simpa only [decide_eq_true_eq] using zero)]
    rfl

/-- A name survives exactly when its characters are bytes. -/
theorem narrow_eq_iff {name : List UInt16} (nonzero : ∀ c ∈ name, c ≠ 0) :
    narrow name = name ↔ ∀ c ∈ name, c < 0x100 := by
  induction name with
  | nil => simp [narrow, lowBytes]
  | cons c name inductionHypothesis =>
    have later : ∀ c ∈ name, c ≠ 0 := fun c member => nonzero c (List.mem_cons_of_mem _ member)
    have first : c ≠ 0 := nonzero c List.mem_cons_self
    rw [narrow_cons, List.forall_mem_cons, ← narrow_char, ← inductionHypothesis later]
    by_cases zero : c.toUInt8.toUInt16 = 0
    · rw [if_pos zero, zero]
      apply iff_of_false
      · exact List.cons_ne_nil c name ∘ Eq.symm
      · exact fun both => first both.1.symm
    · rw [if_neg zero, List.cons.injEq]

end Names

section Record

variable {memory : Memory} {place : Nat} {var : EfiVar}

/-- The length of a record, by its name and its data. -/
theorem combineVariable_length :
    (combineVariable var).length = 1 + var.name.length + 16 + 2 + var.data.length := by
  simp [combineVariable, lowBytes, le16]
  omega

/-- The name in a stored record. -/
theorem nameAt_stored {name : List UInt16} (stored : Stored memory place (lowBytes name))
    (short : name.length ≤ 255) (below : place + name.length < 2 ^ 32) :
    nameAt memory (UInt32.ofNat place) (UInt8.ofNat name.length) = narrow name := by
  have size : (UInt8.ofNat name.length).toNat = name.length := by
    simp
    omega
  rw [nameAt, size, narrow]
  congr 1
  apply List.ext_getElem
  · simp [lowBytes]
  · intro si left right
    have inside : si < name.length := by simpa using left
    have cursor : (UInt32.ofNat place + UInt32.ofNat si).toNat = place + si := by
      rw [← UInt32.ofNat_add]
      simp
      omega
    simp only [List.getElem_map, List.getElem_range, cursor]
    rw [stored si (by simpa [lowBytes] using inside)]

/-- A GUID that is stored is read back. -/
theorem guidAt_stored {guid : Guid} (stored : Stored memory place guid.toList) :
    guidAt memory place = guid := by
  apply Vector.ext
  intro k inside
  rw [guidAt, Vector.getElem_ofFn, stored k (by simpa using inside)]
  simp

/-- One record: what is handed on, and where the cursor stands behind it. -/
theorem visitAt_stored (stored : Stored memory place (combineVariable var))
    (below : place + (combineVariable var).length < 2 ^ 32) :
    visitAt memory (UInt32.ofNat place) =
      (⟨narrow var.name, var.guid, UInt16.ofNat var.data.length, var.data⟩,
        UInt32.ofNat (place + (combineVariable var).length)) := by
  rw [combineVariable_length] at below ⊢
  obtain ⟨first, rest⟩ := stored_cons.mp stored
  obtain ⟨name, rest⟩ := stored_append.mp rest
  obtain ⟨guid, rest⟩ := stored_append.mp rest
  obtain ⟨size, data⟩ := stored_append.mp rest
  have nameLength : (lowBytes var.name).length = var.name.length := by simp [lowBytes]
  have guidLength : var.guid.toList.length = 16 := by simp
  have sizeLength : (le16 var.data.length).length = 2 := rfl
  rw [nameLength] at guid size data
  rw [guidLength] at size data
  rw [sizeLength] at data
  have short := var.nameShort
  have shortData := var.dataShort
  have toNat : ∀ n, n < 2 ^ 32 → (UInt32.ofNat n).toNat = n := by
    intro n small
    simp
    omega
  have atName : UInt32.ofNat place + 1 = UInt32.ofNat (place + 1) :=
    (UInt32.ofNat_add place 1).symm
  have nameSize : (UInt8.ofNat var.name.length).toUInt32 = UInt32.ofNat var.name.length := by
    apply UInt32.toNat_inj.mp
    simp
    omega
  have atGuid : UInt32.ofNat (place + 1) + UInt32.ofNat var.name.length =
      UInt32.ofNat (place + 1 + var.name.length) :=
    (UInt32.ofNat_add _ _).symm
  have atSize : UInt32.ofNat (place + 1 + var.name.length) + 16 =
      UInt32.ofNat (place + 1 + var.name.length + 16) :=
    (UInt32.ofNat_add _ 16).symm
  have atData : UInt32.ofNat (place + 1 + var.name.length + 16) + 2 =
      UInt32.ofNat (place + 1 + var.name.length + 16 + 2) :=
    (UInt32.ofNat_add _ 2).symm
  have dataSize : (UInt16.ofNat var.data.length).toUInt32 = UInt32.ofNat var.data.length := by
    apply UInt32.toNat_inj.mp
    simp
    omega
  have dataNat : (UInt16.ofNat var.data.length).toNat = var.data.length := by
    simp
    omega
  rw [visitAt]
  simp only [toNat place (by omega), first, atName, nameSize, atGuid, atSize, atData]
  rw [toNat _ (by omega), toNat _ (by omega), toNat _ (by omega),
    nameAt_stored name short (by omega), guidAt_stored guid, word16_stored size, dataNat,
    bytesOf_stored data, dataSize, ← UInt32.ofNat_add]
  congr 2
  omega

end Record

section Walk

variable {memory : Memory} {total : Nat}

/-- A variable that survives: its name fits the array and consists of bytes. -/
def Survives (var : EfiVar) : Prop := var.name.length ≤ 49 ∧ ∀ c ∈ var.name, c < 0x100

/-- Records lie one behind the other. -/
theorem payload_cons (var : EfiVar) (vars : List EfiVar) :
    payload (var :: vars) = combineVariable var ++ payload vars := by
  rw [payload, List.flatMap_cons]
  rfl

/-- The round that meets a stored record. -/
theorem updateLoop_record {var : EfiVar} {place rounds : Nat}
    (stored : Stored memory place (combineVariable var))
    (within : place + (combineVariable var).length ≤ total) (below : total < 2 ^ 32) :
    updateLoop memory (UInt32.ofNat total) (rounds + 1) (UInt32.ofNat place) =
      if var.name.length ≤ 49 then
        let rest := updateLoop memory (UInt32.ofNat total) rounds
          (UInt32.ofNat (place + (combineVariable var).length))
        (⟨narrow var.name, var.guid, UInt16.ofNat var.data.length, var.data⟩ :: rest.1, rest.2)
      else ([], .overrun) := by
  have length : 19 ≤ (combineVariable var).length := by
    rw [combineVariable_length]
    omega
  have before : UInt32.ofNat place < UInt32.ofNat total := by
    rw [UInt32.lt_iff_toNat_lt]
    simp
    omega
  have placeNat : (UInt32.ofNat place).toNat = place := by
    simp
    omega
  have nameSize : (memory place).toNat = var.name.length := by
    have short := var.nameShort
    rw [(stored_cons.mp stored).1]
    simp
    omega
  rw [updateLoop, if_pos before, placeNat, nameSize, visitAt_stored stored (by omega)]
  by_cases fits : var.name.length ≤ 49
  · rw [if_pos (by rw [nameCapacity]; omega), if_pos fits]
  · rw [if_neg (by rw [nameCapacity]; omega), if_neg fits]

/-- The round that meets the end. -/
theorem updateLoop_end (rounds : Nat) (cursor : UInt32) :
    updateLoop memory cursor (rounds + 1) cursor = ([], .stopped cursor) := by
  rw [updateLoop, if_neg (UInt32.lt_irrefl cursor)]

/-- Records that all survive are handed on as they were emitted. -/
theorem updateLoop_survives {vars : List EfiVar} {place : Nat}
    (stored : Stored memory place (payload vars)) (ends : place + (payload vars).length = total)
    (below : total < 2 ^ 32) (survive : ∀ var ∈ vars, Survives var) :
    updateLoop memory (UInt32.ofNat total) (vars.length + 1) (UInt32.ofNat place) =
      (vars.map visitOf, .stopped (UInt32.ofNat total)) := by
  induction vars generalizing place with
  | nil =>
    have here : place = total := by simpa [payload] using ends
    rw [here]
    exact updateLoop_end _ _
  | cons var vars inductionHypothesis =>
    rw [payload_cons] at stored ends
    rw [List.length_append] at ends
    obtain ⟨first, rest⟩ := stored_append.mp stored
    obtain ⟨fits, bytes⟩ := survive var List.mem_cons_self
    have later := inductionHypothesis rest (by omega)
      (fun var member => survive var (List.mem_cons_of_mem _ member))
    rw [List.length_cons, updateLoop_record first (by omega) below, if_pos fits, later,
      (narrow_eq_iff var.nonzero).mpr bytes]
    rfl

/-- A record that does not survive spoils the walk. -/
theorem updateLoop_spoiled {vars : List EfiVar} {place rounds : Nat} {cursor : UInt32}
    (stored : Stored memory place (payload vars)) (ends : place + (payload vars).length = total)
    (below : total < 2 ^ 32)
    (same : updateLoop memory (UInt32.ofNat total) rounds (UInt32.ofNat place) =
      (vars.map visitOf, .stopped cursor)) :
    ∀ var ∈ vars, Survives var := by
  induction vars generalizing place rounds with
  | nil => simp
  | cons var vars inductionHypothesis =>
    rw [payload_cons] at stored ends
    rw [List.length_append] at ends
    obtain ⟨first, rest⟩ := stored_append.mp stored
    cases rounds with
    | zero => simp [updateLoop] at same
    | succ rounds =>
      rw [updateLoop_record first (by omega) below] at same
      by_cases fits : var.name.length ≤ 49
      · rw [if_pos fits, List.map_cons, Prod.mk.injEq, List.cons.injEq] at same
        obtain ⟨⟨visit, visits⟩, ending⟩ := same
        have name : narrow var.name = var.name := congrArg Visit.name visit
        have later := inductionHypothesis rest (by omega) (Prod.ext visits ending)
        rw [List.forall_mem_cons]
        exact ⟨⟨fits, (narrow_eq_iff var.nonzero).mp name⟩, later⟩
      · rw [if_neg fits] at same
        simp at same

end Walk

section Image

variable (version : UInt16) (vars : List EfiVar) (buffer : Memory)

/-- The image holds the header and the records. -/
theorem combineBiosCfg_stored :
    (∃ checksum, Stored (combineBiosCfg version vars buffer) 0
        (biosCfgHeader version (payload vars).length checksum)) ∧
      Stored (combineBiosCfg version vars buffer) headerSize (payload vars) := by
  rw [combineBiosCfg]
  constructor
  · refine ⟨_, Stored.overlayAt (stored_overlayAt rfl) (Or.inl ?_)⟩
    simp [biosCfgHeader, binSignature, le16, le32, headerSize]
  · refine Stored.overlayAt ?_ (Or.inl (Nat.le_refl _))
    exact Stored.overlayAt (stored_overlayAt rfl) (Or.inr (Nat.le_refl _))

/-- The header has the size of the records. -/
theorem combineBiosCfg_fileSize :
    headerFileSize (combineBiosCfg version vars buffer) = UInt32.ofNat (payload vars).length := by
  obtain ⟨⟨checksum, stored⟩, -⟩ := combineBiosCfg_stored version vars buffer
  obtain ⟨-, rest⟩ := stored_append.mp stored
  obtain ⟨-, rest⟩ := stored_append.mp rest
  exact word32_stored (stored_append.mp rest).1

end Image

section RoundTrip

/-- The walk over the image of an inventory hands on exactly the emitted variables, in
their order, stays inside the array for the names, and stops at the end of the records. -/
def RoundTrips (version : UInt16) (emission : Emission) (buffer : Memory) : Prop :=
  ∃ rounds, updateBiosCfgToSystem (combineBiosCfg version emission.vars buffer) rounds =
    (emission.vars.map visitOf,
      .stopped (headerFileSize (combineBiosCfg version emission.vars buffer) + 18))

/-- With the header itself it is the size of the image. -/
theorem totalSize_eq (version : UInt16) (vars : List EfiVar) (buffer : Memory) :
    headerFileSize (combineBiosCfg version vars buffer) + 18 =
      UInt32.ofNat (headerSize + (payload vars).length) := by
  rw [combineBiosCfg_fileSize, Nat.add_comm, UInt32.ofNat_add]
  rfl

/-- The walk over an image of variables that survive. -/
theorem updateBiosCfgToSystem_survives {version : UInt16} {vars : List EfiVar} {buffer : Memory}
    (fits : headerSize + (payload vars).length < 2 ^ 32) (survive : ∀ var ∈ vars, Survives var) :
    updateBiosCfgToSystem (combineBiosCfg version vars buffer) (vars.length + 1) =
      (vars.map visitOf,
        .stopped (headerFileSize (combineBiosCfg version vars buffer) + 18)) := by
  obtain ⟨-, stored⟩ := combineBiosCfg_stored version vars buffer
  rw [updateBiosCfgToSystem, totalSize_eq]
  exact updateLoop_survives stored rfl fits survive

/-- Where the image round-trips every variable of it does. -/
theorem RoundTrips.survive {version : UInt16} {emission : Emission} {buffer : Memory}
    (trip : RoundTrips version emission buffer) : ∀ var ∈ emission.vars, Survives var := by
  obtain ⟨rounds, same⟩ := trip
  obtain ⟨-, stored⟩ := combineBiosCfg_stored version emission.vars buffer
  rw [updateBiosCfgToSystem, totalSize_eq] at same
  exact updateLoop_spoiled stored rfl emission.fits same

/-- The round trip works exactly for names of at most 49 one-byte characters: a longer one leaves no
room for its terminator in the array of the applying side. The emission and the buffer, with
whatever stands behind the image, are arbitrary. -/
theorem round_trips_iff (version : UInt16) (emission : Emission) (buffer : Memory) :
    RoundTrips version emission buffer ↔
      ∀ var ∈ emission.vars, var.name.length ≤ 49 ∧ ∀ c ∈ var.name, c < 0x100 := by
  constructor
  · exact RoundTrips.survive
  · intro survive
    exact ⟨emission.vars.length + 1, updateBiosCfgToSystem_survives emission.fits survive⟩

/-- A variable whose name has fifty characters. -/
def longNamed : EfiVar where
  name := List.replicate 50 0x41
  guid := Vector.replicate 16 0
  data := [1]
  nonzero c member := by
    rw [List.eq_of_mem_replicate member]
    decide
  nameShort := by decide
  dataShort := by decide

/-- Its name is written over the end of the array. -/
theorem not_round_trips_longNamed :
    ¬ RoundTrips 1 ⟨⟨[(longNamed, true)], []⟩, by decide⟩ (fun _ => 0) := by
  intro trip
  have survives := trip.survive longNamed List.mem_cons_self
  exact absurd survives.1 (by decide)

end RoundTrip

end SmcPkg.BiosCfg
