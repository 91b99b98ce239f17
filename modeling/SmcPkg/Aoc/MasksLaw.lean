import SmcPkg.Aoc.Masks

/-!
# Which recorded cards are found again

`SmcAOCCheck` keeps `or` of masks, so it finds bits exactly where one of the
recordings put them. A recording puts them under at most one port of its own
IOU, its `markedPort`: bridges under none, cards under the port at the end of
the lanes that carry them. A recording is found again if its own port is marked.
-/

namespace SmcPkg.AocMasks

open BitFields

section Recordings

/-- What a producer notes: a card in a slot, a bridge behind a port, an NVMe port of
    a riser card. -/
inductive Recording where
  | card (slot : SlotInfo) (portNum : UInt8)
  | bridge (bdf : UInt32)
  | nvme (bdf : UInt32)

/-- The port code the recording is about. -/
def Recording.bdf : Recording → UInt32
  | .card slot _ => slot.bdf
  | .bridge bdf => bdf
  | .nvme bdf => bdf

/-- Processor and IOU of a port code. -/
def iou (bdf : UInt32) : UInt32 :=
  bdf >>> 16

/-- The cards found behind processors in one pass of the slot table. -/
def cardsFound : List (SlotInfo × Probe) → List Recording
  | [] => []
  | (slot, probe) :: rest =>
    if slot.isEmpty then cardsFound rest
    else
      match probe with
      | .muxFailed => []
      | .noCard => cardsFound rest
      | .card portNum =>
        if slot.bdf >>> 16 ≠ 0 then .card slot portNum :: cardsFound rest else cardsFound rest

/-- What one call finds. -/
def Producer.recorded : Producer → List Recording
  | .cardDetection slots => cardsFound slots
  | .plxDetection reads => (scannedPorts.filter fun bdf => (reads bdf).isPlx).map .bridge
  | .riserCard ports => (ports.filter RiserPort.isNVMe).map fun port => .nvme port.bdf

/-- What the calls of a boot find. -/
def recorded (producers : List Producer) : List Recording :=
  producers.flatMap Producer.recorded

/-- The port under which a card is noted. A card of four ports fills an x16 slot and is
    noted under port A. A card of two ports in an x16 slot, or any card but a bridge in
    an x8 slot, is noted under A or C, whichever end of the IOU carries it. -/
def cardPort (bifurcate port portNum : UInt8) : Option UInt8 :=
  if bifurcate = x16 then
    if portNum = 4 ∧ (port = 0x00 ∨ port = 0x18) then some 0x00
    else if portNum = 2 ∧ port = 0x00 then some 0x00
    else if portNum = 2 ∧ port = 0x18 then some 0x10
    else none
  else if bifurcate = x8 ∧ portNum ≠ 1 then
    if port = 0x00 ∨ port = 0x08 then some 0x00
    else if port = 0x10 ∨ port = 0x18 then some 0x10
    else none
  else none

/-- The port whose bits of the first mask a recording sets, none for a bridge. -/
def Recording.markedPort : Recording → Option UInt8
  | .card slot portNum => cardPort slot.bifurcate slot.bdf.toUInt8 portNum
  | .bridge _ => none
  | .nvme bdf => some bdf.toUInt8

end Recordings

section PortCodes

/-- What holds of all ports is decided along the table, not over all words. -/
instance (priority := 2000) (holds : UInt32 → Prop) [DecidablePred holds] :
    Decidable (∀ bdf ∈ smcIioPort, holds bdf) :=
  List.decidableBAll holds smcIioPort

/-- Where the byte of a port's IOU stands in the masks. -/
def iouShift (bdf : UInt32) : Nat :=
  cardShift bdf

/-- The places of two ports' bytes are one or lie apart, and all lie inside the masks. -/
theorem iouShift_cases :
    ∀ bdf ∈ smcIioPort, iouShift bdf + 8 ≤ 64 ∧ ∀ other ∈ smcIioPort,
      if iou bdf = iou other then iouShift bdf = iouShift other
      else iouShift bdf + 8 ≤ iouShift other ∨ iouShift other + 8 ≤ iouShift bdf := by
  decide +kernel

/-- One of the four ports of an IOU. -/
def IsPort (port : UInt8) : Prop :=
  port = 0x00 ∨ port = 0x08 ∨ port = 0x10 ∨ port = 0x18

instance (port : UInt8) : Decidable (IsPort port) :=
  inferInstanceAs (Decidable (port = 0x00 ∨ port = 0x08 ∨ port = 0x10 ∨ port = 0x18))

/-- The low byte of a port code names a port. -/
theorem port_cases : ∀ bdf ∈ smcIioPort, IsPort bdf.toUInt8 := by
  decide +kernel

/-- Every port code names a processor, and reader and writers agree on its byte. -/
theorem shifts_agree :
    ∀ bdf ∈ smcIioPort, bdf >>> 16 ≠ 0 ∧ bdf ≠ 0xffffffff ∧
      ¬((bdf >>> 20).toUInt8 &&& 0x0f > 4 ∨ (bdf >>> 20).toUInt8 &&& 0x0f < 1 ∨
        (bdf >>> 16).toUInt8 &&& 0x0f > 5) ∧
      checkShift ((bdf >>> 20).toUInt8 &&& 0x0f) ((bdf >>> 16).toUInt8 &&& 0x0f) = iouShift bdf ∧
      nvmeShift bdf = iouShift bdf + 2 * (bdf.toUInt8 >>> 3).toNat := by
  decide +kernel

/-- The ports of the scan are port codes. -/
theorem scannedPorts_known : ∀ bdf ∈ scannedPorts, bdf ∈ smcIioPort := by
  have known : scannedPorts ⊆ smcIioPort := by decide +kernel
  exact fun bdf scanned => known scanned

/-- The bits of the first mask that belong to a port. -/
def portBits (port : UInt8) : BitVec 8 :=
  0x03#8 <<< (2 * (port >>> 3).toNat)

/-- The reader takes the bits of its port out of the byte of its IOU. -/
theorem smcAOCCheck_eq {bdf : UInt32} (member : bdf ∈ smcIioPort) (pcds : Masks) :
    smcAOCCheck bdf pcds = field 8 pcds.location (iouShift bdf) &&& portBits bdf.toUInt8 := by
  obtain ⟨-, -, valid, place, -⟩ := shifts_agree bdf member
  unfold smcAOCCheck
  simp only [if_neg valid, place]
  rcases port_cases bdf member with port | port | port | port <;> simp [port] <;> rfl

end PortCodes

section Writers

/-- A recording's bits in the byte of its IOU. -/
def Recording.bits : Recording → BitVec 8
  | .card slot portNum => cardBits slot.bifurcate slot.bdf.toUInt8 portNum
  | .bridge _ => 0
  | .nvme bdf => 0x01#8 <<< (2 * (bdf.toUInt8 >>> 3).toNat)

/-- What a recording puts into the first mask. -/
def Recording.mask (recording : Recording) : BitVec 64 :=
  place 64 recording.bits (iouShift recording.bdf)

/-- Every recording is about a processor's port. -/
theorem recorded_known {producers : List Producer} {recording : Recording}
    (member : recording ∈ recorded producers) : recording.bdf ∈ smcIioPort := by
  obtain ⟨producer, -, found⟩ := List.mem_flatMap.mp member
  cases producer with
  | cardDetection slots =>
    change recording ∈ cardsFound slots at found
    induction slots with
    | nil => cases found
    | cons entry rest inductionHypothesis =>
      obtain ⟨slot, probe⟩ := entry
      unfold cardsFound at found
      split at found
      · exact inductionHypothesis found
      · split at found
        · cases found
        · exact inductionHypothesis found
        · split at found
          · rename_i ofProcessor
            rcases List.mem_cons.mp found with rfl | later
            · exact slot.known ofProcessor
            · exact inductionHypothesis later
          · exact inductionHypothesis found
  | plxDetection reads =>
    obtain ⟨bdf, scanned, rfl⟩ := List.mem_map.mp found
    exact scannedPorts_known bdf (List.mem_filter.mp scanned).1
  | riserCard ports =>
    obtain ⟨port, listed, rfl⟩ := List.mem_map.mp found
    have nvme := (List.mem_filter.mp listed).2
    simp only [RiserPort.isNVMe, Bool.and_eq_true, decide_eq_true_eq] at nvme
    exact port.known nvme.1.1.1.1 nvme.1.2

/-- The slot loop adds the bits of the cards it finds. -/
theorem slotLoop_location (slots : List (SlotInfo × Probe)) (masks : Masks) :
    (slotLoop slots masks).location =
      masks.location ||| union ((cardsFound slots).map Recording.mask) := by
  induction slots generalizing masks with
  | nil => simp [slotLoop, cardsFound]
  | cons entry rest inductionHypothesis =>
    obtain ⟨slot, probe⟩ := entry
    unfold slotLoop cardsFound
    split
    · exact inductionHypothesis masks
    · cases probe with
      | muxFailed => simp
      | noCard => exact inductionHypothesis masks
      | card portNum =>
        simp only [inductionHypothesis, recordCard]
        split
        · simp [Recording.mask, Recording.bits, Recording.bdf, iouShift, BitVec.or_assoc]
        · rfl

/-- An NVMe port's bit is a value at the place of its IOU. -/
theorem nvme_mask {bdf : UInt32} (member : bdf ∈ smcIioPort) :
    1#64 <<< nvmeShift bdf = Recording.mask (.nvme bdf) := by
  revert bdf
  decide +kernel

/-- One call adds the bits of its recordings to the first mask. -/
theorem call_location (producer : Producer) (pcds : Masks) :
    (producer.call pcds).location =
      pcds.location ||| union (producer.recorded.map Recording.mask) := by
  cases producer with
  | cardDetection slots =>
    change pcds.location ||| (slotLoop slots ⟨0, 0⟩).location = _
    rw [slotLoop_location]
    simp [Producer.recorded]
  | plxDetection reads =>
    -- bridges have no bits in the first mask
    have nothing : ∀ ports : List UInt32,
        union ((ports.map Recording.bridge).map Recording.mask) = 0 := by
      intro ports
      induction ports with
      | nil => rfl
      | cons bdf ports inductionHypothesis =>
        simp only [List.map_cons, union_cons, inductionHypothesis]
        simp [Recording.mask, Recording.bits, place]
    change pcds.location = _
    rw [Producer.recorded, nothing]
    simp
  | riserCard ports =>
    have masks : (ports.filter RiserPort.isNVMe).map (fun port => 1#64 <<< nvmeShift port.bdf) =
        (Producer.recorded (.riserCard ports)).map Recording.mask := by
      simp only [Producer.recorded, List.map_map]
      apply List.map_congr_left
      intro port listed
      have nvme := (List.mem_filter.mp listed).2
      simp only [RiserPort.isNVMe, Bool.and_eq_true, decide_eq_true_eq] at nvme
      exact nvme_mask (port.known nvme.1.1.1.1 nvme.1.2)
    unfold Producer.call setRiserCardNVMeLocation
    simp only [foldl_or, BitVec.zero_or, masks]
    split
    · rename_i empty
      simp [empty]
    · rfl

/-- After a boot's calls the first mask holds the bits of all recordings. -/
theorem run_location (producers : List Producer) :
    (run producers).location = union ((recorded producers).map Recording.mask) := by
  have added : ∀ pcds : Masks,
      (producers.foldl (fun pcds producer => producer.call pcds) pcds).location =
        pcds.location ||| union ((recorded producers).map Recording.mask) := by
    induction producers with
    | nil => simp [recorded]
    | cons producer rest inductionHypothesis =>
      intro pcds
      simp only [List.foldl_cons, inductionHypothesis, call_location]
      simp [recorded, union_append, BitVec.or_assoc]
  calc (run producers).location
      = 0#64 ||| union ((recorded producers).map Recording.mask) := added ⟨0, 0⟩
    _ = union ((recorded producers).map Recording.mask) := by simp

end Writers

section Lookup

variable {producers : List Producer} {bdf : UInt32}

/-- A card's bits lie under the port it is noted under, and under no other. -/
theorem cardBits_marked (bifurcate portNum : UInt8) {slotPort port : UInt8}
    (own : IsPort slotPort) (asked : IsPort port) :
    cardBits bifurcate slotPort portNum &&& portBits port ≠ 0 ↔
      cardPort bifurcate slotPort portNum = some port := by
  rcases asked with rfl | rfl | rfl | rfl <;> rcases own with rfl | rfl | rfl | rfl <;>
    simp [cardBits, cardPort, portBits] <;> split_ifs <;> simp_all

/-- A recording's bits lie under its marked port, and under no other. -/
theorem bits_marked (recording : Recording) (known : recording.bdf ∈ smcIioPort)
    (member : bdf ∈ smcIioPort) :
    recording.bits &&& portBits bdf.toUInt8 ≠ 0 ↔ recording.markedPort = some bdf.toUInt8 := by
  cases recording with
  | card slot portNum =>
    exact cardBits_marked slot.bifurcate portNum (port_cases slot.bdf known) (port_cases bdf member)
  | bridge bridgeBdf => simp [Recording.bits, Recording.markedPort]
  | nvme nvmeBdf =>
    have own := port_cases nvmeBdf known
    have asked := port_cases bdf member
    simp only [Recording.bits, Recording.markedPort]
    generalize nvmeBdf.toUInt8 = nvmePort at own
    generalize bdf.toUInt8 = port at asked
    rcases own with rfl | rfl | rfl | rfl <;> rcases asked with rfl | rfl | rfl | rfl <;> decide

/-- What the reader sees of one recording: its marked port, in its own IOU. -/
theorem mask_read (recording : Recording) (known : recording.bdf ∈ smcIioPort)
    (member : bdf ∈ smcIioPort) :
    field 8 recording.mask (iouShift bdf) &&& portBits bdf.toUInt8 ≠ 0 ↔
      iou recording.bdf = iou bdf ∧ recording.markedPort = some bdf.toUInt8 := by
  obtain ⟨inside, places⟩ := iouShift_cases recording.bdf known
  have place := places bdf member
  by_cases same : iou recording.bdf = iou bdf
  · rw [if_pos same] at place
    rw [← place, Recording.mask, field_place_same _ inside, bits_marked recording known member]
    simp [same]
  · rw [if_neg same] at place
    rw [Recording.mask, field_place_apart _ place]
    simp [same]

/-- The reader finds bits for a port exactly if a recording of the same IOU marks it. -/
theorem smcAOCCheck_run (member : bdf ∈ smcIioPort) :
    smcAOCCheck bdf (run producers) ≠ 0 ↔
      ∃ recording ∈ recorded producers,
        iou recording.bdf = iou bdf ∧ recording.markedPort = some bdf.toUInt8 := by
  rw [smcAOCCheck_eq member, run_location]
  have keeps : ∀ first second : BitVec 64,
      field 8 (first ||| second) (iouShift bdf) &&& portBits bdf.toUInt8 =
        (field 8 first (iouShift bdf) &&& portBits bdf.toUInt8) |||
          (field 8 second (iouShift bdf) &&& portBits bdf.toUInt8) := by
    intro first second
    rw [field_or, BitVec.and_or_distrib_right]
  have seen := read_union_ne_zero (fun word => field 8 word (iouShift bdf) &&& portBits bdf.toUInt8)
    (by simp) keeps ((recorded producers).map Recording.mask)
  refine seen.trans ?_
  constructor
  · rintro ⟨word, listed, seen⟩
    obtain ⟨recording, found, rfl⟩ := List.mem_map.mp listed
    exact ⟨recording, found, (mask_read recording (recorded_known found) member).mp seen⟩
  · rintro ⟨recording, found, marked⟩
    exact ⟨recording.mask, List.mem_map_of_mem found,
      (mask_read recording (recorded_known found) member).mpr marked⟩

/-- A port of an IOU without recordings reads as empty. -/
theorem smcAOCCheck_unrecorded (member : bdf ∈ smcIioPort)
    (nothing : ∀ recording ∈ recorded producers, iou recording.bdf ≠ iou bdf) :
    smcAOCCheck bdf (run producers) = 0 := by
  by_contra found
  obtain ⟨recording, listed, same, -⟩ := (smcAOCCheck_run member).mp found
  exact nothing recording listed same

/-- Every recording is found again under its own port code, and IOUs without a
    recording read as empty. -/
def FoundAgain (producers : List Producer) : Prop :=
  (∀ recording ∈ recorded producers, smcAOCCheck recording.bdf (run producers) ≠ 0) ∧
    ∀ bdf ∈ smcIioPort, (∀ recording ∈ recorded producers, iou recording.bdf ≠ iou bdf) →
      smcAOCCheck bdf (run producers) = 0

/-- Recordings are found again exactly if each one's own port is the marked port of some recording of
the same IOU. The producers are any list, in any order, and what the buses answer to them is a part
of the list. -/
theorem foundAgain_iff (producers : List Producer) :
    FoundAgain producers ↔
      ∀ recording ∈ recorded producers, ∃ other ∈ recorded producers,
        iou other.bdf = iou recording.bdf ∧ other.markedPort = some recording.bdf.toUInt8 := by
  constructor
  · rintro ⟨found, -⟩ recording listed
    exact (smcAOCCheck_run (recorded_known listed)).mp (found recording listed)
  · intro marked
    constructor
    · intro recording listed
      exact (smcAOCCheck_run (recorded_known listed)).mpr (marked recording listed)
    · intro bdf member nothing
      exact smcAOCCheck_unrecorded member nothing

/-- A bridge card alone in an x16 slot at port 1A of the first processor. -/
def bridgeSlot : SlotInfo :=
  ⟨0xE2, 0x04, 0x00110000, x16, by decide⟩

/-- The bridge card is recorded in the second mask, which the lookup never reads. -/
theorem not_always_foundAgain : ¬ ∀ producers : List Producer, FoundAgain producers := by
  intro always
  have found := (always [.cardDetection [(bridgeSlot, .card 1)]]).1
    (.card bridgeSlot 1) (List.mem_cons_self ..)
  exact absurd found (by decide +kernel)

end Lookup

end SmcPkg.AocMasks
