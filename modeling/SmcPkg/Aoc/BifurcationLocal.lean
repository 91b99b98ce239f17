import Mathlib
import SmcPkg.Aoc.BifurcationLaw

/-!
# The condition for local bifurcation

A port that a card branch covers is settled: a bridge flag would set the values it
already has. A port that none covers takes its hot plug fields from the flags. So
the record of an IIO is independent of the first IIO's flags exactly if its
branches cover all four ports, and of the tested choice exactly if no branch
tests another IIO's choice.
-/

namespace SmcPkg.Bifurcation

open BitFields Locality

namespace IioFields

section Steps

variable (fields : IioFields) (port asked : Fin 4)

@[simp] theorem updateSlot_configIou (change : SlotFields → SlotFields) :
    (fields.updateSlot port change).configIou = fields.configIou := rfl

@[simp] theorem updateSlot_vmdEnabled (change : SlotFields → SlotFields) :
    (fields.updateSlot port change).vmdEnabled = fields.vmdEnabled := rfl

@[simp] theorem updateSlot_vmdPort (change : SlotFields → SlotFields) :
    (fields.updateSlot port change).vmdPort = fields.vmdPort := rfl

/-- A change of a slot is seen at that slot only. -/
theorem updateSlot_slot (change : SlotFields → SlotFields) :
    (fields.updateSlot port change).slot asked =
      if asked = port then change (fields.slot asked) else fields.slot asked := by
  by_cases same : asked = port
  · subst same
    simp [updateSlot]
  · simp [updateSlot, same]

/-- A loop over ports changes the rows of these ports. -/
theorem foldl_updateSlot {change : SlotFields → SlotFields}
    (twice : ∀ slot, change (change slot) = change slot) (ports : List (Fin 4)) :
    ports.foldl (fun fields port => fields.updateSlot port change) fields =
      { fields with slot := fun asked =>
          if asked ∈ ports then change (fields.slot asked) else fields.slot asked } := by
  induction ports generalizing fields with
  | nil => simp
  | cons port ports inductionHypothesis =>
    rw [List.foldl_cons, inductionHypothesis]
    ext1
    · rfl
    · rfl
    · funext asked
      simp only [updateSlot_slot, List.mem_cons]
      by_cases same : asked = port <;> by_cases later : asked ∈ ports <;> simp [same, later, twice]
    · rfl

/-- The loop over VMD ports changes nothing but their fields. -/
theorem foldl_setVmdPort (value : UInt8) (ports : List (Fin 4)) :
    ports.foldl (fun fields port => fields.setVmdPort port value) fields =
      { fields with vmdPort := fun asked =>
          if asked ∈ ports then value else fields.vmdPort asked } := by
  induction ports generalizing fields with
  | nil => simp
  | cons port ports inductionHypothesis =>
    rw [List.foldl_cons, inductionHypothesis]
    ext1
    · rfl
    · rfl
    · rfl
    · funext asked
      simp only [setVmdPort, Function.update_apply, List.mem_cons]
      by_cases same : asked = port <;> by_cases later : asked ∈ ports <;> simp [same, later]

/-- What an assignment to the VMD controller, or to none, makes of the record. -/
theorem assignVmd_eq (vmd : VmdPorts) :
    assignVmd vmd fields =
      if VmdOwns vmd.tested fields then
        { fields with
          slot := fun asked =>
            if asked ∈ vmd.ports then (fields.slot asked).ofVmd else fields.slot asked
          vmdPort := fun asked => if asked ∈ vmd.switchedOn then 1 else fields.vmdPort asked }
      else
        { fields with
          slot := fun asked =>
            if asked ∈ vmd.ports then (fields.slot asked).plain else fields.slot asked
          vmdPort := fun asked =>
            if asked ∈ vmd.switchedOff then 0 else fields.vmdPort asked } := by
  have ofVmd : ∀ slot : SlotFields, slot.ofVmd.ofVmd = slot.ofVmd := fun _ => rfl
  have plain : ∀ slot : SlotFields, slot.plain.plain = slot.plain := fun _ => rfl
  unfold assignVmd
  simp only [foldl_setVmdPort, foldl_updateSlot _ ofVmd, foldl_updateSlot _ plain]

@[simp] theorem assignVmd_configIou (vmd : VmdPorts) :
    (assignVmd vmd fields).configIou = fields.configIou := by
  rw [assignVmd_eq]
  split <;> rfl

@[simp] theorem assignVmd_vmdEnabled (vmd : VmdPorts) :
    (assignVmd vmd fields).vmdEnabled = fields.vmdEnabled := by
  rw [assignVmd_eq]
  split <;> rfl

/-- Hot plug capability is not the assignment's business. -/
@[simp] theorem assignVmd_slotHpCap (vmd : VmdPorts) :
    ((assignVmd vmd fields).slot asked).slotHpCap = (fields.slot asked).slotHpCap := by
  rw [assignVmd_eq]
  split <;> dsimp only <;> split <;> rfl

/-- Ports are enabled one after the other, each with the power slot that was read of the source
before it. -/
theorem enablePorts_cons (source : Fin 4) (ports : List (Fin 4)) :
    enablePorts source (port :: ports) fields =
      enablePorts source ports
        (fields.updateSlot port (SlotFields.enabled (fields.slot source).slotPsp)) := rfl

@[simp] theorem enablePorts_configIou (source : Fin 4) (ports : List (Fin 4)) :
    (enablePorts source ports fields).configIou = fields.configIou := by
  induction ports generalizing fields with
  | nil => rfl
  | cons port ports inductionHypothesis => rw [enablePorts_cons, inductionHypothesis]; rfl

@[simp] theorem enablePorts_vmdEnabled (source : Fin 4) (ports : List (Fin 4)) :
    (enablePorts source ports fields).vmdEnabled = fields.vmdEnabled := by
  induction ports generalizing fields with
  | nil => rfl
  | cons port ports inductionHypothesis => rw [enablePorts_cons, inductionHypothesis]; rfl

@[simp] theorem enablePorts_vmdPort (source : Fin 4) (ports : List (Fin 4)) :
    (enablePorts source ports fields).vmdPort = fields.vmdPort := by
  induction ports generalizing fields with
  | nil => rfl
  | cons port ports inductionHypothesis => rw [enablePorts_cons, inductionHypothesis]; rfl

/-- A port that is not in the list keeps its slot. -/
theorem enablePorts_slot_other (source : Fin 4) {ports : List (Fin 4)} (other : asked ∉ ports) :
    (enablePorts source ports fields).slot asked = fields.slot asked := by
  induction ports generalizing fields with
  | nil => rfl
  | cons port ports inductionHypothesis =>
    simp only [List.mem_cons, not_or] at other
    rw [enablePorts_cons, inductionHypothesis _ other.2, updateSlot_slot, if_neg other.1]

end Steps

section Settled

variable {fields : IioFields} {port asked : Fin 4}

/-- The hot plug fields are on. -/
def HotPlugged (slot : SlotFields) : Prop :=
  slot.slotHpCap = 1 ∧ slot.slotHpSup = 1 ∧ slot.slotAip = 1 ∧ slot.slotPip = 1

/-- Every port of the list is hot plugged behind the loop, whichever comes later. -/
theorem enablePorts_hotPlugged (source : Fin 4) {ports : List (Fin 4)} (enabled : asked ∈ ports) :
    HotPlugged ((enablePorts source ports fields).slot asked) := by
  induction ports generalizing fields with
  | nil => cases enabled
  | cons port ports inductionHypothesis =>
    rw [enablePorts_cons]
    by_cases later : asked ∈ ports
    · exact inductionHypothesis later
    · have first : asked = port := by simpa [later] using enabled
      rw [enablePorts_slot_other _ _ _ later, updateSlot_slot, if_pos first]
      exact ⟨rfl, rfl, rfl, rfl⟩

/-- A port as a card's branch leaves it: its hot plug fields are on, and it belongs to
    the VMD controller or to none with the fields that go with either. -/
structure Settled (port : Fin 4) (fields : IioFields) : Prop where
  hpCap : (fields.slot port).slotHpCap = 1
  aip : (fields.slot port).slotAip = 1
  pip : (fields.slot port).slotPip = 1
  owned : VmdOwns port fields → (fields.slot port).slotHpSup = 1 ∧ (fields.slot port).slotAbp = 0
  free : ¬VmdOwns port fields → (fields.slot port).slotHpSup = 0 ∧ (fields.slot port).slotAbp = 1 ∧
    (fields.slot port).slotPcp = 1 ∧ fields.vmdPort port = 0

/-- The assignment of a card's ports settles those it has just enabled. -/
theorem settled_assignVmd {vmd : VmdPorts} (hot : HotPlugged (fields.slot port))
    (listed : port ∈ vmd.ports) (on : port = vmd.tested ∨ port ∈ vmd.switchedOn)
    (off : port ∈ vmd.switchedOff) : Settled port (assignVmd vmd fields) := by
  obtain ⟨hpCap, hpSup, aip, pip⟩ := hot
  rw [assignVmd_eq]
  by_cases taken : VmdOwns vmd.tested fields
  · rw [if_pos taken]
    have owns : fields.vmdEnabled ≠ 0 ∧
        (if port ∈ vmd.switchedOn then 1 else fields.vmdPort port) ≠ 0 := by
      refine ⟨taken.1, ?_⟩
      by_cases switched : port ∈ vmd.switchedOn
      · simp [switched]
      · obtain rfl : port = vmd.tested := by simpa [switched] using on
        simpa [switched] using taken.2
    constructor
    · simp [listed, SlotFields.ofVmd, hpCap]
    · simp [listed, SlotFields.ofVmd, aip]
    · simp [listed, SlotFields.ofVmd, pip]
    · intro _
      simp [listed, SlotFields.ofVmd, hpSup]
    · intro free
      exact absurd owns free
  · rw [if_neg taken]
    constructor
    · simp [listed, SlotFields.plain, hpCap]
    · simp [listed, SlotFields.plain, aip]
    · simp [listed, SlotFields.plain, pip]
    · intro owns
      exact absurd (by simp [off]) owns.2
    · intro _
      simp [listed, off, SlotFields.plain]

/-- A settled port stays so while its row and its VMD fields do. -/
theorem Settled.congr {later : IioFields} (settled : Settled port fields)
    (slot : later.slot port = fields.slot port) (vmdPort : later.vmdPort port = fields.vmdPort port)
    (vmdEnabled : later.vmdEnabled = fields.vmdEnabled) : Settled port later := by
  have owns : VmdOwns port later ↔ VmdOwns port fields := by
    unfold VmdOwns
    rw [vmdPort, vmdEnabled]
  constructor
  · exact (congrArg SlotFields.slotHpCap slot).trans settled.hpCap
  · exact (congrArg SlotFields.slotAip slot).trans settled.aip
  · exact (congrArg SlotFields.slotPip slot).trans settled.pip
  · rw [owns, slot]
    exact settled.owned
  · rw [owns, slot, vmdPort]
    exact settled.free

/-- An assignment of other ports. -/
theorem Settled.assignVmd {vmd : VmdPorts} (settled : Settled port fields)
    (unlisted : port ∉ vmd.ports) (on : port ∉ vmd.switchedOn) (off : port ∉ vmd.switchedOff) :
    Settled port (assignVmd vmd fields) := by
  apply settled.congr
  · rw [assignVmd_eq]
    split <;> simp [unlisted]
  · rw [assignVmd_eq]
    split <;> simp [on, off]
  · simp

/-- The row of a settled port already has what a bridge sets. -/
theorem Settled.row (settled : Settled port fields) :
    (VmdOwns port fields → (fields.slot port).hotPlug.ofVmd = fields.slot port) ∧
      (¬VmdOwns port fields → (fields.slot port).hotPlug.plain = fields.slot port) := by
  obtain ⟨hpCap, aip, pip, owned, free⟩ := settled
  generalize fields.slot port = slot at *
  obtain ⟨imp, hpCapValue, hpSup, aipValue, pipValue, psp, abp, pcp, vpp⟩ := slot
  constructor
  · intro owns
    simp_all [SlotFields.hotPlug, SlotFields.ofVmd]
  · intro isFree
    simp_all [SlotFields.hotPlug, SlotFields.plain]

/-- A bridge flag changes nothing at a settled port. -/
theorem Settled.plxPort (flags : BitVec 8) (settled : Settled port fields) :
    fields.plxPort flags port = fields := by
  obtain ⟨ownedRow, freeRow⟩ := settled.row
  unfold IioFields.plxPort
  split
  · rw [assignVmd_eq]
    by_cases owned : VmdOwns port fields
    · have owns : VmdOwns (portVmd port).tested (fields.updateSlot port SlotFields.hotPlug) := owned
      rw [if_pos owns]
      ext1
      · rfl
      · rfl
      · funext asked
        by_cases same : asked = port
        · subst same
          simpa [portVmd, updateSlot_slot] using ownedRow owned
        · simp [portVmd, updateSlot_slot, same]
      · funext asked
        simp [portVmd]
    · have free : ¬VmdOwns (portVmd port).tested (fields.updateSlot port SlotFields.hotPlug) :=
        owned
      rw [if_neg free]
      ext1
      · rfl
      · rfl
      · funext asked
        by_cases same : asked = port
        · subst same
          simpa [portVmd, updateSlot_slot] using freeRow owned
        · simp [portVmd, updateSlot_slot, same]
      · funext asked
        by_cases same : asked = port
        · subst same
          simpa [portVmd] using (settled.free owned).2.2.2.symm
        · simp [portVmd, same]
  · rfl

end Settled

section Covered

/-- The ports that the card branches of an IIO settle. -/
def Covered (rpBifurcate extendFlag : BitVec 8) (port : Fin 4) : Prop :=
  if rpBifurcate = 0x03 then extendFlag = 0 ∨ extendFlag = 0x01
  else if rpBifurcate = 0x30 then port = 2 ∨ port = 3
  else
    ((port = 0 ∨ port = 1) ∧ rpBifurcate &&& 0x0f = 0x02 ∧
        (extendFlag &&& 0x0f = 0 ∨ extendFlag &&& 0x0f = 0x01)) ∨
      ((port = 2 ∨ port = 3) ∧ rpBifurcate &&& 0xf0 = 0x20 ∧
        (extendFlag &&& 0xf0 = 0 ∨ extendFlag &&& 0xf0 = 0x10)) ∨
      rpBifurcate.getLsbD (2 * port.val)

instance (rpBifurcate extendFlag : BitVec 8) (port : Fin 4) :
    Decidable (Covered rpBifurcate extendFlag port) := by
  unfold Covered
  infer_instance

variable {rpBifurcate extendFlag : BitVec 8} {fields : IioFields} {port asked : Fin 4}

/-- A card of sixteen lanes reaches every port in both orders, and in its VMD fields as well. -/
theorem every_port (port : Fin 4) : port ∈ [0, 1, 2, 3] ∧ port ∈ [3, 2, 1, 0] ∧
    (port = x16Vmd.tested ∨ port ∈ x16Vmd.switchedOn) := by
  revert port
  decide

/-- A card of sixteen lanes settles every port if its flag is one of the two that are known. -/
theorem settled_x16Card (known : extendFlag = 0 ∨ extendFlag = 0x01) :
    Settled port (fields.x16Card extendFlag) := by
  have hot : HotPlugged ((if extendFlag = 0 then
        enablePorts 0 [0, 1, 2, 3] (fields.setConfigIou x4x4x4x4)
      else if extendFlag = 0x01 then enablePorts 0 [3, 2, 1, 0] (fields.setConfigIou x4x4x4x4)
      else fields.setConfigIou x4x4x4x4).slot port) := by
    rcases known with rfl | rfl
    · exact enablePorts_hotPlugged 0 (every_port port).1
    · exact enablePorts_hotPlugged 0 (every_port port).2.1
  exact settled_assignVmd hot (every_port port).1 (every_port port).2.2 (every_port port).1

/-- A reversed card settles the two ports of the upper half. -/
theorem settled_reversedCard (covered : port = 2 ∨ port = 3) :
    Settled port fields.reversedCard := by
  have listed : port ∈ [3, 2] := by
    rcases covered with rfl | rfl <;> decide
  refine settled_assignVmd (enablePorts_hotPlugged 0 listed) ?_ ?_ ?_ <;>
    rcases covered with rfl | rfl <;> decide

/-- A card in the lower half settles its two ports if its flag is known. -/
theorem settled_lowHalf (covered : port = 0 ∨ port = 1)
    (known : extendFlag &&& 0x0f = 0 ∨ extendFlag &&& 0x0f = 0x01) :
    Settled port (fields.lowHalf extendFlag) := by
  refine settled_assignVmd ?_ ?_ ?_ ?_
  · rcases known with normal | reversed
    · rw [if_pos normal]
      exact enablePorts_hotPlugged 0 (by rcases covered with rfl | rfl <;> decide)
    · rw [if_neg (by rw [reversed]; decide), if_pos reversed]
      exact enablePorts_hotPlugged 0 (by rcases covered with rfl | rfl <;> decide)
  all_goals rcases covered with rfl | rfl <;> decide

/-- A card in the upper half settles its two ports if its flag is known. -/
theorem settled_highHalf (covered : port = 2 ∨ port = 3)
    (known : extendFlag &&& 0xf0 = 0 ∨ extendFlag &&& 0xf0 = 0x10) :
    Settled port (fields.highHalf extendFlag) := by
  refine settled_assignVmd ?_ ?_ ?_ ?_
  · rcases known with normal | reversed
    · rw [if_pos normal]
      exact enablePorts_hotPlugged 2 (by rcases covered with rfl | rfl <;> decide)
    · rw [if_neg (by rw [reversed]; decide), if_pos reversed]
      exact enablePorts_hotPlugged 2 (by rcases covered with rfl | rfl <;> decide)
  all_goals rcases covered with rfl | rfl <;> decide

/-- A drive settles its port. -/
theorem settled_singleDrive (drive : rpBifurcate.getLsbD (2 * port.val) = true) :
    Settled port (fields.singleDrive rpBifurcate port) := by
  unfold singleDrive
  rw [if_pos drive]
  refine settled_assignVmd ?_ (List.mem_singleton_self port) (Or.inl rfl)
    (List.mem_singleton_self port)
  rw [updateSlot_slot, if_pos rfl]
  exact ⟨rfl, rfl, rfl, rfl⟩

/-- The upper half leaves the ports of the lower one. -/
theorem Settled.highHalf (settled : Settled port fields) (lower : port = 0 ∨ port = 1) :
    Settled port (fields.highHalf extendFlag) := by
  have split : Settled port (fields.splitOff x4x4xxx8 xxx8x4x4) := settled.congr rfl rfl rfl
  have enabled : ∀ ports : List (Fin 4), port ∉ ports →
      Settled port (enablePorts 2 ports (fields.splitOff x4x4xxx8 xxx8x4x4)) := by
    intro ports other
    apply split.congr
    · exact enablePorts_slot_other _ port 2 other
    · rw [enablePorts_vmdPort]
    · exact enablePorts_vmdEnabled _ 2 ports
  have unlisted : port ∉ [2, 3] ∧ port ∉ [3, 2] ∧ port ∉ highVmd.ports ∧
      port ∉ highVmd.switchedOn ∧ port ∉ highVmd.switchedOff := by
    rcases lower with rfl | rfl <;> decide
  obtain ⟨up, down, ports, on, off⟩ := unlisted
  refine Settled.assignVmd ?_ ports on off
  split_ifs
  · exact enabled _ up
  · exact enabled _ down
  · exact split

/-- A single drive settles its own port and leaves the others. -/
theorem Settled.singleDrive (settled : Settled port fields) :
    Settled port (fields.singleDrive rpBifurcate asked) := by
  by_cases drive : rpBifurcate.getLsbD (2 * asked.val) = true
  · by_cases same : port = asked
    · subst same
      exact settled_singleDrive drive
    · unfold IioFields.singleDrive
      rw [if_pos drive]
      refine Settled.assignVmd ?_ (by simp [portVmd, same]) (by simp [portVmd])
        (by simp [portVmd, same])
      apply settled.congr
      · rw [updateSlot_slot, if_neg same]
      · rfl
      · rfl
  · unfold IioFields.singleDrive
    rw [if_neg drive]
    exact settled

/-- The loop over the drives keeps a settled port, and settles those with a drive. -/
theorem settled_foldl_singleDrive {ports : List (Fin 4)}
    (settled : Settled port fields ∨
      port ∈ ports ∧ rpBifurcate.getLsbD (2 * port.val) = true) :
    Settled port (ports.foldl (IioFields.singleDrive rpBifurcate) fields) := by
  induction ports generalizing fields with
  | nil =>
    rcases settled with before | ⟨none, -⟩
    · exact before
    · cases none
  | cons first ports inductionHypothesis =>
    apply inductionHypothesis
    rcases settled with before | ⟨listed, drive⟩
    · exact Or.inl before.singleDrive
    · rcases List.mem_cons.mp listed with rfl | later
      · exact Or.inl (settled_singleDrive drive)
      · exact Or.inr ⟨later, drive⟩

/-- The covered ports are settled after the card branches. -/
theorem settled_cards (covered : Covered rpBifurcate extendFlag port) :
    Settled port (fields.cards rpBifurcate extendFlag) := by
  unfold Covered at covered
  unfold cards
  by_cases full : rpBifurcate = 0x03
  · rw [if_pos full] at covered ⊢
    exact settled_x16Card covered
  by_cases reversed : rpBifurcate = 0x30
  · rw [if_neg full, if_pos reversed] at covered ⊢
    exact settled_reversedCard covered
  rw [if_neg full, if_neg reversed] at covered ⊢
  apply settled_foldl_singleDrive
  rcases covered with ⟨lower, low, known⟩ | ⟨upper, high, known⟩ | drive
  · left
    have settled : Settled port (fields.lower rpBifurcate extendFlag) := by
      rw [IioFields.lower, if_pos low]
      exact settled_lowHalf lower known
    unfold IioFields.upper
    split
    · exact settled.highHalf lower
    · exact settled
  · left
    rw [IioFields.upper, if_pos high]
    exact settled_highHalf upper known
  · exact Or.inr ⟨(every_port port).1, drive⟩

end Covered

section Open

variable {rpBifurcate extendFlag : BitVec 8} {fields : IioFields} {port : Fin 4}

/-- A port without a drive keeps its capability in the round of any port. -/
theorem hpCap_singleDrive (noDrive : rpBifurcate.getLsbD (2 * port.val) = false) (asked : Fin 4) :
    ((fields.singleDrive rpBifurcate asked).slot port).slotHpCap =
      (fields.slot port).slotHpCap := by
  unfold singleDrive
  split
  · rename_i drive
    have other : port ≠ asked := by
      rintro rfl
      rw [noDrive] at drive
      cases drive
    rw [assignVmd_slotHpCap, updateSlot_slot, if_neg other]
  · rfl

/-- So it does over all rounds of the loop. -/
theorem hpCap_foldl_singleDrive (noDrive : rpBifurcate.getLsbD (2 * port.val) = false)
    (ports : List (Fin 4)) :
    ((ports.foldl (IioFields.singleDrive rpBifurcate) fields).slot port).slotHpCap =
      (fields.slot port).slotHpCap := by
  induction ports generalizing fields with
  | nil => rfl
  | cons first ports inductionHypothesis =>
    rw [List.foldl_cons, inductionHypothesis, hpCap_singleDrive noDrive]

/-- A card in the lower half leaves the capability of the other ports, and with an unknown flag
that of its own. -/
theorem hpCap_lowHalf (isOpen : ¬((port = 0 ∨ port = 1) ∧
    (extendFlag &&& 0x0f = 0 ∨ extendFlag &&& 0x0f = 0x01))) :
    ((fields.lowHalf extendFlag).slot port).slotHpCap = (fields.slot port).slotHpCap := by
  unfold lowHalf
  rw [assignVmd_slotHpCap]
  split_ifs with normal reversed
  · have other : port ∉ [0, 1] := fun listed => isOpen ⟨by simpa using listed, Or.inl normal⟩
    rw [enablePorts_slot_other _ _ _ other]
    rfl
  · have other : port ∉ [1, 0] :=
      fun listed => isOpen ⟨by simpa [or_comm] using listed, Or.inr reversed⟩
    rw [enablePorts_slot_other _ _ _ other]
    rfl
  · rfl

/-- So does a card in the upper half. -/
theorem hpCap_highHalf (isOpen : ¬((port = 2 ∨ port = 3) ∧
    (extendFlag &&& 0xf0 = 0 ∨ extendFlag &&& 0xf0 = 0x10))) :
    ((fields.highHalf extendFlag).slot port).slotHpCap = (fields.slot port).slotHpCap := by
  unfold highHalf
  rw [assignVmd_slotHpCap]
  split_ifs with normal reversed
  · have other : port ∉ [2, 3] := fun listed => isOpen ⟨by simpa using listed, Or.inl normal⟩
    rw [enablePorts_slot_other _ _ _ other]
    rfl
  · have other : port ∉ [3, 2] :=
      fun listed => isOpen ⟨by simpa [or_comm] using listed, Or.inr reversed⟩
    rw [enablePorts_slot_other _ _ _ other]
    rfl
  · rfl

/-- A port that no branch covers keeps its hot plug capability. -/
theorem hpCap_cards (isOpen : ¬Covered rpBifurcate extendFlag port) :
    ((fields.cards rpBifurcate extendFlag).slot port).slotHpCap =
      (fields.slot port).slotHpCap := by
  unfold Covered at isOpen
  unfold cards
  by_cases full : rpBifurcate = 0x03
  · rw [if_pos full] at isOpen ⊢
    obtain ⟨notNormal, notReversed⟩ := not_or.mp isOpen
    rw [x16Card, assignVmd_slotHpCap, if_neg notNormal, if_neg notReversed]
    rfl
  by_cases reversed : rpBifurcate = 0x30
  · rw [if_neg full, if_pos reversed] at isOpen ⊢
    have other : port ∉ [3, 2] := by
      simpa [or_comm] using isOpen
    rw [reversedCard, assignVmd_slotHpCap, enablePorts_slot_other _ _ _ other]
    rfl
  rw [if_neg full, if_neg reversed] at isOpen ⊢
  simp only [not_or, Bool.not_eq_true] at isOpen
  obtain ⟨low, high, noDrive⟩ := isOpen
  rw [hpCap_foldl_singleDrive noDrive]
  have lowerKept : ((fields.lower rpBifurcate extendFlag).slot port).slotHpCap =
      (fields.slot port).slotHpCap := by
    unfold IioFields.lower
    split
    · rename_i taken
      exact hpCap_lowHalf fun both => low ⟨both.1, taken, both.2⟩
    · rfl
  unfold IioFields.upper
  split
  · rename_i taken
    rw [hpCap_highHalf fun both => high ⟨both.1, taken, both.2⟩, lowerKept]
  · exact lowerKept

/-- The bridge flags show in the hot plug capability of the flagged ports only. -/
theorem hpCap_foldl_plxPort (flags : BitVec 8) (ports : List (Fin 4)) :
    ((ports.foldl (IioFields.plxPort flags) fields).slot port).slotHpCap =
      if port ∈ ports ∧ bridged flags port = true then 1 else (fields.slot port).slotHpCap := by
  induction ports generalizing fields with
  | nil => simp
  | cons first ports inductionHypothesis =>
    rw [List.foldl_cons, inductionHypothesis]
    have one : ((fields.plxPort flags first).slot port).slotHpCap =
        if port = first ∧ bridged flags port = true then 1 else (fields.slot port).slotHpCap := by
      unfold plxPort
      by_cases same : port = first
      · subst same
        split <;> simp_all [updateSlot_slot, SlotFields.hotPlug]
      · split <;> simp [updateSlot_slot, same]
    rw [one]
    by_cases flagged : bridged flags port = true
    · by_cases later : port ∈ ports <;> by_cases same : port = first <;>
        simp_all
    · simp [flagged]

/-- The ports of a switch do not change the lane split. -/
theorem configIou_foldl_plxPort (flags : BitVec 8) (ports : List (Fin 4)) :
    (ports.foldl (IioFields.plxPort flags) fields).configIou = fields.configIou := by
  induction ports generalizing fields with
  | nil => rfl
  | cons first ports inductionHypothesis =>
    rw [List.foldl_cons, inductionHypothesis, plxPort]
    split <;> simp

/-- Nor do single drives. -/
theorem configIou_foldl_singleDrive (ports : List (Fin 4)) :
    (ports.foldl (IioFields.singleDrive rpBifurcate) fields).configIou = fields.configIou := by
  induction ports generalizing fields with
  | nil => rfl
  | cons first ports inductionHypothesis =>
    rw [List.foldl_cons, inductionHypothesis, singleDrive]
    split <;> simp

@[simp] theorem configIou_lowHalf :
    (fields.lowHalf extendFlag).configIou = splitHalf xxx8x4x4 x4x4xxx8 fields.configIou := by
  rw [lowHalf, assignVmd_configIou]
  split_ifs <;> simp [splitOff, setConfigIou]

@[simp] theorem configIou_highHalf :
    (fields.highHalf extendFlag).configIou = splitHalf x4x4xxx8 xxx8x4x4 fields.configIou := by
  rw [highHalf, assignVmd_configIou]
  split_ifs <;> simp [splitOff, setConfigIou]

/-- Without a card of two or four drives the split stays. -/
theorem configIou_cards_single (single : ¬TestsHalf rpBifurcate) (notFull : rpBifurcate ≠ 0x03) :
    (fields.cards rpBifurcate extendFlag).configIou = fields.configIou := by
  have none : ¬(rpBifurcate = 0x30 ∨ rpBifurcate &&& 0x0f = 0x02 ∨ rpBifurcate &&& 0xf0 = 0x20) :=
    fun half => single ⟨notFull, half⟩
  simp only [not_or] at none
  obtain ⟨notReversed, notLow, notHigh⟩ := none
  rw [cards, if_neg notFull, if_neg notReversed, configIou_foldl_singleDrive, upper,
    if_neg notHigh, lower, if_neg notLow]

/-- A card of two drives splits an IIO that is not yet split. -/
theorem configIou_cards_half (half : TestsHalf rpBifurcate) (unsplit : fields.configIou = auto) :
    (fields.cards rpBifurcate extendFlag).configIou ≠ auto := by
  obtain ⟨notFull, kind⟩ := half
  rw [cards, if_neg notFull]
  by_cases reversed : rpBifurcate = 0x30
  · rw [if_pos reversed, reversedCard, assignVmd_configIou, enablePorts_configIou]
    change x4x4xxx8 ≠ auto
    decide
  rw [if_neg reversed, configIou_foldl_singleDrive]
  by_cases low : rpBifurcate &&& 0x0f = 0x02
  · have first : (fields.lower rpBifurcate extendFlag).configIou = xxx8x4x4 := by
      rw [lower, if_pos low, configIou_lowHalf, unsplit]
      decide
    unfold upper
    split
    · rw [configIou_highHalf, first]
      decide
    · rw [first]
      decide
  · have high : rpBifurcate &&& 0xf0 = 0x20 := by
      rcases kind with isReversed | isLow | isHigh
      · exact absurd isReversed reversed
      · exact absurd isLow low
      · exact isHigh
    rw [upper, if_pos high, configIou_highHalf, lower, if_neg low, unsplit]
    decide

end Open

end IioFields

section Runs

/-- What the function is called with. -/
structure Inputs where
  slotAoc : BitVec 64
  slotAocFlag : BitVec 64
  defaults : Defaults
  config : IioConfig
  nvmeMode : BitVec 64

/-- The function's result. -/
def Inputs.result (inputs : Inputs) : Work :=
  smcAOCBifurcation inputs.slotAoc inputs.slotAocFlag inputs.defaults inputs.config
    inputs.nvmeMode

/-- The number of an IIO's byte in the masks. -/
def Iio.number (iio : Iio) : Nat :=
  iio.cpuNum.val * 4 + iio.iioNum.val

/-- An IIO's own byte of a mask. -/
def ownByte (mask : BitVec 64) (iio : Iio) : BitVec 8 :=
  field 8 mask (iio.number * 8)

/-- The fields of an IIO before the call. -/
def IioConfig.own (config : IioConfig) (iio : Iio) : IioFields :=
  (⟨config, 0, 0, 0, 0⟩ : Work).own iio

/-- Each IIO has one round of the loop. -/
theorem rounds_of (iio : Iio) :
    ((List.range 8).filter fun i => iioAt i = some iio) = [iio.number] := by
  have all : ∀ (cpu : Fin 2) (number : Fin 3),
      ((List.range 8).filter fun i => iioAt i = some ⟨cpu, number⟩) =
        [Iio.number ⟨cpu, number⟩] := by
    decide
  exact all iio.cpuNum iio.iioNum

/-- An IIO is found at its number in the order of the loop. -/
theorem iioAt_number (iio : Iio) : iioAt iio.number = some iio := by
  have listed : iio.number ∈ (List.range 8).filter fun i => iioAt i = some iio := by
    rw [rounds_of]
    exact List.mem_singleton_self _
  simpa using (List.mem_filter.mp listed).2

/-- What a round does to the record of its IIO. -/
def roundFields (inputs : Inputs) (iio : Iio) (i : Nat) (fields : IioFields) : IioFields :=
  if field 8 inputs.slotAoc (i * 8) = 0 ∧ field 8 inputs.slotAocFlag (i * 8) = 0 then fields
  else
    IioFields.bifurcate (inputs.defaults.own iio) (inputs.defaults.tested iio)
      (field 8 inputs.slotAocFlag 0) (field 8 inputs.slotAoc (i * 8))
      (field 8 inputs.slotAocFlag (i * 8)) fields

/-- A round of the loop works on the fields of its own IIO, and on no others. -/
theorem acts_round (inputs : Inputs) {i : Nat} {iio : Iio} (here : iioAt i = some iio) :
    ActsOn Work.own iio
      (fun work => round inputs.defaults inputs.slotAoc inputs.slotAocFlag work i)
      (roundFields inputs iio i) := by
  unfold round roundFields
  simp only [here]
  exact ActsOn.ite ActsOn.refl (acts_bifurcateIio iio inputs.defaults inputs.slotAoc
    inputs.slotAocFlag _ _)

/-- The fields of an IIO after the call: its own round, on its own fields. -/
theorem own_result (inputs : Inputs) (iio : Iio) :
    inputs.result.own iio = roundFields inputs iio iio.number (inputs.config.own iio) := by
  have idle : ∀ i, iioAt i = none → ∀ work,
      round inputs.defaults inputs.slotAoc inputs.slotAocFlag work i = work := by
    intro i none work
    simp [round, none]
  have run := view_foldl iioAt
    (fun i fields => (iioAt i).elim fields fun other => roundFields inputs other i fields)
    (fun i other here => by simpa only [here, Option.elim_some] using acts_round inputs here)
    idle (List.range 8) (⟨inputs.config, 0, 0, 0, inputs.nvmeMode⟩ : Work) iio
  rw [rounds_of] at run
  simp only [List.foldl_cons, List.foldl_nil, iioAt_number, Option.elim_some] at run
  exact run

end Runs

section Locality

variable {iio : Iio}

/-- Two calls agree on what belongs to an IIO: its bytes of the masks, the user's choice
    for it, and its fields. -/
structure Agree (iio : Iio) (first second : Inputs) : Prop where
  slotAoc : ownByte second.slotAoc iio = ownByte first.slotAoc iio
  slotAocFlag : ownByte second.slotAocFlag iio = ownByte first.slotAocFlag iio
  choice : second.defaults.own iio = first.defaults.own iio
  fields : second.config.own iio = first.config.own iio

/-- On these masks and choices an IIO is bifurcated by what belongs to it, for every
    configuration: no other call that agrees on it has another result, and its split
    stays where the user has chosen one. -/
def LocalOn (slotAoc slotAocFlag : BitVec 64) (defaults : Defaults) (iio : Iio) : Prop :=
  (∀ (config : IioConfig) (nvmeMode : BitVec 64) (other : Inputs),
    Agree iio ⟨slotAoc, slotAocFlag, defaults, config, nvmeMode⟩ other →
      other.result.own iio =
        (Inputs.mk slotAoc slotAocFlag defaults config nvmeMode).result.own iio) ∧
    ∀ (config : IioConfig) (nvmeMode : BitVec 64), defaults.own iio ≠ auto →
      ((Inputs.mk slotAoc slotAocFlag defaults config nvmeMode).result.own iio).configIou =
        (config.own iio).configIou

/-- The IIO whose byte the bridge tests read for all. -/
def firstIio : Iio := ⟨0, 0⟩

/-- Where the foreign inputs have no say: nothing is recorded for the IIO, or no branch
    tests another IIO's choice and the bridges' flags are its own, are not reached
    because of the user's choice, or meet only ports that its cards settle. -/
def Isolated (iio : Iio) (rpBifurcate extendFlag : BitVec 8) (own : UInt8) : Prop :=
  (rpBifurcate = 0 ∧ extendFlag = 0) ∨
    (¬(iio.iioNum = 2 ∧ TestsHalf rpBifurcate) ∧
      (iio = firstIio ∨ (own ≠ auto ∧ (rpBifurcate = 0x03 ∨ TestsHalf rpBifurcate)) ∨
        ∀ port, IioFields.Covered rpBifurcate extendFlag port))

/-- Only for IIO2 the tested choice is another one. -/
theorem tested_eq_own (defaults : Defaults) (notLast : iio.iioNum ≠ 2) :
    defaults.tested iio = defaults.own iio := by
  unfold Defaults.tested Defaults.own
  have known : iio.iioNum = 0 ∨ iio.iioNum = 1 := by
    obtain ⟨cpu, number⟩ := iio
    simp only [Fin.ext_iff, ne_eq] at notLast ⊢
    simp at notLast ⊢
    omega
  rcases known with zero | one
  · simp [zero]
  · simp [one]

/-- Foreign choices and foreign flags have no say in the round of an isolated IIO. -/
theorem bifurcate_isolated {rpBifurcate extendFlag : BitVec 8} {own tested otherTested : UInt8}
    {flags otherFlags : BitVec 8} (fields : IioFields)
    (ownTest : ¬(iio.iioNum = 2 ∧ TestsHalf rpBifurcate))
    (choices : iio.iioNum ≠ 2 → tested = own ∧ otherTested = own)
    (first : iio = firstIio → flags = extendFlag ∧ otherFlags = extendFlag)
    (isolated : iio = firstIio ∨ (own ≠ auto ∧ (rpBifurcate = 0x03 ∨ TestsHalf rpBifurcate)) ∨
      ∀ port, IioFields.Covered rpBifurcate extendFlag port) :
    fields.bifurcate own otherTested otherFlags rpBifurcate extendFlag =
      fields.bifurcate own tested flags rpBifurcate extendFlag := by
  have tests : TestsHalf rpBifurcate → tested = own ∧ otherTested = own :=
    fun half => choices fun last => ownTest ⟨last, half⟩
  have entered : Entered rpBifurcate own otherTested ↔ Entered rpBifurcate own tested := by
    unfold Entered
    by_cases half : TestsHalf rpBifurcate
    · rw [(tests half).1, (tests half).2]
    · simp [half]
  unfold IioFields.bifurcate
  rw [if_congr entered rfl rfl]
  split
  · rename_i enteredHere
    rcases isolated with isFirst | ⟨chosen, kind⟩ | covered
    · rw [(first isFirst).1, (first isFirst).2]
    · rcases kind with full | half
      · exact absurd (enteredHere.1 full) chosen
      · exact absurd ((tests half).1.symm.trans (enteredHere.2 half)) chosen
    · have same : ∀ bridges : BitVec 8,
          [0, 1, 2, 3].foldl (IioFields.plxPort bridges) (fields.cards rpBifurcate extendFlag) =
            fields.cards rpBifurcate extendFlag := by
        intro bridges
        have settled : ∀ port, IioFields.Settled port (fields.cards rpBifurcate extendFlag) :=
          fun port => IioFields.settled_cards (covered port)
        simp only [List.foldl_cons, List.foldl_nil, (settled _).plxPort]
      rw [same, same]
  · rfl

/-- Every IIO but the first has its byte of the masks above the first one. -/
theorem number_pos (notFirst : iio ≠ firstIio) : 8 ≤ iio.number * 8 := by
  obtain ⟨cpu, number⟩ := iio
  by_contra low
  apply notFirst
  have zero : cpu.val = 0 ∧ number.val = 0 := by
    simp only [Iio.number] at low
    omega
  simp only [firstIio, Iio.mk.injEq, Fin.ext_iff]
  exact zero

section Sufficient

variable {slotAoc slotAocFlag : BitVec 64} {defaults : Defaults}

/-- An IIO whose byte holds the whole mask does not depend on the bytes of the others. -/
theorem local_of_isolated
    (isolated : Isolated iio (ownByte slotAoc iio) (ownByte slotAocFlag iio) (defaults.own iio)) :
    LocalOn slotAoc slotAocFlag defaults iio := by
  constructor
  · intro config nvmeMode other agree
    obtain ⟨sameAoc, sameFlag, sameChoice, sameFields⟩ := agree
    change ownByte other.slotAoc iio = ownByte slotAoc iio at sameAoc
    change ownByte other.slotAocFlag iio = ownByte slotAocFlag iio at sameFlag
    change other.defaults.own iio = defaults.own iio at sameChoice
    rw [own_result, own_result]
    unfold roundFields
    change (if ownByte other.slotAoc iio = 0 ∧ ownByte other.slotAocFlag iio = 0 then _ else
      IioFields.bifurcate _ _ _ (ownByte other.slotAoc iio) (ownByte other.slotAocFlag iio) _) =
        if ownByte slotAoc iio = 0 ∧ ownByte slotAocFlag iio = 0 then _ else
          IioFields.bifurcate _ _ _ (ownByte slotAoc iio) (ownByte slotAocFlag iio) _
    rw [sameAoc, sameFlag, sameChoice, sameFields]
    split
    · rfl
    · rename_i recorded
      rcases isolated with nothing | ⟨ownTest, closed⟩
      · exact absurd nothing recorded
      · refine bifurcate_isolated _ ownTest ?_ ?_ closed
        · intro notLast
          exact ⟨tested_eq_own _ notLast, (tested_eq_own _ notLast).trans sameChoice⟩
        · rintro rfl
          exact ⟨rfl, sameFlag⟩
  · intro config nvmeMode chosen
    rw [own_result]
    unfold roundFields
    change (if ownByte slotAoc iio = 0 ∧ ownByte slotAocFlag iio = 0 then _ else
      IioFields.bifurcate _ _ _ (ownByte slotAoc iio) (ownByte slotAocFlag iio) _).configIou = _
    split
    · rfl
    · rename_i recorded
      unfold IioFields.bifurcate
      split
      · rename_i entered
        have notFull : ownByte slotAoc iio ≠ 0x03 := fun full => chosen (entered.1 full)
        have single : ¬TestsHalf (ownByte slotAoc iio) := by
          intro half
          rcases isolated with nothing | ⟨ownTest, -⟩
          · exact recorded nothing
          · have notLast : iio.iioNum ≠ 2 := fun last => ownTest ⟨last, half⟩
            exact chosen ((tested_eq_own defaults notLast).symm.trans (entered.2 half))
        rw [IioFields.configIou_foldl_plxPort, IioFields.configIou_cards_single single notFull]
      · rfl

end Sufficient

section Necessary

/-- A configuration with nothing split and all port fields off. -/
def plainConfig : IioConfig where
  configIou0 := fun _ => auto
  configIou1 := fun _ => auto
  configIou2 := fun _ => auto
  slots := fun _ => ⟨0, 0, 0, 0, 0, 0, 0, 0, 0⟩
  vppPort := fun _ => 0
  vppAddress := fun _ => 0
  vmdEnabled := fun _ => 0
  vmdPortEnable := fun _ => 0
  pcieHotPlugEnable := 0

/-- Of the plain defaults every lane split is automatic. -/
theorem plainConfig_configIou (iio : Iio) : (plainConfig.own iio).configIou = auto := by
  unfold IioConfig.own Work.own Work.configIou
  dsimp only
  split_ifs <;> rfl

/-- Flags that name a bridge behind one port, or none. -/
def flagsFor (port : Fin 4) (named : Bool) : BitVec 8 :=
  if named then 0x02#8 <<< (2 * port.val) else 0

/-- The flag of a port says whether there is a bridge behind it. -/
theorem bridged_flagsFor (port : Fin 4) (named : Bool) :
    IioFields.bridged (flagsFor port named) port = named := by
  revert port named
  decide

variable {slotAoc slotAocFlag : BitVec 64} {defaults : Defaults}

/-- The round that an isolated IIO's record is compared on. -/
theorem own_result_recorded {inputs : Inputs}
    (recorded : ¬(ownByte inputs.slotAoc iio = 0 ∧ ownByte inputs.slotAocFlag iio = 0)) :
    inputs.result.own iio =
      IioFields.bifurcate (inputs.defaults.own iio) (inputs.defaults.tested iio)
        (field 8 inputs.slotAocFlag 0) (ownByte inputs.slotAoc iio)
        (ownByte inputs.slotAocFlag iio) (inputs.config.own iio) := by
  rw [own_result]
  exact if_neg recorded

/-- A local IIO is not tested by another IIO's choice: that choice could be any. -/
theorem ownTest_of_local (isLocal : LocalOn slotAoc slotAocFlag defaults iio) :
    ¬(iio.iioNum = 2 ∧ TestsHalf (ownByte slotAoc iio)) := by
  rintro ⟨last, half⟩
  have recorded : ¬(ownByte slotAoc iio = 0 ∧ ownByte slotAocFlag iio = 0) := by
    intro nothing
    rw [nothing.1] at half
    exact absurd half (by decide)
  -- the same call with the choice of IIO1 turned round
  let turned : Defaults :=
    { defaults with iou1 := fun _ => if defaults.tested iio = auto then 0 else auto }
  have sameChoice : turned.own iio = defaults.own iio := by
    simp [Defaults.own, last, turned]
  have turnedTest : turned.tested iio = if defaults.tested iio = auto then 0 else auto := by
    simp [Defaults.tested, last, turned]
  have same := isLocal.1 plainConfig 0 ⟨slotAoc, slotAocFlag, turned, plainConfig, 0⟩
    ⟨rfl, rfl, sameChoice, rfl⟩
  rw [own_result_recorded recorded, own_result_recorded recorded] at same
  have split : ∀ tested : UInt8,
      ((plainConfig.own iio).bifurcate (defaults.own iio) tested (field 8 slotAocFlag 0)
        (ownByte slotAoc iio) (ownByte slotAocFlag iio)).configIou = auto ↔ tested ≠ auto := by
    intro tested
    unfold IioFields.bifurcate
    by_cases passed : tested = auto
    · have entered : Entered (ownByte slotAoc iio) (defaults.own iio) tested :=
        ⟨fun full => absurd full half.1, fun _ => passed⟩
      rw [if_pos entered, IioFields.configIou_foldl_plxPort]
      have changed : ((plainConfig.own iio).cards (ownByte slotAoc iio)
          (ownByte slotAocFlag iio)).configIou ≠ auto :=
        IioFields.configIou_cards_half half (plainConfig_configIou iio)
      simp [changed, passed]
    · have notEntered : ¬Entered (ownByte slotAoc iio) (defaults.own iio) tested :=
        fun entered => passed (entered.2 half)
      rw [if_neg notEntered]
      simp [plainConfig_configIou, passed]
  have sameSplit := congrArg IioFields.configIou same
  change (IioFields.bifurcate (turned.own iio) (turned.tested iio) _ _ _ _).configIou =
    (IioFields.bifurcate (defaults.own iio) (defaults.tested iio) _ _ _ _).configIou at sameSplit
  rw [sameChoice, turnedTest] at sameSplit
  have opposite := split (if defaults.tested iio = auto then 0 else auto)
  rw [sameSplit, split] at opposite
  by_cases passed : defaults.tested iio = auto
  · rw [if_pos passed] at opposite
    exact opposite.mpr (by decide) passed
  · rw [if_neg passed] at opposite
    exact opposite.mp passed rfl

/-- A local IIO behind its choices has all ports settled, unless the flags are its own. -/
theorem covered_of_local (isLocal : LocalOn slotAoc slotAocFlag defaults iio)
    (recorded : ¬(ownByte slotAoc iio = 0 ∧ ownByte slotAocFlag iio = 0))
    (notFirst : iio ≠ firstIio)
    (entered : Entered (ownByte slotAoc iio) (defaults.own iio) (defaults.tested iio))
    (port : Fin 4) : IioFields.Covered (ownByte slotAoc iio) (ownByte slotAocFlag iio) port := by
  by_contra isOpen
  let named := IioFields.bridged (field 8 slotAocFlag 0) port
  let turned := withFirst (flagsFor port !named) slotAocFlag
  have sameByte : ownByte turned iio = ownByte slotAocFlag iio :=
    field_withFirst_later _ _ (number_pos notFirst)
  have turnedFirst : field 8 turned 0 = flagsFor port !named :=
    field_withFirst_first _ _ (by decide)
  have same := isLocal.1 plainConfig 0 ⟨slotAoc, turned, defaults, plainConfig, 0⟩
    ⟨rfl, sameByte, rfl, rfl⟩
  have recordedTurned : ¬(ownByte slotAoc iio = 0 ∧ ownByte turned iio = 0) := by
    rw [sameByte]
    exact recorded
  rw [own_result_recorded recordedTurned, own_result_recorded recorded] at same
  have shown : ∀ flags : BitVec 8,
      (((plainConfig.own iio).bifurcate (defaults.own iio) (defaults.tested iio) flags
        (ownByte slotAoc iio) (ownByte slotAocFlag iio)).slot port).slotHpCap =
          if IioFields.bridged flags port = true then 1 else 0 := by
    intro flags
    rw [IioFields.bifurcate, if_pos entered, IioFields.hpCap_foldl_plxPort,
      IioFields.hpCap_cards isOpen]
    simp only [(IioFields.every_port port).1, true_and]
    rfl
  have sameCap := congrArg (fun fields => (fields.slot port).slotHpCap) same
  change (IioFields.slot (IioFields.bifurcate _ _ (field 8 turned 0) _ (ownByte turned iio) _)
    port).slotHpCap = (IioFields.slot (IioFields.bifurcate _ _ (field 8 slotAocFlag 0) _ _ _)
      port).slotHpCap at sameCap
  rw [sameByte, turnedFirst] at sameCap
  have shownTurned := shown (flagsFor port !named)
  rw [bridged_flagsFor] at shownTurned
  have both := (shownTurned.symm.trans sameCap).trans (shown (field 8 slotAocFlag 0))
  change (if (!named) = true then (1 : UInt8) else 0) = if named = true then 1 else 0 at both
  have apart : ∀ flag : Bool, (if (!flag) = true then (1 : UInt8) else 0) ≠
      if flag = true then 1 else 0 := by
    decide
  exact apart named both

/-- The fields of an IIO depend on what belongs to it, and its chosen split stays, exactly if it is
isolated. That is said of a single call: it is compared with all calls that agree on what belongs
to the IIO, its own bytes of the masks, its default and its fields. -/
theorem local_iff (slotAoc slotAocFlag : BitVec 64) (defaults : Defaults) (iio : Iio) :
    LocalOn slotAoc slotAocFlag defaults iio ↔
      Isolated iio (ownByte slotAoc iio) (ownByte slotAocFlag iio) (defaults.own iio) := by
  constructor
  · intro isLocal
    by_cases nothing : ownByte slotAoc iio = 0 ∧ ownByte slotAocFlag iio = 0
    · exact Or.inl nothing
    have ownTest := ownTest_of_local isLocal
    refine Or.inr ⟨ownTest, ?_⟩
    by_cases first : iio = firstIio
    · exact Or.inl first
    by_cases stopped : defaults.own iio ≠ auto ∧
        (ownByte slotAoc iio = 0x03 ∨ TestsHalf (ownByte slotAoc iio))
    · exact Or.inr (Or.inl stopped)
    right
    right
    apply covered_of_local isLocal nothing first
    constructor
    · intro full
      by_contra chosen
      exact stopped ⟨chosen, Or.inl full⟩
    · intro half
      have notLast : iio.iioNum ≠ 2 := fun last => ownTest ⟨last, half⟩
      rw [tested_eq_own defaults notLast]
      by_contra chosen
      exact stopped ⟨chosen, Or.inr half⟩
  · exact local_of_isolated

/-- No card's lanes are split by the user's choice for another IIO: this fails for a card
    of two drives in a reversed slot of the last IIO of the first processor. -/
theorem not_always_local : ¬ ∀ (slotAoc slotAocFlag : BitVec 64) (defaults : Defaults) (iio : Iio),
    LocalOn slotAoc slotAocFlag defaults iio := by
  intro always
  have same := (always 0x300000 0 ⟨fun _ => auto, fun _ => auto, fun _ => auto⟩ ⟨0, 2⟩).1
    plainConfig 0
    ⟨0x300000, 0, ⟨fun _ => auto, fun _ => x4x4x4x4, fun _ => auto⟩, plainConfig, 0⟩
    ⟨rfl, rfl, rfl, rfl⟩
  exact absurd (congrArg IioFields.configIou same) (by decide +kernel)

end Necessary

end Locality

end SmcPkg.Bifurcation
