import SmcPkg.Aoc.Bifurcation
import SmcPkg.Lib.Locality

/-!
# Which IIOs are bifurcated by their own fields alone

The fields of one IIO are a record of their own, `IioFields`, and a round of the
loop acts on the record of its IIO and on no other: `bifurcateIio` refines
`IioFields.bifurcate`, whose foreign inputs are the tested choice and the flags of
the bridges. The condition for locality is then read off the record alone: a port
that no card branch settles is open to the bridges of the first IIO.
-/

namespace SmcPkg.Bifurcation

open BitFields Locality

section Own

/-- The fields of one IIO. -/
@[ext] structure IioFields where
  configIou : UInt8
  vmdEnabled : UInt8
  slot : Fin 4 → SlotFields
  vmdPort : Fin 4 → UInt8

/-- The fields of an IIO in the arrays. -/
def Work.own (work : Work) (iio : Iio) : IioFields :=
  ⟨work.configIou iio, work.config.vmdEnabled (vmdStack iio), work.slot iio,
    fun port => work.config.vmdPortEnable (vmdIndex iio port)⟩

/-- The index arithmetic keeps the ports of all IIOs apart. -/
theorem slotIndex_inj {iio other : Iio} {port otherPort : Fin 4} :
    slotIndex iio port = slotIndex other otherPort ↔ iio = other ∧ port = otherPort := by
  obtain ⟨cpu, number⟩ := iio
  obtain ⟨otherCpu, otherNumber⟩ := other
  simp only [slotIndex, Iio.mk.injEq, Fin.ext_iff]
  constructor
  · intro same
    have sameCpu : cpu.val = otherCpu.val := by omega
    have sameNumber : number.val = otherNumber.val := by omega
    omega
  · rintro ⟨⟨sameCpu, sameNumber⟩, samePort⟩
    omega

/-- The fields of the VMD ports are indexed without a clash. -/
theorem vmdIndex_inj {iio other : Iio} {port otherPort : Fin 4} :
    vmdIndex iio port = vmdIndex other otherPort ↔ iio = other ∧ port = otherPort := by
  obtain ⟨cpu, number⟩ := iio
  obtain ⟨otherCpu, otherNumber⟩ := other
  simp only [vmdIndex, Iio.mk.injEq, Fin.ext_iff]
  constructor
  · intro same
    have sameCpu : cpu.val = otherCpu.val := by omega
    have sameNumber : number.val = otherNumber.val := by omega
    omega
  · rintro ⟨⟨sameCpu, sameNumber⟩, samePort⟩
    omega

namespace IioFields

def setConfigIou (split : UInt8) (fields : IioFields) : IioFields :=
  { fields with configIou := split }

def updateSlot (port : Fin 4) (change : SlotFields → SlotFields) (fields : IioFields) :
    IioFields :=
  { fields with slot := Function.update fields.slot port (change (fields.slot port)) }

def setVmdPort (port : Fin 4) (value : UInt8) (fields : IioFields) : IioFields :=
  { fields with vmdPort := Function.update fields.vmdPort port value }

def enablePorts (source : Fin 4) (ports : List (Fin 4)) (fields : IioFields) : IioFields :=
  ports.foldl (fun fields port =>
    fields.updateSlot port (SlotFields.enabled (fields.slot source).slotPsp)) fields

/-- Whether the IIO's VMD controller owns a port. -/
def VmdOwns (port : Fin 4) (fields : IioFields) : Prop :=
  fields.vmdEnabled ≠ 0 ∧ fields.vmdPort port ≠ 0

instance (port : Fin 4) : DecidablePred (VmdOwns port) :=
  fun fields => inferInstanceAs (Decidable (fields.vmdEnabled ≠ 0 ∧ fields.vmdPort port ≠ 0))

def assignVmd (vmd : VmdPorts) (fields : IioFields) : IioFields :=
  if VmdOwns vmd.tested fields then
    vmd.ports.foldl (fun fields port => fields.updateSlot port SlotFields.ofVmd)
      (vmd.switchedOn.foldl (fun fields port => fields.setVmdPort port 1) fields)
  else
    vmd.ports.foldl (fun fields port => fields.updateSlot port SlotFields.plain)
      (vmd.switchedOff.foldl (fun fields port => fields.setVmdPort port 0) fields)

end IioFields

end Own

section Blocks

variable (iio : Iio)

/-- The lane split of an IIO is one of its own fields: the others are not changed. -/
theorem acts_setConfigIou (split : UInt8) :
    ActsOn Work.own iio (Work.setConfigIou iio split) (IioFields.setConfigIou split) := by
  have read : ∀ (work : Work) (other : Iio), (work.setConfigIou iio split).configIou other =
      if other = iio then split else work.configIou other := by
    intro work other
    obtain ⟨cpu, number⟩ := iio
    obtain ⟨otherCpu, otherNumber⟩ := other
    simp only [Work.setConfigIou, Work.configIou, Iio.mk.injEq, Fin.ext_iff]
    split_ifs <;> simp_all [Function.update_apply]
    omega
  constructor
  · intro work
    unfold Work.own IioFields.setConfigIou
    rw [read, if_pos rfl]
    unfold Work.setConfigIou
    split_ifs <;> rfl
  · intro work other apart
    unfold Work.own
    rw [read, if_neg apart]
    unfold Work.setConfigIou
    split_ifs <;> rfl

/-- A slot of an IIO is one of its own fields. -/
theorem acts_updateSlot (port : Fin 4) (change : SlotFields → SlotFields) :
    ActsOn Work.own iio (Work.updateSlot iio port change) (IioFields.updateSlot port change) := by
  constructor
  · intro work
    have rows : (work.updateSlot iio port change).slot iio =
        Function.update (work.slot iio) port (change (work.slot iio port)) := by
      funext asked
      simp only [Work.slot, Work.updateSlot, Function.update_apply, slotIndex_inj, true_and]
    unfold Work.own
    rw [rows]
    rfl
  · intro work other apart
    have rows : (work.updateSlot iio port change).slot other = work.slot other := by
      funext asked
      simp only [Work.slot, Work.updateSlot, Function.update_apply, slotIndex_inj, apart,
        false_and, if_false]
    unfold Work.own
    rw [rows]
    rfl

/-- A VMD port of an IIO is one of its own fields. -/
theorem acts_setVmdPort (port : Fin 4) (value : UInt8) :
    ActsOn Work.own iio (Work.setVmdPort iio port value) (IioFields.setVmdPort port value) := by
  constructor
  · intro work
    have rows : (fun asked => (work.setVmdPort iio port value).config.vmdPortEnable
        (vmdIndex iio asked)) =
        Function.update (fun asked => work.config.vmdPortEnable (vmdIndex iio asked)) port
          value := by
      funext asked
      simp only [Work.setVmdPort, Function.update_apply, vmdIndex_inj, true_and]
    unfold Work.own
    rw [rows]
    rfl
  · intro work other apart
    have rows : (fun asked => (work.setVmdPort iio port value).config.vmdPortEnable
        (vmdIndex other asked)) =
        fun asked => work.config.vmdPortEnable (vmdIndex other asked) := by
      funext asked
      simp only [Work.setVmdPort, Function.update_apply, vmdIndex_inj, apart, false_and, if_false]
    unfold Work.own
    rw [rows]
    rfl

/-- Vpp addresses are no field of the record. -/
theorem acts_assignVpp (port : Fin 4) : ActsOn Work.own iio (assignVpp iio port) id := by
  apply ActsOn.unseen
  intro work other
  unfold assignVpp
  dsimp only
  split <;> rfl

/-- Ports are enabled in the fields of their IIO. -/
theorem acts_enablePorts (source : Fin 4) (ports : List (Fin 4)) :
    ActsOn Work.own iio (enablePorts iio source ports) (IioFields.enablePorts source ports) := by
  apply ActsOn.foldl
  intro port
  refine (acts_assignVpp iio port).comp ⟨?_, ?_⟩
  · intro work
    exact (acts_updateSlot iio port _).own work
  · intro work other apart
    exact (acts_updateSlot iio port _).others work other apart

/-- The VMD ports are switched on and off in the fields of their IIO. -/
theorem acts_assignVmd (vmd : VmdPorts) :
    ActsOn Work.own iio (assignVmd iio vmd) (IioFields.assignVmd vmd) := by
  unfold assignVmd IioFields.assignVmd
  apply ActsOn.branch
  · exact fun work => Iff.rfl
  · exact (ActsOn.foldl vmd.ports fun port => acts_updateSlot iio port SlotFields.ofVmd).comp
      (ActsOn.foldl vmd.switchedOn fun port => acts_setVmdPort iio port 1)
  · exact (ActsOn.foldl vmd.ports fun port => acts_updateSlot iio port SlotFields.plain).comp
      (ActsOn.foldl vmd.switchedOff fun port => acts_setVmdPort iio port 0)

/-- The count of drives is no field of the record. -/
theorem acts_assignDrives (vmd : VmdPorts) (bits : BitVec 64) (count : UInt8) :
    ActsOn Work.own iio (assignDrives iio vmd bits count) (IioFields.assignVmd vmd) :=
  ⟨(acts_assignVmd iio vmd).own, (acts_assignVmd iio vmd).others⟩

end Blocks

section Layouts

namespace IioFields

def x16Card (extendFlag : BitVec 8) (fields : IioFields) : IioFields :=
  assignVmd x16Vmd
    (if extendFlag = 0 then enablePorts 0 [0, 1, 2, 3] (fields.setConfigIou x4x4x4x4)
     else if extendFlag = 0x01 then enablePorts 0 [3, 2, 1, 0] (fields.setConfigIou x4x4x4x4)
     else fields.setConfigIou x4x4x4x4)

def reversedCard (fields : IioFields) : IioFields :=
  assignVmd reversedVmd (enablePorts 0 [3, 2] (fields.setConfigIou x4x4xxx8))

/-- Half of an IIO, split by what its other half is. -/
def splitOff (alone other : UInt8) (fields : IioFields) : IioFields :=
  fields.setConfigIou (splitHalf alone other fields.configIou)

def lowHalf (extendFlag : BitVec 8) (fields : IioFields) : IioFields :=
  assignVmd lowVmd
    (if extendFlag &&& 0x0f = 0 then enablePorts 0 [0, 1] (fields.splitOff xxx8x4x4 x4x4xxx8)
     else if extendFlag &&& 0x0f = 0x01 then
       enablePorts 0 [1, 0] (fields.splitOff xxx8x4x4 x4x4xxx8)
     else fields.splitOff xxx8x4x4 x4x4xxx8)

def highHalf (extendFlag : BitVec 8) (fields : IioFields) : IioFields :=
  assignVmd highVmd
    (if extendFlag &&& 0xf0 = 0 then enablePorts 2 [2, 3] (fields.splitOff x4x4xxx8 xxx8x4x4)
     else if extendFlag &&& 0xf0 = 0x10 then
       enablePorts 2 [3, 2] (fields.splitOff x4x4xxx8 xxx8x4x4)
     else fields.splitOff x4x4xxx8 xxx8x4x4)

def singleDrive (rpBifurcate : BitVec 8) (fields : IioFields) (port : Fin 4) : IioFields :=
  if rpBifurcate.getLsbD (2 * port.val) then
    assignVmd (portVmd port) (fields.updateSlot port SlotFields.single)
  else fields

/-- Whether the flags name a bridge behind a port. -/
def bridged (flags : BitVec 8) (port : Fin 4) : Bool :=
  flags.getLsbD (2 * port.val + 1) && !flags.getLsbD (2 * port.val)

def plxPort (flags : BitVec 8) (fields : IioFields) (port : Fin 4) : IioFields :=
  if bridged flags port then assignVmd (portVmd port) (fields.updateSlot port SlotFields.hotPlug)
  else fields

/-- The branches for the halves. -/
def lower (rpBifurcate extendFlag : BitVec 8) (fields : IioFields) : IioFields :=
  if rpBifurcate &&& 0x0f = 0x02 then lowHalf extendFlag fields else fields

def upper (rpBifurcate extendFlag : BitVec 8) (fields : IioFields) : IioFields :=
  if rpBifurcate &&& 0xf0 = 0x20 then highHalf extendFlag fields else fields

/-- The branches for cards. -/
def cards (rpBifurcate extendFlag : BitVec 8) (fields : IioFields) : IioFields :=
  if rpBifurcate = 0x03 then x16Card extendFlag fields
  else if rpBifurcate = 0x30 then reversedCard fields
  else [0, 1, 2, 3].foldl (singleDrive rpBifurcate)
    ((fields.lower rpBifurcate extendFlag).upper rpBifurcate extendFlag)

end IioFields

/-- The location bytes whose branches test the choice of another array for IIO2. -/
def TestsHalf (rpBifurcate : BitVec 8) : Prop :=
  rpBifurcate ≠ 0x03 ∧
    (rpBifurcate = 0x30 ∨ rpBifurcate &&& 0x0f = 0x02 ∨ rpBifurcate &&& 0xf0 = 0x20)

instance (rpBifurcate : BitVec 8) : Decidable (TestsHalf rpBifurcate) :=
  inferInstanceAs (Decidable (_ ∧ _))

/-- Whether a round gets past the choices. -/
def Entered (rpBifurcate : BitVec 8) (own tested : UInt8) : Prop :=
  (rpBifurcate = 0x03 → own = auto) ∧ (TestsHalf rpBifurcate → tested = auto)

instance (rpBifurcate : BitVec 8) (own tested : UInt8) :
    Decidable (Entered rpBifurcate own tested) :=
  inferInstanceAs (Decidable (_ ∧ _))

/-- One round on the record of its IIO. -/
def IioFields.bifurcate (own tested : UInt8) (flags : BitVec 8) (rpBifurcate extendFlag : BitVec 8)
    (fields : IioFields) : IioFields :=
  if Entered rpBifurcate own tested then
    [0, 1, 2, 3].foldl (IioFields.plxPort flags) (fields.cards rpBifurcate extendFlag)
  else fields

end Layouts

section Refinement

variable (iio : Iio)

/-- A card of sixteen lanes works on the fields of its IIO. -/
theorem acts_x16Card (extendFlag : BitVec 8) :
    ActsOn Work.own iio (x16Card iio extendFlag) (IioFields.x16Card extendFlag) := by
  have split := acts_setConfigIou iio x4x4x4x4
  refine (acts_assignDrives iio x16Vmd 0x0f 4).comp (ActsOn.ite ?_ (ActsOn.ite ?_ split))
  · exact (acts_enablePorts iio 0 [0, 1, 2, 3]).comp split
  · exact (acts_enablePorts iio 0 [3, 2, 1, 0]).comp split

/-- A reversed card works on the fields of its IIO. -/
theorem acts_reversedCard :
    ActsOn Work.own iio (reversedCard iio) IioFields.reversedCard :=
  (acts_assignDrives iio reversedVmd 0x03 2).comp
    ((acts_enablePorts iio 0 [3, 2]).comp (acts_setConfigIou iio x4x4xxx8))

/-- Half of the lanes is split off in the fields of the IIO: the split is read where it is
written. -/
theorem acts_splitOff (alone other : UInt8) :
    ActsOn Work.own iio
      (fun work => work.setConfigIou iio (splitHalf alone other (work.configIou iio)))
      (IioFields.splitOff alone other) :=
  ⟨fun work => (acts_setConfigIou iio _).own work,
    fun work => (acts_setConfigIou iio _).others work⟩

/-- A card in the lower half works on the fields of its IIO. -/
theorem acts_lowHalf (extendFlag : BitVec 8) :
    ActsOn Work.own iio (lowHalf iio extendFlag) (IioFields.lowHalf extendFlag) := by
  have split := acts_splitOff iio xxx8x4x4 x4x4xxx8
  refine (acts_assignDrives iio lowVmd 0x03 2).comp (ActsOn.ite ?_ (ActsOn.ite ?_ split))
  · exact (acts_enablePorts iio 0 [0, 1]).comp split
  · exact (acts_enablePorts iio 0 [1, 0]).comp split

/-- A card in the upper half works on the fields of its IIO. -/
theorem acts_highHalf (extendFlag : BitVec 8) :
    ActsOn Work.own iio (highHalf iio extendFlag) (IioFields.highHalf extendFlag) := by
  have split := acts_splitOff iio x4x4xxx8 xxx8x4x4
  refine (acts_assignDrives iio highVmd 0x03 2).comp (ActsOn.ite ?_ (ActsOn.ite ?_ split))
  · exact (acts_enablePorts iio 2 [2, 3]).comp split
  · exact (acts_enablePorts iio 2 [3, 2]).comp split

/-- A drive works on the fields of the IIO of its port. -/
theorem acts_singleDrive (rpBifurcate : BitVec 8) (port : Fin 4) :
    ActsOn Work.own iio (fun work => singleDrive iio rpBifurcate work port)
      (fun fields => fields.singleDrive rpBifurcate port) := by
  refine ActsOn.ite ?_ ActsOn.refl
  exact (acts_assignDrives iio (portVmd port) 0x01 1).comp
    ((acts_assignVpp iio port).comp (acts_updateSlot iio port SlotFields.single))

/-- The bridges of every IIO are tested in the first byte of the mask. -/
theorem acts_plxPort (slotAocFlag : BitVec 64) (port : Fin 4) :
    ActsOn Work.own iio (fun work => plxPort iio slotAocFlag work port)
      (fun fields => fields.plxPort (field 8 slotAocFlag 0) port) := by
  have flags : (slotAocFlag.getLsbD (2 * port.val + 1) && !slotAocFlag.getLsbD (2 * port.val)) =
      IioFields.bridged (field 8 slotAocFlag 0) port := by
    have inside : 2 * port.val + 1 < 8 := by omega
    have insideLow : 2 * port.val < 8 := by omega
    simp [IioFields.bridged, field, inside, insideLow]
  unfold plxPort IioFields.plxPort
  rw [flags]
  refine ActsOn.ite ?_ ActsOn.refl
  exact (acts_assignVmd iio (portVmd port)).comp (acts_updateSlot iio port SlotFields.hotPlug)

/-- The end of the body shows the record the bridges only. -/
theorem acts_finishIio (slotAoc slotAocFlag : BitVec 64) :
    ActsOn Work.own iio (finishIio iio slotAoc slotAocFlag)
      (fun fields => [0, 1, 2, 3].foldl (IioFields.plxPort (field 8 slotAocFlag 0)) fields) := by
  have bridges := ActsOn.foldl [0, 1, 2, 3] (acts_plxPort iio slotAocFlag)
  have hotPlug : ActsOn Work.own iio (fun work => if slotAoc ≠ 0 ∨ slotAocFlag ≠ 0 then
      { work with config := { work.config with pcieHotPlugEnable := 1 } } else work) id := by
    apply ActsOn.unseen
    intro work other
    split <;> rfl
  exact hotPlug.comp bridges

/-- A round acts on the record of its IIO, and the foreign inputs are the tested choice
    and the first byte of the bridges' mask. -/
theorem acts_bifurcateIio (defaults : Defaults) (slotAoc slotAocFlag : BitVec 64)
    (rpBifurcate extendFlag : BitVec 8) :
    ActsOn Work.own iio (bifurcateIio defaults slotAoc slotAocFlag iio rpBifurcate extendFlag)
      (IioFields.bifurcate (defaults.own iio) (defaults.tested iio) (field 8 slotAocFlag 0)
        rpBifurcate extendFlag) := by
  have finish := acts_finishIio iio slotAoc slotAocFlag
  have stays : ActsOn Work.own iio (fun work : Work => work) (fun fields => fields) := ActsOn.refl
  unfold bifurcateIio IioFields.bifurcate
  by_cases full : rpBifurcate = 0x03
  · by_cases choice : defaults.own iio = auto
    · simpa [full, choice, Entered, TestsHalf, IioFields.cards]
        using finish.comp (acts_x16Card iio extendFlag)
    · simpa [full, choice, Entered] using stays
  by_cases passed : TestsHalf rpBifurcate → defaults.tested iio = auto
  · have entered : Entered rpBifurcate (defaults.own iio) (defaults.tested iio) :=
      ⟨fun isFull => absurd isFull full, passed⟩
    simp only [if_neg full, if_pos entered, IioFields.cards]
    by_cases reversed : rpBifurcate = 0x30
    · have choice := passed ⟨full, Or.inl reversed⟩
      simpa [reversed, choice] using finish.comp (acts_reversedCard iio)
    · have lowPassed : ¬(rpBifurcate &&& 0x0f = 0x02 ∧ defaults.tested iio ≠ auto) :=
        fun low => low.2 (passed ⟨full, Or.inr (Or.inl low.1)⟩)
      have highPassed : ¬(rpBifurcate &&& 0xf0 = 0x20 ∧ defaults.tested iio ≠ auto) :=
        fun high => high.2 (passed ⟨full, Or.inr (Or.inr high.1)⟩)
      simp only [if_neg reversed, if_neg lowPassed, if_neg highPassed]
      refine finish.comp ((ActsOn.foldl [0, 1, 2, 3] (acts_singleDrive iio rpBifurcate)).comp ?_)
      refine ActsOn.ite ((acts_highHalf iio extendFlag).comp ?_) ?_
      · exact (acts_lowHalf iio extendFlag).ite stays
      · exact (acts_lowHalf iio extendFlag).ite stays
  · -- the choice stops the round before anything is written
    obtain ⟨half, choice⟩ := Classical.not_imp.mp passed
    have notEntered : ¬Entered rpBifurcate (defaults.own iio) (defaults.tested iio) :=
      fun entered => choice (entered.2 half)
    simp only [if_neg full, if_neg notEntered]
    by_cases reversed : rpBifurcate = 0x30
    · simpa [reversed, choice] using stays
    by_cases low : rpBifurcate &&& 0x0f = 0x02
    · simpa only [if_neg reversed, if_pos (And.intro low choice)] using stays
    · have high : rpBifurcate &&& 0xf0 = 0x20 := by
        rcases half.2 with isReversed | isLow | isHigh
        · exact absurd isReversed reversed
        · exact absurd isLow low
        · exact isHigh
      have lowOpen : ¬(rpBifurcate &&& 0x0f = 0x02 ∧ defaults.tested iio ≠ auto) :=
        fun both => low both.1
      simpa only [if_neg reversed, if_neg lowOpen, if_neg low, if_pos (And.intro high choice)]
        using stays

end Refinement

end SmcPkg.Bifurcation
