import SmcPkg.Aoc.BifurcationLocal
import Mathlib.Data.List.Induction
import Mathlib.Data.List.Nodup
import Mathlib.Data.List.Perm.Subperm

/-!
# The Vpp addresses that a call hands out

Every branch of `SmcAOCBifurcation` that enables a port takes the next Vpp
address of the port's processor. The ports that one call enables are a list, read
off the two masks and the choices alone, and the call acts on the Vpp fields as
if it went through that list; the list names no port twice, and the twelve ports
of a processor stay below the sixteen addresses that its counter tells apart.

The counters are assumed to be zero when the call begins, as they are in a boot. A second call
in the same boot is not looked at.
-/

namespace SmcPkg.Bifurcation

open BitFields

section VppFields

/-- A port of an IIO. -/
structure Place where
  iio : Iio
  port : Fin 4
deriving DecidableEq

/-- The place's index in the arrays. -/
def Place.index (place : Place) : Nat :=
  slotIndex place.iio place.port

/-- Places have numbers of their own. -/
theorem Place.index_inj {first second : Place} : first.index = second.index ↔ first = second := by
  rw [Place.index, Place.index, slotIndex_inj]
  cases first
  cases second
  simp

/-- `VppEnable`, `VppPort` and `VppAddress`, with the two counters. -/
@[ext] structure VppState where
  enable : Nat → UInt8
  port : Nat → UInt8
  address : Nat → UInt8
  cpu1Vpp : UInt8
  cpu2Vpp : UInt8

def Work.vpp (work : Work) : VppState :=
  ⟨fun i => (work.config.slots i).vppEnable, work.config.vppPort, work.config.vppAddress,
    work.cpu1Vpp, work.cpu2Vpp⟩

/-- The counter of a processor. -/
def VppState.counter (state : VppState) (cpu : Fin 2) : UInt8 :=
  if cpu = 0 then state.cpu1Vpp else state.cpu2Vpp

/-- A port is enabled and takes the next address of its processor. -/
def VppState.assign (state : VppState) (place : Place) : VppState :=
  let vpp := state.counter place.iio.cpuNum
  { enable := Function.update state.enable place.index 1
    port := Function.update state.port place.index (vpp &&& 0x01)
    address := Function.update state.address place.index (vpp &&& 0x0e)
    cpu1Vpp := if place.iio.cpuNum = 0 then vpp + 1 else state.cpu1Vpp
    cpu2Vpp := if place.iio.cpuNum = 0 then state.cpu2Vpp else vpp + 1 }

/-- A step that acts on the Vpp fields as the enabling of the listed ports, in order. -/
def Assigns (step : Work → Work) (places : List Place) : Prop :=
  ∀ work, (step work).vpp = places.foldl VppState.assign work.vpp

namespace Assigns

variable {first second : Work → Work} {places more : List Place}

/-- Nothing assigns no address. -/
theorem refl : Assigns id [] := fun _ => rfl

/-- Assignments follow each other. -/
theorem comp (later : Assigns second more) (earlier : Assigns first places) :
    Assigns (fun work => second (first work)) (places ++ more) := by
  intro work
  rw [later, earlier, List.foldl_append]

/-- A branch assigns what the branch that is taken does. -/
theorem ite {condition : Prop} [Decidable condition] (holds : Assigns first places)
    (fails : Assigns second more) :
    Assigns (fun work => if condition then first work else second work)
      (if condition then places else more) := by
  intro work
  by_cases taken : condition
  · simpa only [if_pos taken] using holds work
  · simpa only [if_neg taken] using fails work

/-- A loop assigns what its rounds do, in their order. -/
theorem foldl {α : Type} {step : Work → α → Work} {listing : α → List Place} (items : List α)
    (each : ∀ item, Assigns (fun work => step work item) (listing item)) :
    Assigns (fun work => items.foldl step work) (items.flatMap listing) := by
  induction items with
  | nil => exact refl
  | cons item items inductionHypothesis =>
    rw [List.flatMap_cons]
    exact inductionHypothesis.comp (each item)

end Assigns

end VppFields

section Blocks

variable (iio : Iio) (port : Fin 4)

/-- The lane split takes no address. -/
theorem assigns_setConfigIou (split : UInt8) : Assigns (Work.setConfigIou iio split) [] := by
  intro work
  unfold Work.setConfigIou
  split_ifs <;> rfl

/-- A change of a port's fields that keeps `VppEnable`. -/
theorem assigns_updateSlot (change : SlotFields → SlotFields)
    (keeps : ∀ slot, (change slot).vppEnable = slot.vppEnable) :
    Assigns (Work.updateSlot iio port change) [] := by
  intro work
  apply VppState.ext
  · funext i
    by_cases own : i = slotIndex iio port
    · simp [Work.vpp, Work.updateSlot, Work.slot, own, keeps]
    · simp [Work.vpp, Work.updateSlot, own]
  all_goals rfl

/-- A port that is enabled with the next address. -/
theorem assigns_enable (change : Work → SlotFields → SlotFields)
    (enables : ∀ work slot, (change work slot).vppEnable = 1) :
    Assigns (fun work => assignVpp iio port (work.updateSlot iio port (change work)))
      [⟨iio, port⟩] := by
  intro work
  by_cases own : iio.cpuNum = 0
  all_goals
    apply VppState.ext
    · funext i
      by_cases here : i = slotIndex iio port
      · simp [Work.vpp, assignVpp, Work.updateSlot, VppState.assign, Place.index, here, own,
          enables]
      · simp [Work.vpp, assignVpp, Work.updateSlot, VppState.assign, Place.index, here, own]
    all_goals
      simp [Work.vpp, assignVpp, Work.updateSlot, VppState.assign, VppState.counter, Place.index,
        own]

/-- Each enabled port takes the next address of its processor. -/
theorem assigns_enablePorts (source : Fin 4) (ports : List (Fin 4)) :
    Assigns (enablePorts iio source ports) (ports.map (Place.mk iio)) := by
  rw [← List.flatMap_singleton' (ports.map (Place.mk iio)), List.flatMap_map]
  exact Assigns.foldl ports fun port =>
    assigns_enable iio port (fun work => SlotFields.enabled (work.slot iio source).slotPsp)
      fun _ _ => rfl

/-- A loop whose rounds assign nothing does not either. -/
theorem assigns_nothing {α : Type} {step : Work → α → Work} (items : List α)
    (each : ∀ item, Assigns (fun work => step work item) []) :
    Assigns (fun work => items.foldl step work) [] := by
  have loop := Assigns.foldl items each
  rwa [List.flatMap_eq_nil_iff.mpr fun _ _ => rfl] at loop

/-- The VMD fields take no address. -/
theorem assigns_assignVmd (vmd : VmdPorts) : Assigns (assignVmd iio vmd) [] := by
  have owned := assigns_nothing vmd.ports fun port =>
    assigns_updateSlot iio port SlotFields.ofVmd fun _ => rfl
  have plain := assigns_nothing vmd.ports fun port =>
    assigns_updateSlot iio port SlotFields.plain fun _ => rfl
  have switched (value : UInt8) (ports : List (Fin 4)) :=
    assigns_nothing ports fun port =>
      (fun _ => rfl : Assigns (fun work => Work.setVmdPort iio port value work) [])
  intro work
  unfold assignVmd
  split
  · exact (owned.comp (switched 1 vmd.switchedOn)) work
  · exact (plain.comp (switched 0 vmd.switchedOff)) work

/-- The fields of the drives take no address. -/
theorem assigns_assignDrives (vmd : VmdPorts) (bits : BitVec 64) (count : UInt8) :
    Assigns (assignDrives iio vmd bits count) [] := by
  intro work
  exact assigns_assignVmd iio vmd work

end Blocks

section Layouts

/-- The ports of a half, or of a whole IIO, in the order of the card's lanes. -/
def byLanes (flag normal reversed : BitVec 8) (ports : List (Fin 4)) : List (Fin 4) :=
  if flag = normal then ports
  else if flag = reversed then ports.reverse
  else []

def lowerPorts (rpBifurcate extendFlag : BitVec 8) : List (Fin 4) :=
  if rpBifurcate &&& 0x0f = 0x02 then byLanes (extendFlag &&& 0x0f) 0 0x01 [0, 1] else []

def upperPorts (rpBifurcate extendFlag : BitVec 8) : List (Fin 4) :=
  if rpBifurcate &&& 0xf0 = 0x20 then byLanes (extendFlag &&& 0xf0) 0 0x10 [2, 3] else []

/-- The ports with a drive of their own. -/
def singlePorts (rpBifurcate : BitVec 8) : List (Fin 4) :=
  [0, 1, 2, 3].filter fun port : Fin 4 => rpBifurcate.getLsbD (2 * port.val)

/-- The ports that the bytes of an IIO enable, under the user's choice and the tested one. -/
def enabledPorts (own tested : UInt8) (rpBifurcate extendFlag : BitVec 8) : List (Fin 4) :=
  if rpBifurcate = 0x03 then
    if own ≠ auto then [] else byLanes extendFlag 0 0x01 [0, 1, 2, 3]
  else if rpBifurcate = 0x30 then
    if tested ≠ auto then [] else [3, 2]
  else if rpBifurcate &&& 0x0f = 0x02 ∧ tested ≠ auto then []
  else if rpBifurcate &&& 0xf0 = 0x20 ∧ tested ≠ auto then lowerPorts rpBifurcate extendFlag
  else
    lowerPorts rpBifurcate extendFlag ++ upperPorts rpBifurcate extendFlag ++
      singlePorts rpBifurcate

variable (iio : Iio) (rpBifurcate extendFlag : BitVec 8)

/-- Ports are enabled in one of two orders, or not at all, as the flag says. -/
theorem assigns_byLanes (flag normal reversed : BitVec 8) (source : Fin 4)
    (ports : List (Fin 4)) :
    Assigns
      (fun work =>
        if flag = normal then enablePorts iio source ports work
        else if flag = reversed then enablePorts iio source ports.reverse work
        else work)
      ((byLanes flag normal reversed ports).map (Place.mk iio)) := by
  unfold byLanes
  rw [apply_ite (List.map (Place.mk iio)), apply_ite (List.map (Place.mk iio))]
  exact Assigns.ite (assigns_enablePorts iio source ports)
    (Assigns.ite (assigns_enablePorts iio source ports.reverse) Assigns.refl)

/-- A card's branch: the split, the ports, the VMD controller. -/
theorem Assigns.card {split enabled drives : Work → Work} {places : List Place}
    (ports : Assigns enabled places) (before : Assigns split []) (after : Assigns drives []) :
    Assigns (fun work => drives (enabled (split work))) places := by
  have all := after.comp (ports.comp before)
  rwa [List.nil_append, List.append_nil] at all

/-- A card of sixteen lanes takes an address for each of the four ports. -/
theorem assigns_x16Card :
    Assigns (x16Card iio extendFlag)
      ((byLanes extendFlag 0 0x01 [0, 1, 2, 3]).map (Place.mk iio)) :=
  (assigns_byLanes iio extendFlag 0 0x01 0 [0, 1, 2, 3]).card
    (assigns_setConfigIou iio x4x4x4x4) (assigns_assignDrives iio x16Vmd 0x0f 4)

/-- A reversed card takes two addresses, the last port first. -/
theorem assigns_reversedCard :
    Assigns (reversedCard iio) ([3, 2].map (Place.mk iio)) :=
  (assigns_enablePorts iio 0 [3, 2]).card
    (assigns_setConfigIou iio x4x4xxx8) (assigns_assignDrives iio reversedVmd 0x03 2)

/-- The split of a half is read off the IIO's split first. -/
theorem assigns_split (split : Work → UInt8) :
    Assigns (fun work => work.setConfigIou iio (split work)) [] :=
  fun work => assigns_setConfigIou iio (split work) work

/-- A card in the lower half takes the addresses of its two ports. -/
theorem assigns_lowHalf :
    Assigns (lowHalf iio extendFlag)
      ((byLanes (extendFlag &&& 0x0f) 0 0x01 [0, 1]).map (Place.mk iio)) :=
  (assigns_byLanes iio (extendFlag &&& 0x0f) 0 0x01 0 [0, 1]).card
    (assigns_split iio fun work => splitHalf xxx8x4x4 x4x4xxx8 (work.configIou iio))
    (assigns_assignDrives iio lowVmd 0x03 2)

/-- A card in the upper half takes the addresses of its two ports. -/
theorem assigns_highHalf :
    Assigns (highHalf iio extendFlag)
      ((byLanes (extendFlag &&& 0xf0) 0 0x10 [2, 3]).map (Place.mk iio)) :=
  (assigns_byLanes iio (extendFlag &&& 0xf0) 0 0x10 2 [2, 3]).card
    (assigns_split iio fun work => splitHalf x4x4xxx8 xxx8x4x4 (work.configIou iio))
    (assigns_assignDrives iio highVmd 0x03 2)

/-- A port with a drive takes an address, one without takes none. -/
theorem assigns_singleDrive (port : Fin 4) :
    Assigns (fun work => singleDrive iio rpBifurcate work port)
      (if rpBifurcate.getLsbD (2 * port.val) then [⟨iio, port⟩] else []) := by
  have enabled := assigns_enable iio port (fun _ => SlotFields.single) fun _ _ => rfl
  exact Assigns.ite (enabled.card Assigns.refl (assigns_assignDrives iio (portVmd port) 0x01 1))
    Assigns.refl

/-- Over all ports the drives take addresses in the order of the ports. -/
theorem assigns_singleDrives :
    Assigns (fun work => [0, 1, 2, 3].foldl (singleDrive iio rpBifurcate) work)
      ((singlePorts rpBifurcate).map (Place.mk iio)) := by
  have loop := Assigns.foldl [0, 1, 2, 3] (assigns_singleDrive iio rpBifurcate)
  have listing (ports : List (Fin 4)) :
      (ports.flatMap fun port =>
          if rpBifurcate.getLsbD (2 * port.val) then [Place.mk iio port] else []) =
        (ports.filter fun port => rpBifurcate.getLsbD (2 * port.val)).map (Place.mk iio) := by
    induction ports with
    | nil => rfl
    | cons port ports inductionHypothesis =>
      rw [List.flatMap_cons, List.filter_cons, inductionHypothesis]
      split <;> rfl
  rwa [listing] at loop

/-- The ports of a switch take no address here. -/
theorem assigns_plxPort (slotAocFlag : BitVec 64) (port : Fin 4) :
    Assigns (fun work => plxPort iio slotAocFlag work port) [] := by
  have bridged := (assigns_assignVmd iio (portVmd port)).comp
    (assigns_updateSlot iio port SlotFields.hotPlug fun _ => rfl)
  intro work
  unfold plxPort
  split
  · exact bridged work
  · rfl

/-- The end of a round takes no address. -/
theorem assigns_finishIio (slotAoc slotAocFlag : BitVec 64) :
    Assigns (finishIio iio slotAoc slotAocFlag) [] := by
  have bridges := assigns_nothing [0, 1, 2, 3] (assigns_plxPort iio slotAocFlag)
  intro work
  unfold finishIio
  dsimp only
  split
  · exact bridges work
  · exact bridges work

/-- The round of an IIO enables the listed ports. -/
theorem assigns_bifurcateIio (defaults : Defaults) (slotAoc slotAocFlag : BitVec 64) :
    Assigns (bifurcateIio defaults slotAoc slotAocFlag iio rpBifurcate extendFlag)
      ((enabledPorts (defaults.own iio) (defaults.tested iio) rpBifurcate extendFlag).map
        (Place.mk iio)) := by
  have finished {step : Work → Work} {places : List Place} (assigned : Assigns step places) :
      Assigns (fun work => finishIio iio slotAoc slotAocFlag (step work)) places :=
    assigned.card Assigns.refl (assigns_finishIio iio slotAoc slotAocFlag)
  have lower : Assigns
      (fun work => if rpBifurcate &&& 0x0f = 0x02 then lowHalf iio extendFlag work else work)
      ((lowerPorts rpBifurcate extendFlag).map (Place.mk iio)) := by
    rw [lowerPorts, apply_ite (List.map (Place.mk iio))]
    exact Assigns.ite (assigns_lowHalf iio extendFlag) Assigns.refl
  have upper : Assigns
      (fun work => if rpBifurcate &&& 0xf0 = 0x20 then highHalf iio extendFlag work else work)
      ((upperPorts rpBifurcate extendFlag).map (Place.mk iio)) := by
    rw [upperPorts, apply_ite (List.map (Place.mk iio))]
    exact Assigns.ite (assigns_highHalf iio extendFlag) Assigns.refl
  have singles := finished ((assigns_singleDrives iio rpBifurcate).comp (upper.comp lower))
  unfold enabledPorts
  simp only [apply_ite (List.map (Place.mk iio)), List.map_append]
  apply Assigns.ite
  · exact Assigns.ite Assigns.refl (finished (assigns_x16Card iio extendFlag))
  · apply Assigns.ite
    · exact Assigns.ite Assigns.refl (finished (assigns_reversedCard iio))
    · exact Assigns.ite Assigns.refl (Assigns.ite lower singles)

end Layouts

section Calls

/-- The ports that the round of a byte enables. -/
def roundPlaces (inputs : Inputs) (i : Nat) : List Place :=
  let rpBifurcate := field 8 inputs.slotAoc (i * 8)
  let extendFlag := field 8 inputs.slotAocFlag (i * 8)
  match iioAt i with
  | none => []
  | some iio =>
    if rpBifurcate = 0 ∧ extendFlag = 0 then []
    else (enabledPorts (inputs.defaults.own iio) (inputs.defaults.tested iio) rpBifurcate
      extendFlag).map (Place.mk iio)

/-- The ports that the call enables, in order. -/
def assigned (inputs : Inputs) : List Place :=
  (List.range 8).flatMap (roundPlaces inputs)

/-- A round takes the addresses of the places that it enables. -/
theorem assigns_round (inputs : Inputs) (i : Nat) :
    Assigns (fun work => round inputs.defaults inputs.slotAoc inputs.slotAocFlag work i)
      (roundPlaces inputs i) := by
  unfold round roundPlaces
  dsimp only
  cases iioAt i with
  | none => exact Assigns.refl
  | some iio =>
    exact Assigns.ite Assigns.refl
      (assigns_bifurcateIio iio _ _ inputs.defaults inputs.slotAoc inputs.slotAocFlag)

/-- The Vpp fields before the call, with the counters at zero. -/
def Inputs.vppStart (inputs : Inputs) : VppState :=
  (⟨inputs.config, 0, 0, 0, inputs.nvmeMode⟩ : Work).vpp

/-- The call enables the listed ports and no other. -/
theorem result_vpp (inputs : Inputs) :
    inputs.result.vpp = (assigned inputs).foldl VppState.assign inputs.vppStart :=
  Assigns.foldl (List.range 8) (assigns_round inputs) _

end Calls

section Once

/-- No port comes twice, in either order. -/
theorem byLanes_nodup (flag normal reversed : BitVec 8) (ports : List (Fin 4))
    (once : ports.Nodup) : (byLanes flag normal reversed ports).Nodup := by
  unfold byLanes
  split_ifs
  · exact once
  · exact (List.reverse_perm ports).nodup_iff.mpr once
  · exact List.nodup_nil

/-- Only ports of the list are enabled. -/
theorem mem_byLanes {flag normal reversed : BitVec 8} {ports : List (Fin 4)} {port : Fin 4}
    (inside : port ∈ byLanes flag normal reversed ports) : port ∈ ports := by
  unfold byLanes at inside
  split_ifs at inside
  · exact inside
  · exact List.mem_reverse.mp inside
  · exact absurd inside List.not_mem_nil

variable {rpBifurcate extendFlag : BitVec 8} {port : Fin 4}

/-- The lower half enables no port twice, also where a card and drives are named at once. -/
theorem lowerPorts_nodup : (lowerPorts rpBifurcate extendFlag).Nodup := by
  unfold lowerPorts
  split
  · exact byLanes_nodup _ _ _ _ (by decide)
  · exact List.nodup_nil

/-- Nor does the upper half. -/
theorem upperPorts_nodup : (upperPorts rpBifurcate extendFlag).Nodup := by
  unfold upperPorts
  split
  · exact byLanes_nodup _ _ _ _ (by decide)
  · exact List.nodup_nil

/-- The lower half's digit names no drive at a port of that half. -/
theorem mem_lowerPorts (inside : port ∈ lowerPorts rpBifurcate extendFlag) :
    port < 2 ∧ rpBifurcate.getLsbD (2 * port.val) = false := by
  unfold lowerPorts at inside
  split at inside
  case isFalse => exact absurd inside List.not_mem_nil
  case isTrue low =>
    have bits (i : Nat) : (rpBifurcate &&& 0x0f).getLsbD i = (0x02 : BitVec 8).getLsbD i := by
      rw [low]
    have half := mem_byLanes inside
    simp only [List.mem_cons, List.not_mem_nil, or_false] at half
    obtain rfl | rfl := half
    · exact ⟨by decide, by simpa using bits 0⟩
    · exact ⟨by decide, by simpa using bits 2⟩

/-- The upper half's digit names no drive at a port of that half. -/
theorem mem_upperPorts (inside : port ∈ upperPorts rpBifurcate extendFlag) :
    2 ≤ port ∧ rpBifurcate.getLsbD (2 * port.val) = false := by
  unfold upperPorts at inside
  split at inside
  case isFalse => exact absurd inside List.not_mem_nil
  case isTrue high =>
    have bits (i : Nat) : (rpBifurcate &&& 0xf0).getLsbD i = (0x20 : BitVec 8).getLsbD i := by
      rw [high]
    have half := mem_byLanes inside
    simp only [List.mem_cons, List.not_mem_nil, or_false] at half
    obtain rfl | rfl := half
    · exact ⟨by decide, by simpa using bits 4⟩
    · have last : rpBifurcate.getLsbD 6 = false := by simpa using bits 6
      exact ⟨by decide, last⟩

/-- A port that is enabled for a drive has one. -/
theorem mem_singlePorts (inside : port ∈ singlePorts rpBifurcate) :
    rpBifurcate.getLsbD (2 * port.val) = true := by
  simpa using (List.mem_filter.mp inside).2

/-- The branches of one round enable no port twice: the halves are apart, and a drive of
    its own is at no port of a half that has a card. -/
theorem enabledPorts_nodup (own tested : UInt8) :
    (enabledPorts own tested rpBifurcate extendFlag).Nodup := by
  have halves : (lowerPorts rpBifurcate extendFlag ++ upperPorts rpBifurcate extendFlag).Nodup := by
    refine List.nodup_append.mpr ⟨lowerPorts_nodup, upperPorts_nodup, ?_⟩
    rintro port lower _ upper rfl
    exact absurd (mem_lowerPorts lower).1 (Fin.not_lt.mpr (mem_upperPorts upper).1)
  have all : (lowerPorts rpBifurcate extendFlag ++ upperPorts rpBifurcate extendFlag ++
      singlePorts rpBifurcate).Nodup := by
    refine List.nodup_append.mpr ⟨halves, List.Nodup.filter _ (by decide), ?_⟩
    rintro port half _ single rfl
    have drive := mem_singlePorts single
    obtain lower | upper := List.mem_append.mp half
    · exact absurd drive (Bool.eq_false_iff.mp (mem_lowerPorts lower).2)
    · exact absurd drive (Bool.eq_false_iff.mp (mem_upperPorts upper).2)
  unfold enabledPorts
  split_ifs
  · exact List.nodup_nil
  · exact byLanes_nodup _ _ _ _ (by decide)
  · exact List.nodup_nil
  · decide
  · exact List.nodup_nil
  · exact lowerPorts_nodup
  · exact all

/-- The places of a round are those of its IIO. -/
theorem roundPlaces_iio {inputs : Inputs} {i : Nat} {place : Place}
    (inside : place ∈ roundPlaces inputs i) : iioAt i = some place.iio := by
  unfold roundPlaces at inside
  cases here : iioAt i with
  | none => simp [here] at inside
  | some iio =>
    simp only [here] at inside
    split at inside
    · exact absurd inside List.not_mem_nil
    · obtain ⟨port, -, rfl⟩ := List.mem_map.mp inside
      rfl

/-- A round enables no place twice. -/
theorem roundPlaces_nodup (inputs : Inputs) (i : Nat) : (roundPlaces inputs i).Nodup := by
  unfold roundPlaces
  dsimp only
  cases iioAt i with
  | none => exact List.nodup_nil
  | some iio =>
    dsimp only
    split
    · exact List.nodup_nil
    · refine List.Nodup.map ?_ (enabledPorts_nodup _ _)
      intro first second same
      exact (Place.mk.inj same).2

/-- Each IIO has one round. -/
theorem number_of_iioAt {i : Nat} {iio : Iio} (here : iioAt i = some iio) : i = iio.number := by
  unfold iioAt at here
  split at here
  · obtain rfl := Option.some.inj here
    simp only [Iio.number]
    omega
  · exact absurd here (by simp)

/-- No port is enabled twice in a call. -/
theorem assigned_nodup (inputs : Inputs) : (assigned inputs).Nodup := by
  refine List.nodup_flatMap.mpr ⟨fun i _ => roundPlaces_nodup inputs i, ?_⟩
  refine List.nodup_range.imp ?_
  intro i j apart place inFirst inSecond
  have first := number_of_iioAt (roundPlaces_iio inFirst)
  have second := number_of_iioAt (roundPlaces_iio inSecond)
  exact apart (first.trans second.symm)

end Once

section Addresses

/-- The address that the n-th enabled port of a processor takes. -/
def nthAddress (n : Nat) : UInt8 × UInt8 :=
  (UInt8.ofNat n &&& 0x01, UInt8.ofNat n &&& 0x0e)

/-- `VppPort` and `VppAddress` of a place. -/
def VppState.addressOf (state : VppState) (place : Place) : UInt8 × UInt8 :=
  (state.port place.index, state.address place.index)

/-- The four bits in use tell sixteen values of a counter apart. -/
theorem nthAddress_inj :
    ∀ first : Fin 16, ∀ second : Fin 16, nthAddress first = nthAddress second → first = second := by
  decide

/-- The ports of a processor among the places. -/
def ofCpu (cpu : Fin 2) (places : List Place) : Nat :=
  places.countP fun place => place.iio.cpuNum = cpu

/-- The twelve places of a processor. -/
def cpuPlaces (cpu : Fin 2) : List Place :=
  [(0 : Fin 3), 1, 2].flatMap fun number =>
    [(0 : Fin 4), 1, 2, 3].map fun port => ⟨⟨cpu, number⟩, port⟩

/-- A processor has twelve ports. -/
theorem ofCpu_le (cpu : Fin 2) {places : List Place} (once : places.Nodup) :
    ofCpu cpu places ≤ 12 := by
  have inside : places.filter (fun place => place.iio.cpuNum = cpu) ⊆ cpuPlaces cpu := by
    intro place member
    have own : place.iio.cpuNum = cpu := by simpa using (List.mem_filter.mp member).2
    have every : ∀ (cpu : Fin 2) (number : Fin 3) (port : Fin 4),
        (⟨⟨cpu, number⟩, port⟩ : Place) ∈ cpuPlaces cpu := by
      decide
    subst own
    exact every place.iio.cpuNum place.iio.iioNum place.port
  have bounded := (List.Nodup.subperm (once.filter _) inside).length_le
  have twelve : ∀ cpu, (cpuPlaces cpu).length = 12 := by decide
  rwa [twelve, ← List.countP_eq_length_filter] at bounded

/-- The fields after a list of places was enabled from counters at zero: each counter has
    counted its ports, and each port has the address of its turn. -/
structure HandedOut (places : List Place) (state : VppState) : Prop where
  counted : ∀ cpu, state.counter cpu = UInt8.ofNat (ofCpu cpu places)
  turn : ∀ place ∈ places, ∃ n < ofCpu place.iio.cpuNum places,
    state.addressOf place = nthAddress n
  apart : places.Pairwise fun first second =>
    first.iio.cpuNum = second.iio.cpuNum → state.addressOf first ≠ state.addressOf second

variable {state : VppState} {places : List Place} {place other : Place}

/-- A place gets the port bit and the address from the counter of its processor. -/
theorem addressOf_assign_self :
    (state.assign place).addressOf place =
      (state.counter place.iio.cpuNum &&& 0x01, state.counter place.iio.cpuNum &&& 0x0e) := by
  simp [VppState.addressOf, VppState.assign]

/-- The other places keep what they have. -/
theorem addressOf_assign_other (different : other ≠ place) :
    (state.assign place).addressOf other = state.addressOf other := by
  have indices : other.index ≠ place.index := mt Place.index_inj.mp different
  simp [VppState.addressOf, VppState.assign, indices]

/-- The counter of the processor is counted up, that of the other one is not. -/
theorem counter_assign (cpu : Fin 2) :
    (state.assign place).counter cpu =
      if cpu = place.iio.cpuNum then state.counter cpu + 1 else state.counter cpu := by
  by_cases own : place.iio.cpuNum = 0
  · by_cases here : cpu = 0 <;> simp [VppState.counter, VppState.assign, own, here]
  · have second : place.iio.cpuNum = 1 := by omega
    by_cases here : cpu = 0
    · simp [VppState.counter, VppState.assign, second, here]
    · have other : cpu = 1 := by omega
      simp [VppState.counter, VppState.assign, second, other]

/-- The places of a processor are counted one by one. -/
theorem ofCpu_snoc (cpu : Fin 2) :
    ofCpu cpu (places ++ [place]) =
      if cpu = place.iio.cpuNum then ofCpu cpu places + 1 else ofCpu cpu places := by
  by_cases own : cpu = place.iio.cpuNum
  · simp [ofCpu, own]
  · simp [ofCpu, own, eq_comm]

/-- One more port: the counter's bits are those of no port of the processor before it. -/
theorem HandedOut.snoc (handedOut : HandedOut places state) (once : (places ++ [place]).Nodup) :
    HandedOut (places ++ [place]) (state.assign place) := by
  have fresh : ∀ earlier ∈ places, earlier ≠ place := by
    intro earlier inside same
    exact (List.nodup_append.mp once).2.2 earlier inside place (by simp) same
  have few : ofCpu place.iio.cpuNum places < 16 :=
    Nat.lt_of_le_of_lt (ofCpu_le _ (List.nodup_append.mp once).1) (by decide)
  have taken : (state.assign place).addressOf place =
      nthAddress (ofCpu place.iio.cpuNum places) := by
    rw [addressOf_assign_self, handedOut.counted]
    rfl
  refine ⟨?_, ?_, ?_⟩
  · intro cpu
    rw [counter_assign, ofCpu_snoc, handedOut.counted]
    split
    · exact (UInt8.ofNat_add _ _).symm
    · rfl
  · intro asked inside
    obtain earlier | last := List.mem_append.mp inside
    · obtain ⟨n, before, address⟩ := handedOut.turn asked earlier
      refine ⟨n, ?_, (addressOf_assign_other (fresh asked earlier)).trans address⟩
      rw [ofCpu_snoc]
      split <;> omega
    · obtain rfl := List.mem_singleton.mp last
      refine ⟨ofCpu asked.iio.cpuNum places, ?_, taken⟩
      rw [ofCpu_snoc, if_pos rfl]
      exact Nat.lt_succ_self _
  · refine List.pairwise_append.mpr ⟨?_, List.pairwise_singleton _ _, ?_⟩
    · refine handedOut.apart.imp_of_mem ?_
      intro first second inFirst inSecond distinct sameCpu
      rw [addressOf_assign_other (fresh first inFirst),
        addressOf_assign_other (fresh second inSecond)]
      exact distinct sameCpu
    · intro earlier inside last isLast sameCpu
      obtain rfl := List.mem_singleton.mp isLast
      obtain ⟨n, before, address⟩ := handedOut.turn earlier inside
      rw [sameCpu] at before
      rw [addressOf_assign_other (fresh earlier inside), address, taken]
      intro same
      have turns := nthAddress_inj ⟨n, Nat.lt_trans before few⟩ ⟨_, few⟩ same
      exact absurd (Fin.mk.inj turns) (Nat.ne_of_lt before)

/-- From counters at zero on, the places that were enabled have been handed out different pairs.
-/
theorem handedOut_run (start : VppState) (zero : ∀ cpu, start.counter cpu = 0)
    (places : List Place) (once : places.Nodup) :
    HandedOut places (places.foldl VppState.assign start) := by
  induction places using List.reverseRecOn with
  | nil =>
    refine ⟨?_, ?_, List.Pairwise.nil⟩
    · intro cpu
      exact zero cpu
    · intro place inside
      exact absurd inside List.not_mem_nil
  | append_singleton before place inductionHypothesis =>
    rw [List.foldl_append, List.foldl_cons, List.foldl_nil]
    exact (inductionHypothesis (List.nodup_append.mp once).1).snoc once

end Addresses

section Unique

/-- The ports that a call enables: it acts on the Vpp fields by enabling the listed ports,
    it enables no port twice, and no two ports of a processor get the same pair of
    `VppPort` and `VppAddress`. -/
theorem vpp_unique (inputs : Inputs) :
    inputs.result.vpp = (assigned inputs).foldl VppState.assign inputs.vppStart ∧
      (assigned inputs).Nodup ∧
      (assigned inputs).Pairwise fun first second =>
        first.iio.cpuNum = second.iio.cpuNum →
          (inputs.result.config.vppPort first.index, inputs.result.config.vppAddress first.index) ≠
            (inputs.result.config.vppPort second.index,
              inputs.result.config.vppAddress second.index) := by
  have once := assigned_nodup inputs
  have run := result_vpp inputs
  have zero : ∀ cpu, inputs.vppStart.counter cpu = 0 := by
    intro cpu
    unfold VppState.counter
    split <;> rfl
  have handedOut := handedOut_run inputs.vppStart zero (assigned inputs) once
  rw [← run] at handedOut
  exact ⟨run, once, handedOut.apart⟩

end Unique

end SmcPkg.Bifurcation
