import Mathlib

/-!
# Boot device by software SMI

Four SMIs with the bytes of a name unlock the handler, and the next one selects the device that
is to be first in the boot order. The handler moves it there in the Setup variable: it reads
the variable, fills an array with the other devices, and writes the variable back. Neither the
selection nor the status of the read decides whether it goes on, so both can be stack contents.

The contents of the Setup variable and of the stack are arbitrary. That only one SMI is handled
at a time is assumed, as the hardware has it.
-/

namespace SmcPkg.SwSmi

section Model

/-- `FIXED_BOOT_ORDER_GROUP_MAX_NUM`. -/
def groupMaxNum : Nat := 18

/-- `SETUP_DATA`: its array `DualPriorities`, and all other bytes. -/
structure SetupData where
  dualPriorities : List UInt16
  others : List UInt8
  size : dualPriorities.length = 32
  deriving DecidableEq

/-- An SMI: the byte at port 0xB3, the Setup variable that it finds, with both devices in its
list, and whether the variable is read and written. -/
structure Smi where
  data : UInt8
  setup : SetupData
  distinct : setup.dualPriorities.Nodup
  shell : 7 ∈ setup.dualPriorities
  pxe : 14 ∈ setup.dualPriorities
  reads : Bool
  writes : Bool

/-- What the stack holds: `NewBootOrder[0]` and `SetupData`. -/
structure Stack where
  newBootOrder : UInt16
  setupData : SetupData

/-- `SMCI_Flag` after the tests of the byte. -/
def nextFlag (smciFlag bootSelect : UInt8) : UInt8 :=
  if smciFlag = 0 ∧ bootSelect = 0x53 then 1
  else if smciFlag = 1 ∧ bootSelect = 0x4D then 2
  else if smciFlag = 2 ∧ bootSelect = 0x43 then 3
  else if smciFlag = 3 ∧ bootSelect = 0x49 then 4
  else if smciFlag = 4 then 5
  else 0

/-- The loop that fills `NewBootOrder`, over the priorities from an index on, until there are
enough. There is no result when the index leaves the array. -/
def fillOrder (first : UInt16) : List UInt16 → Nat → Option (List UInt16)
  | _, 0 => some []
  | [], _ + 1 => none
  | priority :: rest, missing + 1 =>
    if first = priority then fillOrder first rest (missing + 1)
    else (fillOrder first rest missing).map (priority :: ·)

/-- `NewBootOrder[0]`. -/
def selected (bootSelect : UInt8) (stack : Stack) : UInt16 :=
  if bootSelect = 0xC0 then 7 else if bootSelect = 0xC1 then 14 else stack.newBootOrder

/-- The Setup variable after `SmcSwSMIHandler` has reached the flag 5. -/
def reorder (smi : Smi) (stack : Stack) : Option SetupData :=
  let setupData := if smi.reads then smi.setup else stack.setupData
  let first := selected smi.data stack
  match fillOrder first setupData.dualPriorities (groupMaxNum - 1) with
  | none => none
  | some filled =>
    let priorities := (first :: filled) ++ setupData.dualPriorities.drop groupMaxNum
    if smi.writes then
      if sized : priorities.length = 32 then some ⟨priorities, setupData.others, sized⟩ else none
    else some smi.setup

/-- `SmcSwSMIHandler`: the flag and the Setup variable afterwards. -/
def smcSwSmiHandler (smciFlag : UInt8) (smi : Smi) (stack : Stack) : Option (UInt8 × SetupData) :=
  if nextFlag smciFlag smi.data = 5 then (reorder smi stack).map (fun setup => (0, setup))
  else some (nextFlag smciFlag smi.data, smi.setup)

/-- `SMCI_Flag` after some SMIs. The handler clears it again when it has reached 5. -/
def flagAfter (smis : List Smi) : UInt8 :=
  smis.foldl (fun flag smi => if nextFlag flag smi.data = 5 then 0 else nextFlag flag smi.data) 0

end Model

section Purpose

/-- The devices that can be selected. -/
def device (data : UInt8) : Option UInt16 :=
  if data = 0xC0 then some 7 else if data = 0xC1 then some 14 else none

/-- The device goes to the front and the others keep their order. -/
def movedToFront (setup : SetupData) (chosen : UInt16) : List UInt16 :=
  chosen :: setup.dualPriorities.erase chosen

/-- The last SMIs carry these bytes. -/
def Carries (smis : List Smi) (bytes : List UInt8) : Prop := bytes <:+ smis.map Smi.data

/-- What an SMI may do to Setup: nothing, or move the selected device to the front when it
follows the four bytes and has read the variable. -/
structure Permitted (before : List Smi) (smi : Smi) (setup : SetupData) : Prop where
  unlocked : Carries before [0x53, 0x4D, 0x43, 0x49]
  selects : ∃ chosen, device smi.data = some chosen ∧
    setup.dualPriorities = movedToFront smi.setup chosen
  reads : smi.reads = true
  others : setup.others = smi.setup.others

/-- Whatever the stacks hold, no index leaves the arrays in a sequence of SMIs, and Setup
changes as permitted only. -/
def Guarded (smis : List Smi) : Prop :=
  ∀ before smi rest, smis = before ++ smi :: rest → ∀ stack, ∃ flag setup,
    smcSwSmiHandler (flagAfter before) smi stack = some (flag, setup) ∧
      (setup ≠ smi.setup → Permitted before smi setup)

/-- An unlocked SMI reads Setup, and it selects a device among those that the handler moves
unless its write fails. -/
def Careful (smis : List Smi) : Prop :=
  ∀ before smi rest, smis = before ++ smi :: rest → flagAfter before = 4 →
    smi.reads = true ∧ (smi.writes = true →
      ∃ chosen, device smi.data = some chosen ∧
        chosen ∈ smi.setup.dualPriorities.take groupMaxNum)

end Purpose

section Recogniser

variable {smis : List Smi} {smi : Smi}

/-- The last letter is only taken behind the four others. -/
theorem nextFlag_five_iff {flag data : UInt8} : nextFlag flag data = 5 ↔ flag = 4 := by
  rw [nextFlag]
  split_ifs <;> simp_all

/-- The letters are counted SMI by SMI, and from the beginning behind the last one. -/
theorem flagAfter_snoc :
    flagAfter (smis ++ [smi]) =
      if nextFlag (flagAfter smis) smi.data = 5 then 0 else nextFlag (flagAfter smis) smi.data := by
  rw [flagAfter, List.foldl_append]
  rfl

/-- What is carried goes on with the next byte. -/
theorem carries_snoc {bytes : List UInt8} (carries : Carries smis bytes) :
    Carries (smis ++ [smi]) (bytes ++ [smi.data]) := by
  obtain ⟨earlier, whole⟩ := carries
  refine ⟨earlier, ?_⟩
  rw [List.map_append, ← whole, List.append_assoc]
  rfl

/-- The flag counts the bytes of the name that have come last. -/
theorem carries_flag (smis : List Smi) :
    flagAfter smis = 0 ∨ flagAfter smis = 1 ∧ Carries smis [0x53] ∨
      flagAfter smis = 2 ∧ Carries smis [0x53, 0x4D] ∨
      flagAfter smis = 3 ∧ Carries smis [0x53, 0x4D, 0x43] ∨
      flagAfter smis = 4 ∧ Carries smis [0x53, 0x4D, 0x43, 0x49] := by
  induction smis using List.reverseRecOn with
  | nil => exact Or.inl rfl
  | append_singleton smis smi inductionHypothesis =>
    rw [flagAfter_snoc]
    rcases inductionHypothesis with flag | ⟨flag, carries⟩ | ⟨flag, carries⟩ | ⟨flag, carries⟩ |
      ⟨flag, carries⟩
    · rw [flag]
      by_cases byte : smi.data = 0x53
      · refine Or.inr (Or.inl ⟨by rw [byte]; decide, ?_⟩)
        have found := @carries_snoc smis smi [] List.nil_suffix
        rwa [byte] at found
      · left
        simp [nextFlag, byte]
    · rw [flag]
      by_cases byte : smi.data = 0x4D
      · refine Or.inr (Or.inr (Or.inl ⟨by rw [byte]; decide, ?_⟩))
        have found := @carries_snoc smis smi _ carries
        rwa [byte] at found
      · left
        simp [nextFlag, byte]
    · rw [flag]
      by_cases byte : smi.data = 0x43
      · refine Or.inr (Or.inr (Or.inr (Or.inl ⟨by rw [byte]; decide, ?_⟩)))
        have found := @carries_snoc smis smi _ carries
        rwa [byte] at found
      · left
        simp [nextFlag, byte]
    · rw [flag]
      by_cases byte : smi.data = 0x49
      · refine Or.inr (Or.inr (Or.inr (Or.inr ⟨by rw [byte]; decide, ?_⟩)))
        have found := @carries_snoc smis smi _ carries
        rwa [byte] at found
      · left
        simp [nextFlag, byte]
    · left
      rw [flag, if_pos (nextFlag_five_iff.mpr rfl)]

/-- Unlocked means that the four letters have come last. -/
theorem carries_unlocked (unlocked : flagAfter smis = 4) :
    Carries smis [0x53, 0x4D, 0x43, 0x49] := by
  rcases carries_flag smis with flag | ⟨flag, -⟩ | ⟨flag, -⟩ | ⟨flag, -⟩ | ⟨-, carries⟩
  · exact absurd (flag.symm.trans unlocked) (by decide)
  · exact absurd (flag.symm.trans unlocked) (by decide)
  · exact absurd (flag.symm.trans unlocked) (by decide)
  · exact absurd (flag.symm.trans unlocked) (by decide)
  · exact carries

end Recogniser

section Order

variable {first : UInt16} {priorities : List UInt16} {missing : Nat}

/-- Without the device the array is filled with the first priorities. -/
theorem fillOrder_absent (absent : first ∉ priorities.take missing)
    (room : missing ≤ priorities.length) :
    fillOrder first priorities missing = some (priorities.take missing) := by
  induction priorities generalizing missing with
  | nil =>
    obtain rfl : missing = 0 := Nat.le_zero.mp room
    rfl
  | cons priority rest inductionHypothesis =>
    cases missing with
    | zero => rfl
    | succ missing =>
      rw [List.take_succ_cons, List.mem_cons, not_or] at absent
      rw [fillOrder, if_neg absent.1, inductionHypothesis absent.2 (by simpa using room)]
      rfl

/-- Otherwise it is filled with the priorities around it. -/
theorem fillOrder_present (present : first ∈ priorities.take (missing + 1))
    (distinct : priorities.Nodup) (room : missing + 1 ≤ priorities.length) :
    fillOrder first priorities missing = some ((priorities.erase first).take missing) := by
  induction priorities generalizing missing with
  | nil => simp at present
  | cons priority rest inductionHypothesis =>
    rw [List.nodup_cons] at distinct
    rw [List.take_succ_cons, List.mem_cons] at present
    rw [List.length_cons, Nat.add_le_add_iff_right] at room
    cases missing with
    | zero => cases rest <;> rfl
    | succ missing =>
      by_cases here : first = priority
      · subst here
        rw [fillOrder, if_pos rfl, List.erase_cons_head]
        exact fillOrder_absent (fun member => distinct.1 (List.mem_of_mem_take member)) room
      · rw [fillOrder, if_neg here, List.erase_cons_tail (by simpa using Ne.symm here),
          inductionHypothesis (present.resolve_left here) distinct.2 room]
        rfl

/-- With nothing else in the array the index leaves it. -/
theorem fillOrder_same (count : Nat) :
    fillOrder first (List.replicate count first) (missing + 1) = none := by
  induction count with
  | zero => rfl
  | succ count inductionHypothesis =>
    rw [List.replicate_succ, fillOrder, if_pos rfl, inductionHypothesis]

/-- What is filled in, the device in front of it and the priorities behind it are the list with
the device moved to its front. -/
theorem moved (present : first ∈ priorities.take (missing + 1)) :
    (priorities.erase first).take missing ++ priorities.drop (missing + 1) =
      priorities.erase first := by
  have split : priorities.erase first =
      (priorities.take (missing + 1)).erase first ++ priorities.drop (missing + 1) := by
    rw [← List.erase_append_left _ present, List.take_append_drop]
  have front : ((priorities.take (missing + 1)).erase first).length ≤ missing := by
    have shorter := List.length_take_le (missing + 1) priorities
    rw [List.length_erase_of_mem present]
    omega
  by_cases short : priorities.length ≤ missing + 1
  · rw [split, List.drop_of_length_le short, List.append_nil, List.append_nil,
      List.take_of_length_le front]
  · have exact : ((priorities.take (missing + 1)).erase first).length = missing := by
      rw [List.length_erase_of_mem present, List.length_take]
      omega
    rw [split, List.take_append_of_le_length exact.ge, List.take_of_length_le front]

end Order

section Handler

variable {smi : Smi} {stack : Stack} {chosen : UInt16}

/-- A number of a device selects it. -/
theorem selected_device (found : device smi.data = some chosen) :
    selected smi.data stack = chosen := by
  rw [device] at found
  rw [selected]
  by_cases shell : smi.data = 0xC0
  · rw [if_pos shell] at found ⊢
    exact Option.some.inj found
  · rw [if_neg shell] at found ⊢
    by_cases pxe : smi.data = 0xC1
    · rw [if_pos pxe] at found ⊢
      exact Option.some.inj found
    · rw [if_neg pxe] at found
      cases found

/-- Another number selects what the stack holds. -/
theorem selected_garbage (nothing : device smi.data = none) :
    selected smi.data stack = stack.newBootOrder := by
  rw [device] at nothing
  rw [selected]
  split_ifs at nothing ⊢
  rfl

/-- The first entries and those that the handler leaves alone. -/
theorem size_split : (smi.setup.dualPriorities.take (groupMaxNum - 1)).length = 17 ∧
    (smi.setup.dualPriorities.drop groupMaxNum).length = 14 := by
  have size := smi.setup.size
  rw [List.length_take, List.length_drop, groupMaxNum]
  omega

/-- A device among the first entries is moved to the front. -/
theorem reorder_present (reads : smi.reads = true) (writes : smi.writes = true)
    (listed : selected smi.data stack ∈ smi.setup.dualPriorities.take groupMaxNum) :
    ∃ setup, reorder smi stack = some setup ∧
      setup.dualPriorities = movedToFront smi.setup (selected smi.data stack) ∧
      setup.others = smi.setup.others := by
  have size := smi.setup.size
  have filled := @fillOrder_present _ _ (groupMaxNum - 1) listed smi.distinct
    (by rw [size]; decide)
  have order : (selected smi.data stack :: (smi.setup.dualPriorities.erase
      (selected smi.data stack)).take (groupMaxNum - 1)) ++
        smi.setup.dualPriorities.drop groupMaxNum =
      movedToFront smi.setup (selected smi.data stack) := by
    rw [List.cons_append, movedToFront]
    exact congrArg _ (@moved _ _ (groupMaxNum - 1) listed)
  have sized : (movedToFront smi.setup (selected smi.data stack)).length = 32 := by
    rw [movedToFront, List.length_cons, List.length_erase_of_mem (List.mem_of_mem_take listed), size]
  refine ⟨⟨movedToFront smi.setup (selected smi.data stack), smi.setup.others, sized⟩, ?_, rfl, rfl⟩
  rw [reorder]
  simp only [reads, writes, if_true, filled, order, sized, dite_true]

/-- Any other value drives out the last of the first entries. -/
theorem reorder_absent (reads : smi.reads = true) (writes : smi.writes = true)
    (absent : selected smi.data stack ∉ smi.setup.dualPriorities.take groupMaxNum) :
    ∃ setup, reorder smi stack = some setup ∧
      setup.dualPriorities = selected smi.data stack ::
        (smi.setup.dualPriorities.take (groupMaxNum - 1) ++
          smi.setup.dualPriorities.drop groupMaxNum) := by
  have size := smi.setup.size
  obtain ⟨front, back⟩ := @size_split smi
  have early : selected smi.data stack ∉ smi.setup.dualPriorities.take (groupMaxNum - 1) :=
    fun member => absent ((List.take_subset_take_left _ (by decide)) member)
  have filled := @fillOrder_absent _ _ (groupMaxNum - 1) early (by rw [size]; decide)
  have sized : (selected smi.data stack :: (smi.setup.dualPriorities.take (groupMaxNum - 1) ++
      smi.setup.dualPriorities.drop groupMaxNum)).length = 32 := by
    rw [List.length_cons, List.length_append, front, back]
  refine ⟨⟨_, smi.setup.others, sized⟩, ?_, rfl⟩
  rw [reorder]
  simp only [reads, writes, if_true, filled, List.cons_append, sized, dite_true]

/-- Either way the selected value comes first. -/
theorem reorder_head (reads : smi.reads = true) (writes : smi.writes = true) :
    ∃ setup, reorder smi stack = some setup ∧
      setup.dualPriorities.head? = some (selected smi.data stack) := by
  by_cases listed : selected smi.data stack ∈ smi.setup.dualPriorities.take groupMaxNum
  · obtain ⟨setup, ran, order, -⟩ := reorder_present reads writes listed
    exact ⟨setup, ran, by rw [order, movedToFront, List.head?_cons]⟩
  · obtain ⟨setup, ran, order⟩ := reorder_absent reads writes listed
    exact ⟨setup, ran, by rw [order, List.head?_cons]⟩

/-- When Setup is not read, the stack can hold an array that the index leaves. -/
theorem reorder_unread (unread : smi.reads = false) : ∃ stack, reorder smi stack = none := by
  let first := selected smi.data ⟨0, smi.setup⟩
  refine ⟨⟨0, ⟨List.replicate 32 first, [], List.length_replicate⟩⟩, ?_⟩
  have same : selected smi.data ⟨0, ⟨List.replicate 32 first, [], List.length_replicate⟩⟩ =
      first := rfl
  rw [reorder]
  simp only [unread, Bool.false_eq_true, if_false, same]
  rw [show groupMaxNum - 1 = 16 + 1 from rfl, fillOrder_same]

/-- A device behind the first entries drives one of them out. -/
theorem not_moved (absent : chosen ∉ smi.setup.dualPriorities.take groupMaxNum) :
    smi.setup.dualPriorities.take (groupMaxNum - 1) ++ smi.setup.dualPriorities.drop groupMaxNum ≠
      smi.setup.dualPriorities.erase chosen := by
  intro same
  have size := smi.setup.size
  have inside : groupMaxNum - 1 < smi.setup.dualPriorities.length := by rw [size]; decide
  have lost : smi.setup.dualPriorities[groupMaxNum - 1] ∈ smi.setup.dualPriorities.erase chosen := by
    refine (List.mem_erase_of_ne ?_).mpr (List.getElem_mem inside)
    intro equal
    exact absent (equal ▸ List.mem_take_iff_getElem.mpr ⟨groupMaxNum - 1, by rw [size]; decide, rfl⟩)
  rw [← same, List.mem_append, List.mem_take_iff_getElem, List.mem_drop_iff_getElem] at lost
  rcases lost with ⟨i, below, equal⟩ | ⟨i, below, equal⟩
  · have place := (smi.distinct.getElem_inj_iff).mp equal
    omega
  · have place := (smi.distinct.getElem_inj_iff).mp equal
    simp only [groupMaxNum] at place
    omega

/-- When the variable is not written, nothing changes. -/
theorem reorder_unwritten (reads : smi.reads = true) (unwritten : smi.writes = false) :
    reorder smi stack = some smi.setup := by
  have size := smi.setup.size
  have filled : ∃ filled, fillOrder (selected smi.data stack) smi.setup.dualPriorities
      (groupMaxNum - 1) = some filled := by
    by_cases listed : selected smi.data stack ∈ smi.setup.dualPriorities.take groupMaxNum
    · exact ⟨_, @fillOrder_present _ _ (groupMaxNum - 1) listed smi.distinct
        (by rw [size]; decide)⟩
    · refine ⟨_, @fillOrder_absent _ _ (groupMaxNum - 1) (fun member => listed ?_)
        (by rw [size]; decide)⟩
      exact List.take_subset_take_left _ (by decide) member
  obtain ⟨filled, found⟩ := filled
  rw [reorder]
  simp only [reads, unwritten, if_true, found, Bool.false_eq_true, if_false]

end Handler

/-- Setup changes as permitted only, exactly if every unlocked SMI reads Setup and selects a device
among the first entries, or does not write. The SMIs are any sequence; each of them finds a Setup
variable and a stack of its own. -/
theorem swSmi_iff (smis : List Smi) : Guarded smis ↔ Careful smis := by
  constructor
  · intro guarded before smi rest split unlocked
    have five : nextFlag (flagAfter before) smi.data = 5 := nextFlag_five_iff.mpr unlocked
    have reads : smi.reads = true := by
      by_contra unread
      obtain ⟨stack, left⟩ := reorder_unread (Bool.eq_false_iff.mpr unread)
      obtain ⟨flag, setup, ran, -⟩ := guarded before smi rest split stack
      rw [smcSwSmiHandler, if_pos five, left] at ran
      cases ran
    refine ⟨reads, fun writes => ?_⟩
    have size := smi.setup.size
    cases selection : device smi.data with
    | none =>
      obtain ⟨top, others, order⟩ : ∃ top others, smi.setup.dualPriorities = top :: others :=
        List.exists_cons_of_length_pos (by rw [size]; decide)
      obtain ⟨setup, ran, head⟩ := @reorder_head smi ⟨top + 1, smi.setup⟩ reads writes
      obtain ⟨flag, later, handled, permitted⟩ := guarded before smi rest split ⟨top + 1, smi.setup⟩
      rw [smcSwSmiHandler, if_pos five, ran] at handled
      obtain ⟨-, rfl⟩ := Prod.mk.inj (Option.some.inj handled)
      have changed : setup ≠ smi.setup := by
        rintro rfl
        rw [order, List.head?_cons, selected_garbage selection] at head
        exact absurd (Option.some.inj head) (by simp)
      obtain ⟨chosen, found, -⟩ := (permitted changed).selects
      cases selection.symm.trans found
    | some chosen =>
      refine ⟨chosen, rfl, ?_⟩
      by_contra absent
      have picked : selected smi.data ⟨0, smi.setup⟩ = chosen := selected_device selection
      obtain ⟨setup, ran, order⟩ := @reorder_absent smi ⟨0, smi.setup⟩ reads writes
        (by rw [picked]; exact absent)
      obtain ⟨flag, later, handled, permitted⟩ := guarded before smi rest split ⟨0, smi.setup⟩
      rw [smcSwSmiHandler, if_pos five, ran] at handled
      obtain ⟨-, rfl⟩ := Prod.mk.inj (Option.some.inj handled)
      rw [picked] at order
      have changed : setup ≠ smi.setup := by
        rintro rfl
        apply absent
        rw [order]
        exact List.mem_cons_self
      obtain ⟨other, found, front⟩ := (permitted changed).selects
      obtain rfl := Option.some.inj (selection.symm.trans found)
      exact not_moved absent (List.cons.inj (order.symm.trans front)).2
  · intro careful before smi rest split stack
    by_cases unlocked : flagAfter before = 4
    · have five : nextFlag (flagAfter before) smi.data = 5 := nextFlag_five_iff.mpr unlocked
      obtain ⟨reads, selects⟩ := careful before smi rest split unlocked
      rw [smcSwSmiHandler, if_pos five]
      cases writes : smi.writes with
      | false =>
        rw [reorder_unwritten reads writes]
        exact ⟨0, smi.setup, rfl, fun changed => absurd rfl changed⟩
      | true =>
        obtain ⟨chosen, selection, listed⟩ := selects writes
        obtain ⟨setup, moved, order, others⟩ := @reorder_present smi stack reads writes
          (by rw [selected_device selection]; exact listed)
        rw [moved]
        rw [selected_device selection] at order
        exact ⟨0, setup, rfl, fun _ =>
          ⟨carries_unlocked unlocked, ⟨chosen, selection, order⟩, reads, others⟩⟩
    · refine ⟨nextFlag (flagAfter before) smi.data, smi.setup, ?_, fun changed => absurd rfl changed⟩
      rw [smcSwSmiHandler, if_neg (fun five => unlocked (nextFlag_five_iff.mp five))]

/-- The boot order 0, 1, 2 and so on. -/
def plainSetup : SetupData := ⟨(List.range 32).map UInt16.ofNat, [], rfl⟩

/-- An SMI with a byte, that finds the plain boot order. -/
def plainSmi (data : UInt8) : Smi :=
  ⟨data, plainSetup, by decide, by decide, by decide, true, true⟩

/-- After the four bytes a byte that selects no device writes what is on the stack. -/
theorem not_always_guarded : ¬ ∀ smis, Guarded smis := by
  intro always
  obtain ⟨flag, setup, ran, permitted⟩ :=
    always ([0x53, 0x4D, 0x43, 0x49, 0x00].map plainSmi)
      ([0x53, 0x4D, 0x43, 0x49].map plainSmi) (plainSmi 0x00) [] rfl ⟨0x1234, plainSetup⟩
  have reordered : (smcSwSmiHandler (flagAfter ([0x53, 0x4D, 0x43, 0x49].map plainSmi))
      (plainSmi 0x00) ⟨0x1234, plainSetup⟩).map Prod.snd ≠ some plainSetup := by decide +kernel
  have changed : setup ≠ plainSetup := by
    rintro rfl
    exact reordered (congrArg (Option.map Prod.snd) ran)
  obtain ⟨chosen, found, -⟩ := (permitted changed).selects
  exact Option.some_ne_none chosen found.symm

end SmcPkg.SwSmi
