import SmcPkg.Aoc.Bifurcation
import Mathlib.Data.List.Induction

/-!
# Bifurcation of the IIO ports for riser cards

`GetRiserCardBifuracate` of `SmcRiserCardCommon.c` walks the root ports of a
riser slot beside the widths that the card in it has at them, and rewrites the
lane split of an IIO port by port. The split that comes out is that of the row
of the layout table which the widths fit, whatever the order of the ports.

The branches of the switch for the three IIOs differ in the field they rewrite
only, and are one here, with the field as a parameter.

The tables of a board and of a card are arbitrary, as long as they fit each other
(`FittedCard`). `FittedCard.layout_perm` says that the split does not depend on the order of the
ports; what the other fields of `IIO_CONFIG` become is not covered.
-/

namespace SmcPkg.RiserCard

open Bifurcation

section Ports

/-- The four ports of an IIO: `P0PE1A` to `P0PE1D`. -/
inductive Letter where
  | a
  | b
  | c
  | d
deriving DecidableEq

def Letter.offset : Letter → UInt32
  | .a => 0x00
  | .b => 0x08
  | .c => 0x10
  | .d => 0x18

def letters : List Letter := [.a, .b, .c, .d]

def iios : List Iio := [⟨0, 0⟩, ⟨0, 1⟩, ⟨0, 2⟩, ⟨1, 0⟩, ⟨1, 1⟩, ⟨1, 2⟩]

/-- `SMC_IIO_PORT`: `P0PE1A` is `0x00110000`, `P1PE3D` is `0x00230018`. -/
def portValue (iio : Iio) (letter : Letter) : UInt32 :=
  0x00110000 + UInt32.ofNat iio.cpuNum.val * 0x00100000 +
    UInt32.ofNat iio.iioNum.val * 0x00010000 + letter.offset

/-- `P1PE0A`, the one port outside the IIOs that can be split. -/
def p1pe0a : UInt32 := 0x00200000

/-- `IIO_Port_Index`: the ports with their indices in the `SLOT` arrays. -/
def iioPortIndex : List (UInt32 × Nat) :=
  [(0x00110000, 1), (0x00110008, 2), (0x00110010, 3), (0x00110018, 4),
   (0x00120000, 5), (0x00120008, 6), (0x00120010, 7), (0x00120018, 8),
   (0x00130000, 9), (0x00130008, 10), (0x00130010, 11), (0x00130018, 12),
   (p1pe0a, 21),
   (0x00210000, 22), (0x00210008, 23), (0x00210010, 24), (0x00210018, 25),
   (0x00220000, 26), (0x00220008, 27), (0x00220010, 28), (0x00220018, 29),
   (0x00230000, 30), (0x00230008, 31), (0x00230010, 32), (0x00230018, 33)]

/-- The search of the table; an entry of no port is unused. -/
def rootPortIndex (port : UInt32) : Option Nat :=
  iioPortIndex.lookup port

/-- The labels of the switch, each with the IIO's number within its processor and the
    letter. -/
def switchLabels : List (UInt32 × Fin 3 × Letter) :=
  iios.flatMap fun iio => letters.map fun letter => (portValue iio letter, iio.iioNum, letter)

/-- The label that a port meets. -/
def switchLabel (port : UInt32) : Option (Fin 3 × Letter) :=
  switchLabels.lookup port

/-- The processor, by the comparison with `P1PE0A`. -/
def cpuOf (port : UInt32) : Fin 2 :=
  if port < p1pe0a then 0 else 1

/-- The list of the IIOs is complete. -/
theorem mem_iios (iio : Iio) : iio ∈ iios := by
  have listed : ∀ (cpu : Fin 2) (number : Fin 3), (⟨cpu, number⟩ : Iio) ∈ iios := by decide
  exact listed iio.cpuNum iio.iioNum

/-- The list of the letters is complete. -/
theorem mem_letters (letter : Letter) : letter ∈ letters := by
  cases letter <;> decide

/-- What the code derives from a port's value, for all ports at once. -/
theorem ports_known :
    ∀ iio ∈ iios, ∀ letter ∈ letters,
      (rootPortIndex (portValue iio letter)).isSome ∧
        switchLabel (portValue iio letter) = some (iio.iioNum, letter) ∧
        cpuOf (portValue iio letter) = iio.cpuNum := by
  decide

/-- The root port of an IIO and a letter has an index. -/
theorem rootPortIndex_value (iio : Iio) (letter : Letter) :
    (rootPortIndex (portValue iio letter)).isSome :=
  (ports_known iio (mem_iios iio) letter (mem_letters letter)).1

/-- The switch over the low part of a root port comes to the case of its IIO and letter. -/
theorem switchLabel_value (iio : Iio) (letter : Letter) :
    switchLabel (portValue iio letter) = some (iio.iioNum, letter) :=
  (ports_known iio (mem_iios iio) letter (mem_letters letter)).2.1

/-- The processor of a root port is that of its IIO. -/
theorem cpuOf_value (iio : Iio) (letter : Letter) : cpuOf (portValue iio letter) = iio.cpuNum :=
  (ports_known iio (mem_iios iio) letter (mem_letters letter)).2.2

/-- A label is met by the port it stands for alone. -/
theorem switchLabel_some (port : UInt32) (number : Fin 3) (letter : Letter)
    (met : switchLabel port = some (number, letter)) :
    port = portValue ⟨cpuOf port, number⟩ letter := by
  have labels : ∀ label ∈ switchLabels,
      label.1 = portValue ⟨cpuOf label.1, label.2.1⟩ label.2.2 := by
    decide
  obtain ⟨before, after, split, -⟩ := List.lookup_eq_some_iff.mp met
  have inside : (port, number, letter) ∈ switchLabels := by
    rw [split]
    simp
  exact labels _ inside

/-- Every entry of the table but `P1PE0A` is the port of an IIO. -/
example :
    ∀ entry ∈ iioPortIndex, entry.1 ≠ p1pe0a →
      ∃ iio ∈ iios, ∃ letter ∈ letters, entry.1 = portValue iio letter := by
  decide

end Ports

section Loop

/-- Widths of `RC_Bifurcate`. -/
abbrev x16 : UInt8 := 16
abbrev x8 : UInt8 := 8
abbrev x4 : UInt8 := 4

/-- The arrays of a riser card's row in `RC_Table` that the function reads. -/
structure RiserRow where
  rcBifurcate : Nat → UInt8
  slotNum : Nat → UInt8

/-- An entry of the board's table beside the card's entries of the same index. -/
structure Entry where
  port : UInt32
  bifurcate : UInt8
  slotNum : UInt8

def entriesOf (riser : RiserRow) (table : List UInt32) : List Entry :=
  table.mapIdx fun i port => ⟨port, riser.rcBifurcate i, riser.slotNum i⟩

/-- The reaction to a port of 8 lanes: the half it begins is one port again. -/
def joinHalf (other : UInt8) (alone : UInt8) (split : UInt8) : UInt8 :=
  if split = auto ∨ split = xxxxxx16 ∨ split = other then xxx8xxx8
  else if split = x4x4x4x4 then alone
  else split

/-- What the switch makes of the split, by the port's letter and its width. The label of
    A falls through to that of B, and the label of C to that of D. -/
def portSplit (letter : Letter) (width split : UInt8) : UInt8 :=
  match letter with
  | .a =>
    if width = x16 then xxxxxx16
    else if width = x8 then joinHalf xxx8x4x4 x4x4xxx8 split
    else if width = x4 then splitHalf xxx8x4x4 x4x4xxx8 split
    else split
  | .b => if width = x4 then splitHalf xxx8x4x4 x4x4xxx8 split else split
  | .c =>
    if width = x8 then joinHalf x4x4xxx8 xxx8x4x4 split
    else if width = x4 then splitHalf x4x4xxx8 xxx8x4x4 split
    else split
  | .d => if width = x4 then splitHalf x4x4xxx8 xxx8x4x4 split else split

/-- `ConfigIOU0` to `ConfigIOU2`. -/
def configIou (config : IioConfig) (iio : Iio) : UInt8 :=
  if iio.iioNum = 0 then config.configIou0 iio.cpuNum.val
  else if iio.iioNum = 1 then config.configIou1 iio.cpuNum.val
  else config.configIou2 iio.cpuNum.val

def setConfigIou (iio : Iio) (split : UInt8) (config : IioConfig) : IioConfig :=
  if iio.iioNum = 0 then
    { config with configIou0 := Function.update config.configIou0 iio.cpuNum.val split }
  else if iio.iioNum = 1 then
    { config with configIou1 := Function.update config.configIou1 iio.cpuNum.val split }
  else
    { config with configIou2 := Function.update config.configIou2 iio.cpuNum.val split }

/-- `SLOTIMP` and `SLOTPSP` of a root port. A number from `0x10` on is a device's. -/
def setSlot (slotNum : UInt8) (slot : SlotFields) : SlotFields :=
  { slot with
    slotImp := if slotNum ≠ 0 then 1 else slot.slotImp
    slotPsp := if slotNum < 0x10 then slotNum.toUInt16 else 0 }

/-- The switch. A choice of the user's is left alone. -/
def splitIou (defaults : Defaults) (entry : Entry) (config : IioConfig) : IioConfig :=
  match switchLabel entry.port with
  | none => config
  | some (iioNum, letter) =>
    let iio : Iio := ⟨cpuOf entry.port, iioNum⟩
    if defaults.own iio ≠ 0xff then config
    else setConfigIou iio (portSplit letter entry.bifurcate (configIou config iio)) config

/-- The loop's body. -/
def step (defaults : Defaults) (config : IioConfig) (entry : Entry) : IioConfig :=
  match rootPortIndex entry.port with
  | none => config
  | some rpIndex =>
    let slot := setSlot entry.slotNum (config.slots rpIndex)
    splitIou defaults entry
      { config with slots := Function.update config.slots rpIndex slot }

/-- `GetRiserCardBifuracate` on the board's table and the card's row. -/
def getRiserCardBifuracate (defaults : Defaults) (riser : RiserRow) (table : List UInt32)
    (config : IioConfig) : IioConfig :=
  (entriesOf riser table).foldl (step defaults) config

@[simp] theorem configIou_setConfigIou (iio other : Iio) (split : UInt8) (config : IioConfig) :
    configIou (setConfigIou iio split config) other =
      if other = iio then split else configIou config other := by
  rcases iio with ⟨cpu, number⟩
  rcases other with ⟨otherCpu, otherNumber⟩
  have cpus : (otherCpu.val = cpu.val) ↔ otherCpu = cpu := Fin.val_inj
  match number, otherNumber with
  | 0, 0 | 0, 1 | 0, 2 | 1, 0 | 1, 1 | 1, 2 | 2, 0 | 2, 1 | 2, 2 =>
    simp [configIou, setConfigIou, Function.update_apply, cpus]

end Loop

section Layouts

/-- A row of the layout table: the widths of the ports A to D. -/
structure LayoutRow where
  a : UInt8
  b : UInt8
  c : UInt8
  d : UInt8
deriving DecidableEq

def LayoutRow.width (row : LayoutRow) : Letter → UInt8
  | .a => row.a
  | .b => row.b
  | .c => row.c
  | .d => row.d

/-- The layout table. -/
def layoutTable : List LayoutRow :=
  [⟨x16, 0, 0, 0⟩, ⟨x8, 0, x8, 0⟩, ⟨x4, x4, x8, 0⟩, ⟨x8, 0, x4, x4⟩, ⟨x4, x4, x4, x4⟩]

/-- Whether an entry of `RC_Bifurcate` is a number of lanes of the table; `0` and `0xff`
    stand for no width. -/
def HasWidth (width : UInt8) : Prop :=
  width = x16 ∨ width = x8 ∨ width = x4

instance (width : UInt8) : Decidable (HasWidth width) :=
  inferInstanceAs (Decidable (_ ∨ _))

/-- Whether some entry lists the port with the width. -/
def listed (entries : List Entry) (iio : Iio) (letter : Letter) (width : UInt8) : Bool :=
  entries.any fun entry => entry.port == portValue iio letter && entry.bifurcate == width

/-- The layout with the named halves split. -/
def halves (lower upper : Bool) : UInt8 :=
  match lower, upper with
  | true, true => x4x4x4x4
  | true, false => xxx8x4x4
  | false, true => x4x4xxx8
  | false, false => xxx8xxx8

/-- The layout that the widths of an IIO's ports ask for: 16 lanes if A has them, AUTO if
    no port has a width, and else the layout with the halves split that have a port of 4. -/
def layout (width : Letter → UInt8 → Bool) : UInt8 :=
  if width .a x16 then xxxxxx16
  else if letters.all fun letter => !(width letter x16 || width letter x8 || width letter x4) then
    auto
  else halves (width .a x4 || width .b x4) (width .c x4 || width .d x4)

end Layouts

section Steps

variable (defaults : Defaults) (config : IioConfig) (entry : Entry) (iio : Iio)

/-- A port of another IIO, and an unused entry, leave the split. -/
theorem step_elsewhere (elsewhere : ∀ letter, entry.port ≠ portValue iio letter) :
    configIou (step defaults config entry) iio = configIou config iio := by
  unfold step
  cases rootPortIndex entry.port with
  | none => rfl
  | some rpIndex =>
    cases met : switchLabel entry.port with
    | none => simp [splitIou, met, configIou]
    | some label =>
      obtain ⟨number, letter⟩ := label
      have other : iio ≠ ⟨cpuOf entry.port, number⟩ := by
        rintro rfl
        exact elsewhere letter (switchLabel_some entry.port number letter met)
      simp only [splitIou, met]
      split
      · rfl
      · rw [configIou_setConfigIou, if_neg other]
        rfl

/-- A port of the IIO rewrites the split, unless the user chose one. -/
theorem step_port (letter : Letter) (port : entry.port = portValue iio letter) :
    configIou (step defaults config entry) iio =
      if defaults.own iio ≠ 0xff then configIou config iio
      else portSplit letter entry.bifurcate (configIou config iio) := by
  obtain ⟨rpIndex, indexed⟩ := Option.isSome_iff_exists.mp (rootPortIndex_value iio letter)
  simp only [step, port, indexed, splitIou, switchLabel_value, cpuOf_value]
  split
  · rfl
  · rw [configIou_setConfigIou, if_pos rfl]
    rfl

/-- The split of an IIO that the user chose is the user's to the end. -/
theorem run_chosen (chosen : defaults.own iio ≠ 0xff) (entries : List Entry) :
    configIou (entries.foldl (step defaults) config) iio = configIou config iio := by
  induction entries generalizing config with
  | nil => rfl
  | cons entry rest inductionHypothesis =>
    rw [List.foldl_cons, inductionHypothesis]
    by_cases port : ∃ letter, entry.port = portValue iio letter
    · obtain ⟨letter, port⟩ := port
      rw [step_port defaults config entry iio letter port, if_pos chosen]
    · exact step_elsewhere defaults config entry iio (not_exists.mp port)

end Steps

section Fitting

/-- The widths of an IIO's listed ports fit a row of the layout table. -/
def Fits (entries : List Entry) (iio : Iio) (row : LayoutRow) : Prop :=
  ∀ entry ∈ entries, ∀ letter, entry.port = portValue iio letter →
    HasWidth entry.bifurcate → entry.bifurcate = row.width letter

/-- Each port is listed at most once; unused entries may repeat. -/
def Distinct (table : List UInt32) : Prop :=
  table.Pairwise fun first second => (rootPortIndex first).isSome → first ≠ second

/-- The widths that are a row's, at the ports in use. -/
def ofRow (row : LayoutRow) (used : Letter → Bool) (letter : Letter) (width : UInt8) : Bool :=
  used letter && row.width letter == width

/-- The layout depends on the widths that there are, not on others that a field could hold. -/
theorem layout_congr {first second : Letter → UInt8 → Bool}
    (agree : ∀ letter width, HasWidth width → first letter width = second letter width) :
    layout first = layout second := by
  simp only [layout, agree _ x16 (.inl rfl), agree _ x8 (.inr (.inl rfl)),
    agree _ x4 (.inr (.inr rfl))]

/-- A set of ports by its four members. -/
def portSet (a b c d : Bool) : Letter → Bool
  | .a => a
  | .b => b
  | .c => c
  | .d => d

/-- A set of letters is the one of its members. -/
theorem portSet_self (used : Letter → Bool) :
    portSet (used .a) (used .b) (used .c) (used .d) = used := by
  funext letter
  cases letter <;> rfl

/-- One more port of a row in use: the split of the ports before, rewritten for this one,
    is the split of them all. -/
theorem layout_more (row : LayoutRow) (inTable : row ∈ layoutTable) (used : Letter → Bool)
    (letter : Letter) (fresh : used letter = false) (width : HasWidth (row.width letter)) :
    layout (ofRow row fun tested => used tested || tested == letter) =
      portSplit letter (row.width letter) (layout (ofRow row used)) := by
  have everySet : ∀ row ∈ layoutTable, ∀ letter ∈ letters, ∀ a b c d : Bool,
      portSet a b c d letter = false → HasWidth (row.width letter) →
        layout (ofRow row fun tested => portSet a b c d tested || tested == letter) =
          portSplit letter (row.width letter) (layout (ofRow row (portSet a b c d))) := by
    decide
  have here := everySet row inTable letter (mem_letters letter) (used .a) (used .b) (used .c)
    (used .d)
  rw [portSet_self] at here
  exact here fresh width

/-- A port without a width of the table rewrites nothing. -/
theorem portSplit_noWidth (letter : Letter) (width split : UInt8) (none : ¬ HasWidth width) :
    portSplit letter width split = split := by
  simp only [HasWidth, not_or] at none
  cases letter <;> simp [portSplit, none]

section Snoc

variable (entries : List Entry) (entry : Entry) (iio : Iio)

/-- What is listed behind one more entry was listed before or is that entry. -/
theorem listed_snoc (letter : Letter) (width : UInt8) :
    listed (entries ++ [entry]) iio letter width =
      (listed entries iio letter width ||
        (entry.port == portValue iio letter && entry.bifurcate == width)) := by
  simp [listed]

/-- The letters of an IIO have root ports of their own. -/
theorem portValue_inj (first second : Letter) :
    portValue iio first = portValue iio second ↔ first = second := by
  constructor
  · intro same
    have labels := congrArg switchLabel same
    simpa [switchLabel_value] using labels
  · rintro rfl
    rfl

/-- A listed width of the table is the row's. -/
theorem listed_fits {row : LayoutRow} (fits : Fits entries iio row) (letter : Letter)
    (width : UInt8) (hasWidth : HasWidth width) :
    listed entries iio letter width =
      ofRow row (fun tested => listed entries iio tested (row.width tested)) letter width := by
  by_cases own : row.width letter = width
  · simp [ofRow, own]
  · have unlisted : listed entries iio letter width = false := by
      simp only [listed, List.any_eq_false, Bool.and_eq_true, beq_iff_eq, not_and]
      rintro entry inside port rfl
      exact own (fits entry inside letter port hasWidth).symm
    simp [ofRow, own, unlisted]

/-- A port that comes later was not listed before. -/
theorem listed_fresh (letter : Letter) (port : entry.port = portValue iio letter)
    (distinct : Distinct ((entries ++ [entry]).map Entry.port)) (width : UInt8) :
    listed entries iio letter width = false := by
  simp only [listed, List.any_eq_false, Bool.and_eq_true, beq_iff_eq, not_and]
  intro earlier inside same
  rw [Distinct, List.map_append, List.pairwise_append] at distinct
  have differ := distinct.2.2 earlier.port (List.mem_map_of_mem inside) entry.port (by simp)
  rw [same, port] at differ
  exact absurd rfl (differ (rootPortIndex_value iio letter))

end Snoc

/-- The run: after the entries read so far, the IIO has the layout that they ask for. -/
theorem run_layout (defaults : Defaults) (config : IioConfig) (iio : Iio)
    (unchosen : defaults.own iio = 0xff) (start : configIou config iio = auto) (row : LayoutRow)
    (inTable : row ∈ layoutTable) (entries : List Entry) (fits : Fits entries iio row)
    (distinct : Distinct (entries.map Entry.port)) :
    configIou (entries.foldl (step defaults) config) iio = layout (listed entries iio) := by
  induction entries using List.reverseRecOn with
  | nil => exact start
  | append_singleton before entry inductionHypothesis =>
    have fitsBefore : Fits before iio row := fun earlier inside =>
      fits earlier (List.mem_append_left _ inside)
    have distinctBefore : Distinct (before.map Entry.port) := by
      rw [Distinct, List.map_append, List.pairwise_append] at distinct
      exact distinct.1
    have soFar := inductionHypothesis fitsBefore distinctBefore
    rw [List.foldl_append, List.foldl_cons, List.foldl_nil]
    by_cases port : ∃ letter, entry.port = portValue iio letter
    · obtain ⟨letter, port⟩ := port
      have more (tested : Letter) (width : UInt8) :
          listed (before ++ [entry]) iio tested width =
            (listed before iio tested width || (tested == letter && entry.bifurcate == width)) := by
        have ports : (portValue iio letter == portValue iio tested) = (tested == letter) := by
          rw [Bool.eq_iff_iff, beq_iff_eq, beq_iff_eq, portValue_inj, eq_comm]
        rw [listed_snoc, port, ports]
      rw [step_port defaults _ entry iio letter port, if_neg (not_not.mpr unchosen), soFar]
      by_cases width : HasWidth entry.bifurcate
      · have own : entry.bifurcate = row.width letter :=
          fits entry (by simp) letter port width
        have fresh := listed_fresh before entry iio letter port distinct (row.width letter)
        rw [own] at width ⊢
        have before' := layout_congr (listed_fits before iio fitsBefore)
        have after' := layout_congr (listed_fits (before ++ [entry]) iio fits)
        rw [before', after', ← layout_more row inTable _ letter fresh width]
        congr 2
        funext tested
        rw [more]
        by_cases same : tested = letter
        · simp [same, own]
        · simp [beq_eq_false_iff_ne.mpr same]
      · rw [portSplit_noWidth letter _ _ width]
        apply layout_congr
        intro tested other hasWidth
        have differ : entry.bifurcate ≠ other := by
          rintro rfl
          exact width hasWidth
        simp [more, differ]
    · have elsewhere := not_exists.mp port
      rw [step_elsewhere defaults _ entry iio elsewhere, soFar]
      apply layout_congr
      intro tested other hasWidth
      rw [listed_snoc]
      simp [elsewhere tested]

end Fitting

section Cards

/-- A riser card in a slot of the board: each port of the board's table is listed at most
    once, and the card's widths at the ports of each IIO fit a row of the layout table. -/
structure FittedCard where
  riser : RiserRow
  table : List UInt32
  distinct : Distinct table
  fits : ∀ iio, ∃ row ∈ layoutTable, Fits (entriesOf riser table) iio row

/-- The layout that the card asks for at an IIO. -/
def FittedCard.layout (card : FittedCard) (iio : Iio) : UInt8 :=
  RiserCard.layout (listed (entriesOf card.riser card.table) iio)

/-- The entries come in the order of the table. -/
theorem entriesOf_port (riser : RiserRow) (table : List UInt32) :
    (entriesOf riser table).map Entry.port = table := by
  apply List.ext_getElem?
  intro i
  simp only [entriesOf, List.getElem?_map, List.getElem?_mapIdx, Option.map_map]
  exact Option.map_id'

/-- Riser-card bifurcation does not depend on the order of the board's table: an IIO that
    the user left at AUTO gets the layout that the widths of its ports ask for, and the
    split of every other IIO stays. -/
theorem getRiserCardBifuracate_layout (card : FittedCard) (defaults : Defaults)
    (config : IioConfig) (iio : Iio) (start : defaults.own iio = 0xff → configIou config iio = auto) :
    configIou (getRiserCardBifuracate defaults card.riser card.table config) iio =
      if defaults.own iio = 0xff then card.layout iio else configIou config iio := by
  by_cases unchosen : defaults.own iio = 0xff
  · obtain ⟨row, inTable, fits⟩ := card.fits iio
    have distinct : Distinct ((entriesOf card.riser card.table).map Entry.port) := by
      rw [entriesOf_port]
      exact card.distinct
    rw [if_pos unchosen]
    exact run_layout defaults config iio unchosen (start unchosen) row inTable _ fits distinct
  · rw [if_neg unchosen]
    exact run_chosen defaults config iio unchosen _

/-- The same ports with the same widths in another order of the table ask for the same
    layouts. -/
theorem FittedCard.layout_perm (first second : FittedCard) (iio : Iio)
    (reordered : (entriesOf first.riser first.table).Perm (entriesOf second.riser second.table)) :
    first.layout iio = second.layout iio := by
  have sameListing : listed (entriesOf first.riser first.table) iio =
      listed (entriesOf second.riser second.table) iio := by
    funext letter width
    rw [Bool.eq_iff_iff]
    simp only [listed, List.any_eq_true, reordered.mem_iff]
  rw [FittedCard.layout, FittedCard.layout, sameListing]

/-- A card of two ports of 4 lanes and one of 8, listed from the last port to the first
    with an unused entry between them. -/
def mixedCard : FittedCard where
  riser :=
    { rcBifurcate := fun i => [x8, 0, x4, x4].getD i 0
      slotNum := fun i => [1, 0, 2, 3].getD i 0 }
  table := [0x00120010, 0xffffffff, 0x00120008, 0x00120000]
  distinct := by
    unfold Distinct
    decide
  fits := by
    intro iio
    refine ⟨⟨x4, x4, x8, 0⟩, by decide, ?_⟩
    have everyIio : ∀ iio ∈ iios, ∀ entry ∈ entriesOf
        { rcBifurcate := fun i => [x8, 0, x4, x4].getD i 0
          slotNum := fun i => [1, 0, 2, 3].getD i 0 }
        [0x00120010, 0xffffffff, 0x00120008, 0x00120000],
        ∀ letter ∈ letters, entry.port = portValue iio letter → HasWidth entry.bifurcate →
          entry.bifurcate = LayoutRow.width ⟨x4, x4, x8, 0⟩ letter := by
      simp only [entriesOf, List.mapIdx_cons, List.mapIdx_nil, List.forall_mem_cons]
      decide
    intro entry inside letter
    exact everyIio iio (mem_iios iio) entry inside letter (mem_letters letter)

/-- A configuration at its start, with the splits of the second processor's IIOs set. -/
def startConfig : IioConfig where
  configIou0 := fun cpu => if cpu = 0 then auto else xxxxxx16
  configIou1 := fun cpu => if cpu = 0 then auto else xxxxxx16
  configIou2 := fun cpu => if cpu = 0 then auto else xxxxxx16
  slots := fun _ => ⟨0, 0, 0, 0, 0, 0, 0, 0, 0⟩
  vppPort := fun _ => 0
  vppAddress := fun _ => 0
  vmdEnabled := fun _ => 0
  vmdPortEnable := fun _ => 0
  pcieHotPlugEnable := 0

/-- Choices for the second processor only. -/
def secondChosen : Defaults where
  iou0 := fun cpu => if cpu = 0 then 0xff else xxxxxx16
  iou1 := fun cpu => if cpu = 0 then 0xff else xxxxxx16
  iou2 := fun cpu => if cpu = 0 then 0xff else xxxxxx16

/-- The mixed card in its slot: its IIO is split in the lower half, read from the last port
    to the first. -/
theorem mixedCard_layout :
    configIou (getRiserCardBifuracate secondChosen mixedCard.riser mixedCard.table startConfig)
      ⟨0, 1⟩ = xxx8x4x4 := by
  have start : secondChosen.own ⟨0, 1⟩ = 0xff → configIou startConfig ⟨0, 1⟩ = auto := by decide
  rw [getRiserCardBifuracate_layout mixedCard secondChosen startConfig ⟨0, 1⟩ start,
    if_pos (by decide)]
  decide

end Cards

end SmcPkg.RiserCard
