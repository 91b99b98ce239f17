import Mathlib

/-!
# Arrays as cells

An array of a program is read as cells without an end: a write changes one cell and leaves
the others. `row` lists the cells of a part. Two cells exchanged leave the same values in a
part that holds both. Values of different sizes lie one behind the other.
-/

namespace SmcPkg

/-- The cells of an array. -/
structure Cells (α : Type) where
  read : Nat → α

namespace Cells

variable {α : Type}

instance : CoeFun (Cells α) fun _ => Nat → α := ⟨Cells.read⟩

/-- A cell is written. -/
def write (cells : Cells α) (i : Nat) (value : α) : Cells α :=
  ⟨fun j => if j = i then value else cells j⟩

@[simp] theorem write_same (cells : Cells α) (i : Nat) (value : α) :
    cells.write i value i = value :=
  if_pos rfl

/-- The other cells stay. -/
theorem write_other {cells : Cells α} {i j : Nat} {value : α} (apart : j ≠ i) :
    cells.write i value j = cells j :=
  if_neg apart

/-- What is read behind a write. -/
theorem write_read (cells : Cells α) (i j : Nat) (value : α) :
    cells.write i value j = if j = i then value else cells j :=
  rfl

/-- The cells of a part. -/
def row (cells : Cells α) (first count : Nat) : List α :=
  (List.range' first count).map cells

section Rows

variable {cells other : Cells α} {first count i j : Nat} {value : α}

@[simp] theorem row_length : (row cells first count).length = count := by
  simp [row]

/-- A row depends on its cells only. -/
theorem row_congr (same : ∀ i, first ≤ i → i < first + count → cells i = other i) :
    row cells first count = row other first count := by
  refine List.map_congr_left fun i member => ?_
  obtain ⟨above, below⟩ := List.mem_range'_1.mp member
  exact same i above below

/-- A row starts with its first cell. -/
theorem row_succ : row cells first (count + 1) = cells first :: row cells (first + 1) count := by
  rw [row, List.range'_succ, List.map_cons, row]

/-- A row ends with its last cell. -/
theorem row_snoc :
    row cells first (count + 1) = row cells first count ++ [cells (first + count)] := by
  rw [row, List.range'_1_concat, List.map_append, row, List.map_singleton]

/-- A write behind a part extends it. -/
theorem row_write_snoc (cells : Cells α) (first count : Nat) (value : α) :
    row (cells.write (first + count) value) first (count + 1) =
      row cells first count ++ [value] := by
  rw [row_snoc, write_same]
  congr 1
  exact row_congr fun i _ below => write_other below.ne

/-- A write outside a part leaves it. -/
theorem row_write_outside (outside : i < first ∨ first + count ≤ i) :
    row (cells.write i value) first count = row cells first count :=
  row_congr fun j above below => write_other (by omega)

/-- To move a value to another cell, and what was there to the first one, changes only the
order of a part with both. -/
theorem row_exchange (insideI : first ≤ i ∧ i < first + count)
    (insideJ : first ≤ j ∧ j < first + count) (apart : i ≠ j) :
    (row ((cells.write i (cells j)).write j value) first count).Perm
      (row (cells.write i value) first count) := by
  have swapped : ∀ k, (cells.write i (cells j)).write j value k =
      cells.write i value (Equiv.swap i j k) := by
    intro k
    by_cases atJ : k = j
    · subst atJ
      rw [write_same, Equiv.swap_apply_right, write_same]
    · rw [write_other atJ]
      by_cases atI : k = i
      · subst atI
        rw [write_same, Equiv.swap_apply_left, write_other apart.symm]
      · rw [write_other atI, Equiv.swap_apply_of_ne_of_ne atI atJ, write_other atI]
  have places : ((List.range' first count).map (Equiv.swap i j)).Perm
      (List.range' first count) := by
    refine (List.perm_ext_iff_of_nodup
      ((List.nodup_range').map (Equiv.swap i j).injective) List.nodup_range').mpr fun k => ?_
    simp only [List.mem_map, List.mem_range'_1]
    constructor
    · rintro ⟨m, inside, rfl⟩
      rw [Equiv.swap_apply_def]
      split_ifs <;> omega
    · intro inside
      refine ⟨Equiv.swap i j k, ?_, Equiv.swap_apply_self i j k⟩
      rw [Equiv.swap_apply_def]
      split_ifs <;> omega
  have mapped := places.map (cells.write i value)
  rw [List.map_map] at mapped
  refine (List.Perm.of_eq ?_).trans mapped
  exact List.map_congr_left fun k _ => swapped k

end Rows

section Layout

variable {β : Type} {size : β → Nat} {there other : Nat → β → Prop} {values more : List β}
  {pos : Nat}

/-- Values lie one behind the other, each at the end of the one before. -/
def Lie (size : β → Nat) (there : Nat → β → Prop) : Nat → List β → Prop
  | _, [] => True
  | pos, value :: values => there pos value ∧ Lie size there (pos + size value) values

/-- The part that values take. -/
def extent (size : β → Nat) (values : List β) : Nat := (values.map size).sum

@[simp] theorem extent_nil : extent size [] = 0 := rfl

@[simp] theorem extent_cons (value : β) :
    extent size (value :: values) = size value + extent size values :=
  List.sum_cons

@[simp] theorem extent_append :
    extent size (values ++ more) = extent size values + extent size more := by
  rw [extent, List.map_append, List.sum_append, extent, extent]

/-- Values lie one behind the other, each row behind the extent of the one before. -/
theorem lie_append : Lie size there pos (values ++ more) ↔
    Lie size there pos values ∧ Lie size there (pos + extent size values) more := by
  induction values generalizing pos with
  | nil => exact ⟨fun lie => ⟨trivial, lie⟩, And.right⟩
  | cons value values inductionHypothesis =>
    rw [List.cons_append, Lie, Lie, inductionHypothesis, and_assoc, extent_cons, Nat.add_assoc]

/-- What leaves each value of a part leaves the layout. -/
theorem Lie.imp {first last : Nat} (lie : Lie size there pos values) (notBefore : first ≤ pos)
    (upTo : pos + extent size values ≤ last)
    (each : ∀ place value, first ≤ place → place + size value ≤ last → there place value →
      other place value) : Lie size other pos values := by
  induction values generalizing pos with
  | nil => trivial
  | cons value values inductionHypothesis =>
    rw [extent_cons, ← Nat.add_assoc] at upTo
    have inside : pos + size value ≤ last := (Nat.le_add_right _ _).trans upTo
    exact ⟨each pos value notBefore inside lie.1,
      inductionHypothesis lie.2 (notBefore.trans (Nat.le_add_right _ _)) upTo⟩

end Layout

end Cells

end SmcPkg
