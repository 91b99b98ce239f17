import Mathlib

/-!
# Stores into named arrays

What a program stores into its arrays is a list of stores here, in the order in which they
are made. A store names its array and covers the cells from its start on; nothing keeps it
inside. A cell holds what the last store that covers it has put there.
-/

namespace SmcPkg.Stores

variable {τ ν : Type}

/-- Values that are stored one behind the other from a cell of an array on. -/
structure Store (τ ν : Type) where
  target : τ
  start : Nat
  values : List ν
  deriving DecidableEq, Repr

/-- A store lies in its array. -/
def Store.Inside (capacity : τ → Nat) (store : Store τ ν) : Prop :=
  store.start + store.values.length ≤ capacity store.target

instance (capacity : τ → Nat) (store : Store τ ν) : Decidable (store.Inside capacity) :=
  inferInstanceAs (Decidable (_ ≤ _))

/-- A loop that stores its values one by one. -/
def oneByOne (target : τ) : Nat → List ν → List (Store τ ν)
  | _, [] => []
  | start, value :: values => ⟨target, start, [value]⟩ :: oneByOne target (start + 1) values

/-- Such a loop stays inside exactly if its last value does. -/
theorem oneByOne_inside (capacity : τ → Nat) (target : τ) (start : Nat) (values : List ν) :
    (∀ store ∈ oneByOne target start values, store.Inside capacity) ↔
      values = [] ∨ start + values.length ≤ capacity target := by
  induction values generalizing start with
  | nil => simp [oneByOne]
  | cons value values inductionHypothesis =>
    rw [oneByOne, List.forall_mem_cons, inductionHypothesis]
    simp only [Store.Inside, List.length_cons, List.length_nil, reduceCtorEq, false_or]
    constructor
    · rintro ⟨first, rfl | rest⟩
      · exact first
      · omega
    · intro whole
      exact ⟨by omega, Or.inr (by omega)⟩

/-- Stores one by one go to their target. -/
theorem oneByOne_target {target : τ} {start : Nat} {values : List ν} {store : Store τ ν}
    (member : store ∈ oneByOne target start values) : store.target = target := by
  induction values generalizing start with
  | nil => exact absurd member List.not_mem_nil
  | cons value values inductionHypothesis =>
    rcases List.mem_cons.mp member with rfl | later
    · rfl
    · exact inductionHypothesis later

section Cells

variable [DecidableEq τ]

/-- What a store puts into a cell, if it covers it. -/
def Store.at (store : Store τ ν) (target : τ) (index : Nat) : Option ν :=
  if store.target = target ∧ store.start ≤ index then store.values[index - store.start]? else none

/-- What the stores leave in a cell: the last one that covers it decides. -/
def cell : List (Store τ ν) → τ → Nat → Option ν
  | [], _, _ => none
  | store :: later, target, index => (cell later target index).or (store.at target index)

variable {target : τ} {index : Nat} {stores : List (Store τ ν)}

/-- The last store to a cell counts. -/
theorem cell_append (earlier later : List (Store τ ν)) (target : τ) (index : Nat) :
    cell (earlier ++ later) target index =
      (cell later target index).or (cell earlier target index) := by
  induction earlier with
  | nil => simp [cell]
  | cons store earlier inductionHypothesis =>
    rw [List.cons_append, cell, cell, inductionHypothesis, Option.or_assoc]

/-- A value in a cell comes from one of the stores. -/
theorem exists_of_cell {value : ν} (held : cell stores target index = some value) :
    ∃ store ∈ stores, store.at target index = some value := by
  induction stores with
  | nil => cases held
  | cons store later inductionHypothesis =>
    rw [cell, Option.or_eq_some_iff] at held
    rcases held with held | ⟨-, held⟩
    · obtain ⟨found, member, covers⟩ := inductionHypothesis held
      exact ⟨found, List.mem_cons_of_mem store member, covers⟩
    · exact ⟨store, List.mem_cons_self, held⟩

/-- A store leaves the other targets. -/
theorem Store.at_other {store : Store τ ν} (other : store.target ≠ target) :
    store.at target index = none := if_neg (fun here => other here.1)

/-- A store of such a loop puts its own value into a cell. -/
theorem at_of_oneByOne {start : Nat} {values : List ν} {store : Store τ ν} {value : ν}
    (member : store ∈ oneByOne target start values)
    (covers : store.at target index = some value) :
    start ≤ index ∧ values[index - start]? = some value := by
  induction values generalizing start with
  | nil => exact absurd member List.not_mem_nil
  | cons first values inductionHypothesis =>
    rcases List.mem_cons.mp member with rfl | later
    · rw [Store.at] at covers
      split at covers
      · rename_i reached
        obtain ⟨offset, rfl⟩ := Nat.exists_eq_add_of_le reached.2
        rw [Nat.add_sub_cancel_left] at covers ⊢
        cases offset with
        | zero => exact ⟨Nat.le_refl start, covers⟩
        | succ offset => cases covers
      · cases covers
    · obtain ⟨reached, held⟩ := inductionHypothesis later
      obtain ⟨offset, rfl⟩ := Nat.exists_eq_add_of_le reached
      have shifted : start + 1 + offset - start = offset + 1 := by omega
      rw [Nat.add_sub_cancel_left] at held
      rw [shifted]
      exact ⟨by omega, held⟩

/-- What a loop that stores one by one leaves in the cells of its array. -/
theorem cell_oneByOne (target : τ) (start : Nat) (values : List ν) (index : Nat) :
    cell (oneByOne target start values) target index =
      if start ≤ index then values[index - start]? else none := by
  induction values generalizing start with
  | nil => simp [oneByOne, cell]
  | cons value values inductionHypothesis =>
    rw [oneByOne, cell, inductionHypothesis, Store.at]
    simp only [true_and]
    by_cases first : start = index
    · subst first
      simp
    · by_cases later : start + 1 ≤ index
      · obtain ⟨offset, rfl⟩ := Nat.exists_eq_add_of_le later
        have shifted : start + 1 + offset - start = offset + 1 := by omega
        rw [if_pos (by omega), if_pos (by omega), if_pos (by omega), shifted]
        simp
      · rw [if_neg (by omega), if_neg (by omega), if_neg (by omega)]
        rfl

variable [Zero ν] {capacity : τ → Nat}

/-- From its first store on, an array has a zero in it at every moment. -/
def Terminated (capacity : τ → Nat) (target : τ) (stores : List (Store τ ν)) : Prop :=
  ∀ made, made <+: stores → (∃ store ∈ made, store.target = target) →
    ∃ index < capacity target, cell made target index = some 0

/-- An array that is never touched needs no zero. -/
theorem terminated_of_other (other : ∀ store ∈ stores, store.target ≠ target) :
    Terminated capacity target stores := by
  rintro made ⟨rest, rfl⟩ ⟨store, member, named⟩
  exact absurd named (other store (List.mem_append_left rest member))

/-- An array that is cleared first keeps its zero in a cell that gets no other value. -/
theorem terminated_of_cleared (before after : List (Store τ ν))
    (untouched : ∀ store ∈ before, store.target ≠ target) (inside : index < capacity target)
    (free : ∀ store ∈ after, ∀ value, store.at target index = some value → value = 0) :
    Terminated capacity target
      (before ++ ⟨target, 0, List.replicate (capacity target) 0⟩ :: after) := by
  intro made first touched
  have whole : before ++ [⟨target, 0, List.replicate (capacity target) 0⟩] <+:
      before ++ ⟨target, 0, List.replicate (capacity target) 0⟩ :: after := by simp
  obtain ⟨front, rfl, onward⟩ : ∃ front, made =
      before ++ [⟨target, 0, List.replicate (capacity target) 0⟩] ++ front ∧ front <+: after := by
    rcases List.prefix_or_prefix_of_prefix first whole with short | ⟨front, rfl⟩
    · rcases List.prefix_concat_iff.mp short with rfl | ⟨rest, rfl⟩
      · exact ⟨[], by simp, List.nil_prefix⟩
      · obtain ⟨store, member, named⟩ := touched
        exact absurd named (untouched store (List.mem_append_left rest member))
    · rw [List.append_assoc, List.prefix_append_right_inj, List.singleton_append,
        List.cons_prefix_cons] at first
      exact ⟨front, rfl, first.2⟩
  have cleared : cell (before ++ [⟨target, 0, List.replicate (capacity target) (0 : ν)⟩])
      target index = some 0 := by
    rw [cell_append]
    simp [cell, Store.at, inside]
  refine ⟨index, inside, ?_⟩
  rw [cell_append, cleared]
  cases held : cell front target index with
  | none => rfl
  | some value =>
    obtain ⟨store, member, covers⟩ := exists_of_cell held
    rw [free store (onward.subset member) value covers]
    rfl

end Cells

end SmcPkg.Stores
