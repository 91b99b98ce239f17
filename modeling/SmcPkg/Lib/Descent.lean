import Mathlib

/-!
# Recursion along a relation

A recursion goes from an element to its successors. Its chains are bounded by a depth, and
as long as there are finitely many elements to go to, they are bounded exactly if no
element that is reached leads back to itself.
-/

namespace SmcPkg.Descent

open Relation

variable {α : Type*} {successor : α → α → Prop} {x y : α}

/-- Every chain from an element has fewer steps than the depth. -/
def Bounded (successor : α → α → Prop) : Nat → α → Prop
  | 0, _ => False
  | depth + 1, x => ∀ y, successor x y → Bounded successor depth y

/-- A bound can be larger. -/
theorem Bounded.mono {depth more : Nat} (bounded : Bounded successor depth x)
    (atMost : depth ≤ more) : Bounded successor more x := by
  induction depth generalizing more x with
  | zero => exact bounded.elim
  | succ depth inductionHypothesis =>
    obtain ⟨more, rfl⟩ : ∃ rest, more = rest + 1 := ⟨more - 1, by omega⟩
    intro y step
    exact inductionHypothesis (bounded y step) (Nat.le_of_succ_le_succ atMost)

/-- Along a chain the bound goes down. -/
theorem Bounded.reach {depth : Nat} (bounded : Bounded successor depth x)
    (reached : ReflTransGen successor x y) : ∃ less ≤ depth, Bounded successor less y := by
  induction reached with
  | refl => exact ⟨depth, Nat.le_refl depth, bounded⟩
  | tail _ step inductionHypothesis =>
    obtain ⟨less, atMost, bounded⟩ := inductionHypothesis
    cases less with
    | zero => exact bounded.elim
    | succ less => exact ⟨less, by omega, bounded _ step⟩

/-- An element with a bound does not lead back to itself. -/
theorem Bounded.not_cycle {depth : Nat} (bounded : Bounded successor depth x) :
    ¬ TransGen successor x x := by
  induction depth using Nat.strongRecOn generalizing x with
  | ind depth inductionHypothesis =>
    intro cycle
    obtain ⟨y, step, back⟩ := TransGen.head'_iff.mp cycle
    cases depth with
    | zero => exact bounded.elim
    | succ depth =>
      exact inductionHypothesis depth (Nat.lt_succ_self depth) (bounded y step)
        (TransGen.tail' back step)

/-- Finitely many elements with a bound have one in common. -/
theorem exists_common_bound {xs : List α} (each : ∀ x ∈ xs, ∃ depth, Bounded successor depth x) :
    ∃ depth, ∀ x ∈ xs, Bounded successor depth x := by
  induction xs with
  | nil => exact ⟨0, by simp⟩
  | cons x xs inductionHypothesis =>
    rw [List.forall_mem_cons] at each
    obtain ⟨first, bounded⟩ := each.1
    obtain ⟨rest, all⟩ := inductionHypothesis each.2
    refine ⟨max first rest, List.forall_mem_cons.mpr ⟨bounded.mono (le_max_left _ _), ?_⟩⟩
    intro y isLater
    exact (all y isLater).mono (le_max_right _ _)

/-- An element with finitely many successors is bounded if each of them is. -/
theorem exists_bounded_step {targets : Set α} (finite : targets.Finite)
    (all : ∀ y, successor x y → y ∈ targets)
    (each : ∀ y, successor x y → ∃ depth, Bounded successor depth y) :
    ∃ depth, Bounded successor depth x := by
  have some (y : α) : ∃ depth, successor x y → Bounded successor depth y := by
    by_cases step : successor x y
    · obtain ⟨depth, bounded⟩ := each y step
      exact ⟨depth, fun _ => bounded⟩
    · exact ⟨0, fun step' => absurd step' step⟩
  choose depthOf bounded using some
  obtain ⟨most, isMost⟩ := (finite.image depthOf).bddAbove
  refine ⟨most + 1, ?_⟩
  intro y step
  exact (bounded y step).mono (isMost (Set.mem_image_of_mem depthOf (all y step)))

/-- Without a cycle in reach, a recursion over finitely many elements is bounded. -/
theorem exists_bounded {targets : Set α} (finite : targets.Finite)
    (all : ∀ x y, successor x y → y ∈ targets)
    (acyclic : ∀ y, ReflTransGen successor x y → ¬ TransGen successor y y) :
    ∃ depth, Bounded successor depth x := by
  -- the elements that are reached, related by the chains between them
  let reached := { y | y ∈ targets ∧ ReflTransGen successor x y }
  have finiteReached : Finite reached := (finite.subset (fun _ inside => inside.1)).to_subtype
  let leads (late early : reached) : Prop := TransGen successor early.val late.val
  have transitive : IsTrans reached leads := ⟨fun _ _ _ first second => second.trans first⟩
  have irreflexive : Std.Irrefl leads := ⟨fun y cycle => acyclic y.val y.property.2 cycle⟩
  have wellFounded : WellFounded leads := Finite.wellFounded_of_trans_of_irrefl leads
  have each (y : reached) : ∃ depth, Bounded successor depth y.val := by
    induction y using wellFounded.induction with
    | _ y inductionHypothesis =>
      apply exists_bounded_step finite (all y.val)
      intro z step
      exact inductionHypothesis ⟨z, all y.val z step, y.property.2.tail step⟩ (TransGen.single step)
  apply exists_bounded_step finite (all x)
  intro y step
  exact each ⟨y, all x y step, ReflTransGen.single step⟩

/-- A recursion over finitely many elements is bounded exactly if nothing in reach leads back to
itself. -/
theorem exists_bounded_iff {targets : Set α} (finite : targets.Finite)
    (all : ∀ x y, successor x y → y ∈ targets) :
    (∃ depth, Bounded successor depth x) ↔
      ∀ y, ReflTransGen successor x y → ¬ TransGen successor y y := by
  constructor
  · rintro ⟨depth, bounded⟩ y reached
    obtain ⟨less, _, boundedLess⟩ := bounded.reach reached
    exact boundedLess.not_cycle
  · exact exists_bounded finite all

end SmcPkg.Descent
