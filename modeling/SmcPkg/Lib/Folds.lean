import Mathlib

/-!
# Invariants of loops that may fail

A loop over a list with a step that may fail is a fold in `Except`. The rules speak
about the part of the list that has been gone through.
-/

namespace SmcPkg.Folds

variable {α β ε : Type}

/-- What holds before the first round and is kept by every round holds at the end. -/
theorem foldlM_ok {step : β → α → Except ε β} {motive : List α → β → Prop} {start finish : β}
    {items : List α} (initially : motive [] start)
    (kept : ∀ before item after state next, items = before ++ item :: after →
      motive before state → step state item = .ok next → motive (before ++ [item]) next)
    (done : items.foldlM step start = .ok finish) : motive items finish := by
  suffices general : ∀ before after state, items = before ++ after → motive before state →
      after.foldlM step state = .ok finish → motive items finish from
    general [] items start rfl initially done
  intro before after
  induction after generalizing before with
  | nil =>
    intro state split holds folded
    rw [← Except.ok.inj folded, split, List.append_nil]
    exact holds
  | cons item after inductionHypothesis =>
    intro state split holds folded
    rw [List.foldlM_cons] at folded
    cases stepped : step state item with
    | error fault =>
      rw [stepped] at folded
      exact absurd folded (by simp [bind, Except.bind])
    | ok next =>
      rw [stepped] at folded
      refine inductionHypothesis (before ++ [item]) next ?_ ?_ folded
      · rw [split, List.append_assoc, List.singleton_append]
      · exact kept before item after state next split holds stepped

/-- A loop fails only in a round that is reached with what the rounds keep. -/
theorem foldlM_error {step : β → α → Except ε β} {motive : List α → β → Prop} {start : β}
    {items : List α} {fault : ε} (initially : motive [] start)
    (kept : ∀ before item after state next, items = before ++ item :: after →
      motive before state → step state item = .ok next → motive (before ++ [item]) next)
    (failed : items.foldlM step start = .error fault) :
    ∃ before item after state, items = before ++ item :: after ∧ motive before state ∧
      step state item = .error fault := by
  suffices general : ∀ before after state, items = before ++ after → motive before state →
      after.foldlM step state = .error fault → ∃ before item after state,
        items = before ++ item :: after ∧ motive before state ∧ step state item = .error fault from
    general [] items start rfl initially failed
  intro before after
  induction after generalizing before with
  | nil =>
    intro state _ _ folded
    exact absurd folded (by simp [pure, Except.pure])
  | cons item after inductionHypothesis =>
    intro state split holds folded
    rw [List.foldlM_cons] at folded
    cases stepped : step state item with
    | error other =>
      rw [stepped] at folded
      exact ⟨before, item, after, state, split, holds, stepped.trans folded⟩
    | ok next =>
      rw [stepped] at folded
      refine inductionHypothesis (before ++ [item]) next ?_ ?_ folded
      · rw [split, List.append_assoc, List.singleton_append]
      · exact kept before item after state next split holds stepped

/-- The splits of a list with one more element at its end. -/
theorem exists_split_concat {α : Type} {holds : List α → α → Prop} (xs : List α) (last : α) :
    (∃ before x after, xs ++ [last] = before ++ x :: after ∧ holds before x) ↔
      (∃ before x after, xs = before ++ x :: after ∧ holds before x) ∨ holds xs last := by
  constructor
  · rintro ⟨before, x, after, split, held⟩
    rcases List.eq_nil_or_concat after with rfl | ⟨front, final, rfl⟩
    · obtain ⟨rfl, same⟩ := List.append_inj' split rfl
      obtain rfl : last = x := by simpa using same
      exact Or.inr held
    · have regroup : xs ++ [last] = (before ++ x :: front) ++ [final] := by simpa using split
      obtain ⟨rfl, -⟩ := List.append_inj' regroup rfl
      exact Or.inl ⟨before, x, front, rfl, held⟩
  · rintro (⟨before, x, after, rfl, held⟩ | held)
    · exact ⟨before, x, after ++ [last], by simp, held⟩
    · exact ⟨xs, last, [], rfl, held⟩

end SmcPkg.Folds
