import Mathlib.Data.List.Basic

/-!
# Steps that act on one component

A state with several components is read through a `view`. A step acts on a
component if the component's new value is a function of its old one and every
other component is kept. Such steps compose, branch on what they read of their
component, and loop; a run of rounds, each on a component of its own, acts on a
component as the rounds of that component do.
-/

namespace SmcPkg.Locality

variable {ι σ β α : Type*} {view : σ → ι → β} {place : ι}

/-- A step that changes one component, by a function of that component. -/
structure ActsOn (view : σ → ι → β) (place : ι) (step : σ → σ) (act : β → β) : Prop where
  own : ∀ state, view (step state) place = act (view state place)
  others : ∀ state other, other ≠ place → view (step state) other = view state other

namespace ActsOn

/-- A step that no component shows. -/
theorem unseen {step : σ → σ} (kept : ∀ state other, view (step state) other = view state other) :
    ActsOn view place step id :=
  ⟨fun state => kept state place, fun state other _ => kept state other⟩

/-- Nothing done acts nowhere. -/
theorem refl : ActsOn view place id id :=
  unseen fun _ _ => rfl

/-- Actions on one place follow each other. -/
theorem comp {first second : σ → σ} {firstAct secondAct : β → β}
    (later : ActsOn view place second secondAct) (earlier : ActsOn view place first firstAct) :
    ActsOn view place (fun state => second (first state))
      (fun own => secondAct (firstAct own)) := by
  constructor
  · intro state
    rw [later.own, earlier.own]
  · intro state other apart
    rw [later.others _ _ apart, earlier.others _ _ apart]

/-- A branch on a condition of its own. -/
theorem ite {condition : Prop} [Decidable condition] {first second : σ → σ}
    {firstAct secondAct : β → β} (holds : ActsOn view place first firstAct)
    (fails : ActsOn view place second secondAct) :
    ActsOn view place (fun state => if condition then first state else second state)
      (fun own => if condition then firstAct own else secondAct own) := by
  by_cases taken : condition
  · simpa [taken] using holds
  · simpa [taken] using fails

/-- A branch on what the component shows. -/
theorem branch {test : σ → Prop} {ownTest : β → Prop} [DecidablePred test]
    [DecidablePred ownTest] {first second : σ → σ} {firstAct secondAct : β → β}
    (reads : ∀ state, test state ↔ ownTest (view state place))
    (holds : ActsOn view place first firstAct) (fails : ActsOn view place second secondAct) :
    ActsOn view place (fun state => if test state then first state else second state)
      (fun own => if ownTest own then firstAct own else secondAct own) := by
  constructor
  · intro state
    by_cases taken : test state
    · rw [if_pos taken, if_pos ((reads state).mp taken)]
      exact holds.own state
    · rw [if_neg taken, if_neg (mt (reads state).mpr taken)]
      exact fails.own state
  · intro state other apart
    by_cases taken : test state
    · rw [if_pos taken]
      exact holds.others state other apart
    · rw [if_neg taken]
      exact fails.others state other apart

/-- A loop of such steps. -/
theorem foldl {step : σ → α → σ} {act : β → α → β} (items : List α)
    (each : ∀ item, ActsOn view place (fun state => step state item) (fun own => act own item)) :
    ActsOn view place (fun state => items.foldl step state) (fun own => items.foldl act own) := by
  induction items with
  | nil => exact refl
  | cons item items inductionHypothesis => exact inductionHypothesis.comp (each item)

end ActsOn

/-- A run of rounds shows a component what the rounds of that component do to it. -/
theorem view_foldl [DecidableEq ι] {round : σ → α → σ} (component : α → Option ι)
    (act : α → β → β)
    (acts : ∀ item place, component item = some place →
      ActsOn view place (fun state => round state item) (act item))
    (idle : ∀ item, component item = none → ∀ state, round state item = state)
    (items : List α) (state : σ) (place : ι) :
    view (items.foldl round state) place =
      (items.filter fun item => component item = some place).foldl (fun own item => act item own)
        (view state place) := by
  induction items generalizing state with
  | nil => rfl
  | cons item items inductionHypothesis =>
    rw [List.foldl_cons, inductionHypothesis]
    cases component_item : component item with
    | none => simp [component_item, idle item component_item]
    | some other =>
      have step := acts item other component_item
      by_cases same : other = place
      · subst same
        simp [component_item, step.own state]
      · simp [component_item, same, step.others state place (Ne.symm same)]

end SmcPkg.Locality
