import Mathlib

/-!
# What comes before an event

Some events of a sequence demand something, and others supply it. A sequence is backed if
each demand is met by the past or by an earlier event.
-/

namespace SmcPkg.Precedence

variable {ω ι : Type}

/-- Each demand is met by the past or by an earlier event. -/
def BackedAfter (demands supplies : ω → ι → Prop) (past events : List ω) : Prop :=
  ∀ before event after key, events = before ++ event :: after → demands event key →
    ∃ earlier ∈ past ++ before, supplies earlier key

variable {demands supplies : ω → ι → Prop}

/-- Where nothing happens nothing is demanded. -/
theorem backedAfter_nil (past : List ω) : BackedAfter demands supplies past [] := by
  intro before event after key split
  exact absurd split (by simp)

/-- An event is backed by those before it, and those behind it may be backed by it. -/
theorem backedAfter_cons (past : List ω) (event : ω) (rest : List ω) :
    BackedAfter demands supplies past (event :: rest) ↔
      (∀ key, demands event key → ∃ earlier ∈ past, supplies earlier key) ∧
        BackedAfter demands supplies (past ++ [event]) rest := by
  constructor
  · intro backed
    constructor
    · intro key demanded
      obtain ⟨earlier, member, supplied⟩ := backed [] event rest key rfl demanded
      exact ⟨earlier, by simpa using member, supplied⟩
    · intro before later after key split demanded
      have whole : event :: rest = (event :: before) ++ later :: after := by simp [split]
      obtain ⟨earlier, member, supplied⟩ := backed _ later after key whole demanded
      exact ⟨earlier, by simpa using member, supplied⟩
  · rintro ⟨first, later⟩ before other after key split demanded
    cases before with
    | nil =>
      obtain ⟨rfl, -⟩ : event = other ∧ rest = after := by simpa using split
      obtain ⟨earlier, member, supplied⟩ := first key demanded
      exact ⟨earlier, by simpa using member, supplied⟩
    | cons head before =>
      obtain ⟨rfl, tail⟩ : event = head ∧ rest = before ++ other :: after := by
        simpa using split
      obtain ⟨earlier, member, supplied⟩ := later before other after key tail demanded
      exact ⟨earlier, by simpa using member, supplied⟩

/-- Two rows of events are backed one after the other. -/
theorem backedAfter_append (past first second : List ω) :
    BackedAfter demands supplies past (first ++ second) ↔
      BackedAfter demands supplies past first ∧
        BackedAfter demands supplies (past ++ first) second := by
  induction first generalizing past with
  | nil => simp [backedAfter_nil]
  | cons event first ih =>
    rw [List.cons_append, backedAfter_cons, backedAfter_cons, ih, and_assoc]
    simp

/-- A loop is backed if each round is, behind the rounds before it. -/
theorem backedAfter_rounds (round : Nat → List ω) (past : List ω) (count : Nat) :
    BackedAfter demands supplies past ((List.range count).flatMap round) ↔
      ∀ index < count, BackedAfter demands supplies
        (past ++ (List.range index).flatMap round) (round index) := by
  induction count with
  | zero => simp [backedAfter_nil]
  | succ count ih =>
    rw [List.range_succ, List.flatMap_append, backedAfter_append, ih]
    simp only [List.flatMap_cons, List.flatMap_nil, List.append_nil]
    constructor
    · rintro ⟨earlier, last⟩ index bound
      by_cases final : index = count
      · exact final ▸ last
      · exact earlier index (by omega)
    · intro each
      exact ⟨fun index bound => each index (by omega), each count (by omega)⟩

/-- Events that demand nothing are backed. -/
theorem backedAfter_of_quiet {events : List ω} (past : List ω)
    (quiet : ∀ event ∈ events, ∀ key, ¬ demands event key) :
    BackedAfter demands supplies past events := by
  rintro before event after key rfl demanded
  exact absurd demanded (quiet event (by simp) key)

/-- A longer past backs no less. -/
theorem BackedAfter.mono {events short long : List ω}
    (backed : BackedAfter demands supplies short events) (subset : short ⊆ long) :
    BackedAfter demands supplies long events := by
  intro before event after key split demanded
  obtain ⟨earlier, member, supplied⟩ := backed before event after key split demanded
  refine ⟨earlier, ?_, supplied⟩
  rcases List.mem_append.mp member with old | new
  · exact List.mem_append_left _ (subset old)
  · exact List.mem_append_right _ new

end SmcPkg.Precedence
