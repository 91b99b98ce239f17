import Mathlib

/-!
# Computations that leave a trace

A computation over a state writes events and ends with a value or with a fault. A
fault ends the computation, and the events written before it stay. `Ensures` says
what holds of the events and the outcome of every run, whatever the state is; its
rules follow the way a computation is put together.
-/

namespace SmcPkg.Traced

/-- What a run leaves behind. -/
structure Outcome (ω σ ε α : Type) where
  events : List ω
  state : σ
  value : Except ε α

end SmcPkg.Traced

namespace SmcPkg

/-- A computation over states `σ` that writes events `ω` and may end in a fault `ε`. -/
def Traced (ω σ ε α : Type) : Type := σ → Traced.Outcome ω σ ε α

end SmcPkg

namespace SmcPkg.Traced

variable {ω σ ε α β : Type}

/-- Return a value without writing anything. -/
def ret (value : α) : Traced ω σ ε α := fun state => ⟨[], state, .ok value⟩

/-- Run a computation and go on with its value. -/
def andThen (first : Traced ω σ ε α) (next : α → Traced ω σ ε β) : Traced ω σ ε β :=
  fun state =>
    match first state with
    | ⟨events, state, .ok value⟩ =>
      let rest := next value state
      ⟨events ++ rest.events, rest.state, rest.value⟩
    | ⟨events, state, .error fault⟩ => ⟨events, state, .error fault⟩

instance : Monad (Traced ω σ ε) where
  pure := ret
  bind := andThen

/-- Write one event. -/
def emit (event : ω) : Traced ω σ ε Unit := fun state => ⟨[event], state, .ok ()⟩

/-- End in a fault. -/
def fail (fault : ε) : Traced ω σ ε α := fun state => ⟨[], state, .error fault⟩

/-- The current state. -/
def current : Traced ω σ ε σ := fun state => ⟨[], state, .ok state⟩

/-- Replace the state. -/
def update (change : σ → σ) : Traced ω σ ε Unit := fun state => ⟨[], change state, .ok ()⟩

/-- A computation without events and state. -/
def lift (value : Except ε α) : Traced ω σ ε α := fun state => ⟨[], state, value⟩

/-- Every run of the computation satisfies the condition. -/
def Ensures (computation : Traced ω σ ε α) (post : List ω → Except ε α → Prop) : Prop :=
  ∀ state, post (computation state).events (computation state).value

/-- What is ensured can be weakened. -/
theorem Ensures.weaken {computation : Traced ω σ ε α} {strong weak : List ω → Except ε α → Prop}
    (ensured : Ensures computation strong)
    (implies : ∀ events value, strong events value → weak events value) :
    Ensures computation weak := by
  intro state
  exact implies _ _ (ensured state)

/-- What is ensured twice is ensured at once. -/
theorem Ensures.both {computation : Traced ω σ ε α} {left right : List ω → Except ε α → Prop}
    (ensuredLeft : Ensures computation left) (ensuredRight : Ensures computation right) :
    Ensures computation (fun events value => left events value ∧ right events value) := by
  intro state
  exact ⟨ensuredLeft state, ensuredRight state⟩

/-- A value that is returned is no event. -/
theorem ensures_pure {post : List ω → Except ε α → Prop} {value : α}
    (holds : post [] (.ok value)) : Ensures (pure value : Traced ω σ ε α) post := by
  intro state
  exact holds

/-- A fault ends the computation without an event. -/
theorem ensures_fail {post : List ω → Except ε α → Prop} {fault : ε}
    (holds : post [] (.error fault)) : Ensures (fail fault : Traced ω σ ε α) post := by
  intro state
  exact holds

/-- An event is emitted and nothing else happens. -/
theorem ensures_emit {post : List ω → Except ε Unit → Prop} {event : ω}
    (holds : post [event] (.ok ())) : Ensures (emit event : Traced ω σ ε Unit) post := by
  intro state
  exact holds

/-- A change of the state is no event. -/
theorem ensures_update {post : List ω → Except ε Unit → Prop} {change : σ → σ}
    (holds : post [] (.ok ())) : Ensures (update change : Traced ω σ ε Unit) post := by
  intro state
  exact holds

/-- The state that is read can be any one. -/
theorem ensures_current {post : List ω → Except ε σ → Prop}
    (holds : ∀ state, post [] (.ok state)) : Ensures (current : Traced ω σ ε σ) post := by
  intro state
  exact holds state

/-- A value or a fault is passed on without an event. -/
theorem ensures_lift {post : List ω → Except ε α → Prop} {value : Except ε α}
    (holds : post [] value) : Ensures (lift value : Traced ω σ ε α) post := by
  intro state
  exact holds

/-- The rule for sequences: a fault of the first part is a fault of the whole, and
otherwise the second part has to complete what the first part has written. -/
theorem ensures_bind {first : Traced ω σ ε α} {next : α → Traced ω σ ε β}
    {before : List ω → Except ε α → Prop} {post : List ω → Except ε β → Prop}
    (ensured : Ensures first before)
    (faulted : ∀ events fault, before events (.error fault) → post events (.error fault))
    (returned : ∀ events value, before events (.ok value) →
      Ensures (next value) (fun later result => post (events ++ later) result)) :
    Ensures (first >>= next) post := by
  intro state
  change post (andThen first next state).events (andThen first next state).value
  have holds := ensured state
  rw [andThen]
  rcases ran : first state with ⟨events, middle, value⟩
  rw [ran] at holds
  cases value with
  | ok value => exact returned events value holds middle
  | error fault => exact faulted events fault holds

/-- The rule for a sequence that starts with an event. -/
theorem ensures_emit_bind {event : ω} {next : Unit → Traced ω σ ε β}
    {post : List ω → Except ε β → Prop}
    (ensured : Ensures (next ()) (fun later result => post (event :: later) result)) :
    Ensures (emit event >>= next) post := by
  intro state
  exact ensured state

/-- The rule for a sequence that starts with a change of the state. -/
theorem ensures_update_bind {change : σ → σ} {next : Unit → Traced ω σ ε β}
    {post : List ω → Except ε β → Prop} (ensured : Ensures (next ()) post) :
    Ensures (update change >>= next) post := by
  intro state
  exact ensured (change state)

/-- Every event a run writes satisfies a condition. -/
def EmitsOnly (allowed : ω → Prop) (computation : Traced ω σ ε α) : Prop :=
  Ensures computation (fun events _ => ∀ event ∈ events, allowed event)

section EmitsOnly

variable {allowed : ω → Prop}

/-- More events can be allowed. -/
theorem EmitsOnly.weaken {more : ω → Prop} {computation : Traced ω σ ε α}
    (emits : EmitsOnly allowed computation) (implies : ∀ event, allowed event → more event) :
    EmitsOnly more computation :=
  Ensures.weaken emits (fun _ _ all event member => implies event (all event member))

/-- A value that is returned emits nothing. -/
theorem emitsOnly_pure (value : α) : EmitsOnly allowed (pure value : Traced ω σ ε α) :=
  ensures_pure (by simp)

/-- A fault emits nothing. -/
theorem emitsOnly_fail (fault : ε) : EmitsOnly allowed (fail fault : Traced ω σ ε α) :=
  ensures_fail (by simp)

/-- An event that is allowed can be emitted. -/
theorem emitsOnly_emit {event : ω} (holds : allowed event) :
    EmitsOnly allowed (emit event : Traced ω σ ε Unit) :=
  ensures_emit (by simpa using holds)

/-- A change of the state emits nothing. -/
theorem emitsOnly_update (change : σ → σ) :
    EmitsOnly allowed (update change : Traced ω σ ε Unit) :=
  ensures_update (by simp)

/-- A look at the state emits nothing. -/
theorem emitsOnly_current : EmitsOnly allowed (current : Traced ω σ ε σ) :=
  ensures_current (by simp)

/-- A value or a fault that is passed on emits nothing. -/
theorem emitsOnly_lift (value : Except ε α) :
    EmitsOnly allowed (lift value : Traced ω σ ε α) :=
  ensures_lift (by simp)

/-- The events of a sequence are those of its parts, whatever value the first one hands on. -/
theorem emitsOnly_bind {first : Traced ω σ ε α} {next : α → Traced ω σ ε β}
    (emitsFirst : EmitsOnly allowed first) (emitsNext : ∀ value, EmitsOnly allowed (next value)) :
    EmitsOnly allowed (first >>= next) := by
  refine ensures_bind emitsFirst (fun events fault all => all) (fun events value all => ?_)
  refine Ensures.weaken (emitsNext value) (fun later result allLater event member => ?_)
  rcases List.mem_append.mp member with inside | inside
  · exact all event inside
  · exact allLater event inside

/-- The rule for a sequence whose first part writes nothing. -/
theorem ensures_bind_silent {first : Traced ω σ ε α} {next : α → Traced ω σ ε β}
    {post : List ω → Except ε β → Prop} (silent : EmitsOnly (fun _ => False) first)
    (faulted : ∀ fault, post [] (.error fault)) (ensured : ∀ value, Ensures (next value) post) :
    Ensures (first >>= next) post := by
  refine ensures_bind silent ?_ ?_
  · intro events fault none
    rw [List.eq_nil_iff_forall_not_mem.mpr none]
    exact faulted fault
  · intro events value none
    rw [List.eq_nil_iff_forall_not_mem.mpr none]
    exact ensured value

end EmitsOnly

/-- Started after these events in such a state, a run ends with events and a state
that satisfy the condition for its value, or the one for faults. -/
def Leads (pre : List ω → σ → Prop) (computation : Traced ω σ ε α)
    (post : α → List ω → σ → Prop) (faulted : List ω → σ → Prop) : Prop :=
  ∀ written state, pre written state →
    match computation state with
    | ⟨events, later, .ok value⟩ => post value (written ++ events) later
    | ⟨events, later, .error _⟩ => faulted (written ++ events) later

section Leads

variable {pre : List ω → σ → Prop} {post : α → List ω → σ → Prop} {faulted : List ω → σ → Prop}

/-- A value that is returned leaves events and state as they are. -/
theorem leads_pure {value : α} (holds : ∀ written state, pre written state →
    post value written state) : Leads pre (pure value : Traced ω σ ε α) post faulted := by
  intro written state before
  change post value (written ++ []) state
  rw [List.append_nil]
  exact holds written state before

/-- A fault leaves events and state as they are. -/
theorem leads_fail {fault : ε} (holds : ∀ written state, pre written state →
    faulted written state) : Leads pre (fail fault : Traced ω σ ε α) post faulted := by
  intro written state before
  change faulted (written ++ []) state
  rw [List.append_nil]
  exact holds written state before

/-- The rule for sequences. -/
theorem leads_bind {first : Traced ω σ ε α} {next : α → Traced ω σ ε β}
    (middle : α → List ω → σ → Prop) {last : β → List ω → σ → Prop}
    (leadsFirst : Leads pre first middle faulted)
    (leadsNext : ∀ value, Leads (middle value) (next value) last faulted) :
    Leads pre (first >>= next) last faulted := by
  intro written state before
  have holds := leadsFirst written state before
  change match andThen first next state with
    | ⟨events, later, .ok value⟩ => last value (written ++ events) later
    | ⟨events, later, .error _⟩ => faulted (written ++ events) later
  rw [andThen]
  rcases ran : first state with ⟨events, later, value⟩
  rw [ran] at holds
  cases value with
  | ok value =>
    have rest := leadsNext value (written ++ events) later holds
    rcases ranNext : next value later with ⟨more, final, result⟩
    rw [ranNext] at rest
    cases result with
    | ok result =>
      simp only [ranNext]
      rw [← List.append_assoc]
      exact rest
    | error fault =>
      simp only [ranNext]
      rw [← List.append_assoc]
      exact rest
  | error fault => exact holds

/-- The rule for a sequence that starts by looking at the state. -/
theorem leads_current_bind {next : σ → Traced ω σ ε α}
    (leads : ∀ seen, Leads (fun written state => pre written state ∧ state = seen) (next seen) post
      faulted) : Leads pre (current >>= next) post faulted := by
  intro written state before
  exact leads state written state ⟨before, rfl⟩

/-- The rule for a sequence that starts with an event. -/
theorem leads_emit_bind {event : ω} {next : Unit → Traced ω σ ε α}
    (leads : Leads (fun written state => ∃ earlier, written = earlier ++ [event] ∧
      pre earlier state) (next ()) post faulted) : Leads pre (emit event >>= next) post faulted := by
  refine leads_bind (fun _ written state => ∃ earlier, written = earlier ++ [event] ∧
    pre earlier state) ?_ (fun _ => leads)
  intro written state before
  exact ⟨written, rfl, before⟩

/-- The rule for a sequence that starts with a change of the state. -/
theorem leads_update_bind {change : σ → σ} {next : Unit → Traced ω σ ε α}
    (leads : Leads (fun written state => ∃ earlier, state = change earlier ∧ pre written earlier)
      (next ()) post faulted) : Leads pre (update change >>= next) post faulted := by
  refine leads_bind (fun _ written state => ∃ earlier, state = change earlier ∧
    pre written earlier) ?_ (fun _ => leads)
  intro written state before
  change ∃ earlier, change state = change earlier ∧ pre (written ++ []) earlier
  rw [List.append_nil]
  exact ⟨state, rfl, before⟩

/-- The rule for a sequence that starts with a value that may be a fault. -/
theorem leads_lift_bind {outcome : Except ε α} {next : α → Traced ω σ ε β}
    {last : β → List ω → σ → Prop}
    (failed : ∀ written state, pre written state → faulted written state)
    (leads : ∀ value, outcome = .ok value → Leads pre (next value) last faulted) :
    Leads pre (lift outcome >>= next) last faulted := by
  intro written state before
  cases outcome with
  | ok value => exact leads value rfl written state before
  | error fault =>
    change faulted (written ++ []) state
    rw [List.append_nil]
    exact failed written state before

/-- More can be asked of the start, and less of the end. -/
theorem Leads.weaken {computation : Traced ω σ ε α} {strong : List ω → σ → Prop}
    {less : α → List ω → σ → Prop} (leads : Leads pre computation less faulted)
    (stronger : ∀ written state, strong written state → pre written state)
    (weaker : ∀ value written state, less value written state → post value written state) :
    Leads strong computation post faulted := by
  intro written state before
  have holds := leads written state (stronger written state before)
  rcases ran : computation state with ⟨events, later, value⟩
  rw [ran] at holds
  cases value with
  | ok value => exact weaker value _ _ holds
  | error fault => exact holds

end Leads

end SmcPkg.Traced
