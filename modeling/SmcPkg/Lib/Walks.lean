import SmcPkg.Lib.ReadRuns

/-!
# Loops that read

A loop tests its state, reads some bytes, and goes on or leaves. It is safe below a limit
if it comes to an end and none of its reads passes the limit. A walk is such a loop over
elements that lie one behind the other and tell their own lengths: it ends before the
elements do exactly if no element that it goes on from has length zero.
-/

namespace SmcPkg.Walks

open ReadRuns (Extent)

section Loops

variable {S : Type*}

/-- A loop: the test before a round, the reads of the round, and the state it goes on with
unless it leaves. -/
structure Loop (S : Type*) where
  running : S → Bool
  reads : S → List Extent
  next : S → Option S

/-- Whether the loop ends within some rounds, and what it reads in them. -/
def Loop.run (loop : Loop S) : Nat → S → Bool × List Extent
  | 0, _ => (false, [])
  | rounds + 1, state =>
    if loop.running state then
      match loop.next state with
      | none => (true, loop.reads state)
      | some later =>
        ((loop.run rounds later).1, loop.reads state ++ (loop.run rounds later).2)
    else (true, [])

/-- The loop ends, and its reads stay below the limit. -/
structure Loop.Safe (loop : Loop S) (limit : Nat) (state : S) : Prop where
  ends : ∃ rounds, (loop.run rounds state).1 = true
  inside : ∀ rounds, ∀ extent ∈ (loop.run rounds state).2, extent.Within limit

variable {loop : Loop S} {limit : Nat} {state : S}

/-- A loop that has stopped is safe. -/
theorem Loop.safe_of_stopped (stopped : loop.running state = false) : loop.Safe limit state := by
  refine ⟨⟨1, by simp [Loop.run, stopped]⟩, fun rounds => ?_⟩
  cases rounds with
  | zero => simp [Loop.run]
  | succ rounds => simp [Loop.run, stopped]

/-- A loop that is left in this round is safe, where its reads are inside. -/
theorem Loop.safe_of_left (inside : ∀ extent ∈ loop.reads state, extent.Within limit)
    (left : loop.next state = none) : loop.Safe limit state := by
  refine ⟨⟨1, ?_⟩, fun rounds => ?_⟩
  · rw [Loop.run, left]
    split <;> rfl
  · cases rounds with
    | zero => simp [Loop.run]
    | succ rounds =>
      rw [Loop.run, left]
      split
      · exact inside
      · simp

/-- A loop that goes on is safe if it is so from the next state on. -/
theorem Loop.safe_of_next {later : S} (inside : ∀ extent ∈ loop.reads state, extent.Within limit)
    (next : loop.next state = some later) (safe : loop.Safe limit later) :
    loop.Safe limit state := by
  obtain ⟨rounds, ended⟩ := safe.ends
  refine ⟨⟨rounds + 1, ?_⟩, fun rounds => ?_⟩
  · rw [Loop.run, next]
    split
    · exact ended
    · rfl
  · cases rounds with
    | zero => simp [Loop.run]
    | succ rounds =>
      rw [Loop.run, next]
      split
      · exact List.forall_mem_append.mpr ⟨inside, safe.inside rounds⟩
      · simp

/-- The reads of the first round of a safe loop. -/
theorem Loop.Safe.first (safe : loop.Safe limit state) (running : loop.running state = true) :
    ∀ extent ∈ loop.reads state, extent.Within limit := by
  have round := safe.inside 1
  rw [Loop.run, if_pos running] at round
  cases next : loop.next state with
  | none => simpa [next] using round
  | some later => simpa [next, Loop.run] using round

/-- A safe loop is safe from its second round on. -/
theorem Loop.Safe.later {later : S} (safe : loop.Safe limit state)
    (running : loop.running state = true) (next : loop.next state = some later) :
    loop.Safe limit later := by
  refine ⟨?_, fun rounds extent member => ?_⟩
  · obtain ⟨rounds, ended⟩ := safe.ends
    cases rounds with
    | zero => cases ended
    | succ rounds =>
      rw [Loop.run, if_pos running, next] at ended
      exact ⟨rounds, ended⟩
  · have round := safe.inside (rounds + 1)
    rw [Loop.run, if_pos running, next] at round
    exact round extent (List.mem_append_right _ member)

/-- A loop that never comes to its end is not safe. -/
theorem Loop.not_safe_of_states {states : Nat → S}
    (running : ∀ n, loop.running (states n) = true)
    (next : ∀ n, loop.next (states n) = some (states (n + 1))) (n : Nat) :
    ¬ loop.Safe limit (states n) := by
  rintro ⟨⟨rounds, ended⟩, -⟩
  induction rounds generalizing n with
  | zero => cases ended
  | succ rounds inductionHypothesis =>
    rw [Loop.run, if_pos (running n), next] at ended
    exact inductionHypothesis (n + 1) ended

/-- A loop that never leaves is safe exactly if it comes to a state in which it does not
run, and reads inside up to there. -/
theorem Loop.safe_iff_states {states : Nat → S}
    (next : ∀ n, loop.next (states n) = some (states (n + 1))) :
    loop.Safe limit (states 0) ↔ ∃ n, loop.running (states n) = false ∧
      ∀ m < n, ∀ extent ∈ loop.reads (states m), extent.Within limit := by
  constructor
  · intro safe
    have onward (n : Nat) (running : ∀ m < n, loop.running (states m) = true) :
        loop.Safe limit (states n) := by
      induction n with
      | zero => exact safe
      | succ n inductionHypothesis =>
        have earlier := inductionHypothesis (fun m below => running m (by omega))
        exact earlier.later (running n (Nat.lt_succ_self n)) (next n)
    by_cases stops : ∃ n, loop.running (states n) = false
    · classical
      refine ⟨Nat.find stops, Nat.find_spec stops, fun m before => ?_⟩
      have running (k : Nat) (below : k ≤ m) : loop.running (states k) = true := by
        simpa using Nat.find_min stops (Nat.lt_of_le_of_lt below before)
      exact (onward m (fun k below => running k below.le)).first (running m le_rfl)
    · refine absurd safe (Loop.not_safe_of_states (fun n => ?_) next 0)
      simpa using not_exists.mp stops n
  · rintro ⟨n, stopped, inside⟩
    have back (count : Nat) (upTo : count ≤ n) : loop.Safe limit (states (n - count)) := by
      induction count with
      | zero => exact Loop.safe_of_stopped stopped
      | succ count inductionHypothesis =>
        have safe := inductionHypothesis (by omega)
        have following : n - count = n - (count + 1) + 1 := by omega
        rw [following] at safe
        exact Loop.safe_of_next (inside _ (by omega)) (next _) safe
    simpa using back n le_rfl

end Loops

section Walks

/-- A walk: where it stops, the length that an element tells, what a visit reads, and
whether the walk is left there. What a visit does may depend on the visits before it. -/
structure Walk where
  stop : Nat
  length : Nat → Nat
  reads : Nat → Nat → List Extent
  leaves : Nat → Nat → Bool

/-- The loop of a walk, with the visits counted. -/
def Walk.loop (walk : Walk) : Loop (Nat × Nat) where
  running state := decide (state.2 < walk.stop)
  reads state := walk.reads state.1 state.2
  next state :=
    if walk.leaves state.1 state.2 then none
    else some (state.1 + 1, state.2 + walk.length state.2)

/-- The place of an element, with the elements lying one behind the other. -/
def element (length : Nat → Nat) (start : Nat) : Nat → Nat
  | 0 => start
  | n + 1 => element length start n + length (element length start n)

/-- Elements come in their order. -/
theorem element_mono (length : Nat → Nat) (start : Nat) {m n : Nat} (upTo : m ≤ n) :
    element length start m ≤ element length start n := by
  induction upTo with
  | refl => exact le_rfl
  | step _ inductionHypothesis => exact inductionHypothesis.trans (Nat.le_add_right _ _)

variable {walk : Walk} {limit start : Nat}

/-- A walk is safe if every element that it comes to is read inside the limit, and has a
length unless the walk is left there. -/
theorem Walk.safe_of_elements
    (sound : ∀ n, (∀ m < n, walk.leaves m (element walk.length start m) = false) →
      element walk.length start n < walk.stop →
      (∀ extent ∈ walk.reads n (element walk.length start n), extent.Within limit) ∧
      (walk.leaves n (element walk.length start n) = false →
        0 < walk.length (element walk.length start n))) :
    walk.loop.Safe limit (0, start) := by
  have walked (left n : Nat) (remaining : walk.stop - element walk.length start n ≤ left)
      (stayed : ∀ m < n, walk.leaves m (element walk.length start m) = false) :
      walk.loop.Safe limit (n, element walk.length start n) := by
    induction left generalizing n with
    | zero =>
      refine Loop.safe_of_stopped (decide_eq_false ?_)
      simp only
      omega
    | succ left inductionHypothesis =>
      by_cases inside : element walk.length start n < walk.stop
      · obtain ⟨reads, progress⟩ := sound n stayed inside
        cases leaving : walk.leaves n (element walk.length start n) with
        | true => exact Loop.safe_of_left reads (if_pos leaving)
        | false =>
          have advances := progress leaving
          refine Loop.safe_of_next reads (if_neg (by simp [leaving]))
            (inductionHypothesis (n + 1) ?_ ?_)
          · rw [element]
            omega
          · intro m below
            rcases Nat.lt_succ_iff_lt_or_eq.mp below with earlier | rfl
            · exact stayed m earlier
            · exact leaving
      · exact Loop.safe_of_stopped (decide_eq_false inside)
  exact walked _ 0 le_rfl (fun m below => absurd below (Nat.not_lt_zero m))

/-- Where leaving depends on the element alone, nothing less will do. -/
theorem Walk.safe_iff (stable : ∀ n place, walk.leaves n place = walk.leaves 0 place) :
    walk.loop.Safe limit (0, start) ↔
      ∀ n, (∀ m < n, walk.leaves 0 (element walk.length start m) = false) →
        element walk.length start n < walk.stop →
        (∀ extent ∈ walk.reads n (element walk.length start n), extent.Within limit) ∧
        (walk.leaves 0 (element walk.length start n) = false →
          0 < walk.length (element walk.length start n)) := by
  constructor
  · intro safe n stayed inside
    have arrives (k : Nat) (upTo : k ≤ n) :
        walk.loop.Safe limit (k, element walk.length start k) := by
      induction k with
      | zero => exact safe
      | succ k inductionHypothesis =>
        have below : element walk.length start k < walk.stop :=
          (element_mono walk.length start (Nat.le_of_lt upTo)).trans_lt inside
        have goes : walk.leaves k (element walk.length start k) ≠ true := by
          rw [stable, stayed k upTo]
          decide
        exact (inductionHypothesis (Nat.le_of_lt upTo)).later (decide_eq_true below) (if_neg goes)
    refine ⟨(arrives n le_rfl).first (decide_eq_true inside), fun goes => ?_⟩
    by_contra none
    have still : walk.length (element walk.length start n) = 0 := by omega
    have next (m : Nat) : walk.loop.next (n + m, element walk.length start n) =
        some (n + (m + 1), element walk.length start n) := by
      have onward : walk.leaves (n + m) (element walk.length start n) ≠ true := by
        rw [stable, goes]
        decide
      rw [Walk.loop]
      simp only [if_neg onward, still, Nat.add_zero, Nat.add_assoc]
    exact @Loop.not_safe_of_states _ walk.loop limit
      (fun m => (n + m, element walk.length start n)) (fun m => decide_eq_true inside) next 0
      (arrives n le_rfl)
  · intro sound
    refine Walk.safe_of_elements (fun n stayed inside => ?_)
    obtain ⟨reads, progress⟩ := sound n (fun m below => by rw [← stable m]; exact stayed m below)
      inside
    exact ⟨reads, fun goes => progress (by rw [← stable n]; exact goes)⟩

end Walks

end SmcPkg.Walks
