import Mathlib

/-!
# Nested sequences

Some elements of a sequence open a scope and some close one. In a nested sequence every
scope is closed by one element behind it, with a nested sequence in between, and no other
element closes anything. A counter decides whether a sequence is nested, so a nested
sequence stays nested when another one is put in anywhere.
-/

namespace SmcPkg.Nesting

variable {α : Type} (opens closes : α → Bool)

/-- Every scope is closed by exactly one element, and every such element closes one. -/
inductive Nested : List α → Prop
  | nil : Nested []
  | plain {x : α} {xs : List α} (opensNot : opens x = false) (closesNot : closes x = false)
      (later : Nested xs) : Nested (x :: xs)
  | scope {first last : α} {inner rest : List α} (opening : opens first = true)
      (closesNot : closes first = false) (closing : closes last = true)
      (opensNot : opens last = false) (inside : Nested inner) (later : Nested rest) :
      Nested (first :: (inner ++ last :: rest))

/-- How many scopes are open behind a sequence. -/
def depthAfter : List α → Nat → Option Nat
  | [], depth => some depth
  | x :: xs, depth =>
    if closes x then
      if opens x then none
      else
        match depth with
        | 0 => none
        | depth + 1 => depthAfter xs depth
    else depthAfter xs (if opens x then depth + 1 else depth)

variable {opens closes} {xs ys : List α} {x : α}

/-- An element that neither opens nor closes leaves the depth. -/
theorem depthAfter_plain (opensNot : opens x = false) (closesNot : closes x = false)
    (depth : Nat) :
    depthAfter opens closes (x :: xs) depth = depthAfter opens closes xs depth := by
  simp [depthAfter, opensNot, closesNot]

/-- One that opens leads one deeper. -/
theorem depthAfter_open (opening : opens x = true) (closesNot : closes x = false)
    (depth : Nat) :
    depthAfter opens closes (x :: xs) depth = depthAfter opens closes xs (depth + 1) := by
  simp [depthAfter, opening, closesNot]

/-- One that closes leads back, if there is something to close. -/
theorem depthAfter_close (opensNot : opens x = false) (closing : closes x = true)
    (depth : Nat) :
    depthAfter opens closes (x :: xs) (depth + 1) = depthAfter opens closes xs depth := by
  simp [depthAfter, opensNot, closing]

/-- Two rows follow each other with the depth in between. -/
theorem depthAfter_append (depth : Nat) :
    depthAfter opens closes (xs ++ ys) depth =
      (depthAfter opens closes xs depth).bind (depthAfter opens closes ys) := by
  induction xs generalizing depth with
  | nil => rfl
  | cons x xs inductionHypothesis =>
    rw [List.cons_append]
    cases closing : closes x with
    | false =>
      cases opening : opens x with
      | false =>
        rw [depthAfter_plain opening closing, depthAfter_plain opening closing]
        exact inductionHypothesis depth
      | true =>
        rw [depthAfter_open opening closing, depthAfter_open opening closing]
        exact inductionHypothesis (depth + 1)
    | true =>
      cases opening : opens x with
      | true => simp [depthAfter, closing, opening]
      | false =>
        cases depth with
        | zero => simp [depthAfter, closing, opening]
        | succ depth =>
          rw [depthAfter_close opening closing, depthAfter_close opening closing]
          exact inductionHypothesis depth

/-- A nested sequence leaves the number of open scopes as it is. -/
theorem Nested.depth (nested : Nested opens closes xs) (depth : Nat) :
    depthAfter opens closes xs depth = some depth := by
  induction nested generalizing depth with
  | nil => rfl
  | plain opensNot closesNot _ inductionHypothesis =>
    rw [depthAfter_plain opensNot closesNot, inductionHypothesis]
  | scope opening closesNot closing opensNot _ _ inside later =>
    rw [depthAfter_open opening closesNot, depthAfter_append, inside]
    rw [Option.bind_some, depthAfter_close opensNot closing, later]

/-- The sequence closes that many scopes that were open before it. -/
def Closes (opens closes : α → Bool) : Nat → List α → Prop
  | 0, xs => Nested opens closes xs
  | depth + 1, xs =>
    ∃ inner last rest, xs = inner ++ last :: rest ∧ Nested opens closes inner ∧
      closes last = true ∧ opens last = false ∧ Closes opens closes depth rest

/-- In front of a row that closes, a plain element changes nothing. -/
theorem Closes.plain {depth : Nat} (opensNot : opens x = false) (closesNot : closes x = false)
    (closing : Closes opens closes depth xs) : Closes opens closes depth (x :: xs) := by
  cases depth with
  | zero => exact Nested.plain opensNot closesNot closing
  | succ depth =>
    obtain ⟨inner, last, rest, rfl, inside, isLast, lastOpens, later⟩ := closing
    exact ⟨x :: inner, last, rest, rfl, Nested.plain opensNot closesNot inside, isLast, lastOpens,
      later⟩

/-- A row that closes one depth more closes an element that opens. -/
theorem Closes.scope {depth : Nat} (opening : opens x = true) (closesNot : closes x = false)
    (closing : Closes opens closes (depth + 1) xs) : Closes opens closes depth (x :: xs) := by
  obtain ⟨inner, last, rest, rfl, inside, isLast, lastOpens, later⟩ := closing
  cases depth with
  | zero => exact Nested.scope opening closesNot isLast lastOpens inside later
  | succ depth =>
    obtain ⟨more, final, rest, rfl, moreInside, isFinal, finalOpens, latest⟩ := later
    refine ⟨x :: (inner ++ last :: more), final, rest, by simp, ?_, isFinal, finalOpens, latest⟩
    exact Nested.scope opening closesNot isLast lastOpens inside moreInside

/-- A sequence that ends with no open scope closes those that were open before it. -/
theorem closes_of_depth {depth : Nat} (ends : depthAfter opens closes xs depth = some 0) :
    Closes opens closes depth xs := by
  induction xs generalizing depth with
  | nil =>
    obtain rfl : depth = 0 := Option.some.inj ends
    exact Nested.nil
  | cons x xs inductionHypothesis =>
    cases closing : closes x with
    | false =>
      cases opening : opens x with
      | false =>
        rw [depthAfter_plain opening closing] at ends
        exact (inductionHypothesis ends).plain opening closing
      | true =>
        rw [depthAfter_open opening closing] at ends
        exact (inductionHypothesis ends).scope opening closing
    | true =>
      cases opening : opens x with
      | true => simp [depthAfter, closing, opening] at ends
      | false =>
        cases depth with
        | zero => simp [depthAfter, closing, opening] at ends
        | succ depth =>
          rw [depthAfter_close opening closing] at ends
          exact ⟨[], x, xs, rfl, Nested.nil, closing, opening, inductionHypothesis ends⟩

/-- A counter decides whether a sequence is nested. -/
theorem nested_iff : Nested opens closes xs ↔ depthAfter opens closes xs 0 = some 0 :=
  ⟨fun nested => nested.depth 0, closes_of_depth⟩

/-- A nested sequence may be put in anywhere. -/
theorem Nested.insert {run : List α} (nested : Nested opens closes (xs ++ ys))
    (inserted : Nested opens closes run) : Nested opens closes (xs ++ (run ++ ys)) := by
  rw [nested_iff, depthAfter_append] at nested ⊢
  cases reached : depthAfter opens closes xs 0 with
  | none =>
    rw [reached] at nested
    exact nested
  | some depth =>
    rw [reached] at nested
    rw [Option.bind_some, depthAfter_append, inserted.depth depth]
    exact nested

/-- Nested rows follow each other. -/
theorem Nested.append (first : Nested opens closes xs) (second : Nested opens closes ys) :
    Nested opens closes (xs ++ ys) := by
  rw [nested_iff, depthAfter_append, first.depth 0, Option.bind_some, second.depth 0]

/-- Elements without a scope may be left out. -/
theorem Nested.filter {keep : α → Bool} (nested : Nested opens closes xs)
    (dropped : ∀ x, keep x = false → opens x = false ∧ closes x = false) :
    Nested opens closes (xs.filter keep) := by
  have kept : ∀ x, opens x = true ∨ closes x = true → keep x = true := by
    intro x marked
    by_contra drop
    have plain := dropped x (by simpa using drop)
    rcases marked with opening | closing
    · exact Bool.noConfusion (plain.1.symm.trans opening)
    · exact Bool.noConfusion (plain.2.symm.trans closing)
  induction nested with
  | nil => exact Nested.nil
  | plain opensNot closesNot _ inductionHypothesis =>
    rw [List.filter_cons]
    split_ifs
    · exact Nested.plain opensNot closesNot inductionHypothesis
    · exact inductionHypothesis
  | scope opening closesNot closing opensNot _ _ inside later =>
    rw [List.filter_cons, if_pos (kept _ (Or.inl opening)), List.filter_append, List.filter_cons,
      if_pos (kept _ (Or.inr closing))]
    exact Nested.scope opening closesNot closing opensNot inside later

/-- There are as many elements that open a scope as elements that close one. -/
theorem Nested.count (nested : Nested opens closes xs) : xs.countP opens = xs.countP closes := by
  induction nested with
  | nil => rfl
  | plain opensNot closesNot _ inductionHypothesis =>
    rw [List.countP_cons, List.countP_cons, opensNot, closesNot, inductionHypothesis]
  | scope opening closesNot closing opensNot _ _ inside later =>
    simp only [List.countP_cons, List.countP_append, opening, closesNot, closing, opensNot, inside,
      later]
    simp
    omega

end SmcPkg.Nesting
