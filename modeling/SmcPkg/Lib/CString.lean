import Mathlib

/-!
# Null-terminated strings and substring search

A C string is the list of its characters before the terminator, so the
terminator itself is the empty remainder. `strstr` scans forward from the
current position and returns the remainder that starts with the pattern; when
there is no occurrence it returns the remainder at the terminator, which is the
empty list rather than a separate failure value.

The skipping laws describe text in which a pattern cannot start. They
are stated over an arbitrary alphabet, because only equality of characters is
used. The decimal laws fix ASCII digits.
-/

namespace SmcPkg.CString

section Search

variable {α : Type} [DecidableEq α]

/-- Forward search. The result starts with the pattern, or is empty when the
pattern does not occur; an empty pattern matches at once. -/
def strstr : List α → List α → List α
  | [], _ => []
  | c :: rest, pattern =>
    if pattern.isPrefixOf (c :: rest) then c :: rest else strstr rest pattern

/-- A pattern at the current position is found there. -/
theorem strstr_here (pattern rest : List α) (nonempty : pattern ≠ []) :
    strstr (pattern ++ rest) pattern = pattern ++ rest := by
  cases pattern with
  | nil => exact absurd rfl nonempty
  | cons c tail =>
    have matched : (c :: tail).isPrefixOf (c :: (tail ++ rest)) = true := by
      rw [List.isPrefixOf_iff_prefix]
      exact ⟨rest, rfl⟩
    simp only [List.cons_append, strstr, matched, if_true]

/-- A character other than the pattern's first is stepped over. -/
theorem strstr_skip_char {c first : α} (different : c ≠ first) (tail rest : List α) :
    strstr (c :: rest) (first :: tail) = strstr rest (first :: tail) := by
  have mismatch : (first :: tail).isPrefixOf (c :: rest) = false := by
    simp [List.isPrefixOf, Ne.symm different]
  simp only [strstr, mismatch, Bool.false_eq_true, if_false]

/-- Text without the pattern's first character is stepped over whole. -/
theorem strstr_skip_absent {first : α} {text : List α} (absent : first ∉ text)
    (tail rest : List α) :
    strstr (text ++ rest) (first :: tail) = strstr rest (first :: tail) := by
  induction text with
  | nil => rfl
  | cons c text inductionHypothesis =>
    have different : c ≠ first := fun same => absent (same ▸ List.mem_cons_self)
    have absentTail : first ∉ text := fun member => absent (List.mem_cons_of_mem c member)
    rw [List.cons_append, strstr_skip_char different, inductionHypothesis absentTail]

/-- Text that may contain the pattern's first character, but never its second,
is stepped over unless the second character follows right behind it. An
occurrence starting inside would need the second character next. -/
theorem strstr_skip_run {first second : α} {text : List α} (absent : second ∉ text)
    (tail rest : List α) (next : rest.head? ≠ some second) :
    strstr (text ++ rest) (first :: second :: tail) = strstr rest (first :: second :: tail) := by
  induction text with
  | nil => rfl
  | cons c text inductionHypothesis =>
    have absentTail : second ∉ text := fun member => absent (List.mem_cons_of_mem c member)
    have mismatch : (first :: second :: tail).isPrefixOf (c :: (text ++ rest)) = false := by
      cases text with
      | nil =>
        cases rest with
        | nil => simp [List.isPrefixOf]
        | cons d rest =>
          have different : second ≠ d := fun same => next (by simp [same])
          simp [List.isPrefixOf, different]
      | cons d text =>
        have different : second ≠ d := fun same => absentTail (same ▸ List.mem_cons_self)
        simp [List.isPrefixOf, different]
    rw [List.cons_append, strstr, mismatch, if_neg (by decide), inductionHypothesis absentTail]

/-- The search fails exactly when the pattern does not occur. -/
theorem strstr_eq_nil_iff {pattern : List α} (nonempty : pattern ≠ []) (text : List α) :
    strstr text pattern = [] ↔ ¬ pattern <:+: text := by
  induction text with
  | nil => simp [strstr, List.infix_nil, nonempty]
  | cons c rest inductionHypothesis =>
    rw [List.infix_cons_iff, not_or, ← inductionHypothesis, ← List.isPrefixOf_iff_prefix, strstr]
    split
    · rename_i matched
      simp [matched]
    · rename_i mismatch
      simp [mismatch]

/-- The remainder a search returns is empty or starts with the pattern. -/
theorem strstr_cases (text pattern : List α) :
    strstr text pattern = [] ∨ ∃ rest, strstr text pattern = pattern ++ rest := by
  induction text with
  | nil => exact Or.inl rfl
  | cons c rest inductionHypothesis =>
    rw [strstr]
    split
    · rename_i matched
      obtain ⟨behind, same⟩ := List.isPrefixOf_iff_prefix.mp matched
      exact Or.inr ⟨behind, same.symm⟩
    · exact inductionHypothesis

/-- The remainder a search returns is the end of the text. -/
theorem strstr_suffix (text pattern : List α) : strstr text pattern <:+ text := by
  induction text with
  | nil => exact List.suffix_rfl
  | cons c rest inductionHypothesis =>
    rw [strstr]
    split
    · exact List.suffix_rfl
    · exact inductionHypothesis.trans (List.suffix_cons c rest)

end Search

section Separator

variable {α : Type}

/-- The part before the first separator is determined by the text. -/
theorem separated_front {separator : α} {front other : List α} (absent : separator ∉ front)
    (absentOther : separator ∉ other) {rest remainder : List α}
    (same : front ++ separator :: rest = other ++ separator :: remainder) :
    front = other ∧ rest = remainder := by
  induction front generalizing other with
  | nil =>
    cases other with
    | nil => exact ⟨rfl, (List.cons.inj same).2⟩
    | cons c other => exact absurd ((List.cons.inj same).1 ▸ List.mem_cons_self) absentOther
  | cons c front inductionHypothesis =>
    cases other with
    | nil => exact absurd ((List.cons.inj same).1 ▸ List.mem_cons_self) absent
    | cons d other =>
      obtain ⟨rfl, tails⟩ := List.cons.inj same
      obtain ⟨rfl, rests⟩ := inductionHypothesis
        (fun member => absent (List.mem_cons_of_mem _ member))
        (fun member => absentOther (List.mem_cons_of_mem _ member)) tails
      exact ⟨rfl, rests⟩

/-- The part behind the last separator is determined by the text. -/
theorem separated_back {separator : α} {back other : List α} (absent : separator ∉ back)
    (absentOther : separator ∉ other) {front before : List α}
    (same : front ++ separator :: back = before ++ separator :: other) :
    front = before ∧ back = other := by
  have turned := congrArg List.reverse same
  simp only [List.reverse_append, List.reverse_cons, List.append_assoc, List.singleton_append]
    at turned
  obtain ⟨backs, fronts⟩ := separated_front (by simpa using absent) (by simpa using absentOther) turned
  exact ⟨List.reverse_inj.mp fronts, List.reverse_inj.mp backs⟩

end Separator

/-- Test the characters of a text one after the other. -/
theorem forall_mem_of_all {α : Type} {text : List α} {holds : α → Prop} [DecidablePred holds]
    (tested : text.all (fun c => decide (holds c)) = true) : ∀ c ∈ text, holds c := by
  intro c member
  exact of_decide_eq_true (List.all_eq_true.mp tested c member)

/-- The code of an ASCII character as an unsigned byte. -/
def char8 (c : Char) : UInt8 := UInt8.ofNat c.toNat

/-- The bytes of an ASCII text. -/
def ascii (text : List Char) : List UInt8 := text.map char8

/-- The wide characters of an ASCII text. -/
def wide (text : List Char) : List UInt16 := text.map (fun c => UInt16.ofNat c.toNat)

/-- An ASCII decimal digit. -/
def isDigit (c : UInt8) : Bool := char8 '0' ≤ c && c ≤ char8 '9'

/-- The numeric value of a digit. -/
def digitValue (c : UInt8) : Nat := c.toNat - (char8 '0').toNat

/-- The value of a digit string continued from `value`. -/
def decimalFrom (value : Nat) (digits : List UInt8) : Nat :=
  digits.foldl (fun v c => v * 10 + digitValue c) value

/-- The value of a digit string. -/
def decimal (digits : List UInt8) : Nat := decimalFrom 0 digits

/-- Reading further digits never decreases the value, so a bound on the final
value bounds every intermediate one. -/
theorem le_decimalFrom (value : Nat) (digits : List UInt8) : value ≤ decimalFrom value digits := by
  induction digits generalizing value with
  | nil => exact Nat.le_refl value
  | cons c digits inductionHypothesis =>
    have step : value * 10 + digitValue c ≤ decimalFrom (value * 10 + digitValue c) digits :=
      inductionHypothesis _
    have grows : value ≤ value * 10 + digitValue c := by omega
    exact Nat.le_trans grows step

end SmcPkg.CString
