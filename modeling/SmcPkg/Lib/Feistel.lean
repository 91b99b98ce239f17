import Mathlib

/-!
# Ciphers of two halves

A round mixes a key into the left half, a function of that into the right half, and exchanges
the halves. The last two keys are mixed into the halves without a round. Whatever the function
is, the same keys in the opposite order take the cipher back.
-/

namespace SmcPkg.Feistel

variable {α : Type*} (mix : α → α → α) (round : α → α)

/-- A round with its key. -/
def step (halves : α × α) (key : α) : α × α :=
  (mix (round (mix halves.1 key)) halves.2, mix halves.1 key)

/-- The halves are exchanged back, and the last two keys are mixed in. -/
def close (first second : α) (halves : α × α) : α × α :=
  (mix halves.2 second, mix halves.1 first)

/-- The cipher: a round for each key but the last two. -/
def crypt : List α → α × α → α × α
  | [], halves => halves
  | [first, second], halves => close mix first second halves
  | key :: keys, halves => crypt keys (step mix round halves key)

/-- The last two keys close the network. -/
theorem crypt_append (keys : List α) (first second : α) (halves : α × α) :
    crypt mix round (keys ++ [first, second]) halves =
      close mix first second (keys.foldl (step mix round) halves) := by
  induction keys generalizing halves with
  | nil => rfl
  | cons key keys inductionHypothesis =>
    have more : ∃ next last rest, keys ++ [first, second] = next :: last :: rest := by
      cases keys with
      | nil => exact ⟨first, second, [], rfl⟩
      | cons next keys =>
        cases keys with
        | nil => exact ⟨next, first, [second], rfl⟩
        | cons last keys => exact ⟨next, last, keys ++ [first, second], rfl⟩
    obtain ⟨next, last, rest, split⟩ := more
    rw [List.cons_append, List.foldl_cons, ← inductionHypothesis, split, crypt]
    simp

section Inverse

variable {mix} (assoc : ∀ a b c, mix (mix a b) c = mix a (mix b c))
  (cancelLeft : ∀ a b, mix a (mix a b) = b) (cancelRight : ∀ a b, mix (mix a b) b = a)

include cancelRight in
/-- Closing twice, with the keys exchanged, changes nothing. -/
theorem close_close (first second : α) (halves : α × α) :
    close mix second first (close mix first second halves) = halves := by
  simp only [close, cancelRight]

include assoc cancelLeft cancelRight

/-- A round with the last key takes back a closing and the round before it, up to a closing with
the keys before. -/
theorem step_close (first second key : α) (halves : α × α) :
    step mix round (close mix first second (step mix round halves key)) second =
      close mix key first halves := by
  simp only [step, close, cancelRight, assoc, cancelLeft]

/-- The rounds in the opposite order take back all rounds, up to a closing with the first two
keys. -/
theorem foldl_close (keys : List α) (first second : α) (halves : α × α) :
    ∃ next last rest, keys ++ [first, second] = next :: last :: rest ∧
      ((keys ++ [first, second]).reverse.take keys.length).foldl (step mix round)
        (close mix first second (keys.foldl (step mix round) halves)) =
          close mix next last halves := by
  induction keys using List.reverseRecOn generalizing first second with
  | nil => exact ⟨first, second, [], rfl, rfl⟩
  | append_singleton keys key inductionHypothesis =>
    obtain ⟨next, last, rest, split, taken⟩ := inductionHypothesis key first
    have longer : keys ++ [key] ++ [first, second] = next :: last :: (rest ++ [second]) := by
      rw [← List.cons_append, ← List.cons_append, ← split]
      simp
    refine ⟨next, last, rest ++ [second], longer, ?_⟩
    rw [← taken]
    have reversed : (keys ++ [key] ++ [first, second]).reverse =
        second :: (keys ++ [key, first]).reverse := by simp
    rw [reversed, List.length_append, List.length_singleton, List.take_succ_cons, List.foldl_cons,
      List.foldl_append, List.foldl_cons, List.foldl_nil,
      step_close round assoc cancelLeft cancelRight]

/-- The keys in the opposite order take the cipher back. -/
theorem crypt_reverse (keys : List α) (first second : α) (halves : α × α) :
    crypt mix round (keys ++ [first, second]).reverse
      (crypt mix round (keys ++ [first, second]) halves) = halves := by
  obtain ⟨next, last, rest, split, taken⟩ :=
    foldl_close round assoc cancelLeft cancelRight keys first second halves
  have length : rest.length = keys.length := by
    have same := congrArg List.length split
    simpa using same.symm
  have reversed : (keys ++ [first, second]).reverse =
      (keys ++ [first, second]).reverse.take keys.length ++ [last, next] := by
    rw [split, List.reverse_cons, List.reverse_cons, List.append_assoc, ← length,
      List.take_left' (List.length_reverse)]
    rfl
  rw [reversed, crypt_append, crypt_append, taken, close_close cancelRight]

end Inverse

end SmcPkg.Feistel
