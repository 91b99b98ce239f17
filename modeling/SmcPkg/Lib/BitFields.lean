import Mathlib

/-!
# Fields of a word of bits

A word that several writers fill with `or` and one reader takes apart by shifts
is read here as a row of fields. `field` reads the bits from a place on, `place`
puts a value there, and `union` is what a list of writers leaves. The lemmas say
what a reader sees of one writer at its own place and away from it.
-/

namespace SmcPkg.BitFields

/-! The numbers of fields that words are cut into here. None is zero, so the numerals name
their places. -/

instance neZero_two : NeZero 2 := ⟨by decide⟩

instance neZero_three : NeZero 3 := ⟨by decide⟩

instance neZero_four : NeZero 4 := ⟨by decide⟩

variable {width size : Nat}

/-- The `size` bits of a word that start at a place. -/
def field (size : Nat) (word : BitVec width) (start : Nat) : BitVec size :=
  (word >>> start).setWidth size

/-- A value put at a place of a word of zeros. -/
def place (width : Nat) (value : BitVec size) (start : Nat) : BitVec width :=
  value.setWidth width <<< start

/-- What several writers leave together. -/
def union (words : List (BitVec width)) : BitVec width :=
  words.foldr (· ||| ·) (BitVec.ofNat width 0)

/-- A field of two words together holds the bits of either. -/
theorem field_or (first second : BitVec width) (start : Nat) :
    field size (first ||| second) start = field size first start ||| field size second start := by
  apply BitVec.eq_of_getLsbD_eq
  intro bit inside
  simp [field, inside]

@[simp] theorem field_zero (start : Nat) :
    field size (BitVec.ofNat width 0) start = BitVec.ofNat size 0 := by
  simp [field]

/-- A reader at the writer's own place gets the value. -/
theorem field_place_same (value : BitVec size) {start : Nat} (fits : start + size ≤ width) :
    field size (place width value start) start = value := by
  apply BitVec.eq_of_getLsbD_eq
  intro bit inside
  have inWidth : start + bit < width := by omega
  simp [field, place, inside, inWidth]

/-- A reader whose field does not meet the writer's gets nothing. -/
theorem field_place_apart (value : BitVec size) {start other : Nat}
    (apart : start + size ≤ other ∨ other + size ≤ start) :
    field size (place width value start) other = BitVec.ofNat size 0 := by
  apply BitVec.eq_of_getLsbD_eq
  intro bit inside
  simp only [field, place, BitVec.getLsbD_setWidth, BitVec.getLsbD_ushiftRight,
    BitVec.getLsbD_shiftLeft]
  rcases apart with below | above
  · have high : size ≤ other + bit - start := by omega
    simp [BitVec.getLsbD_of_ge value _ high]
  · have low : other + bit < start := by omega
    simp [low]

/-- A word with another first field. -/
def withFirst (value : BitVec size) (word : BitVec width) : BitVec width :=
  (word >>> size) <<< size ||| value.setWidth width

/-- The first field is read back. -/
theorem field_withFirst_first (value : BitVec size) (word : BitVec width) (fits : size ≤ width) :
    field size (withFirst value word) 0 = value := by
  apply BitVec.eq_of_getLsbD_eq
  intro bit inside
  have inWidth : bit < width := by omega
  simp [field, withFirst, inside, inWidth]

/-- The fields behind it stay. -/
theorem field_withFirst_later (value : BitVec size) (word : BitVec width) {start : Nat}
    (later : size ≤ start) :
    field size (withFirst value word) start = field size word start := by
  apply BitVec.eq_of_getLsbD_eq
  intro bit inside
  have high : size ≤ start + bit := by omega
  have back : size + (start + bit - size) = start + bit := by omega
  by_cases inWidth : start + bit < width
  · simp [field, withFirst, inside, inWidth, back, high]
  · have outside : width ≤ start + bit := by omega
    simp [field, withFirst, inside, outside]

@[simp] theorem union_nil : union ([] : List (BitVec width)) = BitVec.ofNat width 0 := rfl

@[simp] theorem union_cons (word : BitVec width) (words : List (BitVec width)) :
    union (word :: words) = word ||| union words := rfl

/-- A union of two rows is that of their unions. -/
theorem union_append (front back : List (BitVec width)) :
    union (front ++ back) = union front ||| union back := by
  induction front with
  | nil => simp
  | cons word front inductionHypothesis =>
    simp [inductionHypothesis, BitVec.or_assoc]

/-- A loop that ors one word after the other into an accumulator. -/
theorem foldl_or {α : Type} (write : α → BitVec width) (items : List α) (start : BitVec width) :
    items.foldl (fun word item => word ||| write item) start =
      start ||| union (items.map write) := by
  induction items generalizing start with
  | nil => simp
  | cons item items inductionHypothesis =>
    simp [inductionHypothesis, BitVec.or_assoc]

/-- A reading that keeps `or` finds bits exactly where it finds bits of one of the writers. -/
theorem read_union_ne_zero (read : BitVec width → BitVec size)
    (empty : read (BitVec.ofNat width 0) = BitVec.ofNat size 0)
    (keeps : ∀ first second, read (first ||| second) = read first ||| read second)
    (words : List (BitVec width)) :
    read (union words) ≠ BitVec.ofNat size 0 ↔ ∃ word ∈ words, read word ≠ BitVec.ofNat size 0 := by
  induction words with
  | nil => simp [empty]
  | cons word words inductionHypothesis =>
    have either : read word ||| read (union words) = BitVec.ofNat size 0 ↔
        read word = BitVec.ofNat size 0 ∧ read (union words) = BitVec.ofNat size 0 :=
      BitVec.or_eq_zero_iff
    rw [union_cons, keeps, Ne, either, not_and_or, ← Ne, ← Ne, inductionHypothesis]
    simp

end SmcPkg.BitFields
