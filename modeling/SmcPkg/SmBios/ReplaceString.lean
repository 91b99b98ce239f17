import SmcPkg.InBand.SmbiosString

/-!
# Replacing a string of a structure

`ReplaceSmbiosString` finds a string of an SMBIOS structure by its number and puts other
text in its place. Three loops look for zeros: one for the end of the structure, one
for the string, one for the strings behind it. A read behind the structure is the
fault `overflow` here, so that a call that returns has read inside alone.

The number is counted down before it is tested, so that zero is the 256th string, and a
number is taken for a string as long as its place is before the end of the structure:
the zeros that close the structure are strings of their own to the search.
-/

namespace SmcPkg.ReplaceString

open Card RaidCmd StringSet SmbiosString

section Source

/-- The loop that looks for a 16-bit zero, a byte further each time. -/
def zeroPair : List UInt8 → Checked Nat
  | first :: second :: rest =>
    if first = 0 ∧ second = 0 then .ok 0 else (zeroPair (second :: rest)).map (· + 1)
  | _ => .error .overflow

/-- The loop that looks for a zero. -/
def textLength : List UInt8 → Checked Nat
  | [] => .error .overflow
  | byte :: rest => if byte = 0 then .ok 0 else (textLength rest).map (· + 1)

/-- `GetStructureLength`. -/
def getStructureLength (struct : List UInt8) : Checked UInt16 := do
  let length := (struct.getD 1 0).toNat
  let pair ← zeroPair (struct.drop length)
  .ok (UInt16.ofNat (length + pair + 2))

/-- The string that a number counts to: it is counted down before it is tested. -/
def ordinal (stringNumber : UInt8) : Nat :=
  if stringNumber = 0 then 256 else stringNumber.toNat

/-- The outer loop of `GetStringOffset`, with the strings left to pass. -/
def passStrings (strings : List UInt8) : Nat → Nat → Checked Nat
  | 0, offset => .ok offset
  | count + 1, offset => do
    let length ← textLength (strings.drop offset)
    passStrings strings count (offset + length + 1)

/-- `GetStringOffset`. -/
def getStringOffset (strings : List UInt8) (stringNumber : UInt8) : Checked UInt16 := do
  let offset ← passStrings strings (ordinal stringNumber - 1) 0
  .ok (UInt16.ofNat offset)

/-- `FindString`: the place of the string in the structure. -/
def findString (struct : List UInt8) (stringNumber : UInt8) : Checked (Option Nat) := do
  let structureEnd ← getStructureLength struct
  let length := (struct.getD 1 0).toNat
  let offset ← getStringOffset (struct.drop length) stringNumber
  if structureEnd.toNat ≤ length + offset.toNat then .ok none
  else .ok (some (length + offset.toNat))

/-- `"NO DIMM"`. -/
def noDimm : List UInt8 := [0x4E, 0x4F, 0x20, 0x44, 0x49, 0x4D, 0x4D]

/-- What a call leaves: the status, the structure up to the end of what was copied, and
    `*UpdateBufferSize`. -/
structure Replaced where
  status : Status
  struct : List UInt8
  updateBufferSize : UInt16
deriving DecidableEq

/-- `ReplaceSmbiosString` with the text of `StringData`. -/
def replaceSmbiosString (struct : List UInt8) (updateBufferSize : UInt16) (stringNum : UInt8)
    (text : List UInt8) : Checked Replaced := do
  match ← findString struct stringNum with
  | none => .ok ⟨efiNotFound, struct, updateBufferSize⟩
  | some place =>
    if textAt struct place = noDimm then .ok ⟨efiNotFound, struct, updateBufferSize⟩
    else
      let length ← textLength (struct.drop place)
      let next := place + length + 1
      let pair ← zeroPair (struct.drop place)
      let remaining := (struct.drop next).take (place + pair + 2 - next)
      let stringSize : UInt8 := UInt8.ofNat (text.length + 1)
      let orgStringSize : UInt8 := UInt8.ofNat (next - place)
      .ok ⟨efiSuccess, struct.take place ++ (text ++ [0]).take stringSize.toNat ++ remaining,
        updateBufferSize + stringSize.toUInt16 - orgStringSize.toUInt16⟩

end Source

section Purpose

/-- A structure whose strings are shorter than 255 bytes. -/
structure ShortStructure extends SmbiosStructure where
  fewer : ∀ text ∈ strings, text.length < 255

/-- The bytes of a structure with other text for one string. -/
def ShortStructure.withString (struct : ShortStructure) (n : Nat) (text : List UInt8) :
    List UInt8 :=
  struct.formatted ++ (packed (struct.strings.set n text) ++ [0])

/-- What the call is for: a string with a number is replaced and the size follows, unless it is
    `"NO DIMM"`; for every other number nothing is found. -/
def ShortStructure.replaced (struct : ShortStructure) (updateBufferSize : UInt16)
    (stringNum : UInt8) (text : List UInt8) : Replaced :=
  let unchanged : Replaced := ⟨efiNotFound, struct.bytes, updateBufferSize⟩
  if stringNum = 0 then unchanged
  else
    match struct.strings[stringNum.toNat - 1]? with
    | none => unchanged
    | some old =>
      if old = noDimm then unchanged
      else
        ⟨efiSuccess, struct.withString (stringNum.toNat - 1) text,
          updateBufferSize + UInt16.ofNat text.length - UInt16.ofNat old.length⟩

end Purpose

section Loops

variable {pieces : List (List UInt8)} {text behind : List UInt8}

/-- The length of a text is counted up to its zero. -/
theorem textLength_free (free : 0 ∉ text) : textLength (text ++ 0 :: behind) = .ok text.length := by
  induction text with
  | nil => rfl
  | cons byte text inductionHypothesis =>
    have nonzero : byte ≠ 0 := fun zero => free (zero ▸ List.mem_cons_self)
    have rest := inductionHypothesis fun inside => free (List.mem_cons_of_mem _ inside)
    rw [List.cons_append, textLength, if_neg nonzero, rest]
    rfl

/-- The 16-bit search passes bytes that are not zero. -/
theorem zeroPair_free (free : 0 ∉ text) :
    zeroPair (text ++ behind) = (zeroPair behind).map (· + text.length) := by
  induction text with
  | nil =>
    rw [List.nil_append]
    cases zeroPair behind <;> rfl
  | cons byte text inductionHypothesis =>
    have nonzero : byte ≠ 0 := fun zero => free (zero ▸ List.mem_cons_self)
    have rest := inductionHypothesis fun inside => free (List.mem_cons_of_mem _ inside)
    have passed : zeroPair (byte :: (text ++ behind)) =
        (zeroPair (text ++ behind)).map (· + 1) := by
      cases tail : text ++ behind with
      | nil => rfl
      | cons second more =>
        rw [zeroPair, if_neg (fun both => nonzero both.1)]
    rw [List.cons_append, passed, rest]
    cases zeroPair behind <;> rfl

/-- From a string on, the search ends at the two zeros that close the structure. -/
theorem zeroPair_packed (filled : ∀ piece ∈ pieces, piece ≠ []) (free : ∀ piece ∈ pieces, 0 ∉ piece)
    (nonempty : pieces ≠ []) :
    zeroPair (packed pieces ++ [0]) = .ok ((packed pieces).length - 1) := by
  induction pieces with
  | nil => exact absurd rfl nonempty
  | cons piece pieces inductionHypothesis =>
    have own := free piece List.mem_cons_self
    rw [packed_cons, List.append_assoc, List.cons_append, zeroPair_free own]
    cases pieces with
    | nil =>
      simp [packed, zeroPair, Except.map]
    | cons next pieces =>
      have rest := inductionHypothesis
        (fun piece inside => filled piece (List.mem_cons_of_mem _ inside))
        (fun piece inside => free piece (List.mem_cons_of_mem _ inside)) (List.cons_ne_nil _ _)
      obtain ⟨first, more, shape⟩ := List.exists_cons_of_ne_nil
        (filled next (List.mem_cons_of_mem _ List.mem_cons_self))
      have nonzero : first ≠ 0 := by
        rintro rfl
        apply free next (List.mem_cons_of_mem _ List.mem_cons_self)
        rw [shape]
        exact List.mem_cons_self
      have begins : packed (next :: pieces) ++ [0] =
          first :: (more ++ 0 :: packed pieces ++ [0]) := by
        rw [packed_cons, shape]
        rfl
      have long : 1 ≤ (packed (next :: pieces)).length := by
        rw [packed_cons, List.length_append, List.length_cons]
        omega
      rw [begins] at rest ⊢
      rw [zeroPair, if_neg (fun both => nonzero both.2), rest]
      simp only [Except.map, List.length_append, List.length_cons, Except.ok.injEq]
      omega

end Loops

section Finding

variable (struct : ShortStructure)

/-- The strings to the search: with those that the closing zeros make. -/
def ShortStructure.pieces : List (List UInt8) := areaPieces struct.strings

/-- The structure is its formatted area and its strings. -/
theorem bytes_split : struct.bytes = struct.formatted ++ (packed struct.pieces ++ []) := by
  rw [SmbiosStructure.bytes, area_eq_packed, List.append_nil]
  rfl

/-- The length of the structure, by its strings. -/
theorem bytes_length :
    struct.bytes.length = struct.formatted.length + (packed struct.pieces).length := by
  rw [bytes_split, List.append_nil, List.length_append]

/-- The second byte of the structure is the length of its formatted area. -/
theorem length_byte : (struct.bytes.getD 1 0).toNat = struct.formatted.length := by
  have second : 1 < struct.formatted.length := Nat.lt_of_lt_of_le (by decide) struct.header
  rw [SmbiosStructure.bytes, List.getD_append _ _ _ _ second, ← struct.sized]

/-- Behind the formatted area there are the strings. -/
theorem bytes_drop : struct.bytes.drop struct.formatted.length = packed struct.pieces := by
  rw [bytes_split, List.append_nil, List.drop_left]

/-- What lies from the n-th string of the search on. -/
theorem drop_piece {n : Nat} (inside : n < struct.pieces.length) :
    struct.bytes.drop (struct.formatted.length + placeOf struct.pieces n) =
      struct.pieces[n] ++ 0 :: packed (struct.pieces.drop (n + 1)) := by
  rw [drop_placeOf (bytes_split struct) inside, List.append_nil]

/-- The length that the code finds is that of the structure. -/
theorem structure_length :
    getStructureLength struct.bytes = .ok (UInt16.ofNat struct.bytes.length) := by
  have pair : ∃ place, zeroPair (packed struct.pieces) = .ok place ∧
      struct.formatted.length + place + 2 = struct.bytes.length := by
    rw [bytes_length, ShortStructure.pieces, ← area_eq_packed, area]
    split
    · exact ⟨0, rfl, rfl⟩
    case isFalse nonempty =>
      refine ⟨_, zeroPair_packed struct.filled struct.free nonempty, ?_⟩
      obtain ⟨first, more, shape⟩ := List.exists_cons_of_ne_nil nonempty
      rw [shape, packed_cons]
      simp only [List.length_append, List.length_cons, List.length_nil]
      omega
  obtain ⟨place, found, ends⟩ := pair
  rw [getStructureLength, length_byte, bytes_drop, found]
  change Except.ok (UInt16.ofNat (struct.formatted.length + place + 2)) = _
  rw [ends]

/-- The search from the n-th string on passes strings up to the end of the structure. -/
theorem passStrings_run (count n : Nat) (upTo : n ≤ struct.pieces.length) :
    passStrings (packed struct.pieces) count (placeOf struct.pieces n) =
      if n + count ≤ struct.pieces.length then .ok (placeOf struct.pieces (n + count))
      else .error .overflow := by
  induction count generalizing n with
  | zero => rw [passStrings, Nat.add_zero, if_pos upTo]
  | succ count inductionHypothesis =>
    obtain rfl | inside := Nat.eq_or_lt_of_le upTo
    · rw [if_neg (by omega), passStrings, placeOf_length, List.drop_length]
      rfl
    · have here : (packed struct.pieces).drop (placeOf struct.pieces n) =
          struct.pieces[n] ++ 0 :: packed (struct.pieces.drop (n + 1)) := by
        rw [← bytes_drop, List.drop_drop, drop_piece struct inside]
      have length : textLength (struct.pieces[n] ++ 0 :: packed (struct.pieces.drop (n + 1))) =
          .ok struct.pieces[n].length :=
        textLength_free (areaPieces_free struct.free _ (List.getElem_mem inside))
      have next : placeOf struct.pieces n + struct.pieces[n].length + 1 =
          placeOf struct.pieces (n + 1) := by
        rw [placeOf_succ inside, Nat.add_assoc]
      rw [passStrings, here]
      refine (congrArg (· >>= _) length).trans ?_
      change passStrings _ count (placeOf struct.pieces n + struct.pieces[n].length + 1) = _
      rw [next, inductionHypothesis (n + 1) inside, Nat.add_right_comm n 1 count, Nat.add_assoc]

/-- Strings begin inside of the structure. -/
theorem placeOf_le {n : Nat} (upTo : n ≤ struct.pieces.length) :
    placeOf struct.pieces n ≤ (packed struct.pieces).length := by
  obtain rfl | inside := Nat.eq_or_lt_of_le upTo
  · exact Nat.le_of_eq placeOf_length
  · exact Nat.le_of_lt (Nat.lt_of_lt_of_le (by omega) (placeOf_inside inside))

/-- `FindString`: every string of the search is found, the one behind the last is not, and to
    look further is to read behind the structure. -/
theorem findString_eq (stringNum : UInt8) :
    findString struct.bytes stringNum =
      if ordinal stringNum - 1 < struct.pieces.length then
        .ok (some (struct.formatted.length + placeOf struct.pieces (ordinal stringNum - 1)))
      else if ordinal stringNum - 1 = struct.pieces.length then .ok none
      else .error .overflow := by
  have short := struct.short
  have size : (struct.formatted ++ area struct.strings).length =
    struct.formatted.length + (packed struct.pieces).length := bytes_length struct
  rw [size] at short
  have start := passStrings_run struct (ordinal stringNum - 1) 0 (Nat.zero_le _)
  rw [placeOf_zero, Nat.zero_add] at start
  rw [findString, structure_length, length_byte]
  dsimp only
  rw [bytes_drop, getStringOffset, start, bytes_length]
  by_cases upTo : ordinal stringNum - 1 ≤ struct.pieces.length
  · have offset : (UInt16.ofNat (placeOf struct.pieces (ordinal stringNum - 1))).toNat =
        placeOf struct.pieces (ordinal stringNum - 1) := by
      have below := placeOf_le struct upTo
      rw [UInt16.toNat_ofNat', Nat.mod_eq_of_lt (by omega)]
    have ends : (UInt16.ofNat (struct.formatted.length + (packed struct.pieces).length)).toNat =
        struct.formatted.length + (packed struct.pieces).length := by
      rw [UInt16.toNat_ofNat', Nat.mod_eq_of_lt short]
    rw [if_pos upTo]
    change (if (UInt16.ofNat _).toNat ≤ _ + (UInt16.ofNat _).toNat then _ else _) = _
    rw [offset, ends]
    obtain last | inside := Nat.eq_or_lt_of_le upTo
    · rw [last, placeOf_length, if_pos (Nat.le_refl _), if_neg (Nat.lt_irrefl _), if_pos rfl]
    · have below := placeOf_inside inside
      rw [if_neg (by omega), if_pos inside]
  · rw [if_neg upTo, if_neg (by omega), if_neg (by omega)]
    rfl

end Finding

section Replacing

/-- A replacement: text without a zero, shorter than 255 bytes. -/
structure Replacement where
  text : List UInt8
  free : 0 ∉ text
  short : text.length < 255

variable (struct : ShortStructure) (updateBufferSize : UInt16) (stringNum : UInt8)
  (new : Replacement)

/-- The counter of a string's size holds the size of a short one. -/
theorem size_byte {text : List UInt8} (short : text.length < 255) :
    (UInt8.ofNat (text.length + 1)).toNat = text.length + 1 := by
  rw [UInt8.toNat_ofNat', Nat.mod_eq_of_lt (by omega)]

/-- The counters hold the zeros too, and the difference of the sizes is that of the texts. -/
theorem size_difference {first second : Nat} (firstShort : first < 255)
    (secondShort : second < 255) :
    updateBufferSize + (UInt8.ofNat (first + 1)).toUInt16 - (UInt8.ofNat (second + 1)).toUInt16 =
      updateBufferSize + UInt16.ofNat first - UInt16.ofNat second := by
  apply UInt16.toNat_inj.mp
  have bound := updateBufferSize.toNat_lt
  simp only [UInt16.toNat_sub, UInt16.toNat_add, UInt8.toNat_toUInt16, UInt8.toNat_ofNat',
    UInt16.toNat_ofNat']
  omega

/-- A string of the structure, by its number. -/
theorem string_piece {n : Nat} (inside : n < struct.strings.length) :
    ∃ below : n < struct.pieces.length, struct.pieces[n] = struct.strings[n] := by
  have found := areaPieces_string inside
  obtain ⟨below, same⟩ := List.getElem?_eq_some_iff.mp found
  exact ⟨below, same⟩

/-- From a string of the structure on. -/
theorem drop_string {n : Nat} (inside : n < struct.strings.length) :
    struct.bytes.drop (struct.formatted.length + placeOf struct.pieces n) =
      packed (struct.strings.drop n) ++ [0] := by
  have nonempty : struct.strings ≠ [] := List.ne_nil_of_length_pos (by omega)
  obtain ⟨below, same⟩ := string_piece struct inside
  have later : struct.pieces.drop (n + 1) = struct.strings.drop (n + 1) ++ [[]] := by
    rw [ShortStructure.pieces, areaPieces, if_neg nonempty, List.drop_append_of_le_length inside]
  rw [drop_piece struct below, same, later, packed_append, ← List.getElem_cons_drop inside,
    packed_cons struct.strings[n] (struct.strings.drop (n + 1)), List.append_assoc]
  rfl

/-- In front of a string there are the formatted area and the strings before it. -/
theorem take_string {n : Nat} (inside : n < struct.strings.length) :
    struct.bytes.take (struct.formatted.length + placeOf struct.pieces n) =
      struct.formatted ++ packed (struct.strings.take n) := by
  have nonempty : struct.strings ≠ [] := List.ne_nil_of_length_pos (by omega)
  obtain ⟨below, -⟩ := string_piece struct inside
  have earlier : struct.pieces.take n = struct.strings.take n := by
    rw [ShortStructure.pieces, areaPieces, if_neg nonempty,
      List.take_append_of_le_length (Nat.le_of_lt inside)]
  rw [bytes_split, List.append_nil, packed_split below, ← List.append_assoc, placeOf,
    ← List.length_append, List.take_left, earlier]

/-- A string that is found and is not `"NO DIMM"` is replaced. -/
theorem replace_string {n : Nat} (inside : n < struct.strings.length)
    (found : findString struct.bytes stringNum =
      .ok (some (struct.formatted.length + placeOf struct.pieces n)))
    (other : struct.strings[n] ≠ noDimm) :
    replaceSmbiosString struct.bytes updateBufferSize stringNum new.text =
      .ok ⟨efiSuccess, struct.withString n new.text,
        updateBufferSize + UInt16.ofNat new.text.length -
          UInt16.ofNat struct.strings[n].length⟩ := by
  obtain ⟨below, same⟩ := string_piece struct inside
  have oldFree := struct.free _ (List.getElem_mem inside)
  have oldShort := struct.fewer _ (List.getElem_mem inside)
  have behind : struct.bytes.drop (struct.formatted.length + placeOf struct.pieces n) =
      struct.strings[n] ++ 0 :: (packed (struct.strings.drop (n + 1)) ++ [0]) := by
    rw [drop_string struct inside, ← List.getElem_cons_drop inside, packed_cons, List.append_assoc]
    rfl
  have text : textAt struct.bytes (struct.formatted.length + placeOf struct.pieces n) =
      struct.strings[n] := by
    rw [textAt, behind, takeWhile_free oldFree]
  have pair : zeroPair (struct.bytes.drop (struct.formatted.length + placeOf struct.pieces n)) =
      .ok ((packed (struct.strings.drop n)).length - 1) := by
    rw [drop_string struct inside]
    refine zeroPair_packed (fun text member => struct.filled text (List.mem_of_mem_drop member))
      (fun text member => struct.free text (List.mem_of_mem_drop member)) ?_
    exact List.ne_nil_of_length_pos (by rw [List.length_drop]; omega)
  have size : (packed (struct.strings.drop n)).length =
      struct.strings[n].length + 1 + (packed (struct.strings.drop (n + 1))).length := by
    rw [← List.getElem_cons_drop inside, packed_cons, List.length_append, List.length_cons]
    omega
  have rest : struct.bytes.drop
      (struct.formatted.length + placeOf struct.pieces n + struct.strings[n].length + 1) =
        packed (struct.strings.drop (n + 1)) ++ [0] := by
    rw [Nat.add_assoc _ _ 1, ← List.drop_drop, behind, ← List.drop_drop, List.drop_left]
    rfl
  have remaining : (packed (struct.strings.drop (n + 1)) ++ [0]).take
      (struct.formatted.length + placeOf struct.pieces n +
          ((packed (struct.strings.drop n)).length - 1) + 2 -
        (struct.formatted.length + placeOf struct.pieces n + struct.strings[n].length + 1)) =
        packed (struct.strings.drop (n + 1)) ++ [0] := by
    apply List.take_of_length_le
    rw [List.length_append, List.length_singleton, size]
    omega
  have copied : (new.text ++ [0]).take (new.text.length + 1) = new.text ++ [0] := by
    apply List.take_of_length_le
    rw [List.length_append, List.length_singleton]
  have orgSize : struct.formatted.length + placeOf struct.pieces n + struct.strings[n].length + 1 -
      (struct.formatted.length + placeOf struct.pieces n) = struct.strings[n].length + 1 := by
    omega
  rw [replaceSmbiosString, found]
  change (if textAt struct.bytes _ = noDimm then _ else _) = _
  rw [text, if_neg other]
  dsimp only
  rw [pair, behind, textLength_free oldFree]
  change Except.ok _ = _
  rw [rest, remaining, size_byte new.short, copied, orgSize, size_difference _ new.short oldShort,
    take_string struct inside, ShortStructure.withString, List.set_eq_take_append_cons_drop,
    if_pos inside, packed_append, packed_cons]
  simp

/-- A place that is found and does not hold `"NO DIMM"` is replaced or leads out of the
    structure. -/
theorem found_success {place : Nat} {result : Replaced}
    (found : findString struct.bytes stringNum = .ok (some place))
    (other : textAt struct.bytes place ≠ noDimm)
    (returned : replaceSmbiosString struct.bytes updateBufferSize stringNum new.text = .ok result) :
    result.status = efiSuccess := by
  rw [replaceSmbiosString, found] at returned
  change (if textAt struct.bytes place = noDimm then _ else _) = _ at returned
  rw [if_neg other] at returned
  obtain ⟨length, -, returned⟩ := Checked.bind_ok returned
  obtain ⟨pair, -, returned⟩ := Checked.bind_ok returned
  rw [← Except.ok.inj returned]

end Replacing

section Serving

variable (struct : ShortStructure) (updateBufferSize : UInt16) (stringNum : UInt8)
  (new : Replacement)

/-- The numbers that are served: those of the strings, the one that counts the zeros of the
    structure and one more, and one that counts to `"NO DIMM"`. -/
def Served : Prop :=
  (1 ≤ stringNum.toNat ∧ stringNum.toNat ≤ struct.strings.length) ∨
  ordinal stringNum = struct.pieces.length + 1 ∨
  struct.strings[ordinal stringNum - 1]? = some noDimm

/-- Where no string is to be replaced. -/
theorem replaced_unchanged {n : UInt8} (noString : n = 0 ∨ struct.strings.length < n.toNat) :
    struct.replaced updateBufferSize n new.text =
      ⟨efiNotFound, struct.bytes, updateBufferSize⟩ := by
  by_cases zero : n = 0
  · rw [ShortStructure.replaced, if_pos zero]
  · have behind : struct.strings.length ≤ n.toNat - 1 := by
      have := noString.resolve_left zero
      omega
    rw [ShortStructure.replaced, if_neg zero, List.getElem?_eq_none behind]

/-- Strings are counted from one. -/
theorem ordinal_pos : 1 ≤ ordinal stringNum := by
  unfold ordinal
  split
  · decide
  case isFalse nonzero =>
    have : stringNum.toNat ≠ 0 := fun zero => nonzero (UInt8.toNat_inj.mp zero)
    omega

/-- A number of a string is counted to that string. -/
theorem ordinal_counted (counted : 1 ≤ stringNum.toNat) : ordinal stringNum = stringNum.toNat := by
  rw [ordinal, if_neg]
  rintro rfl
  exact absurd counted (by decide)

/-- The search that ends at the end of the structure. -/
theorem replace_end (last : ordinal stringNum = struct.pieces.length + 1) :
    replaceSmbiosString struct.bytes updateBufferSize stringNum new.text =
      .ok ⟨efiNotFound, struct.bytes, updateBufferSize⟩ := by
  have found := findString_eq struct stringNum
  rw [last, Nat.add_sub_cancel, if_neg (Nat.lt_irrefl _), if_pos rfl] at found
  rw [replaceSmbiosString, found]
  rfl

/-- The search that runs out of the structure. -/
theorem replace_outside (outside : struct.pieces.length + 1 < ordinal stringNum) :
    replaceSmbiosString struct.bytes updateBufferSize stringNum new.text = .error .overflow := by
  have found := findString_eq struct stringNum
  rw [if_neg (by omega), if_neg (by omega)] at found
  rw [replaceSmbiosString, found]
  rfl

/-- What a string is found to be. -/
theorem textAt_piece {n : Nat} (inside : n < struct.pieces.length) :
    textAt struct.bytes (struct.formatted.length + placeOf struct.pieces n) = struct.pieces[n] :=
  textAt_placeOf (areaPieces_free struct.free) (bytes_split struct) inside

/-- The string that a number counts to is `"NO DIMM"`. -/
theorem replace_noDimm (held : struct.strings[ordinal stringNum - 1]? = some noDimm) :
    replaceSmbiosString struct.bytes updateBufferSize stringNum new.text =
      .ok ⟨efiNotFound, struct.bytes, updateBufferSize⟩ := by
  obtain ⟨inside, same⟩ := List.getElem?_eq_some_iff.mp held
  obtain ⟨below, piece⟩ := string_piece struct inside
  have found := findString_eq struct stringNum
  rw [if_pos below] at found
  have text := (textAt_piece struct below).trans (piece.trans same)
  rw [replaceSmbiosString, found]
  change (if textAt struct.bytes _ = noDimm then _ else _) = _
  rw [if_pos text]

/-- A string with a number is served as it should be. -/
theorem replace_counted (counted : 1 ≤ stringNum.toNat)
    (upTo : stringNum.toNat ≤ struct.strings.length) :
    replaceSmbiosString struct.bytes updateBufferSize stringNum new.text =
      .ok (struct.replaced updateBufferSize stringNum new.text) := by
  have ordinalIs := ordinal_counted stringNum counted
  have inside : stringNum.toNat - 1 < struct.strings.length := by omega
  have nonzero : stringNum ≠ 0 := by
    rintro rfl
    exact absurd counted (by decide)
  have held := List.getElem?_eq_getElem inside
  by_cases same : struct.strings[stringNum.toNat - 1] = noDimm
  · rw [replace_noDimm struct updateBufferSize stringNum new (by rw [ordinalIs, held, same]),
      ShortStructure.replaced, if_neg nonzero, held]
    exact congrArg Except.ok (if_pos same).symm
  · have below := (string_piece struct inside).1
    have found := findString_eq struct stringNum
    rw [ordinalIs, if_pos below] at found
    rw [replace_string struct updateBufferSize stringNum new inside found same,
      ShortStructure.replaced, if_neg nonzero, held]
    exact congrArg Except.ok (if_neg same).symm

/-- `ReplaceSmbiosString` replaces the string with the number, finds nothing for the other numbers and
stays inside the structure exactly for the numbers served. The structure, the new string and the
size of the buffer are arbitrary, up to the limits that the structures carry. -/
theorem replaceSmbiosString_iff :
    replaceSmbiosString struct.bytes updateBufferSize stringNum new.text =
        .ok (struct.replaced updateBufferSize stringNum new.text) ↔
      Served struct stringNum := by
  have pos := ordinal_pos stringNum
  constructor
  · intro right
    by_contra unserved
    rw [Served, not_or, not_or] at unserved
    obtain ⟨uncounted, notEnd, notHeld⟩ := unserved
    have noString : stringNum = 0 ∨ struct.strings.length < stringNum.toNat := by
      by_cases zero : stringNum = 0
      · exact Or.inl zero
      · have : stringNum.toNat ≠ 0 := fun same => zero (UInt8.toNat_inj.mp same)
        right
        omega
    rw [replaced_unchanged struct updateBufferSize new noString] at right
    obtain outside | below := Nat.lt_or_ge (struct.pieces.length + 1) (ordinal stringNum)
    · rw [replace_outside struct updateBufferSize stringNum new outside] at right
      exact nomatch right
    · have inside : ordinal stringNum - 1 < struct.pieces.length := by omega
      have found := findString_eq struct stringNum
      rw [if_pos inside] at found
      have other : textAt struct.bytes (struct.formatted.length +
          placeOf struct.pieces (ordinal stringNum - 1)) ≠ noDimm := by
        rw [textAt_piece struct inside]
        intro same
        have piece : struct.pieces[ordinal stringNum - 1]? = some noDimm :=
          List.getElem?_eq_some_iff.mpr ⟨inside, same⟩
        obtain string | behind := Nat.lt_or_ge (ordinal stringNum - 1) struct.strings.length
        · apply notHeld
          rw [List.getElem?_eq_getElem string, ← areaPieces_string string]
          exact piece
        · exact nomatch areaPieces_empty behind piece
      exact nomatch found_success struct updateBufferSize stringNum new found other right
  · rintro (⟨counted, upTo⟩ | last | held)
    · exact replace_counted struct updateBufferSize stringNum new counted upTo
    · have unfound : stringNum = 0 ∨ struct.strings.length < stringNum.toNat := by
        by_cases zero : stringNum = 0
        · exact Or.inl zero
        · have more : struct.strings.length < struct.pieces.length := by
            rw [ShortStructure.pieces, areaPieces_length]
            split
            case isTrue noString => rw [noString]; decide
            · omega
          rw [ordinal, if_neg zero] at last
          right
          omega
      rw [replace_end struct updateBufferSize stringNum new last,
        replaced_unchanged struct updateBufferSize new unfound]
    · by_cases zero : stringNum = 0
      · rw [replace_noDimm struct updateBufferSize stringNum new held,
          replaced_unchanged struct updateBufferSize new (Or.inl zero)]
      · have nonzero : stringNum.toNat ≠ 0 := fun same => zero (UInt8.toNat_inj.mp same)
        obtain ⟨inside, -⟩ := List.getElem?_eq_some_iff.mp held
        rw [ordinal, if_neg zero] at inside
        exact replace_counted struct updateBufferSize stringNum new (by omega) (by omega)

/-- A structure with the string `"A"`. -/
def oneString : ShortStructure where
  formatted := [17, 5, 0, 0, 0]
  strings := [[0x41]]
  header := by decide
  sized := by decide
  filled := by decide
  free := by decide
  short := by decide
  fewer := by decide

/-- The number 0, for a field that is not set, and the number behind the last string. -/
theorem not_every_number_served :
    ¬ ∀ (struct : ShortStructure) (updateBufferSize : UInt16) (stringNum : UInt8)
      (new : Replacement),
      replaceSmbiosString struct.bytes updateBufferSize stringNum new.text =
        .ok (struct.replaced updateBufferSize stringNum new.text) := by
  intro always
  have zero := always oneString 8 0 ⟨[0x42], by decide, by decide⟩
  revert zero
  decide

end Serving

end SmcPkg.ReplaceString
