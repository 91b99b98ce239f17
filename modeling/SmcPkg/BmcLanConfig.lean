import SmcPkg.Lib.BitFields
import SmcPkg.Lib.Bytes
import SmcPkg.RaidOob.Card

/-!
# Addresses as text for the LAN of the BMC

The setup shows the IP addresses of the BMC as text, and takes them as text. An address is
printed with three digits for each part. It is parsed from the right, a part ending at the
dot before it, and no more than the first fifteen characters are looked at, which is what an
address can have.

The printed text has no terminator, so what stands behind it in the buffer is arbitrary here.
Texts of 128 characters and more are outside of what is said about the parser: it keeps their
length in a signed byte. The calls of the setup around the two functions are not part of the
model.
-/

namespace SmcPkg.BmcLanConfig

open Bytes Card

section Model

/-- A string: its characters before the zero that ends it. -/
structure Text where
  chars : List UInt16
  nonzero : 0 ∉ chars

/-- The character at an index, the last of which is the zero. -/
def charAt (source : List UInt16) (index : Nat) : UInt16 := source.getD index 0

/-- The variables of `ConvertToIpAddress`. -/
structure Parser where
  lookingIp : Int8
  sumIp : UInt8
  ipDigit : UInt8
  digitCount : UInt8
  isIpValid : Bool
  gotTheFirstDigit : Bool
  totalSumIp : UInt16
  destination : Memory

/-- Their initial values. -/
def Parser.initial (destination : Memory) : Parser :=
  ⟨3, 0, 1, 0, true, false, 0, destination⟩

/-- A part above 255, with its first digit and the two behind it. -/
def tooLarge (first second third : UInt16) : Bool :=
  2 < first - 48 ||
    first - 48 = 2 && ((48 ≤ second && 5 < second - 48) ||
      (second - 48 = 5 && (48 ≤ third && 5 < third - 48)))

/-- `Destination[LookingIp] = SumIp`. -/
def Parser.store (parser : Parser) : Memory :=
  overlayAt parser.lookingIp.toNatClampNeg 1 (fun _ => parser.sumIp) parser.destination

/-- The body of the loop at an index. -/
def parseChar (source : List UInt16) (index : Nat) (parser : Parser) : Parser :=
  let char := charAt source index
  if char ≤ 57 ∧ 48 ≤ char then
    let parser := { parser with gotTheFirstDigit := true }
    if 2 < parser.digitCount then { parser with isIpValid := false }
    else if parser.digitCount = 2 ∧
        tooLarge char (charAt source (index + 1)) (charAt source (index + 2)) then
      { parser with isIpValid := false }
    else
      { parser with
        sumIp := parser.sumIp + (char.toUInt8 - 48) * parser.ipDigit
        ipDigit := parser.ipDigit * 10
        digitCount := parser.digitCount + 1 }
  else if char = 46 then
    if parser.gotTheFirstDigit = false ∨ charAt source (index + 1) = 46 then
      { parser with isIpValid := false }
    else
      let stored := { parser with
        destination := parser.store
        totalSumIp := parser.totalSumIp + parser.sumIp.toUInt16
        lookingIp := parser.lookingIp - 1 }
      if stored.lookingIp < 0 then { stored with isIpValid := false }
      else { stored with sumIp := 0, ipDigit := 1, digitCount := 0 }
  else if char ≠ 0 ∨ (char = 0 ∧ parser.gotTheFirstDigit = true) then
    { parser with isIpValid := false }
  else parser

/-- The loop, with the number of characters that are left. -/
def parseChars (source : List UInt16) : Nat → Parser → Parser
  | 0, parser => parser
  | index + 1, parser =>
    let next := parseChar source index parser
    if next.isIpValid then parseChars source index next else next

/-- How many characters the loop begins with: the length is narrowed to 8 bits with a sign. -/
def charCount (length : Nat) : Nat :=
  let index := Int8.ofNat length
  let last := (if 15 < index then 15 else index) - 1
  if 0 ≤ last then last.toNatClampNeg + 1 else 0

/-- What follows the loop. -/
def Parser.finish (parser : Parser) : Status × Memory :=
  let closed := if parser.lookingIp = 0 then
      { parser with
        destination := parser.store
        totalSumIp := parser.totalSumIp + parser.sumIp.toUInt16 }
    else parser
  if closed.lookingIp ≠ 0 ∨ closed.isIpValid = false ∨ closed.totalSumIp = 0 then
    (efiInvalidParameter, overlay 4 (fun _ => 0) closed.destination)
  else (efiSuccess, closed.destination)

/-- What the loop makes of a string. -/
def parsed (destination : Memory) (source : Text) : Parser :=
  parseChars source.chars (charCount source.chars.length) (Parser.initial destination)

/-- `ConvertToIpAddress`, with the address it stores. -/
def convertToIpAddress (destination : Memory) (source : Text) : Status × Memory :=
  (parsed destination source).finish

/-- The three digits of a part. -/
def printPart (part : UInt8) : List UInt16 :=
  [(part / 100).toUInt16 + 0x30, (part % 100 / 10).toUInt16 + 0x30,
    (part % 100 % 10).toUInt16 + 0x30]

/-- `GetLanInformation` for a status and a response of the BMC, with the buffer of the text. It
puts no zero behind the text. -/
def getLanInformation (status : Status) (responseData : Memory) (ipAddress : List UInt16) :
    List UInt16 :=
  if efiError status then ipAddress
  else
    printPart (responseData 1) ++ 46 :: (printPart (responseData 2) ++ 46 ::
      (printPart (responseData 3) ++ 46 :: printPart (responseData 4))) ++ ipAddress.drop 15

end Model

section Result

/-- A decimal digit. -/
def isDigit (char : UInt16) : Bool := 48 ≤ char && char ≤ 57

/-- The number that digits write. -/
def number : List UInt16 → Nat
  | [] => 0
  | char :: digits => (char.toNat - 48) * 10 ^ digits.length + number digits

/-- A part of an address: one to three digits, at most 255. -/
structure IsPart (digits : List UInt16) (part : UInt8) : Prop where
  nonempty : digits ≠ []
  short : digits.length ≤ 3
  decimal : ∀ char ∈ digits, isDigit char
  value : number digits = part.toNat

/-- The text of an address that is not zero. -/
def IsAddress (text : List UInt16) (address : Fin 4 → UInt8) : Prop :=
  (∃ first second third fourth, text = first ++ 46 :: (second ++ 46 :: (third ++ 46 :: fourth)) ∧
    IsPart first (address 0) ∧ IsPart second (address 1) ∧ IsPart third (address 2) ∧
    IsPart fourth (address 3)) ∧ ∃ i, address i ≠ 0

/-- An address is stored. -/
def Stores (destination : Memory) (address : Fin 4 → UInt8) : Prop :=
  ∀ i : Fin 4, destination i = address i

/-- The text is parsed: an address in its first fifteen characters is stored, and nothing else
is accepted. What was printed is parsed to what was printed. -/
structure Parses (destination : Memory) (source : Text) : Prop where
  accepts : (convertToIpAddress destination source).1 = efiSuccess ↔
    ∃ address, IsAddress (source.chars.take 15) address
  stores : ∀ address, IsAddress (source.chars.take 15) address →
    Stores (convertToIpAddress destination source).2 address
  rejects : (∀ address, ¬ IsAddress (source.chars.take 15) address) →
    (convertToIpAddress destination source).1 = efiInvalidParameter ∧
      Stores (convertToIpAddress destination source).2 (fun _ => 0)
  undoes : ∀ responseData ipAddress, (∃ i : Fin 4, responseData (i + 1) ≠ 0) →
    source.chars = getLanInformation efiSuccess responseData ipAddress →
    (convertToIpAddress destination source).1 = efiSuccess ∧
      Stores (convertToIpAddress destination source).2 (fun i => responseData (i + 1))

end Result

section Scan

variable {char : UInt16} {text current : List UInt16} {parts : List (List UInt16)}

/-- What the characters from an index on are to a reading from the right: the digits of a part
that is not ended yet, and the parts behind it, each with the dot before it. -/
def scan : List UInt16 → Option (List UInt16 × List (List UInt16))
  | [] => some ([], [])
  | char :: text =>
    match scan text with
    | none => none
    | some (current, parts) =>
      if isDigit char then
        if current.length < 3 ∧ number (char :: current) ≤ 255 then some (char :: current, parts)
        else none
      else if char = 46 ∧ current ≠ [] ∧ parts.length < 3 then some ([], current :: parts)
      else none

/-- Digits that can be a part, or the end of one. -/
structure Segment (digits : List UInt16) : Prop where
  short : digits.length ≤ 3
  decimal : ∀ char ∈ digits, isDigit char
  bound : number digits ≤ 255

/-- The text is digits and then parts with their dots. -/
structure Scanned (text current : List UInt16) (parts : List (List UInt16)) : Prop where
  shape : text = current ++ parts.flatMap (fun part => 46 :: part)
  segment : Segment current
  segments : ∀ part ∈ parts, Segment part ∧ part ≠ []
  few : parts.length ≤ 3

/-- Digits make a number below the power of ten of their count. -/
theorem number_lt {digits : List UInt16} (decimal : ∀ char ∈ digits, isDigit char) :
    number digits < 10 ^ digits.length := by
  induction digits with
  | nil => decide
  | cons char digits inductionHypothesis =>
    have rest := inductionHypothesis (fun other member => decimal other (by simp [member]))
    have digit : isDigit char := decimal char (by simp)
    have nine : char.toNat - 48 ≤ 9 := by
      have below : char ≤ 57 := by
        simp [isDigit] at digit
        exact digit.2
      have below : char.toNat ≤ 57 := UInt16.le_iff_toNat_le.mp below
      omega
    rw [number, List.length_cons, Nat.pow_succ]
    have weight := Nat.mul_le_mul_right (10 ^ digits.length) nine
    omega

/-- What the scan gives is what was scanned. -/
theorem scanned_of_scan (found : scan text = some (current, parts)) :
    Scanned text current parts := by
  induction text generalizing current parts with
  | nil =>
    rw [scan] at found
    cases found
    exact ⟨rfl, ⟨by simp, by simp, by simp [number]⟩, by simp, by simp⟩
  | cons char text inductionHypothesis =>
    rw [scan] at found
    cases rest : scan text with
    | none =>
      rw [rest] at found
      cases found
    | some pair =>
      obtain ⟨before, behind⟩ := pair
      obtain ⟨shape, segment, segments, few⟩ := inductionHypothesis rest
      rw [rest] at found
      simp only at found
      split_ifs at found with digit room dot
      · cases found
        refine ⟨by rw [shape, List.cons_append], ⟨?_, ?_, room.2⟩, segments, few⟩
        · rw [List.length_cons]
          omega
        · intro other member
          rcases List.mem_cons.mp member with rfl | member
          · exact digit
          · exact segment.decimal other member
      · cases found
        refine ⟨?_, ⟨by simp, by simp, by simp [number]⟩, ?_, by simp; omega⟩
        · rw [shape, dot.1]
          rfl
        · intro part member
          rcases List.mem_cons.mp member with rfl | member
          · exact ⟨segment, dot.2.1⟩
          · exact segments part member

/-- The end of a part is one. -/
theorem Segment.tail (segment : Segment (char :: current)) : Segment current := by
  obtain ⟨short, decimal, bound⟩ := segment
  rw [List.length_cons] at short
  rw [number] at bound
  exact ⟨by omega, fun other member => decimal other (by simp [member]), by omega⟩

/-- Digits in front of parts that are ended. -/
theorem scan_digits (segment : Segment current) (behind : scan text = some ([], parts)) :
    scan (current ++ text) = some (current, parts) := by
  induction current with
  | nil => exact behind
  | cons char current inductionHypothesis =>
    have digit : isDigit char := segment.decimal char (by simp)
    have short := segment.short
    rw [List.length_cons] at short
    rw [List.cons_append, scan, inductionHypothesis segment.tail]
    simp only
    rw [if_pos digit, if_pos ⟨by omega, segment.bound⟩]

/-- Parts that are ended. -/
theorem scan_parts (segments : ∀ part ∈ parts, Segment part ∧ part ≠ []) (few : parts.length ≤ 3) :
    scan (parts.flatMap (fun part => 46 :: part)) = some ([], parts) := by
  induction parts with
  | nil => rfl
  | cons part parts inductionHypothesis =>
    obtain ⟨segment, nonempty⟩ := segments part (by simp)
    rw [List.length_cons] at few
    have behind := inductionHypothesis (fun other member => segments other (by simp [member]))
      (by omega)
    rw [List.flatMap_cons, List.cons_append, scan, scan_digits segment behind]
    simp only
    rw [if_neg (by decide), if_pos ⟨trivial, nonempty, by omega⟩]

/-- The scan gives a result exactly if there is one. -/
theorem scan_iff : scan text = some (current, parts) ↔ Scanned text current parts := by
  constructor
  · exact scanned_of_scan
  · rintro ⟨rfl, segment, segments, few⟩
    exact scan_digits segment (scan_parts segments few)

/-- What cannot be read stays so with more in front of it. -/
theorem scan_none_append (before : List UInt16) (failed : scan text = none) :
    scan (before ++ text) = none := by
  induction before with
  | nil => exact failed
  | cons char before inductionHypothesis => rw [List.cons_append, scan, inductionHypothesis]

end Scan

section Parse

variable {source text current : List UInt16} {parts : List (List UInt16)} {parser : Parser}
  {index : Nat} {char : UInt16}

/-- The variables of the parser for what it has read. -/
structure Describes (parser : Parser) (current : List UInt16) (parts : List (List UInt16)) :
    Prop where
  lookingIp : parser.lookingIp = Int8.ofNat (3 - parts.length)
  sumIp : parser.sumIp = UInt8.ofNat (number current)
  ipDigit : parser.ipDigit = UInt8.ofNat (10 ^ current.length)
  digitCount : parser.digitCount = UInt8.ofNat current.length
  valid : parser.isIpValid = true
  gotTheFirstDigit : parser.gotTheFirstDigit = decide (current ≠ [] ∨ parts ≠ [])
  totalSumIp : parser.totalSumIp = UInt16.ofNat ((parts.map number).sum)
  stored : ∀ i, (inside : i < parts.length) →
    parser.destination (4 - parts.length + i) = UInt8.ofNat (number parts[i])

/-- The parser starts with nothing scanned. -/
theorem describes_initial (destination : Memory) :
    Describes (Parser.initial destination) [] [] := by
  refine ⟨rfl, rfl, rfl, rfl, rfl, rfl, rfl, ?_⟩
  intro i inside
  exact absurd inside (by simp)

/-- A digit, by its code. -/
theorem isDigit_iff : isDigit char = true ↔ 48 ≤ char.toNat ∧ char.toNat ≤ 57 := by
  simp only [isDigit, Bool.and_eq_true, decide_eq_true_eq, UInt16.le_iff_toNat_le]
  exact Iff.rfl

/-- The digit as a difference of characters. -/
theorem sub_digit (digit : isDigit char) : (char - 48).toNat = char.toNat - 48 := by
  have bounds := isDigit_iff.mp digit
  exact UInt16.toNat_sub_of_le char 48 (UInt16.le_iff_toNat_le.mpr bounds.1)

/-- The comparisons of single digits compare the number with 255. -/
theorem tooLarge_iff {first second third : UInt16} (one : isDigit first) (two : isDigit second)
    (three : isDigit third) :
    tooLarge first second third = true ↔ 255 < number [first, second, third] := by
  have firstBounds := isDigit_iff.mp one
  have secondBounds := isDigit_iff.mp two
  have thirdBounds := isDigit_iff.mp three
  simp only [tooLarge, Bool.or_eq_true, Bool.and_eq_true, decide_eq_true_eq,
    UInt16.lt_iff_toNat_lt, UInt16.le_iff_toNat_le, ← UInt16.toNat_inj, sub_digit one,
    sub_digit two, sub_digit three, number, List.length_cons, List.length_nil]
  have constants : (2 : UInt16).toNat = 2 ∧ (5 : UInt16).toNat = 5 ∧ (48 : UInt16).toNat = 48 :=
    ⟨rfl, rfl, rfl⟩
  obtain ⟨two, five, zero⟩ := constants
  rw [two, five, zero]
  omega

/-- The value of a digit in a byte. -/
theorem toUInt8_digit (digit : isDigit char) :
    char.toUInt8 - 48 = UInt8.ofNat (char.toNat - 48) := by
  have bounds := isDigit_iff.mp digit
  have narrow : char.toUInt8.toNat = char.toNat := by
    rw [UInt16.toNat_toUInt8]
    omega
  have zero : (48 : UInt8) ≤ char.toUInt8 := by
    rw [UInt8.le_iff_toNat_le, narrow]
    exact bounds.1
  rw [← UInt8.toNat_inj, UInt8.toNat_sub_of_le _ _ zero, narrow, UInt8.toNat_ofNat']
  exact (Nat.mod_eq_of_lt (by omega)).symm

/-- What the variables are with one more digit. -/
theorem describes_digit (describes : Describes parser current parts) (digit : isDigit char) :
    Describes { parser with
      gotTheFirstDigit := true
      sumIp := parser.sumIp + (char.toUInt8 - 48) * parser.ipDigit
      ipDigit := parser.ipDigit * 10
      digitCount := parser.digitCount + 1 } (char :: current) parts := by
  refine ⟨describes.lookingIp, ?_, ?_, ?_, describes.valid, by simp, describes.totalSumIp,
    describes.stored⟩
  · simp only
    rw [describes.sumIp, describes.ipDigit, toUInt8_digit digit, number, UInt8.ofNat_add,
      UInt8.ofNat_mul, UInt8.add_comm]
  · simp only
    rw [describes.ipDigit, List.length_cons, Nat.pow_succ, UInt8.ofNat_mul]
    rfl
  · simp only
    rw [describes.digitCount, List.length_cons, UInt8.ofNat_add]
    rfl

/-- A digit goes to the front of the part. -/
theorem parseChar_digit (describes : Describes parser current parts) (segment : Segment current)
    (front : charAt source index = char) (digit : isDigit char)
    (ahead : ∀ i, (inside : i < current.length) →
      charAt source (index + 1 + i) = current[i]) :
    if current.length < 3 ∧ number (char :: current) ≤ 255 then
      Describes (parseChar source index parser) (char :: current) parts
    else (parseChar source index parser).isIpValid = false := by
  have isChar : char ≤ 57 ∧ 48 ≤ char := by
    simp [isDigit] at digit
    exact ⟨digit.2, digit.1⟩
  have short := segment.short
  have full : (2 < parser.digitCount) ↔ current.length = 3 := by
    rw [describes.digitCount, UInt8.lt_iff_toNat_lt, UInt8.toNat_ofNat']
    have two : (2 : UInt8).toNat = 2 := rfl
    rw [two]
    omega
  have third : parser.digitCount = 2 ↔ current.length = 2 := by
    rw [describes.digitCount, ← UInt8.toNat_inj, UInt8.toNat_ofNat']
    have two : (2 : UInt8).toNat = 2 := rfl
    rw [two]
    omega
  simp only [parseChar, front, full, third]
  rw [if_pos isChar]
  by_cases last : current.length = 2
  · obtain ⟨second, behind, rfl⟩ := List.length_eq_two.mp last
    have large := tooLarge_iff digit (segment.decimal second (by simp))
      (segment.decimal behind (by simp))
    have next : charAt source (index + 1) = second := ahead 0 (by simp)
    have nextNext : charAt source (index + 2) = behind := ahead 1 (by simp)
    rw [if_neg (by omega : ¬ [second, behind].length = 3), next, nextNext]
    by_cases above : 255 < number [char, second, behind]
    · rw [if_neg (fun room => absurd room.2 (by omega)), if_pos ⟨last, large.mpr above⟩]
    · rw [if_pos ⟨by simp, by omega⟩, if_neg (fun both => above (large.mp both.2))]
      exact describes_digit describes digit
  by_cases three : current.length = 3
  · rw [if_pos three, if_neg (by omega)]
  · have decimal : ∀ other ∈ char :: current, isDigit other := by
      intro other member
      rcases List.mem_cons.mp member with rfl | member
      · exact digit
      · exact segment.decimal other member
    have small : 10 ^ (char :: current).length ≤ 10 ^ 2 :=
      Nat.pow_le_pow_right (by omega) (by rw [List.length_cons]; omega)
    have bound := number_lt decimal
    rw [if_pos ⟨by omega, by omega⟩, if_neg three, if_neg (fun both => last both.1)]
    exact describes_digit describes digit

/-- The place in the address counts down from the first part. -/
theorem lookingIp_toNat (describes : Describes parser current parts) (few : parts.length ≤ 3) :
    parser.lookingIp.toNatClampNeg = 3 - parts.length := by
  rw [describes.lookingIp]
  have small : 3 - parts.length ≤ 3 := by omega
  generalize 3 - parts.length = count at small ⊢
  interval_cases count <;> rfl

/-- What is in memory after a part is stored. -/
theorem store_part (describes : Describes parser current parts) (few : parts.length ≤ 3) :
    ∀ i, (inside : i < (current :: parts).length) →
      parser.store (3 - parts.length + i) = UInt8.ofNat (number (current :: parts)[i]) := by
  intro i inside
  rw [List.length_cons] at inside
  rw [Parser.store, lookingIp_toNat describes few]
  cases i with
  | zero => rw [overlayAt_inside (by omega) (by omega), describes.sumIp, List.getElem_cons_zero]
  | succ i =>
    have place : 3 - parts.length + (i + 1) = 4 - parts.length + i := by omega
    rw [overlayAt_outside (by omega), place, describes.stored i (by omega),
      List.getElem_cons_succ]

/-- The sum of the parts with one more. -/
theorem total_part (describes : Describes parser current parts) (segment : Segment current) :
    parser.totalSumIp + parser.sumIp.toUInt16 =
      UInt16.ofNat (((current :: parts).map number).sum) := by
  have wide : parser.sumIp.toUInt16 = UInt16.ofNat (number current) := by
    have bound := segment.bound
    rw [describes.sumIp, ← UInt16.toNat_inj, UInt8.toNat_toUInt16, UInt8.toNat_ofNat',
      UInt16.toNat_ofNat']
    omega
  rw [wide, describes.totalSumIp, List.map_cons, List.sum_cons, UInt16.ofNat_add, UInt16.add_comm]

/-- At a dot the part is finished, or the text refused where there are no digits or a second
dot. -/
theorem parseChar_atDot (front : charAt source index = 46) :
    parseChar source index parser =
      if parser.gotTheFirstDigit = false ∨ charAt source (index + 1) = 46 then
        { parser with isIpValid := false }
      else if parser.lookingIp - 1 < 0 then
        { parser with
          destination := parser.store
          totalSumIp := parser.totalSumIp + parser.sumIp.toUInt16
          lookingIp := parser.lookingIp - 1
          isIpValid := false }
      else
        { parser with
          destination := parser.store
          totalSumIp := parser.totalSumIp + parser.sumIp.toUInt16
          lookingIp := parser.lookingIp - 1
          sumIp := 0
          ipDigit := 1
          digitCount := 0 } := by
  simp only [parseChar, front]
  rfl

/-- A dot ends a part that has a digit. -/
theorem parseChar_dot (describes : Describes parser current parts) (segment : Segment current)
    (few : parts.length ≤ 3) (front : charAt source index = 46)
    (ahead : ∀ next rest, current ++ parts.flatMap (fun part => 46 :: part) = next :: rest →
      charAt source (index + 1) = next) :
    if current ≠ [] ∧ parts.length < 3 then
      Describes (parseChar source index parser) [] (current :: parts)
    else (parseChar source index parser).isIpValid = false := by
  rw [parseChar_atDot front]
  cases current with
  | nil =>
    have refused : parser.gotTheFirstDigit = false ∨ charAt source (index + 1) = 46 := by
      cases parts with
      | nil => exact Or.inl describes.gotTheFirstDigit
      | cons part parts => exact Or.inr (ahead 46 _ rfl)
    rw [if_neg (fun both => both.1 rfl), if_pos refused]
  | cons char current =>
    have notDot : charAt source (index + 1) ≠ 46 := by
      have bounds := isDigit_iff.mp (segment.decimal char (by simp))
      rw [ahead char _ rfl]
      rintro rfl
      exact absurd bounds.1 (by decide)
    have started : parser.gotTheFirstDigit = true := by
      rw [describes.gotTheFirstDigit]
      simp
    have accepted : ¬ (parser.gotTheFirstDigit = false ∨ charAt source (index + 1) = 46) := by
      rw [started]
      simp [notDot]
    have looking : parser.lookingIp - 1 < 0 ↔ parts.length = 3 := by
      rw [describes.lookingIp]
      generalize parts.length = count at few ⊢
      interval_cases count <;> decide
    rw [if_neg accepted]
    by_cases room : parts.length < 3
    · rw [if_pos ⟨by simp, room⟩, if_neg (fun below => absurd (looking.mp below) (by omega))]
      refine ⟨?_, rfl, rfl, rfl, describes.valid, ?_, total_part describes segment, ?_⟩
      · simp only [List.length_cons]
        rw [describes.lookingIp]
        generalize parts.length = count at room ⊢
        interval_cases count <;> rfl
      · simp only
        rw [started]
        rfl
      · intro i inside
        have place : 4 - (List.length ((char :: current) :: parts)) + i = 3 - parts.length + i := by
          rw [List.length_cons]
          omega
        rw [place]
        exact store_part describes few i inside
    · rw [if_neg (fun both => room both.2), if_pos (looking.mpr (by omega))]

/-- What is neither a digit nor a dot is refused. -/
theorem parseChar_other (notDigit : ¬ isDigit char) (notDot : char ≠ 46) (notZero : char ≠ 0)
    (front : charAt source index = char) :
    (parseChar source index parser).isIpValid = false := by
  have outside : ¬ (char ≤ 57 ∧ 48 ≤ char) := by
    rintro ⟨below, above⟩
    exact notDigit (by simp [isDigit, below, above])
  simp only [parseChar, front]
  rw [if_neg outside, if_neg notDot, if_pos (Or.inl notZero)]

/-- What stands in the part of the string that is looked at. -/
theorem charAt_drop {count place : Nat} {next : UInt16} {rest : List UInt16}
    (shape : (source.take count).drop place = next :: rest) : charAt source place = next := by
  have first : ((source.take count).drop place)[0]? = some next := by rw [shape]; rfl
  rw [List.getElem?_drop, Nat.add_zero] at first
  rw [charAt, List.getD_eq_getElem?_getD]
  rw [List.getElem?_take] at first
  split_ifs at first
  rw [first]
  rfl

/-- The parser has read what the scan gives, or has refused the text if the scan does. -/
def Agrees (parser : Parser) : Option (List UInt16 × List (List UInt16)) → Prop
  | some (current, parts) => Describes parser current parts
  | none => parser.isIpValid = false

/-- One character: the parser does with it what the scan does, if the characters behind it are
those that have been scanned. -/
theorem parseChar_scan (scanned : scan text = some (current, parts))
    (describes : Describes parser current parts) (front : charAt source index = char)
    (notZero : char ≠ 0)
    (ahead : ∀ i, (inside : i < text.length) → charAt source (index + 1 + i) = text[i]) :
    Agrees (parseChar source index parser) (scan (char :: text)) := by
  obtain ⟨shape, segment, segments, few⟩ := scan_iff.mp scanned
  rw [scan, scanned]
  simp only
  by_cases digit : isDigit char
  · have digits : ∀ i, (inside : i < current.length) →
        charAt source (index + 1 + i) = current[i] := by
      intro i inside
      have inText : i < text.length := by
        rw [shape, List.length_append]
        omega
      rw [ahead i inText]
      simp only [shape, List.getElem_append_left inside]
    have step := parseChar_digit describes segment front digit digits
    rw [if_pos digit]
    split_ifs at step ⊢
    · exact step
    · exact step
  by_cases dot : char = 46
  · have behind : ∀ next rest,
        current ++ parts.flatMap (fun part => 46 :: part) = next :: rest →
        charAt source (index + 1) = next := by
      intro next rest same
      have whole : text = next :: rest := shape.trans same
      subst whole
      exact ahead 0 (Nat.succ_pos _)
    have step := parseChar_dot describes segment few (front.trans dot) behind
    rw [if_neg digit]
    by_cases ended : current ≠ [] ∧ parts.length < 3
    · rw [if_pos ended] at step
      rw [if_pos ⟨dot, ended⟩]
      exact step
    · rw [if_neg ended] at step
      rw [if_neg fun all => ended all.2]
      exact step
  · rw [if_neg digit, if_neg fun all => dot all.1]
    exact @parseChar_other source parser index char digit dot notZero front

/-- The loop reads the string from the right. -/
theorem parseChars_scan {count : Nat} (bound : count ≤ source.length) (nonzero : 0 ∉ source)
    (inside : index ≤ count)
    (scanned : scan ((source.take count).drop index) = some (current, parts))
    (describes : Describes parser current parts) :
    Agrees (parseChars source index parser) (scan (source.take count)) := by
  induction index generalizing parser current parts with
  | zero =>
    rw [List.drop_zero] at scanned
    rw [scanned]
    exact describes
  | succ index inductionHypothesis =>
    obtain ⟨char, cons⟩ : ∃ char, (source.take count).drop index =
        char :: (source.take count).drop (index + 1) := by
      have below : index < (source.take count).length := by
        rw [List.length_take]
        omega
      exact ⟨_, List.drop_eq_getElem_cons below⟩
    have notZero : char ≠ 0 := by
      rintro rfl
      have member : (0 : UInt16) ∈ (source.take count).drop index := by simp [cons]
      exact nonzero (List.mem_of_mem_take (List.mem_of_mem_drop member))
    have ahead : ∀ i, (inside : i < ((source.take count).drop (index + 1)).length) →
        charAt source (index + 1 + i) = ((source.take count).drop (index + 1))[i] := by
      intro i inside
      apply @charAt_drop source count (index + 1 + i)
      rw [← List.drop_drop]
      exact List.drop_eq_getElem_cons inside
    have step := parseChar_scan scanned describes (charAt_drop cons) notZero ahead
    rw [← cons] at step
    cases found : scan ((source.take count).drop index) with
    | none =>
      rw [found] at step
      have invalid : (parseChar source index parser).isIpValid = false := step
      have whole := scan_none_append ((source.take count).take index) found
      rw [List.take_append_drop] at whole
      rw [whole, parseChars, if_neg (by rw [invalid]; decide)]
      exact invalid
    | some read =>
      obtain ⟨next, behind⟩ := read
      rw [found] at step
      have describesNext : Describes (parseChar source index parser) next behind := step
      rw [parseChars, if_pos describesNext.valid]
      exact inductionHypothesis (by omega) found describesNext

end Parse

section Address

variable {text : List UInt16} {source : Text} {destination : Memory}

/-- The length of a string that is not longer than 127 is not changed by the narrowing. -/
theorem charCount_short {length : Nat} (short : length < 128) : charCount length = min length 15 := by
  have all : ∀ length < 128, charCount length = min length 15 := by decide +kernel
  exact all length short

/-- A part is a segment with a digit, and its number. -/
theorem isPart_iff {digits : List UInt16} {part : UInt8} :
    IsPart digits part ↔ Segment digits ∧ digits ≠ [] ∧ part = UInt8.ofNat (number digits) := by
  constructor
  · rintro ⟨nonempty, short, decimal, value⟩
    refine ⟨⟨short, decimal, ?_⟩, nonempty, ?_⟩
    · have below := part.toNat_lt
      omega
    · rw [value, UInt8.ofNat_toNat]
  · rintro ⟨⟨short, decimal, bound⟩, nonempty, rfl⟩
    refine ⟨nonempty, short, decimal, ?_⟩
    rw [UInt8.toNat_ofNat']
    exact (Nat.mod_eq_of_lt (by omega)).symm

/-- The address that four parts write. -/
def addressOf (first second third fourth : List UInt16) : Fin 4 → UInt8 :=
  ![UInt8.ofNat (number first), UInt8.ofNat (number second), UInt8.ofNat (number third),
    UInt8.ofNat (number fourth)]

/-- The text of an address is four parts that a reading from the right finds. -/
theorem isAddress_iff {address : Fin 4 → UInt8} :
    IsAddress text address ↔ ∃ first second third fourth,
      scan text = some (first, [second, third, fourth]) ∧ first ≠ [] ∧
        address = addressOf first second third fourth ∧ ∃ i, address i ≠ 0 := by
  constructor
  · rintro ⟨⟨first, second, third, fourth, shape, one, two, three, four⟩, nonzero⟩
    obtain ⟨one, nonemptyOne, valueOne⟩ := isPart_iff.mp one
    obtain ⟨two, nonemptyTwo, valueTwo⟩ := isPart_iff.mp two
    obtain ⟨three, nonemptyThree, valueThree⟩ := isPart_iff.mp three
    obtain ⟨four, nonemptyFour, valueFour⟩ := isPart_iff.mp four
    refine ⟨first, second, third, fourth, scan_iff.mpr ⟨?_, one, ?_, by simp⟩, nonemptyOne, ?_,
      nonzero⟩
    · rw [shape]
      simp
    · intro part member
      simp only [List.mem_cons, List.not_mem_nil, or_false] at member
      rcases member with rfl | rfl | rfl
      · exact ⟨two, nonemptyTwo⟩
      · exact ⟨three, nonemptyThree⟩
      · exact ⟨four, nonemptyFour⟩
    · funext i
      fin_cases i
      · exact valueOne
      · exact valueTwo
      · exact valueThree
      · exact valueFour
  · rintro ⟨first, second, third, fourth, scanned, nonempty, rfl, nonzero⟩
    obtain ⟨shape, segment, segments, -⟩ := scan_iff.mp scanned
    obtain ⟨two, nonemptyTwo⟩ := segments second (by simp)
    obtain ⟨three, nonemptyThree⟩ := segments third (by simp)
    obtain ⟨four, nonemptyFour⟩ := segments fourth (by simp)
    refine ⟨⟨first, second, third, fourth, by rw [shape]; simp, ?_, ?_, ?_, ?_⟩, nonzero⟩
    · exact isPart_iff.mpr ⟨segment, nonempty, rfl⟩
    · exact isPart_iff.mpr ⟨two, nonemptyTwo, rfl⟩
    · exact isPart_iff.mpr ⟨three, nonemptyThree, rfl⟩
    · exact isPart_iff.mpr ⟨four, nonemptyFour, rfl⟩

/-- The loop reads the first fifteen characters of a string that is not longer than 127. -/
theorem parsed_scan (short : source.chars.length < 128) :
    Agrees (parsed destination source) (scan (source.chars.take 15)) := by
  have count := charCount_short short
  have front : source.chars.take (charCount source.chars.length) = source.chars.take 15 := by
    rw [count, List.take_eq_take_iff]
    omega
  have read := @parseChars_scan source.chars [] [] (Parser.initial destination)
    (charCount source.chars.length) (charCount source.chars.length) (by omega) source.nonzero
    (Nat.le_refl _) (by rw [List.drop_take, Nat.sub_self, List.take_zero]; rfl)
    (describes_initial destination)
  rw [front] at read
  exact read

/-- A failure stores the address zero. -/
theorem finish_rejects {parser : Parser}
    (failed : parser.lookingIp ≠ 0 ∨ parser.isIpValid = false) :
    parser.finish.1 = efiInvalidParameter ∧ Stores parser.finish.2 (fun _ => 0) := by
  have result : ∃ before, parser.finish = (efiInvalidParameter, overlay 4 (fun _ => 0) before) := by
    unfold Parser.finish
    by_cases first : parser.lookingIp = 0
    · have invalid := failed.resolve_left (fun other => other first)
      simp only
      rw [if_pos first, if_pos (Or.inr (Or.inl invalid))]
      exact ⟨_, rfl⟩
    · simp only
      rw [if_neg first, if_pos (Or.inl first)]
      exact ⟨_, rfl⟩
  obtain ⟨before, same⟩ := result
  rw [same]
  refine ⟨rfl, ?_⟩
  intro i
  exact @overlay_inside 4 i (fun _ => 0) before i.isLt

/-- Four parts are stored, unless all of them are zero. -/
theorem finish_parts {parser : Parser} (complete : parser.lookingIp = 0)
    (valid : parser.isIpValid = true) :
    parser.finish = if parser.totalSumIp + parser.sumIp.toUInt16 = 0
      then (efiInvalidParameter, overlay 4 (fun _ => 0) parser.store)
      else (efiSuccess, parser.store) := by
  unfold Parser.finish
  simp only
  rw [if_pos complete]
  by_cases zero : parser.totalSumIp + parser.sumIp.toUInt16 = 0
  · rw [if_pos zero, if_pos (Or.inr (Or.inr zero))]
  · rw [if_neg zero, if_neg]
    simp [complete, valid, zero]

/-- The parts of an address are all zero exactly if their sum is. -/
theorem addressOf_zero {first second third fourth : List UInt16}
    (segments : ∀ part ∈ [first, second, third, fourth], Segment part) :
    UInt16.ofNat (([first, second, third, fourth].map number).sum) = 0 ↔
      ∀ i, addressOf first second third fourth i = 0 := by
  have one := (segments first (by simp)).bound
  have two := (segments second (by simp)).bound
  have three := (segments third (by simp)).bound
  have four := (segments fourth (by simp)).bound
  have byte : ∀ value ≤ 255, UInt8.ofNat value = 0 ↔ value = 0 := by
    intro value bound
    rw [← UInt8.toNat_inj, UInt8.toNat_ofNat', Nat.mod_eq_of_lt (by omega)]
    exact Iff.rfl
  simp only [List.map_cons, List.map_nil, List.sum_cons, List.sum_nil]
  rw [← UInt16.toNat_inj, UInt16.toNat_ofNat', Nat.mod_eq_of_lt (by omega)]
  have zero : (0 : UInt16).toNat = 0 := rfl
  rw [zero]
  constructor
  · intro sum i
    fin_cases i
    · exact (byte _ one).mpr (by omega)
    · exact (byte _ two).mpr (by omega)
    · exact (byte _ three).mpr (by omega)
    · exact (byte _ four).mpr (by omega)
  · intro all
    have oneZero := (byte _ one).mp (all 0)
    have twoZero := (byte _ two).mp (all 1)
    have threeZero := (byte _ three).mp (all 2)
    have fourZero := (byte _ four).mp (all 3)
    omega

/-- Three parts and the one in front of them are the address. -/
theorem stores_parts {parser : Parser} {first second third fourth : List UInt16}
    (describes : Describes parser first [second, third, fourth]) :
    Stores parser.store (addressOf first second third fourth) := by
  have stored := store_part describes (Nat.le_refl 3)
  have one : parser.store 0 = UInt8.ofNat (number first) := stored 0 (by simp)
  have two : parser.store 1 = UInt8.ofNat (number second) := stored 1 (by simp)
  have three : parser.store 2 = UInt8.ofNat (number third) := stored 2 (by simp)
  have four : parser.store 3 = UInt8.ofNat (number fourth) := stored 3 (by simp)
  intro i
  fin_cases i
  · exact one
  · exact two
  · exact three
  · exact four

/-- A text that is scanned as a part with three behind it can only be the address of these. -/
theorem address_of_scan {first second third fourth : List UInt16} {address : Fin 4 → UInt8}
    (found : scan text = some (first, [second, third, fourth])) (isAddress : IsAddress text address) :
    address = addressOf first second third fourth ∧ ∃ i, address i ≠ 0 := by
  obtain ⟨one, two, three, four, scanned, -, same, nonzero⟩ := isAddress_iff.mp isAddress
  rw [found] at scanned
  cases scanned
  exact ⟨same, nonzero⟩

/-- A text that is not scanned as four parts is no address. -/
theorem not_isAddress_of_scan
    (failed : ∀ first parts, scan text = some (first, parts) → parts.length ≠ 3)
    (address : Fin 4 → UInt8) : ¬ IsAddress text address := by
  intro isAddress
  obtain ⟨first, second, third, fourth, scanned, -⟩ := isAddress_iff.mp isAddress
  exact failed first _ scanned rfl

/-- With fewer than four parts the count of the parser is not at its end. -/
theorem lookingIp_ne {parser : Parser} {first : List UInt16} {parts : List (List UInt16)}
    (describes : Describes parser first parts) (few : parts.length ≤ 3)
    (incomplete : parts.length ≠ 3) : parser.lookingIp ≠ 0 := by
  rw [describes.lookingIp]
  generalize parts.length = count at few incomplete ⊢
  interval_cases count
  · decide
  · decide
  · decide
  · exact absurd rfl incomplete

/-- A string that does not begin with a dot begins with the digits of its first part. -/
theorem first_ne_nil {first : List UInt16} {parts : List (List UInt16)}
    (noDot : source.chars.head? ≠ some 46) (nonempty : parts ≠ [])
    (shape : source.chars.take 15 = first ++ parts.flatMap (fun part => 46 :: part)) :
    first ≠ [] := by
  rintro rfl
  cases parts with
  | nil => exact nonempty rfl
  | cons part parts =>
    cases chars : source.chars with
    | nil =>
      rw [chars] at shape
      cases shape
    | cons char rest =>
      rw [chars] at shape noDot
      exact noDot (congrArg some (List.cons.inj shape).1)

/-- Four parts are an address, which is stored, or they are all zero and refused. -/
theorem convert_parts (noDot : source.chars.head? ≠ some 46)
    {first second third fourth : List UInt16}
    (found : scan (source.chars.take 15) = some (first, [second, third, fourth]))
    (read : Describes (parsed destination source) first [second, third, fourth]) :
    (∃ address, IsAddress (source.chars.take 15) address ∧
      (∀ other, IsAddress (source.chars.take 15) other → other = address) ∧
      (convertToIpAddress destination source).1 = efiSuccess ∧
      Stores (convertToIpAddress destination source).2 address) ∨
    ((∀ address, ¬ IsAddress (source.chars.take 15) address) ∧
      (convertToIpAddress destination source).1 = efiInvalidParameter ∧
      Stores (convertToIpAddress destination source).2 (fun _ => 0)) := by
  obtain ⟨shape, segment, segments, -⟩ := scan_iff.mp found
  have finished := finish_parts read.lookingIp read.valid
  rw [total_part read segment] at finished
  have all : ∀ part ∈ [first, second, third, fourth], Segment part := by
    intro part member
    rcases List.mem_cons.mp member with rfl | member
    · exact segment
    · exact (segments part member).1
  by_cases zero : ∀ i, addressOf first second third fourth i = 0
  · refine Or.inr ⟨?_, ?_⟩
    · intro address isAddress
      obtain ⟨rfl, i, nonzero⟩ := address_of_scan found isAddress
      exact nonzero (zero i)
    · rw [if_pos ((addressOf_zero all).mpr zero)] at finished
      rw [convertToIpAddress, finished]
      refine ⟨rfl, ?_⟩
      intro i
      exact @overlay_inside 4 i (fun _ => 0) _ i.isLt
  · rw [if_neg (fun sum => zero ((addressOf_zero all).mp sum))] at finished
    have nonempty := first_ne_nil noDot (List.cons_ne_nil _ _) shape
    refine Or.inl ⟨addressOf first second third fourth, ?_, fun other isAddress =>
      (address_of_scan found isAddress).1, ?_⟩
    · exact isAddress_iff.mpr ⟨first, second, third, fourth, found, nonempty, rfl,
        not_forall.mp zero⟩
    · rw [convertToIpAddress, finished]
      exact ⟨rfl, stores_parts read⟩

/-- Every text either is an address, which is stored, or is none and refused. -/
theorem convert_cases (short : source.chars.length < 128) (noDot : source.chars.head? ≠ some 46) :
    (∃ address, IsAddress (source.chars.take 15) address ∧
      (∀ other, IsAddress (source.chars.take 15) other → other = address) ∧
      (convertToIpAddress destination source).1 = efiSuccess ∧
      Stores (convertToIpAddress destination source).2 address) ∨
    ((∀ address, ¬ IsAddress (source.chars.take 15) address) ∧
      (convertToIpAddress destination source).1 = efiInvalidParameter ∧
      Stores (convertToIpAddress destination source).2 (fun _ => 0)) := by
  have read := @parsed_scan source destination short
  cases found : scan (source.chars.take 15) with
  | none =>
    rw [found] at read
    refine Or.inr ⟨not_isAddress_of_scan ?_, finish_rejects (Or.inr read)⟩
    intro first parts scanned
    rw [found] at scanned
    cases scanned
  | some pair =>
    obtain ⟨first, parts⟩ := pair
    rw [found] at read
    have describes : Describes (parsed destination source) first parts := read
    by_cases complete : parts.length = 3
    · obtain ⟨second, third, fourth, rfl⟩ := List.length_eq_three.mp complete
      exact convert_parts noDot found describes
    · have few := (scan_iff.mp found).few
      refine Or.inr ⟨not_isAddress_of_scan ?_,
        finish_rejects (Or.inl (lookingIp_ne describes few complete))⟩
      intro other behind scanned
      rw [found] at scanned
      cases scanned
      exact complete

/-- What is printed for a part is one. -/
theorem isPart_printPart (part : UInt8) : IsPart (printPart part) part := by
  have hundreds : (part / 100).toUInt16.toNat = part.toNat / 100 := by
    rw [UInt8.toNat_toUInt16, UInt8.toNat_div]
    rfl
  have tens : (part % 100 / 10).toUInt16.toNat = part.toNat % 100 / 10 := by
    rw [UInt8.toNat_toUInt16, UInt8.toNat_div, UInt8.toNat_mod]
    rfl
  have units : (part % 100 % 10).toUInt16.toNat = part.toNat % 100 % 10 := by
    rw [UInt8.toNat_toUInt16, UInt8.toNat_mod, UInt8.toNat_mod]
    rfl
  have below := part.toNat_lt
  have shown : ∀ digit : UInt16, digit.toNat ≤ 9 → (digit + 0x30).toNat = digit.toNat + 48 := by
    intro digit small
    rw [UInt16.toNat_add]
    exact Nat.mod_eq_of_lt (by simp; omega)
  have first := shown (part / 100).toUInt16 (by omega)
  have second := shown (part % 100 / 10).toUInt16 (by omega)
  have third := shown (part % 100 % 10).toUInt16 (by omega)
  refine ⟨by simp [printPart], by simp [printPart], ?_, ?_⟩
  · intro char member
    simp only [printPart, List.mem_cons, List.not_mem_nil, or_false] at member
    rw [isDigit_iff]
    rcases member with rfl | rfl | rfl
    · omega
    · omega
    · omega
  · simp only [printPart, number, List.length_cons, List.length_nil, first, second, third,
      hundreds, tens, units]
    omega

/-- A string that begins with a digit or another character but a dot, and is not longer than 127,
is parsed. What is parsed are its first fifteen characters, and the buffer behind them is
arbitrary, as the text that the firmware prints has no terminator. -/
theorem convertToIpAddress_parses (short : source.chars.length < 128)
    (noDot : source.chars.head? ≠ some 46) (destination : Memory) :
    Parses destination source := by
  have cases := @convert_cases source destination short noDot
  have found : ∀ address, IsAddress (source.chars.take 15) address →
      (convertToIpAddress destination source).1 = efiSuccess ∧
        Stores (convertToIpAddress destination source).2 address := by
    intro address isAddress
    rcases cases with ⟨stored, -, only, accepted⟩ | ⟨none, -⟩
    · rw [only address isAddress]
      exact accepted
    · exact absurd isAddress (none address)
  refine ⟨⟨?_, ?_⟩, fun address isAddress => (found address isAddress).2, ?_, ?_⟩
  · intro accepted
    rcases cases with ⟨address, isAddress, -⟩ | ⟨-, refused, -⟩
    · exact ⟨address, isAddress⟩
    · rw [refused] at accepted
      exact absurd accepted (by decide)
  · rintro ⟨address, isAddress⟩
    exact (found address isAddress).1
  · intro none
    rcases cases with ⟨address, isAddress, -⟩ | ⟨-, refused⟩
    · exact absurd isAddress (none address)
    · exact refused
  · intro responseData ipAddress nonzero printed
    apply found
    refine ⟨⟨printPart (responseData 1), printPart (responseData 2), printPart (responseData 3),
      printPart (responseData 4), ?_, isPart_printPart _, isPart_printPart _, isPart_printPart _,
      isPart_printPart _⟩, nonzero⟩
    rw [printed]
    rfl

/-- `192.168.000.001`. -/
def sample : Text where
  chars := [49, 57, 50, 46, 49, 54, 56, 46, 48, 48, 48, 46, 48, 48, 49]
  nonzero := by decide

/-- The text of an address is parsed. -/
theorem convertToIpAddress_sample : Parses (fun _ => 0) sample :=
  convertToIpAddress_parses (by decide) (by decide) (fun _ => 0)

/-- The address `192.168.100.200` with a letter behind it. -/
def longer : Text where
  chars := [49, 57, 50, 46, 49, 54, 56, 46, 49, 48, 48, 46, 50, 48, 48, 120]
  nonzero := by decide

/-- What stands behind the first fifteen characters is not looked at, so a longer text is
accepted that is no address. -/
theorem not_only_addresses :
    ¬ ∀ destination source, (convertToIpAddress destination source).1 = efiSuccess ↔
      ∃ address, IsAddress source.chars address := by
  intro always
  have accepted : (convertToIpAddress (fun _ => 0) longer).1 = efiSuccess := by decide +kernel
  obtain ⟨address, isAddress⟩ := (always (fun _ => 0) longer).mp accepted
  obtain ⟨first, second, third, fourth, scanned, -⟩ := isAddress_iff.mp isAddress
  have failed : scan longer.chars = none := by decide +kernel
  rw [failed] at scanned
  cases scanned

end Address

end SmcPkg.BmcLanConfig
