import SmcPkg.InBand.SmbiosLaw
import SmcPkg.Lib.StringSet

/-!
# The record of a string

`GetOffsetString` writes a record with a string of an SMBIOS structure behind the data
that it has collected: the header of four bytes, the string with a number, and a zero. It
walks over the strings behind the formatted area. What it writes is compared here with
the record of the image, byte for byte, and what it reads with the size of the structure.

`getOffsetString_refines` connects the two: the bytes that are appended are those of the record.
Structures are assumed to be shorter than 64 KB, which is what the 16-bit sizes of the code can
tell.
-/

namespace SmcPkg.SmbiosString

open Bytes Smbios StringSet

section Source

/-- `SmbiosData` with `*SmbiosDataIndex`. -/
@[ext] structure Output where
  data : Memory
  index : Nat

/-- Bytes read of `TempBuff`. -/
structure ReadRange where
  start : Nat
  count : Nat

/-- The store of one byte at the index, which it moves. -/
def Output.put (out : Output) (byte : UInt8) : Output :=
  ⟨overlayAt out.index 1 (fun _ => byte) out.data, out.index + 1⟩

/-- The store of the 32-bit header. -/
def Output.putHeader (out : Output) (typeNumber : UInt8) (typeHandle : UInt16)
    (offsetIndex : UInt8) : Output :=
  let word := typeNumber.toUInt32 + (typeHandle.toUInt32 <<< 8) + (offsetIndex.toUInt32 <<< 24)
  ⟨overlayAt out.index 4 (memoryOf (le32 word.toNat) fun _ => 0) out.data, out.index + 4⟩

/-- The bytes that `IsVisibleString` reads: up to the first that is not visible, and not more
    than it counts to. -/
def visibleRead (tempBuff : List UInt8) (place : Nat) : ReadRange :=
  ⟨place, min (((tempBuff.drop place).takeWhile fun c => 0x20 ≤ c && c ≤ 0x7E).length + 1) 0xFFFF⟩

/-- The bytes that `Strlen`, `AsciiStrLen` and `Strcpy` read. -/
def textRead (tempBuff : List UInt8) (place : Nat) : ReadRange :=
  ⟨place, (textAt tempBuff place).length + 1⟩

/-- The branch for the string with the number: `Strcpy`, then the index, then the ending
    char. -/
def copyString (tempBuff : List UInt8) (place : Nat) (out : Output) : List ReadRange × Output :=
  let text := textAt tempBuff place
  if isVisibleString (tempBuff.drop place) then
    let copied : Output :=
      ⟨overlayAt out.index (text.length + 1) (memoryOf (text ++ [0]) fun _ => 0) out.data,
        out.index + text.length⟩
    ([visibleRead tempBuff place, textRead tempBuff place, textRead tempBuff place], copied.put 0)
  else ([visibleRead tempBuff place], out)

/-- The loop over the strings, with `OffsetString` and `TempBuffIndex`. -/
def stringLoop (tempBuff : List UInt8) (tempBuffSize : Nat) :
    Nat → Nat → Output → List ReadRange × Output
  | 0, _, out => ([], out)
  | 1, place, out =>
    if place < tempBuffSize then copyString tempBuff place out else ([], out)
  | offsetString + 2, place, out =>
    if place < tempBuffSize then
      let rest := stringLoop tempBuff tempBuffSize (offsetString + 1)
        (place + (textAt tempBuff place).length + 1) out
      (textRead tempBuff place :: rest.1, rest.2)
    else ([], out)

/-- `GetOffsetString`. `OffsetString` has one byte, and from zero it would count down through
    all of them. -/
def getOffsetString (typeNumber : UInt8) (typeHandle : UInt16) (offsetIndex offsetString : UInt8)
    (structLength : UInt8) (tempBuffSize : Nat) (tempBuff : List UInt8) (out : Output) :
    List ReadRange × Output :=
  let started := out.putHeader typeNumber typeHandle offsetIndex
  let number := if offsetString = 0 then 256 else offsetString.toNat
  let found := stringLoop tempBuff tempBuffSize number structLength.toNat started
  (found.1, if found.2.index = started.index then found.2.put 0 else found.2)

end Source

section Structures

/-- An SMBIOS structure: the formatted area with its length in its second byte, and the
    strings. Its size is a 16-bit word where the structures come from. -/
structure SmbiosStructure where
  formatted : List UInt8
  strings : List (List UInt8)
  header : 4 ≤ formatted.length
  sized : formatted.length = (formatted.getD 1 0).toNat
  filled : ∀ text ∈ strings, text ≠ []
  free : ∀ text ∈ strings, 0 ∉ text
  short : (formatted ++ area strings).length < 2 ^ 16

def SmbiosStructure.bytes (struct : SmbiosStructure) : List UInt8 :=
  struct.formatted ++ area struct.strings

/-- `structLength`. -/
def SmbiosStructure.structLength (struct : SmbiosStructure) : UInt8 :=
  struct.formatted.getD 1 0

/-- A string of printable characters. -/
def Printable (text : List UInt8) : Prop := ∀ c ∈ text, 0x20 ≤ c ∧ c ≤ 0x7E

instance (text : List UInt8) : Decidable (Printable text) :=
  List.decidableBAll (fun c => 0x20 ≤ c ∧ c ≤ 0x7E) text

/-- The string with a number, counted from 1, if it exists and is printable, and nothing
    otherwise. -/
def SmbiosStructure.printed (struct : SmbiosStructure) (number : Nat) : List UInt8 :=
  match struct.strings[number - 1]? with
  | some text => if Printable text then text else []
  | none => []

end Structures

section Appending

/-- Bytes behind those that were collected before. -/
def Output.append (out : Output) (bytes : List UInt8) : Output :=
  ⟨overlayAt out.index bytes.length (memoryOf bytes fun _ => 0) out.data,
    out.index + bytes.length⟩

variable (out : Output)

/-- What is appended twice is appended at once. -/
theorem append_append (first second : List UInt8) :
    (out.append first).append second = out.append (first ++ second) := by
  apply Output.ext
  · funext i
    simp only [Output.append, List.length_append]
    by_cases early : i < out.index
    · rw [overlayAt_outside (Or.inl (by omega)), overlayAt_outside (Or.inl early),
        overlayAt_outside (Or.inl early)]
    · by_cases front : i < out.index + first.length
      · rw [overlayAt_outside (Or.inl front), overlayAt_inside (by omega) front,
          overlayAt_inside (by omega) (by omega), memoryOf, memoryOf,
          List.getElem?_append_left (by omega), List.getElem?_eq_getElem (by omega)]
      · by_cases back : i < out.index + first.length + second.length
        · rw [overlayAt_inside (by omega) back, overlayAt_inside (by omega) (by omega), memoryOf,
            memoryOf, List.getElem?_append_right (by omega), Nat.sub_add_eq,
            List.getElem?_eq_getElem (by omega)]
        · rw [overlayAt_outside (Or.inr (by omega)), overlayAt_outside (Or.inr (by omega)),
            overlayAt_outside (Or.inr (by omega))]
  · simp [Output.append, Nat.add_assoc]

/-- A byte that is put is appended. -/
theorem put_eq_append (byte : UInt8) : out.put byte = out.append [byte] := by
  apply Output.ext
  · funext i
    by_cases here : i = out.index
    · simp [Output.put, Output.append, overlayAt, memoryOf, here]
    · simp only [Output.put, Output.append, List.length_singleton]
      rw [overlayAt_outside (by omega), overlayAt_outside (by omega)]
  · rfl

/-- The header's bytes: the type, the handle, the offset. -/
theorem putHeader_eq_append (type : UInt8) (handle : UInt16) (offset : UInt8) :
    out.putHeader type handle offset =
      out.append (type :: (le16 handle.toNat ++ [offset])) := by
  have typeBound := type.toNat_lt
  have handleBound := handle.toNat_lt
  have offsetBound := offset.toNat_lt
  have word : (type.toUInt32 + (handle.toUInt32 <<< 8) + (offset.toUInt32 <<< 24)).toNat =
      type.toNat + handle.toNat * 0x100 + offset.toNat * 0x1000000 := by
    simp [UInt32.toNat_add, UInt32.toNat_shiftLeft, Nat.shiftLeft_eq]
    omega
  have bytes : le32 (type.toNat + handle.toNat * 0x100 + offset.toNat * 0x1000000) =
      type :: (le16 handle.toNat ++ [offset]) := by
    simp only [le32, le16, List.cons_append, List.nil_append, List.cons.injEq, and_true,
      ← UInt8.toNat_inj, UInt8.toNat_ofNat']
    omega
  simp only [Output.putHeader, word, bytes]
  rfl

/-- The ending char is written twice. -/
theorem copied_eq_append (text : List UInt8) :
    Output.put ⟨overlayAt out.index (text.length + 1) (memoryOf (text ++ [0]) fun _ => 0) out.data,
      out.index + text.length⟩ 0 = out.append (text ++ [0]) := by
  apply Output.ext
  · funext i
    simp only [Output.put, Output.append, List.length_append, List.length_singleton]
    by_cases ending : i = out.index + text.length
    · rw [overlayAt_inside (by omega) (by omega), overlayAt_inside (by omega) (by omega), ending]
      simp [memoryOf]
    · rw [overlayAt_outside (by omega)]
  · simp [Output.put, Output.append, Nat.add_assoc]

end Appending

section Law

variable {tempBuff : List UInt8} {place size : Nat} {out : Output}

/-- What the loop appends: the string of the record with its zero, or nothing. -/
theorem copyString_out :
    (copyString tempBuff place out).2 =
      if isVisibleString (tempBuff.drop place) then out.append (textAt tempBuff place ++ [0])
      else out := by
  unfold copyString
  split
  · exact copied_eq_append out _
  · rfl

/-- A text is visible if its characters are printable. -/
theorem isVisibleString_iff (short : (textAt tempBuff place).length ≤ 0xFFFF) :
    isVisibleString (tempBuff.drop place) = true ↔ Printable (textAt tempBuff place) := by
  have whole : (cString (tempBuff.drop place)).take 0xFFFF = textAt tempBuff place :=
    List.take_of_length_le short
  simp [isVisibleString, whole, Printable]

/-- The test whether a text is visible reads no more than the text and its zero. -/
theorem visible_inside :
    (visibleRead tempBuff place).count ≤ (textAt tempBuff place).length + 1 := by
  have scanned : ∀ text : List UInt8,
      (text.takeWhile fun c => 0x20 ≤ c && c ≤ 0x7E).length ≤
        (text.takeWhile (· ≠ 0)).length := by
    intro text
    induction text with
    | nil => exact Nat.le_refl 0
    | cons c text inductionHypothesis =>
      rw [List.takeWhile_cons]
      split
      case isTrue visible =>
        have nonzero : c ≠ 0 := by
          rintro rfl
          exact absurd visible (by decide)
        simpa [nonzero] using inductionHypothesis
      case isFalse => exact Nat.zero_le _
  have bound := scanned (tempBuff.drop place)
  have least := Nat.min_le_left
    (((tempBuff.drop place).takeWhile fun c => 0x20 ≤ c && c ≤ 0x7E).length + 1) 0xFFFF
  exact Nat.le_trans least (Nat.succ_le_succ bound)

/-- Every byte of the range is inside. -/
def Inside (size : Nat) (reads : List ReadRange) : Prop :=
  ∀ read ∈ reads, read.start + read.count ≤ size

/-- A text that lies in the structure with its zero is copied from inside of it. -/
theorem copyString_inside (below : place + ((textAt tempBuff place).length + 1) ≤ size) :
    Inside size (copyString tempBuff place out).1 := by
  have visible : place + (visibleRead tempBuff place).count ≤ size :=
    Nat.le_trans (Nat.add_le_add_left visible_inside place) below
  intro read member
  unfold copyString at member
  split at member
  · simp only [List.mem_cons, List.not_mem_nil, or_false, or_self] at member
    obtain rfl | rfl := member
    · exact visible
    · exact below
  · obtain rfl := List.mem_singleton.mp member
    exact visible

variable {pieces : List (List UInt8)} {before behind : List UInt8}

/-- The text that a piece puts into the record. -/
def printedPiece (pieces : List (List UInt8)) (n : Nat) : List UInt8 :=
  match pieces[n]? with
  | some text => if Printable text then text ++ [0] else []
  | none => []

/-- The loop from the n-th piece on: it appends the piece that the number counts to, and reads
    the pieces on the way. -/
theorem stringLoop_run (free : ∀ piece ∈ pieces, 0 ∉ piece)
    (short : ∀ piece ∈ pieces, piece.length ≤ 0xFFFF)
    (split : tempBuff = before ++ (packed pieces ++ behind)) (number n : Nat)
    (upTo : n ≤ pieces.length) (out : Output) :
    let made := stringLoop tempBuff (before.length + (packed pieces).length) (number + 1)
      (before.length + placeOf pieces n) out
    made.2 = out.append (printedPiece pieces (n + number)) ∧
      Inside (before.length + (packed pieces).length) made.1 := by
  have nothing : out.append [] = out := by
    apply Output.ext
    · funext i
      exact overlayAt_outside (by simp only [List.length_nil]; omega)
    · rfl
  have ended (number : Nat) : stringLoop tempBuff (before.length + (packed pieces).length)
      (number + 1) (before.length + placeOf pieces pieces.length) out = ([], out) := by
    have past : ¬ before.length + placeOf pieces pieces.length <
        before.length + (packed pieces).length := by
      rw [placeOf_length]
      exact Nat.lt_irrefl _
    cases number with
    | zero => rw [stringLoop, if_neg past]
    | succ number => rw [stringLoop, if_neg past]
  induction number generalizing n with
  | zero =>
    obtain rfl | inside := Nat.eq_or_lt_of_le upTo
    · simp only [ended, printedPiece, Nat.add_zero, List.getElem?_eq_none (Nat.le_refl _), nothing,
        true_and]
      exact fun read member => absurd member List.not_mem_nil
    · have text := textAt_placeOf free split inside
      have ends := placeOf_inside inside
      have below : before.length + placeOf pieces n < before.length + (packed pieces).length := by
        omega
      simp only [stringLoop, if_pos below]
      constructor
      · have visible : isVisibleString (tempBuff.drop (before.length + placeOf pieces n)) = true ↔
            Printable (textAt tempBuff (before.length + placeOf pieces n)) :=
          isVisibleString_iff (by rw [text]; exact short _ (List.getElem_mem inside))
        rw [text] at visible
        rw [copyString_out, text, printedPiece, Nat.add_zero, List.getElem?_eq_getElem inside]
        simp only [visible]
        split
        · rfl
        · exact nothing.symm
      · apply copyString_inside
        rw [text]
        omega
  | succ number inductionHypothesis =>
    obtain rfl | inside := Nat.eq_or_lt_of_le upTo
    · have none : pieces[pieces.length + (number + 1)]? = none :=
        List.getElem?_eq_none (by omega)
      simp only [ended, printedPiece, none, nothing, true_and]
      exact fun read member => absurd member List.not_mem_nil
    · have text := textAt_placeOf free split inside
      have ends := placeOf_inside inside
      have below : before.length + placeOf pieces n < before.length + (packed pieces).length := by
        omega
      have next : before.length + placeOf pieces n + pieces[n].length + 1 =
          before.length + placeOf pieces (n + 1) := by
        rw [placeOf_succ inside]
        omega
      obtain ⟨appended, reads⟩ := inductionHypothesis (n + 1) inside
      simp only [stringLoop, if_pos below, text, next]
      refine ⟨?_, ?_⟩
      · rw [appended, Nat.add_right_comm n 1 number, Nat.add_assoc]
      · intro read member
        obtain rfl | later := List.mem_cons.mp member
        · simp only [textRead, text]
          omega
        · exact reads read later

/-- The piece that the loop appends, closed where the loop has appended none, is the printed
    string and its zero. -/
theorem close_printed (struct : SmbiosStructure) (number : Nat) (started : Output) :
    (let found := started.append (printedPiece (areaPieces struct.strings) (number - 1))
      if found.index = started.index then found.put 0 else found) =
      started.append (struct.printed number ++ [0]) := by
  dsimp only
  by_cases inside : number - 1 < struct.strings.length
  · rw [printedPiece, areaPieces_string inside, SmbiosStructure.printed,
      List.getElem?_eq_getElem inside]
    dsimp only
    split
    · rw [if_neg (by simp [Output.append])]
    · rw [if_pos (by simp [Output.append]), put_eq_append, append_append]
  · have absent : struct.strings[number - 1]? = none := List.getElem?_eq_none (by omega)
    rw [SmbiosStructure.printed, absent]
    dsimp only
    cases found : (areaPieces struct.strings)[number - 1]? with
    | none =>
      rw [printedPiece, found]
      dsimp only
      rw [if_pos (by simp [Output.append]), put_eq_append, append_append]
    | some piece =>
      obtain rfl := areaPieces_empty (by omega) found
      have closing : printedPiece (areaPieces struct.strings) (number - 1) = [] ++ [0] := by
        rw [printedPiece, found]
        exact if_pos fun c inside => absurd inside List.not_mem_nil
      rw [closing, if_neg (by simp [Output.append])]

/-- `GetOffsetString` on a structure: behind what was collected it appends the record with the
    string of the number, if it exists and is printable, and with no string otherwise, and
    reads inside the structure only. -/
theorem getOffsetString_appends (struct : SmbiosStructure) (behind : List UInt8)
    (typeNumber : UInt8) (typeHandle : UInt16) (offsetIndex offsetString : UInt8)
    (numbered : offsetString ≠ 0) (out : Output) :
    let made := getOffsetString typeNumber typeHandle offsetIndex offsetString struct.structLength
      struct.bytes.length (struct.bytes ++ behind) out
    made.2 = out.append
        (Record.bytes ⟨typeNumber, typeHandle, offsetIndex, struct.printed offsetString.toNat⟩) ∧
      ∀ read ∈ made.1, read.start + read.count ≤ struct.bytes.length := by
  obtain ⟨number, count⟩ : ∃ number, offsetString.toNat = number + 1 :=
    Nat.exists_eq_succ_of_ne_zero fun zero => numbered (UInt8.toNat_inj.mp zero)
  have front : struct.structLength.toNat =
      struct.formatted.length + placeOf (areaPieces struct.strings) 0 := struct.sized.symm
  have split : struct.bytes ++ behind =
      struct.formatted ++ (packed (areaPieces struct.strings) ++ behind) := by
    rw [SmbiosStructure.bytes, area_eq_packed, List.append_assoc]
  have size : struct.bytes.length =
      struct.formatted.length + (packed (areaPieces struct.strings)).length := by
    rw [SmbiosStructure.bytes, area_eq_packed, List.length_append]
  have short : ∀ piece ∈ areaPieces struct.strings, piece.length ≤ 0xFFFF := by
    intro piece inside
    obtain ⟨n, below, rfl⟩ := List.getElem_of_mem inside
    have ends := placeOf_inside below
    have bound := struct.short
    rw [area_eq_packed, List.length_append] at bound
    omega
  obtain ⟨appended, inside⟩ := stringLoop_run (areaPieces_free struct.free) short split
    number 0 (Nat.zero_le _) (out.putHeader typeNumber typeHandle offsetIndex)
  rw [Nat.zero_add] at appended
  simp only [getOffsetString, if_neg numbered, count, front, size]
  refine ⟨?_, inside⟩
  rw [appended]
  refine (close_printed struct (number + 1) _).trans ?_
  rw [putHeader_eq_append, append_append]
  simp [Record.bytes]

/-- A structure with a printable string and one that is not. -/
def sampleStructure : SmbiosStructure where
  formatted := [1, 5, 0, 0, 1]
  strings := [[0x41, 0x42], [0x07]]
  header := by decide
  sized := by decide
  filled := by decide
  free := by decide
  short := by decide

/-- Its first string, with other memory behind it. -/
theorem getOffsetString_appends_sample :
    let made := getOffsetString 1 3 4 1 sampleStructure.structLength
      sampleStructure.bytes.length (sampleStructure.bytes ++ [9, 9]) ⟨fun _ => 0, 100⟩
    made.2 = Output.append ⟨fun _ => 0, 100⟩ [1, 3, 0, 4, 0x41, 0x42, 0] ∧
      ∀ read ∈ made.1, read.start + read.count ≤ sampleStructure.bytes.length := by
  have record : Record.bytes ⟨1, 3, 4, sampleStructure.printed (1 : UInt8).toNat⟩ =
      [1, 3, 0, 4, 0x41, 0x42, 0] := by decide
  have law := getOffsetString_appends sampleStructure [9, 9] 1 3 4 1 (by decide)
    ⟨fun _ => 0, 100⟩
  rw [record] at law
  exact law

end Law

section Records

variable {tempBuff : List UInt8} {size : Nat}

/-- The loop appends the string of the record model with its zero, or nothing where that
    string is empty. -/
theorem stringLoop_refines (number place : Nat) (out : Output) :
    (stringLoop tempBuff size number place out).2 =
        out.append (offsetString tempBuff size number place ++ [0]) ∨
      (stringLoop tempBuff size number place out).2 = out ∧
        offsetString tempBuff size number place = [] := by
  induction number generalizing place with
  | zero => exact Or.inr ⟨rfl, rfl⟩
  | succ number inductionHypothesis =>
    by_cases below : place < size
    · cases number with
      | zero =>
        by_cases visible : isVisibleString (tempBuff.drop place) = true
        · refine Or.inl ?_
          rw [stringLoop, if_pos below, copyString_out, if_pos visible, offsetString, if_pos below,
            if_pos visible]
          rfl
        · refine Or.inr ?_
          rw [stringLoop, if_pos below, copyString_out, if_neg visible, offsetString, if_pos below,
            if_neg visible]
          exact ⟨rfl, rfl⟩
      | succ number =>
        rw [stringLoop, if_pos below, offsetString, if_pos below]
        exact inductionHypothesis _
    · refine Or.inr ?_
      cases number with
      | zero =>
        rw [stringLoop, if_neg below, offsetString, if_neg below]
        exact ⟨rfl, rfl⟩
      | succ number =>
        rw [stringLoop, if_neg below, offsetString, if_neg below]
        exact ⟨rfl, rfl⟩

/-- What the function appends is the record of the image, whatever the memory holds. -/
theorem getOffsetString_refines (type offset number : UInt8) (struct : Structure)
    (numbered : number ≠ 0) (out : Output) :
    (getOffsetString type struct.handle offset number (struct.byte 1) struct.tempBuffSize.toNat
        struct.tempBuff out).2 =
      out.append (Smbios.getOffsetString type struct offset number).bytes := by
  have closed (started : Output) :
      (let found := stringLoop struct.tempBuff struct.tempBuffSize.toNat number.toNat
          (struct.byte 1).toNat started
        if found.2.index = started.index then found.2.put 0 else found.2) =
        started.append (offsetString struct.tempBuff struct.tempBuffSize.toNat number.toNat
          (struct.byte 1).toNat ++ [0]) := by
    dsimp only
    obtain appended | ⟨unchanged, empty⟩ :=
      @stringLoop_refines struct.tempBuff struct.tempBuffSize.toNat number.toNat
        (struct.byte 1).toNat started
    · rw [appended, if_neg (by simp [Output.append])]
    · rw [unchanged, empty, if_pos rfl, put_eq_append]
      rfl
  simp only [getOffsetString, if_neg numbered]
  refine (closed _).trans ?_
  rw [putHeader_eq_append, append_append]
  simp [Smbios.getOffsetString, Record.bytes]

end Records

end SmcPkg.SmbiosString
