import Mathlib
import SmcPkg.SmBios.PowerSupply

/-!
# When the structure of a power supply is well formed

What the copy emits is a function of the bytes of the FRU data up to the last type code that is
used. It lies behind the location as long as the 8-bit place does not wrap, and the size that is
returned tells if it has. Whether it is a run of strings can be read off these bytes.
-/

namespace SmcPkg.PowerSupply

open Bytes Buffer Card RaidCmd StringSet SmbiosString

section Emission

/-- What is stored for a byte that is used. -/
def emit (byte : UInt8) : List UInt8 :=
  if byte = 0xc0 then notAvailable else if Ends byte then [0] else [byte]

variable {bytes tail : List UInt8} {before : Bool} {byte : UInt8}

/-- The text for a field that is missing, with its zero in front. -/
theorem notAvailable_eq : notAvailable = [0, 0x4e, 0x2f, 0x41] := by decide

/-- A zero is no type code that ends the text. -/
theorem ends_zero : ¬ Ends 0 := by decide

/-- A byte is copied as one byte, or as the four of the text that stands for a missing field. -/
theorem emit_length : (emit byte).length = if byte = 0xc0 then 4 else 1 := by
  unfold emit
  split_ifs
  · rfl
  · rfl
  · rfl

/-- The room of a sequence is counted byte by byte. -/
theorem room_cons : room (byte :: bytes) = (emit byte).length + room bytes := by
  rw [emit_length, room, List.map_cons, List.sum_cons, room]

/-- What is copied takes the room that was counted. -/
theorem flatMap_emit_length : (bytes.flatMap emit).length = room bytes := by
  induction bytes with
  | nil => rfl
  | cons byte bytes inductionHypothesis =>
    rw [List.flatMap_cons, List.length_append, inductionHypothesis, room_cons]

/-- The room is bounded by the bytes and the type codes that are left. -/
theorem room_used (left : Nat) (bytes : List UInt8) :
    room (used left bytes) ≤ bytes.length + 3 * (left + 1) := by
  induction bytes generalizing left with
  | nil => simp [used, room]
  | cons byte bytes inductionHypothesis =>
    have here := inductionHypothesis left
    have fewer := inductionHypothesis (left - 1)
    rw [used, List.length_cons]
    split_ifs with character code last
    · have plain : byte ≠ 0xc0 := by
        rintro rfl
        exact absurd character (by decide)
      rw [room_cons, emit_length, if_neg plain]
      omega
    · rw [room_cons, emit_length, room]
      split_ifs
      · simp
        omega
      · simp
        omega
    · rw [room_cons, emit_length]
      split_ifs
      · omega
      · omega
    · simp [room]

/-- The bytes that are stored are closed if the bytes they come from are spaced, up to what
stands behind them. -/
theorem closed_emitted :
    Closed before (bytes.flatMap emit ++ tail) ↔
      Spaced before bytes ∧ Closed (begun before bytes) tail := by
  induction bytes generalizing before with
  | nil => simp [Spaced, begun]
  | cons byte bytes inductionHypothesis =>
    rw [List.flatMap_cons, List.append_assoc, Spaced, begun]
    by_cases missing : byte = 0xc0
    · subst missing
      have emitted : emit 0xc0 = [0, 0x4e, 0x2f, 0x41] := notAvailable_eq
      have open_ : decide (¬ ((0xc0 : UInt8) = 0 ∨ Ends 0xc0)) = true := by decide
      rw [emitted, open_]
      simp only [List.cons_append, List.nil_append, Closed, if_true]
      rw [if_neg (by decide), if_neg (by decide), if_neg (by decide), inductionHypothesis]
      tauto
    · by_cases ends : Ends byte
      · have emitted : emit byte = [0] := by rw [emit, if_neg missing, if_pos ends]
        have open_ : decide (¬ (byte = 0 ∨ Ends byte)) = false := by simp [ends]
        rw [emitted, open_]
        simp only [List.cons_append, List.nil_append, Closed, if_true]
        rw [inductionHypothesis]
        tauto
      · have emitted : emit byte = [byte] := by rw [emit, if_neg missing, if_neg ends]
        rw [emitted, List.cons_append, List.nil_append, Closed]
        by_cases zero : byte = 0
        · have open_ : decide (¬ (byte = 0 ∨ Ends byte)) = false := by simp [zero]
          rw [if_pos zero, open_, inductionHypothesis]
          tauto
        · have open_ : decide (¬ (byte = 0 ∨ Ends byte)) = true := by simp [zero, ends]
          rw [if_neg zero, open_, inductionHypothesis]
          tauto

/-- A zero is stored for each byte that ends a string. -/
theorem count_emitted :
    (bytes.flatMap emit).count 0 =
      bytes.countP (fun byte => byte = 0 ∨ byte = 0xc0 ∨ Ends byte) := by
  induction bytes with
  | nil => rfl
  | cons byte bytes inductionHypothesis =>
    rw [List.flatMap_cons, List.count_append, inductionHypothesis, List.countP_cons, Nat.add_comm]
    congr 1
    unfold emit
    by_cases missing : byte = 0xc0
    · simp [missing, notAvailable_eq]
    · by_cases ends : Ends byte
      · simp [missing, ends]
      · by_cases zero : byte = 0
        · simp [zero, ends_zero]
        · simp [missing, ends, zero]

end Emission

section Loops

variable {size : Nat} {fruBlockData updateBuffer : Memory} {j : UInt8}

/-- The place in the structure does not wrap as long as it stays below 256. -/
theorem place_add {count : Nat} (inside : j.toNat + count ≤ 255) :
    (j + UInt8.ofNat count).toNat = j.toNat + count := by
  rw [UInt8.toNat_add, UInt8.toNat_ofNat']
  omega

/-- The place after two parts. -/
theorem place_parts (j : UInt8) (first rest : Nat) :
    j + UInt8.ofNat first + UInt8.ofNat rest = j + UInt8.ofNat (first + rest) := by
  rw [UInt8.ofNat_add, UInt8.add_assoc]

/-- A store in the buffer, by the 8-bit place. -/
theorem write_place (roomy : 260 ≤ size) {bytes : List UInt8} (few : bytes.length ≤ 4) :
    ∃ written, write size updateBuffer j.toNat bytes = .ok written ∧
      Wrote updateBuffer j.toNat bytes written := by
  have below := UInt8.toNat_lt j
  exact write_ok (by omega)

/-- What is emitted for a byte, and then for the rest. -/
theorem emitted_first {byte : UInt8} {rest : List UInt8} {written last : Memory}
    (first : Wrote updateBuffer j.toNat (emit byte) written)
    (later : (j + UInt8.ofNat (emit byte).length).toNat + room rest ≤ 255 →
      Wrote written (j + UInt8.ofNat (emit byte).length).toNat (rest.flatMap emit) last)
    (fits : j.toNat + room (byte :: rest) ≤ 255) :
    Wrote updateBuffer j.toNat ((byte :: rest).flatMap emit) last := by
  rw [room_cons] at fits
  have next := @place_add j (emit byte).length (by omega)
  rw [next] at later
  rw [List.flatMap_cons]
  exact first.append (later (by omega))

/-- A character is copied as it is. -/
theorem emit_character {byte : UInt8} (character : byte < 0xc0) : emit byte = [byte] := by
  have plain : byte ≠ 0xc0 := by
    rintro rfl
    exact absurd character (by decide)
  have runs : ¬ Ends byte := by
    intro ends
    have above := ends.1
    rw [UInt8.le_iff_toNat_le] at above
    rw [UInt8.lt_iff_toNat_lt] at character
    simp only [UInt8.reduceToNat] at above character
    omega
  rw [emit, if_neg plain, if_neg runs]

/-- A type code is copied as the zero that ends the string before it. -/
theorem emit_ends {byte : UInt8} (ends : Ends byte) : emit byte = [0] := by
  have plain : byte ≠ 0xc0 := by
    rintro rfl
    exact absurd ends (by decide)
  rw [emit, if_neg plain, if_pos ends]

/-- The type code of an empty field is copied as the text for it. -/
theorem emit_missing : emit 0xc0 = notAvailable := rfl

/-- The copy stores what is emitted for the bytes that are used. -/
theorem copyFru_copies (roomy : 260 ≤ size) {count i k : Nat} (inside : i + count ≤ 128)
    (few : k < 7) :
    ∃ copied, copyFru size fruBlockData count i k j updateBuffer =
        .ok (j + UInt8.ofNat (room (used (7 - k) (window fruBlockData i count))), copied) ∧
      (j.toNat + room (used (7 - k) (window fruBlockData i count)) ≤ 255 →
        Wrote updateBuffer j.toNat ((used (7 - k) (window fruBlockData i count)).flatMap emit)
          copied) := by
  induction count generalizing i k j updateBuffer with
  | zero => exact ⟨updateBuffer, by simp [copyFru, window, used, room], fun _ => Wrote.none⟩
  | succ count inductionHypothesis =>
    rw [window, copyFru, read_ok (by omega), used]
    simp only [bind, Except.bind]
    generalize fruBlockData i = byte
    obtain ⟨written, stored, wrote⟩ := @write_place size updateBuffer j roomy (emit byte)
      (by rw [emit_length]; split_ifs <;> omega)
    have rest := fun more (below : more < 7) => @inductionHypothesis written
      (j + UInt8.ofNat (emit byte).length) (i + 1) more (by omega) below
    have lastByte : j.toNat + room [byte] ≤ 255 →
        Wrote updateBuffer j.toNat ([byte].flatMap emit) written :=
      fun fits => emitted_first wrote (fun _ => Wrote.none) fits
    have lastRoom : room [byte] = (emit byte).length := by rw [room_cons]; rfl
    by_cases character : byte < 0xc0
    · have emitted := emit_character character
      rw [if_pos character, if_pos character]
      obtain ⟨copied, ran, later⟩ := rest k few
      rw [emitted] at stored ran
      refine ⟨copied, ?_, emitted_first wrote later⟩
      simp only [stored]
      rw [room_cons, ← place_parts, emitted]
      exact ran
    · rw [if_neg character, if_neg character]
      have left : 7 - k - 1 = 7 - (k + 1) := by omega
      have number : 7 ≤ k + 1 ↔ 7 - k ≤ 1 := by omega
      by_cases ends : Ends byte
      · have emitted := emit_ends ends
        have range : 0xc2 ≤ byte ∧ byte ≤ 0xdf := ends
        rw [if_pos (Or.inl ends), if_pos range]
        by_cases last : 7 ≤ k + 1
        · rw [if_pos (number.mp last), lastRoom]
          rw [emitted] at stored
          refine ⟨written, ?_, lastRoom ▸ lastByte⟩
          simp only [stored, if_pos last, emitted]
          rfl
        · rw [if_neg (fun few => last (number.mpr few)), left]
          obtain ⟨copied, ran, later⟩ := rest (k + 1) (by omega)
          rw [emitted] at stored ran
          refine ⟨copied, ?_, emitted_first wrote later⟩
          simp only [stored, if_neg last]
          rw [room_cons, ← place_parts, emitted]
          exact ran
      · have range : ¬ (0xc2 ≤ byte ∧ byte ≤ 0xdf) := ends
        rw [if_neg range]
        by_cases missing : byte = 0xc0
        · subst missing
          rw [if_pos (Or.inr rfl), if_pos rfl]
          by_cases last : 7 ≤ k + 1
          · rw [if_pos (number.mp last), lastRoom]
            refine ⟨written, ?_, lastRoom ▸ lastByte⟩
            rw [emit_missing] at stored
            simp only [stored, if_pos last]
            rfl
          · rw [if_neg (fun few => last (number.mpr few)), left]
            obtain ⟨copied, ran, later⟩ := rest (k + 1) (by omega)
            refine ⟨copied, ?_, emitted_first wrote later⟩
            rw [emit_missing] at stored ran
            simp only [stored, if_neg last]
            rw [room_cons, ← place_parts]
            exact ran
        · rw [if_neg missing, if_neg (not_or.mpr ⟨ends, missing⟩)]
          exact ⟨updateBuffer, by simp [room], fun _ => Wrote.none⟩

/-- The zeros that close the strings, by the byte that was behind them. -/
def closing (byte : UInt8) : List UInt8 := if byte = 0 then [0] else [0, 0]

/-- One or two zeros close the strings. -/
theorem closing_length (byte : UInt8) :
    (closing byte).length = 1 ∨ (closing byte).length = 2 := by
  unfold closing
  split_ifs
  · exact Or.inl rfl
  · exact Or.inr rfl

/-- The strings are closed at the place where the copy has ended; the number of zeros depends on
the byte that was left there. -/
theorem closeStrings_closes (roomy : 260 ≤ size) :
    ∃ closed, closeStrings size j updateBuffer =
        .ok (j + UInt8.ofNat (closing (updateBuffer j.toNat)).length, closed) ∧
      (j.toNat + (closing (updateBuffer j.toNat)).length ≤ 255 →
        Wrote updateBuffer j.toNat (closing (updateBuffer j.toNat)) closed) := by
  have below := UInt8.toNat_lt j
  unfold closeStrings
  rw [read_ok (by omega)]
  simp only [bind, Except.bind]
  by_cases zero : updateBuffer j.toNat = 0
  · obtain ⟨closed, stored, wrote⟩ := @write_place size updateBuffer j roomy [0] (by simp)
    rw [if_neg (by simpa using zero), closing, if_pos zero]
    simp only [stored]
    exact ⟨closed, rfl, fun _ => wrote⟩
  · obtain ⟨written, first, wrote⟩ := @write_place size updateBuffer j roomy [0] (by simp)
    obtain ⟨closed, second, closes⟩ := @write_place size written (j + 1) roomy [0] (by simp)
    rw [if_pos zero, closing, if_neg zero]
    simp only [first, Except.map, second]
    refine ⟨closed, ?_, ?_⟩
    · have two : j + 1 + 1 = j + UInt8.ofNat 2 := place_parts j 1 1
      rw [two]
      rfl
    · intro fits
      simp only [List.length_cons, List.length_nil] at fits
      have next : (j + 1).toNat = j.toNat + 1 := @place_add j 1 (by omega)
      rw [next] at closes
      exact wrote.append closes

/-- The walk over the location ends behind its zero. -/
theorem bypass_text (roomy : 260 ≤ size) {text : List UInt8} (free : 0 ∉ text)
    (stored : Stored updateBuffer j.toNat (text ++ [0])) (inside : j.toNat + text.length ≤ 255)
    (steps : Nat) :
    bypass size updateBuffer steps j =
      if text.length < steps then .ok (j + UInt8.ofNat (text.length + 1))
      else .error .outOfFuel := by
  induction text generalizing j steps with
  | nil =>
    cases steps with
    | zero => rfl
    | succ steps =>
      obtain ⟨zero, -⟩ := stored_cons.mp stored
      rw [bypass, read_ok (by simp at inside; omega), zero]
      rfl
  | cons byte text inductionHypothesis =>
    cases steps with
    | zero => rfl
    | succ steps =>
      rw [List.cons_append, stored_cons] at stored
      rw [List.length_cons] at inside
      have nonzero : byte ≠ 0 := fun zero => free (zero ▸ List.mem_cons_self)
      have next : (j + 1).toNat = j.toNat + 1 := @place_add j 1 (by omega)
      rw [bypass, read_ok (by omega), stored.1]
      simp only [bind, Except.bind, if_neg nonzero]
      rw [inductionHypothesis (fun member => free (List.mem_cons_of_mem _ member))
        (by rw [next]; exact stored.2) (by omega), List.length_cons]
      have place : j + 1 + UInt8.ofNat (text.length + 1) = j + UInt8.ofNat (text.length + 1 + 1) := by
        rw [Nat.add_comm (text.length + 1) 1]
        exact place_parts j 1 (text.length + 1)
      rw [place]
      simp only [Nat.add_lt_add_iff_right]

end Loops

section Tries

variable {fruBlockData : Memory} {tries : Nat → Nat → Block} {retries n : Nat}

/-- A checksum inside the FRU is the sum of its bytes. -/
theorem sumFrom_ok {i count : Nat} {cksum : UInt8} (inside : i + count ≤ 128) :
    sumFrom fruBlockData i count cksum = .ok (cksum + byteSum fruBlockData i count) := by
  induction count generalizing i cksum with
  | zero => simp [sumFrom, byteSum]
  | succ count inductionHypothesis =>
    have parts := byteSum_append fruBlockData i 1 count
    have single : byteSum fruBlockData i 1 = fruBlockData i := by simp [byteSum]
    rw [sumFrom, read_ok (by omega)]
    simp only [bind, Except.bind]
    rw [inductionHypothesis (by omega), Nat.add_comm count 1, parts, single, UInt8.add_assoc]

/-- A sum that starts inside and ends outside of the array reads outside. -/
theorem sumFrom_error {i count : Nat} {cksum : UInt8} (starts : i ≤ 128)
    (outside : 128 < i + count) :
    sumFrom fruBlockData i count cksum = .error .overflow := by
  induction count generalizing i cksum with
  | zero => omega
  | succ count inductionHypothesis =>
    rw [sumFrom]
    by_cases inside : i < 128
    · rw [read_ok inside]
      exact inductionHypothesis (by omega) (by omega)
    · rw [Buffer.read, if_neg inside]
      rfl

/-- The product area of the longest length is summed up beyond the array; the others are not. -/
theorem pLength_bounds (length : UInt8) :
    (length ≠ 10 → 72 ≤ pLength length ∧ pLength length ≤ 96) ∧ pLength 10 = 104 := by
  refine ⟨?_, by decide⟩
  intro differs
  have value : length.toNat ≠ 10 := by
    intro same
    exact differs (UInt8.toNat_inj.mp same)
  unfold pLength
  split_ifs with other
  · omega
  · rw [UInt8.lt_iff_toNat_lt, UInt8.lt_iff_toNat_lt] at other
    simp only [UInt8.reduceToNat] at other
    omega

/-- Both checksums are computed if the product area is not of the one length that leads behind
the FRU. -/
theorem checksums_ok (short : fruBlockData 25 ≠ 10) :
    ∃ cksum1 cksum2, checksums fruBlockData = .ok (cksum1, cksum2) ∧
      (cksum1 = 0 ∧ cksum2 = 0 ↔ Sums fruBlockData) := by
  obtain ⟨above, below⟩ := (pLength_bounds (fruBlockData 25)).1 short
  unfold checksums
  rw [read_ok (by omega)]
  simp only [bind, Except.bind]
  rw [sumFrom_ok (by omega), read_ok (by omega)]
  simp only
  rw [sumFrom_ok (by omega), UInt8.zero_add]
  exact ⟨_, _, rfl, Iff.rfl⟩

/-- With that length the sum reads over the end of the FRU. -/
theorem checksums_error (long : fruBlockData 25 = 10) :
    checksums fruBlockData = .error .overflow := by
  unfold checksums
  rw [read_ok (by omega), long]
  simp only [bind, Except.bind, (pLength_bounds 10).2]
  rw [sumFrom_ok (by omega), read_ok (by omega)]
  simp only
  rw [sumFrom_error (by omega) (by omega)]

/-- A FRU that cannot be read ends the try with the status. -/
theorem tryFru_status {blocks : Nat → Block} {status : Status}
    (failed : readBlocks blocks 4 = .error status) : tryFru blocks = .ok (.error status) := by
  rw [tryFru, failed]

/-- A FRU with the length that is too large makes the try read over its end. -/
theorem tryFru_long {blocks : Nat → Block} (read : readBlocks blocks 4 = .ok fruBlockData)
    (long : fruBlockData 25 = 10) : tryFru blocks = .error .overflow := by
  rw [tryFru, read]
  simp only [checksums_error long, bind, Except.bind]

/-- A FRU that can be read is right exactly if its sums are. -/
theorem tryFru_readable {blocks : Nat → Block} (readable : Readable blocks fruBlockData) :
    ∃ right, tryFru blocks = .ok (.ok (fruBlockData, right)) ∧
      (right = true ↔ Sums fruBlockData) := by
  obtain ⟨cksum1, cksum2, sums, same⟩ := checksums_ok readable.short
  refine ⟨decide (cksum1 = 0 ∧ cksum2 = 0), ?_, by rw [decide_eq_true_iff, same]⟩
  rw [tryFru, readable.read]
  simp only [sums, bind, Except.bind]
  rfl

/-- The loop from a try on, as `readFru` starts it with the first. -/
def readFrom (tries : Nat → Nat → Block) (retries n : Nat) : Checked (Except Status Memory) :=
  retryFru (fun n => tryFru (tries n)) retries n

/-- A try that is repeated. -/
theorem readFrom_again (readable : Readable (tries n) fruBlockData)
    (spoiled : ¬ Sums fruBlockData) :
    readFrom tries (retries + 1) n = readFrom tries retries (n + 1) := by
  obtain ⟨right, tried, same⟩ := tryFru_readable readable
  have wrong : ¬ right = true := fun sums => spoiled (same.mp sums)
  rw [readFrom, retryFru, tried]
  simp only
  rw [if_neg wrong, readFrom]

/-- A try whose data is taken. -/
theorem readFrom_taken (readable : Readable (tries n) fruBlockData)
    (taken : Sums fruBlockData ∨ retries = 0) :
    readFrom tries retries n = .ok (.ok fruBlockData) := by
  obtain ⟨right, tried, same⟩ := tryFru_readable readable
  cases retries with
  | zero =>
    rw [readFrom, retryFru, tried]
    rfl
  | succ retries =>
    have sums := same.mpr (taken.resolve_right (Nat.succ_ne_zero retries))
    rw [readFrom, retryFru, tried]
    simp only
    rw [if_pos sums]

/-- A read that fails ends the tries with its status. -/
theorem readFrom_status {status : Status} (failed : readBlocks (tries n) 4 = .error status) :
    readFrom tries retries n = .ok (.error status) := by
  have tried := tryFru_status failed
  cases retries with
  | zero =>
    rw [readFrom, retryFru, tried]
    rfl
  | succ retries => rw [readFrom, retryFru, tried]

/-- A try whose sums are read outside of the array. -/
theorem readFrom_long (read : readBlocks (tries n) 4 = .ok fruBlockData)
    (long : fruBlockData 25 = 10) : readFrom tries retries n = .error .overflow := by
  have tried := tryFru_long read long
  cases retries with
  | zero =>
    rw [readFrom, retryFru, tried]
    rfl
  | succ retries => rw [readFrom, retryFru, tried]

/-- The tries before one are repeated. -/
theorem readFrom_skips {count : Nat}
    (spoiled : ∀ m < count, ∃ fruBlockData,
      Readable (tries (n + m)) fruBlockData ∧ ¬ Sums fruBlockData) :
    readFrom tries (retries + count) n = readFrom tries retries (n + count) := by
  induction count generalizing n with
  | zero => rfl
  | succ count inductionHypothesis =>
    obtain ⟨fruBlockData, readable, wrong⟩ := spoiled 0 (by omega)
    rw [Nat.add_zero] at readable
    rw [← Nat.add_assoc, readFrom_again readable wrong, inductionHypothesis, Nat.add_assoc,
      Nat.add_comm 1]
    intro m below
    have later := spoiled (m + 1) (by omega)
    rw [← Nat.add_assoc, Nat.add_right_comm] at later
    exact later

/-- A try and what the reading does with it, if it ends without an access outside. -/
theorem readFrom_cases {result : Except Status Memory}
    (ended : readFrom tries retries n = .ok result) :
    (∃ status, readBlocks (tries n) 4 = .error status ∧ result = .error status) ∨
      ∃ fruBlockData, Readable (tries n) fruBlockData ∧
        ((Sums fruBlockData ∨ retries = 0) ∧ result = .ok fruBlockData ∨
          ¬ Sums fruBlockData ∧ ∃ less, retries = less + 1 ∧
            readFrom tries less (n + 1) = .ok result) := by
  cases blocks : readBlocks (tries n) 4 with
  | error status =>
    cases (readFrom_status blocks).symm.trans ended
    exact Or.inl ⟨status, rfl, rfl⟩
  | ok fruBlockData =>
    by_cases long : fruBlockData 25 = 10
    · cases (readFrom_long blocks long).symm.trans ended
    have readable : Readable (tries n) fruBlockData := ⟨blocks, long⟩
    refine Or.inr ⟨fruBlockData, readable, ?_⟩
    by_cases taken : Sums fruBlockData ∨ retries = 0
    · cases (readFrom_taken readable taken).symm.trans ended
      exact Or.inl ⟨taken, rfl⟩
    · rw [not_or] at taken
      obtain ⟨less, rfl⟩ := Nat.exists_eq_succ_of_ne_zero taken.2
      rw [readFrom_again readable taken.1] at ended
      exact Or.inr ⟨taken.1, less, rfl, ended⟩

/-- What the reading ends with, and the try that ends it. -/
theorem readFrom_ends {result : Except Status Memory}
    (ended : readFrom tries retries n = .ok result) :
    ∃ count ≤ retries, (∀ m < count, ∃ fruBlockData,
        Readable (tries (n + m)) fruBlockData ∧ ¬ Sums fruBlockData) ∧
      ((∃ status, readBlocks (tries (n + count)) 4 = .error status ∧ result = .error status) ∨
        ∃ fruBlockData, Readable (tries (n + count)) fruBlockData ∧ result = .ok fruBlockData ∧
          (Sums fruBlockData ∨ count = retries)) := by
  induction retries generalizing n with
  | zero =>
    refine ⟨0, Nat.le_refl 0, fun m below => absurd below (Nat.not_lt_zero m), ?_⟩
    rcases readFrom_cases ended with status | ⟨found, readable, taken | ⟨-, less, no, -⟩⟩
    · exact Or.inl status
    · exact Or.inr ⟨found, readable, taken.2, Or.inr rfl⟩
    · cases no
  | succ retries inductionHypothesis =>
    rcases readFrom_cases ended with status | ⟨found, readable, taken | ⟨wrong, less, same, rest⟩⟩
    · exact ⟨0, Nat.zero_le _, fun m below => absurd below (Nat.not_lt_zero m), Or.inl status⟩
    · exact ⟨0, Nat.zero_le _, fun m below => absurd below (Nat.not_lt_zero m),
        Or.inr ⟨found, readable, taken.2,
          Or.inl (taken.1.resolve_right (Nat.succ_ne_zero retries))⟩⟩
    · cases same
      obtain ⟨count, below, spoiled, last⟩ := inductionHypothesis rest
      have index : n + (count + 1) = n + 1 + count := by omega
      refine ⟨count + 1, by omega, ?_, ?_⟩
      · intro m before
        cases m with
        | zero => exact ⟨found, readable, wrong⟩
        | succ m =>
          have place : n + (m + 1) = n + 1 + m := by omega
          rw [place]
          exact spoiled m (by omega)
      · rw [index]
        rcases last with status | ⟨other, read, same, taken⟩
        · exact Or.inl status
        · exact Or.inr ⟨other, read, same, taken.imp_right (by omega)⟩

end Tries

section Strings

variable {bytes : List UInt8} {stale : UInt8} {count : Nat}

/-- What the closing zeros add to the strings. -/
theorem closing_split (stale : UInt8) :
    closing stale = (if stale = 0 then [] else [0]) ++ [0] := by
  unfold closing
  split_ifs
  · rfl
  · rfl

/-- The stored bytes with the zeros that close them are those of strings, by the bytes that they
come from. -/
theorem strings_iff :
    (∃ others, packed others ++ [0] = bytes.flatMap emit ++ closing stale ∧
      (∀ text ∈ others, text ≠ []) ∧ (∀ text ∈ others, 0 ∉ text) ∧ others.length = count) ↔
      Spaced false bytes ∧ (stale = 0 ↔ begun false bytes = false) ∧
        stringCount bytes = count := by
  have run := @closed_iff (bytes.flatMap emit ++ if stale = 0 then [] else [0]) count
  have same : ∀ others, packed others ++ [0] = bytes.flatMap emit ++ closing stale ↔
      packed others = bytes.flatMap emit ++ if stale = 0 then [] else [0] := by
    intro others
    rw [closing_split, ← List.append_assoc, List.append_left_inj]
  simp only [same]
  rw [run, closed_emitted, List.count_append, count_emitted, stringCount, and_assoc]
  apply and_congr_right
  intro _
  by_cases zero : stale = 0
  · simp only [zero, if_true, Closed, List.count_nil, true_iff]
    apply and_congr_right
    intro ended
    rw [ended]
    rfl
  · simp only [zero, if_false, Closed, List.count_singleton_self, if_true, and_true, false_iff,
      Bool.not_eq_false]
    apply and_congr_right
    intro started
    rw [started]
    rfl

end Strings

section Fill

variable {supply : PwrSupply} {tail : Memory} {tries : Nat → Nat → Block}
  {fruBlockData : Memory}

/-- The structure is its formatted area, the location and the other strings, with the two zeros.
-/
theorem PwrSupply.bytes_split (supply : PwrSupply) :
    supply.bytes =
      supply.formatted ++ (supply.location ++ 0 :: (packed supply.others ++ [0])) := by
  rw [SmbiosStructure.bytes, area, supply.first, if_neg (List.cons_ne_nil _ _), packed_cons,
    List.append_assoc, List.cons_append]

/-- The length of the structure, by its location and its other strings. -/
theorem PwrSupply.bytes_length (supply : PwrSupply) :
    supply.bytes.length = 24 + supply.location.length + (packed supply.others).length := by
  rw [supply.bytes_split]
  simp only [List.length_append, List.length_cons, List.length_nil, supply.size]
  omega

/-- The structure lies in the buffer. -/
theorem PwrSupply.stored (supply : PwrSupply) (tail : Memory) :
    Stored (supply.buffer tail) 0 supply.bytes := by
  intro i inside
  rw [PwrSupply.buffer, Nat.zero_add, memoryOf, List.getElem?_eq_getElem inside]
  rfl

/-- The location is a string: it is not empty and has no zero. -/
theorem PwrSupply.location_fits (supply : PwrSupply) :
    supply.location ≠ [] ∧ 0 ∉ supply.location := by
  have member : supply.location ∈ supply.strings := by
    rw [supply.first]
    exact List.mem_cons_self
  exact ⟨supply.filled _ member, supply.free _ member⟩

/-- The size that the caller has allocated. -/
theorem PwrSupply.allocated (supply : PwrSupply) :
    (UInt16.ofNat supply.bytes.length).toNat = supply.bytes.length := by
  have short := supply.short
  rw [UInt16.toNat_ofNat']
  exact Nat.mod_eq_of_lt short

/-- The bit for a power supply that is there. -/
theorem present_bit (word : UInt16) :
    (UInt8.ofNat (word &&& 0xFD7D).toNat).toNat.testBit 1 = false ∧
      (UInt8.ofNat (word ||| 0x0082).toNat).toNat.testBit 1 = true := by
  constructor
  · rw [UInt8.toNat_ofNat', UInt16.toNat_and, Nat.testBit_mod_two_pow, Nat.testBit_and]
    have bit : (0xFD7D : UInt16).toNat.testBit 1 = false := by decide
    rw [bit]
    simp
  · rw [UInt8.toNat_ofNat', UInt16.toNat_or, Nat.testBit_mod_two_pow, Nat.testBit_or]
    have bit : (0x0082 : UInt16).toNat.testBit 1 = true := by decide
    rw [bit]
    simp

/-- The buffer before the strings are copied. -/
structure Prepared (buffer absent filled : Memory) : Prop where
  absentElsewhere : ∀ i, i < 14 ∨ 16 ≤ i → absent i = buffer i
  numbers : Stored filled 6 [3, 2, 6, 7, 4, 5]
  elsewhere : ∀ i, i < 6 ∨ 16 ≤ i → filled i = buffer i
  present : filled 14 ≠ absent 14

/-- Before the copy the buffer is marked and its fields are filled, without a fault where it has
room. -/
theorem prepared {size : Nat} (roomy : 260 ≤ size) (buffer : Memory) :
    ∃ absent filled, markAbsent size buffer = .ok absent ∧ fillFields size absent = .ok filled ∧
      Prepared buffer absent filled := by
  obtain ⟨absent, marks, marked⟩ := @write_ok size 14 buffer
    (le16 (word16 buffer 0x0e &&& 0xFD7D).toNat) (by simp [le16]; omega)
  obtain ⟨first, one, char⟩ := @write_ok size 14 absent
    (le16 (word16 absent 0x0e ||| 0x0082).toNat) (by simp [le16]; omega)
  obtain ⟨second, two, low⟩ := @write_ok size 6 first (le16 0x0203) (by simp [le16]; omega)
  obtain ⟨filled, three, high⟩ := @write_ok size 8 second (le32 0x05040706)
    (by simp [le32]; omega)
  have lowBytes : le16 0x0203 = [3, 2] := by decide
  have highBytes : le32 0x05040706 = [6, 7, 4, 5] := by decide
  rw [lowBytes] at low
  rw [highBytes] at high
  have numbers := low.append high
  have absentByte := marked.stored 0 (by simp [le16])
  have presentByte := char.stored 0 (by simp [le16])
  refine ⟨absent, filled, marks, ?_, ?_, numbers.stored, ?_, ?_⟩
  · unfold fillFields
    rw [one]
    simp only [bind, Except.bind]
    rw [two]
    simp only
    exact three
  · exact fun i outside => marked.elsewhere i outside
  · intro i outside
    rw [numbers.elsewhere i (by simp; omega), char.elsewhere i (by simp [le16]; omega),
      marked.elsewhere i (by simp [le16]; omega)]
  · rw [numbers.elsewhere 14 (by simp)]
    intro same
    have bits := present_bit (word16 buffer 0x0e)
    have other := present_bit (word16 absent 0x0e)
    simp only [le16, List.getElem_cons_zero, Nat.add_zero] at absentByte presentByte
    rw [presentByte, absentByte] at same
    rw [same, bits.1] at other
    exact absurd other.2 (by decide)

/-- The bytes of the FRU data that are used. -/
def usedBytes (fruBlockData : Memory) : List UInt8 := used 5 (window fruBlockData 0x1c 65)

/-- Where the bytes end that are stored for them. -/
def copiedTo (supply : PwrSupply) (fruBlockData : Memory) : Nat :=
  23 + supply.location.length + room (usedBytes fruBlockData)

/-- What a call leaves that fills the data in and closes the strings by a number of zeros. If the
place has not wrapped, the buffer holds the strings. -/
structure Filled (supply : PwrSupply) (tail absent fruBlockData : Memory) (zeros : Nat)
    (updated : Updated) : Prop where
  few : zeros = 1 ∨ zeros = 2
  size : updated.updateBufferSize =
    (UInt8.ofNat (copiedTo supply fruBlockData + zeros)).toUInt16
  stale : copiedTo supply fruBlockData ≤ 255 →
    zeros = (closing (supply.buffer tail (copiedTo supply fruBlockData))).length
  stored : copiedTo supply fruBlockData + zeros ≤ 255 →
    Stored updated.updateBuffer (23 + supply.location.length)
      ((usedBytes fruBlockData).flatMap emit ++
        closing (supply.buffer tail (copiedTo supply fruBlockData)))
  elsewhere : copiedTo supply fruBlockData + zeros ≤ 255 →
    ∀ i, i < 6 ∨ 16 ≤ i ∧ i < 23 + supply.location.length →
      updated.updateBuffer i = supply.buffer tail i
  numbers : copiedTo supply fruBlockData + zeros ≤ 255 →
    Stored updated.updateBuffer 6 [3, 2, 6, 7, 4, 5]
  present : copiedTo supply fruBlockData + zeros ≤ 255 →
    updated.updateBuffer 14 ≠ absent 14

/-- A place in the buffer is one of a byte. -/
theorem ofNat_place {place : Nat} (inside : place ≤ 255) : (UInt8.ofNat place).toNat = place := by
  rw [UInt8.toNat_ofNat']
  exact Nat.mod_eq_of_lt (by omega)

/-- The copy and the zeros behind it. -/
theorem copy_closes {size start : Nat} (roomy : 260 ≤ size) (inside : start ≤ 255)
    (filled : Memory) :
    ∃ copied closed zeros,
      copyFru size fruBlockData 65 0x1c 2 (UInt8.ofNat start) filled =
        .ok (UInt8.ofNat (start + room (usedBytes fruBlockData)), copied) ∧
      closeStrings size (UInt8.ofNat (start + room (usedBytes fruBlockData))) copied =
        .ok (UInt8.ofNat (start + room (usedBytes fruBlockData) + zeros), closed) ∧
      (zeros = 1 ∨ zeros = 2) ∧
      (start + room (usedBytes fruBlockData) ≤ 255 →
        zeros = (closing (filled (start + room (usedBytes fruBlockData)))).length) ∧
      (start + room (usedBytes fruBlockData) + zeros ≤ 255 →
        Wrote filled start ((usedBytes fruBlockData).flatMap emit ++
          closing (filled (start + room (usedBytes fruBlockData)))) closed) := by
  obtain ⟨copied, copies, copiedText⟩ := @copyFru_copies size fruBlockData filled
    (UInt8.ofNat start) roomy 65 0x1c 2 (by omega) (by omega)
  rw [← UInt8.ofNat_add] at copies
  rw [ofNat_place inside] at copiedText
  obtain ⟨closed, closes, closedText⟩ := @closeStrings_closes size copied
    (UInt8.ofNat (start + room (usedBytes fruBlockData))) roomy
  rw [← UInt8.ofNat_add] at closes
  have stale : start + room (usedBytes fruBlockData) ≤ 255 →
      copied (UInt8.ofNat (start + room (usedBytes fruBlockData))).toNat =
        filled (start + room (usedBytes fruBlockData)) := by
    intro fits
    rw [ofNat_place fits]
    exact (copiedText fits).elsewhere _
      (Or.inr (by rw [flatMap_emit_length]; exact Nat.le_refl _))
  refine ⟨copied, closed, _, copies, closes, closing_length _, ?_, ?_⟩
  · exact fun fits => by rw [stale fits]
  · intro fits
    have place := ofNat_place (le_trans (Nat.le_add_right _ _) fits)
    have byte := stale (le_trans (Nat.le_add_right _ _) fits)
    rw [place] at byte closedText fits
    rw [byte] at closedText fits
    refine (copiedText (le_trans (Nat.le_add_right _ _) fits)).append ?_
    rw [flatMap_emit_length]
    exact closedText fits

/-- The walk over the location in the buffer of a call. -/
theorem bypass_location {size : Nat} {absent filled : Memory} (roomy : 260 ≤ size)
    (located : supply.location.length ≤ 231)
    (prepared : Prepared (supply.buffer tail) absent filled) (steps : Nat) :
    bypass size filled steps 23 =
      if supply.location.length - 1 < steps then
        .ok (UInt8.ofNat (23 + supply.location.length))
      else .error .outOfFuel := by
  obtain ⟨filledText, freeText⟩ := supply.location_fits
  obtain ⟨head, text, location⟩ := List.exists_cons_of_ne_nil filledText
  have length : supply.location.length = text.length + 1 := by rw [location, List.length_cons]
  have textStored : Stored filled 23 (text ++ [0]) := by
    have whole := supply.stored tail
    rw [supply.bytes_split, stored_append, supply.size, location, List.cons_append, stored_cons,
      ← List.singleton_append, ← List.append_assoc, stored_append] at whole
    intro i inside
    rw [prepared.elsewhere _ (Or.inr (by omega))]
    exact whole.2.2.1 i inside
  have passed := @bypass_text size filled 23 roomy text
    (fun member => freeText (location ▸ List.mem_cons_of_mem _ member)) textStored
    (by simp; omega) steps
  have begins : (23 : UInt8) + UInt8.ofNat (text.length + 1) =
      UInt8.ofNat (23 + supply.location.length) := by
    rw [length]
    exact (UInt8.ofNat_add 23 _).symm
  have less : supply.location.length - 1 = text.length := by omega
  rw [passed, begins, less]

/-- The call that fills data in. -/
theorem smBiosType39Update_fills (located : supply.location.length ≤ 231)
    (taken : readFru tries = .ok (.ok fruBlockData)) :
    ∃ absent zeros updated,
      markAbsent (supply.bytes.length + 0x100) (supply.buffer tail) = .ok absent ∧
      Filled supply tail absent fruBlockData zeros updated ∧
      ∀ steps, smBiosType39Update tries steps (supply.buffer tail)
          (UInt16.ofNat supply.bytes.length) =
        if supply.location.length - 1 < steps then .ok updated else .error .outOfFuel := by
  have long := supply.bytes_length
  obtain ⟨absent, filled, marks, fields, prepared⟩ :=
    @prepared (supply.bytes.length + 0x100) (by omega) (supply.buffer tail)
  obtain ⟨copied, closed, zeros, copies, closes, few, stale, inside⟩ :=
    @copy_closes fruBlockData (supply.bytes.length + 0x100) (23 + supply.location.length)
      (by omega) (by omega) filled
  obtain ⟨finished, ends, power⟩ := @write_ok (supply.bytes.length + 0x100) 0x0c closed
    [fruBlockData 0x5d, fruBlockData 0x5e] (by simp)
  have low : ∀ i, i < 12 ∨ 14 ≤ i → finished i = closed i := power.elsewhere
  rw [prepared.elsewhere _ (Or.inr (by omega))] at stale inside
  refine ⟨absent, zeros, ⟨efiSuccess, finished, _⟩, marks, ⟨few, rfl, ?_, ?_, ?_, ?_, ?_⟩, ?_⟩
  · exact stale
  · intro fits i below
    exact (low _ (by omega)).trans ((inside fits).stored i below)
  · intro fits i outside
    exact (low i (by omega)).trans (((inside fits).elsewhere i (Or.inl (by omega))).trans
      (prepared.elsewhere i (by omega)))
  · intro fits i below
    have small : i < 6 := below
    exact (low _ (by omega)).trans (((inside fits).elsewhere _ (Or.inl (by omega))).trans
      (prepared.numbers i below))
  · intro fits
    have byte : finished 14 = filled 14 :=
      (low 14 (by omega)).trans ((inside fits).elsewhere 14 (Or.inl (by omega)))
    exact fun same => prepared.present (byte.symm.trans same)
  · intro steps
    rw [smBiosType39Update, supply.allocated]
    simp only [bind, Except.bind]
    rw [marks]
    simp only
    rw [taken]
    simp only
    rw [fields]
    simp only
    rw [bypass_location (by omega) located prepared steps]
    split_ifs
    · simp only
      rw [copies]
      simp only
      rw [closes]
      simp only
      rw [read_ok (by omega), read_ok (by omega)]
      simp only
      rw [ends]
      rfl
    · rfl

/-- A call whose reading ends with a status leaves the structure but for the two bits. -/
theorem smBiosType39Update_status {status : Status}
    (failed : readFru tries = .ok (.error status)) (steps : Nat) :
    ∃ absent, markAbsent (supply.bytes.length + 0x100) (supply.buffer tail) = .ok absent ∧
      (∀ i, i < 14 ∨ 16 ≤ i → absent i = supply.buffer tail i) ∧
      smBiosType39Update tries steps (supply.buffer tail) (UInt16.ofNat supply.bytes.length) =
        .ok ⟨status, absent, UInt16.ofNat supply.bytes.length⟩ := by
  have long := supply.bytes_length
  obtain ⟨absent, filled, marks, fields, prepared⟩ :=
    @prepared (supply.bytes.length + 0x100) (by omega) (supply.buffer tail)
  refine ⟨absent, marks, prepared.absentElsewhere, ?_⟩
  rw [smBiosType39Update, supply.allocated]
  simp only [bind, Except.bind]
  rw [marks]
  simp only
  rw [failed]
  rfl

end Fill

section Produced

variable {supply : PwrSupply} {tail buffer : Memory}

/-- A structure from the formatted bytes of a buffer and its strings. -/
theorem produces {others : List (List UInt8)} (formatted : buffer 1 = 22)
    (filled : ∀ text ∈ others, text ≠ []) (free : ∀ text ∈ others, 0 ∉ text)
    (numbered : ∀ field, 6 ≤ field → field < 12 → (buffer field).toNat ≤ others.length + 1)
    (stored : Stored buffer 22 (supply.location ++ 0 :: (packed others ++ [0])))
    {size : UInt16} (ends : size.toNat = 24 + supply.location.length + (packed others).length) :
    ∃ produced : PwrSupply, produced.Fills buffer size ∧
      produced.location = supply.location := by
  have length : (bytesOf buffer 22).length = 22 := by simp [bytesOf]
  have field : ∀ i < 22, (bytesOf buffer 22).getD i 0 = buffer i := by
    intro i below
    simp [bytesOf, List.getD_eq_getElem?_getD, below]
  obtain ⟨filledText, freeText⟩ := supply.location_fits
  have areaIs : area (supply.location :: others) =
      supply.location ++ 0 :: (packed others ++ [0]) := by
    rw [area, if_neg (List.cons_ne_nil _ _), packed_cons, List.append_assoc, List.cons_append]
  have whole : (bytesOf buffer 22 ++ area (supply.location :: others)).length = size.toNat := by
    rw [areaIs, List.length_append, length, ends]
    simp only [List.length_append, List.length_cons, List.length_nil]
    omega
  refine ⟨{
    formatted := bytesOf buffer 22
    strings := supply.location :: others
    header := by omega
    sized := by rw [length, field 1 (by omega), formatted]; rfl
    filled := ?_
    free := ?_
    short := by rw [whole]; exact UInt16.toNat_lt size
    size := length
    location := supply.location
    others := others
    first := rfl
    numbered := ?_ }, ⟨?_, whole.symm⟩, rfl⟩
  · intro text member
    rcases List.mem_cons.mp member with rfl | member
    · exact filledText
    · exact filled text member
  · intro text member
    rcases List.mem_cons.mp member with rfl | member
    · exact freeText
    · exact free text member
  · intro i above below
    rw [field i (by omega)]
    exact numbered i above below
  · simp only [SmbiosStructure.bytes]
    rw [stored_append, length, areaIs]
    refine ⟨?_, stored⟩
    intro i inside
    rw [Nat.zero_add]
    simp [bytesOf]

/-- The zeros that close the strings, by the byte that is behind them. -/
theorem closing_begun {stale : UInt8} {started : Bool} (same : stale = 0 ↔ started = false) :
    (closing stale).length = if started then 2 else 1 := by
  unfold closing
  by_cases zero : stale = 0
  · rw [if_pos zero, same.mp zero]
    rfl
  · have begins : started = true := by
      rw [← Bool.not_eq_false]
      exact fun ended => zero (same.mpr ended)
    rw [if_neg zero, begins]
    rfl

/-- The place has wrapped if the size that is returned has no room for the location. -/
theorem Filled.fits {absent fruBlockData : Memory} {zeros : Nat} {updated : Updated}
    (located : supply.location.length ≤ 231)
    (fills : Filled supply tail absent fruBlockData zeros updated)
    (large : 24 + supply.location.length ≤ updated.updateBufferSize.toNat) :
    copiedTo supply fruBlockData + zeros ≤ 255 := by
  have bound : room (usedBytes fruBlockData) ≤ 65 + 18 :=
    room_used 5 (window fruBlockData 0x1c 65)
  have few := fills.few
  rw [fills.size, UInt8.toNat_toUInt16, UInt8.toNat_ofNat'] at large
  unfold copiedTo at large ⊢
  omega

/-- The condition on what is copied, by the bytes of the FRU that are used. -/
theorem fillable_used {fruBlockData : Memory} :
    Fillable supply tail fruBlockData ↔ Spaced false (usedBytes fruBlockData) ∧
      6 ≤ stringCount (usedBytes fruBlockData) ∧
      (supply.buffer tail (copiedTo supply fruBlockData) = 0 ↔
        begun false (usedBytes fruBlockData) = false) ∧
      copiedTo supply fruBlockData + (if begun false (usedBytes fruBlockData) then 2 else 1) ≤
        255 :=
  Iff.rfl

/-- If the buffer of a call holds a structure with the location, what was copied is a sequence of
strings that is closed inside the buffer, and there are six of them at least, since the seventh
string is numbered. -/
theorem fillable_of_fills {absent fruBlockData : Memory} {zeros : Nat} {updated : Updated}
    (located : supply.location.length ≤ 231)
    (fills : Filled supply tail absent fruBlockData zeros updated) {produced : PwrSupply}
    (holds : produced.Fills updated.updateBuffer updated.updateBufferSize)
    (same : produced.location = supply.location) : Fillable supply tail fruBlockData := by
  rw [fillable_used]
  obtain ⟨stored, size⟩ := holds
  have length := produced.bytes_length
  rw [same] at length
  have fits := fills.fits located (by omega)
  have total : updated.updateBufferSize.toNat = copiedTo supply fruBlockData + zeros := by
    rw [fills.size, UInt8.toNat_toUInt16, ofNat_place fits]
  have closes := fills.stale (by omega)
  rw [produced.bytes_split, stored_append, same, stored_append, stored_cons] at stored
  obtain ⟨formatted, -, -, strings⟩ := stored
  have place : 0 + produced.formatted.length + supply.location.length + 1 =
      23 + supply.location.length := by
    rw [produced.size]
    omega
  rw [place] at strings
  have text := stored_unique strings (fills.stored fits) (by
    rw [List.length_append, List.length_append, flatMap_emit_length, ← closes,
      List.length_singleton]
    unfold copiedTo at total
    omega)
  obtain ⟨spaced, stale, count⟩ := strings_iff.mp ⟨produced.others, text,
    fun piece member => produced.filled piece
      (produced.first ▸ List.mem_cons_of_mem _ member),
    fun piece member => produced.free piece
      (produced.first ▸ List.mem_cons_of_mem _ member), rfl⟩
  refine ⟨spaced, ?_, stale, ?_⟩
  · have seven : produced.formatted.getD 9 0 = 7 := by
      have below : 9 < produced.formatted.length := by rw [produced.size]; omega
      rw [List.getD_eq_getElem _ _ below, ← formatted 9 below]
      exact fills.numbers fits 3 (by simp)
    have number := produced.numbered 9 (by omega) (by omega)
    rw [seven, produced.first, List.length_cons] at number
    have six : 6 ≤ produced.others.length := Nat.le_of_succ_le_succ number
    exact count ▸ six
  · rw [← closing_begun stale, ← closes]
    exact fits

/-- The location and the zero behind it stand where the supply has them: the call writes in
front of them and behind. -/
theorem location_kept {absent fruBlockData : Memory} {zeros : Nat} {updated : Updated}
    (fills : Filled supply tail absent fruBlockData zeros updated)
    (inside : copiedTo supply fruBlockData + zeros ≤ 255) :
    Stored updated.updateBuffer 22 supply.location ∧
      updated.updateBuffer (22 + supply.location.length) = 0 := by
  have formatted := supply.stored tail
  rw [supply.bytes_split, stored_append, stored_append] at formatted
  constructor
  · intro i below
    rw [fills.elsewhere inside _ (Or.inr (by omega))]
    have place := formatted.2.1 i below
    rw [supply.size] at place
    exact place
  · have zero := (stored_cons.mp formatted.2.2).1
    rw [supply.size, Nat.zero_add] at zero
    rw [fills.elsewhere inside _ (Or.inr (by omega))]
    exact zero

/-- If what was copied is a sequence of six strings or more that is closed inside the buffer,
the buffer holds a structure with the location. -/
theorem fills_of_fillable {absent fruBlockData : Memory} {zeros : Nat} {updated : Updated}
    (fills : Filled supply tail absent fruBlockData zeros updated)
    (fillable : Fillable supply tail fruBlockData) :
    ∃ produced : PwrSupply, produced.Fills updated.updateBuffer updated.updateBufferSize ∧
      produced.location = supply.location := by
  obtain ⟨spaced, many, stale, fits⟩ := fillable_used.mp fillable
  rw [← closing_begun stale] at fits
  have closes := fills.stale (le_trans (Nat.le_add_right _ _) fits)
  have inside : copiedTo supply fruBlockData + zeros ≤ 255 := by
    rw [closes]
    exact fits
  obtain ⟨others, text, filled, free, count⟩ := strings_iff.mpr ⟨spaced, stale, rfl⟩
  have formatted := supply.stored tail
  rw [supply.bytes_split, stored_append, stored_append] at formatted
  have strings := fills.stored inside
  rw [← text] at strings
  have length : copiedTo supply fruBlockData + zeros =
      24 + supply.location.length + (packed others).length := by
    have sizes := congrArg List.length text
    rw [List.length_append, List.length_append, flatMap_emit_length, ← closes,
      List.length_singleton] at sizes
    unfold copiedTo
    omega
  obtain ⟨location, ended⟩ := location_kept fills inside
  refine @produces supply updated.updateBuffer others ?_ filled free ?_ ?_ _ ?_
  · have below : 1 < supply.formatted.length := by rw [supply.size]; omega
    have second := formatted.1 1 below
    rw [fills.elsewhere inside 1 (Or.inl (by omega))]
    apply UInt8.toNat_inj.mp
    have sized := supply.sized
    rw [List.getD_eq_getElem _ _ below, ← second, supply.size] at sized
    exact sized.symm
  · intro field above below
    have numbers := fills.numbers inside (field - 6) (by simp; omega)
    have place : 6 + (field - 6) = field := by omega
    rw [place] at numbers
    have bounds : ∀ number ∈ ([3, 2, 6, 7, 4, 5] : List UInt8), number.toNat ≤ 7 := by simp
    rw [numbers]
    exact le_trans (bounds _ (List.getElem_mem _)) (by omega)
  · rw [stored_append]
    refine ⟨location, stored_cons.mpr ⟨ended, ?_⟩⟩
    have place : 22 + supply.location.length + 1 = 23 + supply.location.length := by omega
    rw [place]
    exact strings
  · rw [fills.size, UInt8.toNat_toUInt16, ofNat_place inside, length]

/-- The structure that is produced, by what the buffer of a call holds. -/
theorem fillable_iff {absent fruBlockData : Memory} {zeros : Nat} {updated : Updated}
    (located : supply.location.length ≤ 231)
    (fills : Filled supply tail absent fruBlockData zeros updated) :
    (∃ produced : PwrSupply, produced.Fills updated.updateBuffer updated.updateBufferSize ∧
      produced.location = supply.location) ↔ Fillable supply tail fruBlockData := by
  constructor
  · rintro ⟨produced, holds, same⟩
    exact fillable_of_fills located fills holds same
  · exact fills_of_fillable fills

end Produced

section Result

variable {supply : PwrSupply} {tail : Memory} {tries : Nat → Nat → Block}

/-- A call that ends has read the FRU data. -/
theorem read_of_updated {steps : Nat} {updated : Updated}
    (ran : smBiosType39Update tries steps (supply.buffer tail)
      (UInt16.ofNat supply.bytes.length) = .ok updated) :
    ∃ result, readFru tries = .ok result ∧
      (∀ fruBlockData, result = .ok fruBlockData → updated.updateBufferSize.toNat ≤ 255) := by
  obtain ⟨absent, -, ran⟩ := Checked.bind_ok ran
  obtain ⟨result, read, ran⟩ := Checked.bind_ok ran
  refine ⟨result, read, ?_⟩
  rintro fruBlockData rfl
  obtain ⟨filled, -, ran⟩ := Checked.bind_ok ran
  obtain ⟨j, -, ran⟩ := Checked.bind_ok ran
  obtain ⟨copied, -, ran⟩ := Checked.bind_ok ran
  obtain ⟨closed, -, ran⟩ := Checked.bind_ok ran
  obtain ⟨low, -, ran⟩ := Checked.bind_ok ran
  obtain ⟨high, -, ran⟩ := Checked.bind_ok ran
  obtain ⟨finished, -, ran⟩ := Checked.bind_ok ran
  cases ran
  have below := UInt8.toNat_lt closed.1
  rw [UInt8.toNat_toUInt16]
  omega

/-- A structure that is left but for its two bits is one. -/
theorem produces_same {absent : Memory}
    (elsewhere : ∀ i, i < 14 ∨ 16 ≤ i → absent i = supply.buffer tail i) :
    ∃ produced : PwrSupply, produced.Fills absent (UInt16.ofNat supply.bytes.length) ∧
      produced.location = supply.location := by
  have stored := supply.stored tail
  rw [supply.bytes_split, stored_append, Nat.zero_add, supply.size] at stored
  have field : ∀ i < 22, supply.buffer tail i = supply.formatted.getD i 0 := by
    intro i below
    have inside : i < supply.formatted.length := by rw [supply.size]; exact below
    have byte := stored.1 i inside
    rw [Nat.zero_add] at byte
    rw [byte, List.getD_eq_getElem _ _ inside]
  have members : ∀ text ∈ supply.others, text ∈ supply.strings := by
    intro text member
    rw [supply.first]
    exact List.mem_cons_of_mem _ member
  refine @produces supply absent supply.others ?_
    (fun text member => supply.filled text (members text member))
    (fun text member => supply.free text (members text member)) ?_ ?_ _ ?_
  · rw [elsewhere 1 (by omega), field 1 (by omega)]
    apply UInt8.toNat_inj.mp
    rw [← supply.sized, supply.size]
    rfl
  · intro i above below
    have number := supply.numbered i above below
    rw [supply.first, List.length_cons] at number
    rw [elsewhere i (by omega), field i (by omega)]
    exact number
  · intro i inside
    rw [elsewhere _ (by omega)]
    exact stored.2 i inside
  · rw [supply.allocated, supply.bytes_length]

/-- The call is right if and only if one of the tries ends the reading in a way that can be used. The
answers of the FRU are arbitrary, block by block, with a status for each; the buffer holds anything
behind the structure. -/
theorem produces_iff_answered : Lawful supply tail tries ↔ Answered supply tail tries := by
  constructor
  · rintro ⟨steps, updated, ran, produced, spoiled⟩
    obtain ⟨result, read, small⟩ := read_of_updated ran
    obtain ⟨n, below, before, last⟩ := @readFrom_ends tries 5 0 result read
    simp only [Nat.zero_add] at before last
    refine ⟨n, below, before, ?_⟩
    rcases last with ⟨status, failed, -⟩ | ⟨fruBlockData, readable, same, taken⟩
    · exact Or.inl ⟨status, failed⟩
    have large : 24 + supply.location.length ≤ updated.updateBufferSize.toNat := by
      obtain ⟨found, ⟨-, size⟩, location⟩ := produced
      have length := found.bytes_length
      rw [location] at length
      omega
    have located : supply.location.length ≤ 231 := by
      have bound := small fruBlockData same
      omega
    obtain ⟨absent, zeros, filled, marks, fills, runs⟩ :=
      @smBiosType39Update_fills supply tail tries fruBlockData located (by rw [read, same])
    rw [runs] at ran
    split_ifs at ran
    cases ran
    refine Or.inr ⟨fruBlockData, readable, ?_, (fillable_iff located fills).mp produced⟩
    by_contra wrong
    have six := taken.resolve_left wrong
    obtain ⟨-, left⟩ := spoiled (by
      intro m inside
      rcases Nat.lt_or_eq_of_le (six ▸ inside) with early | rfl
      · obtain ⟨other, read, bad⟩ := before m early
        exact ⟨other, read.read, bad⟩
      · exact ⟨fruBlockData, readable.read, wrong⟩)
    rw [supply.allocated, marks] at left
    cases left
    exact fills.present (fills.fits located large) rfl
  · rintro ⟨n, below, before, last⟩
    have skips := @readFrom_skips tries (5 - n) 0 n (by simpa using before)
    rw [Nat.sub_add_cancel below, Nat.zero_add] at skips
    rcases last with ⟨status, failed⟩ | ⟨fruBlockData, readable, sums, fillable⟩
    · obtain ⟨absent, marks, elsewhere, ran⟩ := @smBiosType39Update_status supply tail tries status
        (skips.trans (readFrom_status failed)) 0
      refine ⟨0, _, ran, produces_same elsewhere, ?_⟩
      intro spoiled
      obtain ⟨other, read, -⟩ := spoiled n below
      cases read.symm.trans failed
    · have located : supply.location.length ≤ 231 := by
        have fits := (fillable_used.mp fillable).2.2.2
        unfold copiedTo at fits
        split_ifs at fits
        · omega
        · omega
      obtain ⟨absent, zeros, filled, marks, fills, runs⟩ :=
        @smBiosType39Update_fills supply tail tries fruBlockData located
          (skips.trans (readFrom_taken readable (Or.inl sums)))
      refine ⟨supply.location.length, filled, ?_, (fillable_iff located fills).mpr fillable, ?_⟩
      · have positive := List.length_pos_of_ne_nil supply.location_fits.1
        rw [runs, if_pos (by omega)]
      · intro spoiled
        obtain ⟨other, read, wrong⟩ := spoiled n below
        cases read.symm.trans readable.read
        exact absurd sums wrong

/-- A structure with a location of one character and no other string. -/
def shortSupply : PwrSupply where
  formatted := [39, 22, 0, 0, 1, 1, 0, 0, 0, 0, 0, 0, 0, 0, 0, 0, 0, 0, 0, 0, 0, 0]
  strings := [[0x50]]
  header := by decide
  sized := by decide
  filled := by simp
  free := by simp
  short := by decide
  size := by decide
  location := [0x50]
  others := []
  first := rfl
  numbered := by
    intro field above below
    interval_cases field <;> decide

/-- FRU data with a product area of 80 bytes. -/
def longArea : Nat → Nat → Block := fun _ i =>
  ⟨efiSuccess, fun place => if i = 0 ∧ place = 25 then 10 else 0⟩

/-- The longest product area is summed up beyond the array. -/
theorem not_every_supply : ¬ ∀ supply tail tries, Lawful supply tail tries := by
  intro lawful
  obtain ⟨steps, updated, ran, -⟩ := lawful shortSupply (fun _ => 0) longArea
  obtain ⟨result, read, -⟩ := read_of_updated ran
  obtain ⟨fruBlockData, blocks, long⟩ : ∃ fruBlockData,
      readBlocks (longArea 0) 4 = .ok fruBlockData ∧ fruBlockData 25 = 10 := ⟨_, rfl, rfl⟩
  cases (@readFrom_long fruBlockData longArea 5 0 blocks long).symm.trans read

end Result

end SmcPkg.PowerSupply
