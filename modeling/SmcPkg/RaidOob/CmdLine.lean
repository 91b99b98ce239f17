import SmcPkg.RaidOob.CmdGrammar

/-!
# Parsing a line that can be read as clauses

Each clause parser searches the whole line for its key. On a line with a
`Reading` the search stops at the first clause of the key's kind: a key has a
colon in second place, and neither a filler nor a clause body contains one. What
remains is the parser's own loop on a well-formed body, and an induction over the
group clauses.

The unit of a size is the exception. It is searched in everything behind the
digits, so a later `TB` wins over the `GB` of the clause itself.
-/

namespace SmcPkg.CmdLine

open CString RaidCmd CmdGrammar

/-- A digit differs from every character that is not one. -/
theorem digit_ne {c d : UInt8} (digit : isDigit c = true) (other : isDigit d = false) : c ≠ d := by
  intro same
  rw [same, other] at digit
  exact Bool.false_ne_true digit

/-- The characters that may stand in a clause body besides digits. -/
def bodyLetters : List UInt8 := ascii [',', '.', 'B', 'D', 'O', 'T', 'G', 'U', 'M']

/-- The characters of a size are digits and points. -/
theorem size_chars (size : SizeText) (c : UInt8) (member : c ∈ size.chars) :
    isDigit c = true ∨ c = char8 '.' := by
  rcases List.mem_append.mp member with inside | inside
  · exact Or.inl (size.wholeWritten.2 c inside)
  · cases fraction : size.fraction with
    | none => simp [fraction] at inside
    | some digits =>
      simp only [fraction, Option.map_some, Option.getD_some] at inside
      rcases List.mem_cons.mp inside with rfl | inside
      · exact Or.inr rfl
      · exact Or.inl ((size.fractionWritten digits fraction).2 c inside)

/-- A clause body consists of digits and body letters. -/
theorem body_chars (clause : Clause) (c : UInt8) (member : c ∈ clause.body) :
    isDigit c = true ∨ c ∈ bodyLetters := by
  have numeralChars (numeral : Numeral) (inside : c ∈ numeral.digits) :
      isDigit c = true ∨ c ∈ bodyLetters := Or.inl (numeral.written.2 c inside)
  cases clause with
  | specie letter =>
    have code : c = letter.code := by simpa [Clause.body] using member
    subst code
    right
    cases letter <;> decide
  | group first others =>
    rcases List.mem_append.mp member with inside | inside
    · exact numeralChars first inside
    · obtain ⟨numeral, -, inside⟩ := List.mem_flatMap.mp inside
      rcases List.mem_cons.mp inside with rfl | inside
      · exact Or.inr (by decide)
      · exact numeralChars numeral inside
  | size number unit =>
    rcases List.mem_append.mp member with inside | inside
    · rcases size_chars number c inside with digit | rfl
      · exact Or.inl digit
      · exact Or.inr (by decide)
    · have letters : ∀ c ∈ unit.text, c ∈ bodyLetters :=
        forall_mem_of_all (by cases unit <;> decide)
      exact Or.inr (letters c inside)
  | level numeral => exact numeralChars numeral member
  | jbod action =>
    have code : c = action.code := by simpa [Clause.body] using member
    subst code
    right
    cases action <;> decide

/-- Characters that are neither digits nor body letters are absent from bodies. -/
theorem absent_from_body (clause : Clause) {c : UInt8} (notDigit : isDigit c = false)
    (notLetter : c ∉ bodyLetters) : c ∉ clause.body := by
  intro member
  rcases body_chars clause c member with digit | letter
  · exact digit_ne digit notDigit rfl
  · exact notLetter letter

section Search

/-- A line from a piece on: the filler, the key, the body and what follows. -/
theorem tailText_cons (piece : Piece) (pieces : List Piece) (last : List UInt8) :
    tailText (piece :: pieces) last =
      piece.lead ++ (clauseKey piece.clause.kind.letter ++
        (piece.clause.body ++ char8 ']' :: tailText pieces last)) := by
  simp [tailText, Piece.text, Clause.text]

/-- A search for another kind's key passes over a whole clause. -/
theorem strstr_other_clause (kind : Kind) (clause : Clause) (different : clause.kind ≠ kind)
    (rest : List UInt8) :
    strstr (clauseKey clause.kind.letter ++ (clause.body ++ char8 ']' :: rest))
        (clauseKey kind.letter) = strstr rest (clauseKey kind.letter) := by
  have letters : char8 clause.kind.letter ≠ char8 kind.letter := by
    revert different
    generalize clause.kind = own
    cases own <;> cases kind <;> decide
  have colon : char8 ':' ≠ char8 kind.letter := by cases kind <;> decide
  have openBracket : char8 '[' ≠ char8 kind.letter := by cases kind <;> decide
  have closeBracket : char8 ']' ≠ char8 kind.letter := by cases kind <;> decide
  have noColon : char8 ':' ∉ clause.body := absent_from_body clause (by decide) (by decide)
  change strstr (char8 clause.kind.letter :: char8 ':' :: char8 '[' ::
      (clause.body ++ char8 ']' :: rest)) (char8 kind.letter :: char8 ':' :: [char8 '[']) = _
  rw [strstr_skip_char letters, strstr_skip_char colon, strstr_skip_char openBracket,
    strstr_skip_run noColon _ _ (by simp; decide), strstr_skip_char closeBracket]
  rfl

/-- A search for a key passes over a filler. -/
theorem strstr_filler (kind : Kind) {filler : List UInt8} (isFiller : Filler filler)
    (rest : List UInt8) (next : rest.head? ≠ some (char8 ':')) :
    strstr (filler ++ rest) (clauseKey kind.letter) = strstr rest (clauseKey kind.letter) :=
  strstr_skip_run isFiller.1 _ _ next

/-- What the search for a kind's key yields in a line from some piece on: nothing
when no clause has the kind, and otherwise the body, the bracket and the
remaining pieces of the first clause that has it. -/
inductive Found (kind : Kind) (pieces : List Piece) (last line : List UInt8) : Prop
  | absent (missed : afterKey kind.letter line = none)
      (none : ofKind kind (pieces.map Piece.clause) = [])
  | first (before later : List Piece) (piece : Piece) (split : pieces = before ++ piece :: later)
      (hit : afterKey kind.letter line =
        some (piece.clause.body ++ char8 ']' :: tailText later last))
      (sameKind : piece.clause.kind = kind)
      (clauses : ofKind kind (pieces.map Piece.clause) =
        piece.clause :: ofKind kind (later.map Piece.clause))

/-- The search passes over fillers and clauses of other kinds. -/
theorem found_tailText (kind : Kind) (pieces : List Piece) {last : List UInt8}
    (lastFiller : Filler last) : Found kind pieces last (tailText pieces last) := by
  induction pieces with
  | nil =>
    have passed : strstr (tailText [] last) (clauseKey kind.letter) =
        strstr [char8 '}'] (clauseKey kind.letter) :=
      strstr_filler kind lastFiller [char8 '}'] (by decide)
    have missed : strstr [char8 '}'] (clauseKey kind.letter) = [] := by cases kind <;> decide
    exact .absent (by simp only [afterKey, passed, missed]) rfl
  | cons piece pieces inductionHypothesis =>
    have letterFirst : ((clauseKey piece.clause.kind.letter) ++ (piece.clause.body ++
        char8 ']' :: tailText pieces last)).head? ≠ some (char8 ':') := by
      generalize piece.clause.kind = own
      cases own <;> simp [clauseKey, ascii] <;> decide
    have passed : strstr (tailText (piece :: pieces) last) (clauseKey kind.letter) =
        strstr (clauseKey piece.clause.kind.letter ++ (piece.clause.body ++
          char8 ']' :: tailText pieces last)) (clauseKey kind.letter) := by
      rw [tailText_cons]
      exact strstr_filler kind piece.filler _ letterFirst
    by_cases same : piece.clause.kind = kind
    · have found : strstr (tailText (piece :: pieces) last) (clauseKey kind.letter) =
          clauseKey kind.letter ++ (piece.clause.body ++ char8 ']' :: tailText pieces last) := by
        rw [passed, same]
        exact strstr_here _ _ (by simp [clauseKey, ascii])
      exact .first [] pieces piece rfl (by rw [afterKey, found]; rfl) same (by simp [ofKind, same])
    · have onward : afterKey kind.letter (tailText (piece :: pieces) last) =
          afterKey kind.letter (tailText pieces last) := by
        simp only [afterKey, passed, strstr_other_clause kind piece.clause same]
      have skipped : ofKind kind ((piece :: pieces).map Piece.clause) =
          ofKind kind (pieces.map Piece.clause) := by
        simp [ofKind, same]
      cases inductionHypothesis with
      | absent missed none => exact .absent (onward.trans missed) (skipped.trans none)
      | first before later found split hit sameKind clauses =>
        exact .first (piece :: before) later found (by rw [split]; rfl) (onward.trans hit)
          sameKind (skipped.trans clauses)

/-- The opening brace, or the closing bracket of a group, is stepped over. -/
theorem found_lead (kind : Kind) (pieces : List Piece) {last : List UInt8}
    (lastFiller : Filler last) {lead : UInt8} (different : lead ≠ char8 kind.letter) :
    Found kind pieces last (lead :: tailText pieces last) := by
  have skip : strstr (lead :: tailText pieces last) (clauseKey kind.letter) =
      strstr (tailText pieces last) (clauseKey kind.letter) := strstr_skip_char different _ _
  have onward : afterKey kind.letter (lead :: tailText pieces last) =
      afterKey kind.letter (tailText pieces last) := by
    simp only [afterKey, skip]
  cases found_tailText kind pieces lastFiller with
  | absent missed none => exact .absent (onward.trans missed) none
  | first before later piece split hit sameKind clauses =>
    exact .first before later piece split (onward.trans hit) sameKind clauses

/-- What a clause parser finds in a whole line. -/
theorem found_line (kind : Kind) (reading : Reading) :
    Found kind reading.pieces reading.last reading.line :=
  found_lead kind reading.pieces reading.lastFiller (by cases kind <;> decide)

end Search

section Numbers

/-- Before and after each digit the number read so far is below the limit. -/
theorem digit_step {value : Nat} {c : UInt8} {digits : List UInt8}
    (below : decimalFrom value (c :: digits) < 0xFF) :
    (if value = 0xFFFF then 0 else value) * 10 + digitValue c = value * 10 + digitValue c ∧
      ¬ value * 10 + digitValue c ≥ 0x0FF := by
  have grows : value * 10 + digitValue c ≤ decimalFrom value (c :: digits) :=
    le_decimalFrom (value * 10 + digitValue c) digits
  have started : value ≠ 0xFFFF := by omega
  rw [if_neg started]
  exact ⟨rfl, by omega⟩

/-- The level parser's loop reads a digit string to its end. -/
theorem readNumber_digits (digits rest : List UInt8) (value : Nat)
    (areDigits : ∀ c ∈ digits, isDigit c = true) (below : decimalFrom value digits < 0xFF)
    {stop : UInt8} (isStop : isDigit stop = false) :
    readNumber value (digits ++ stop :: rest) = some (decimalFrom value digits, stop :: rest) := by
  induction digits generalizing value with
  | nil => simp [readNumber, isStop, decimalFrom]
  | cons c digits inductionHypothesis =>
    obtain ⟨next, small⟩ := digit_step below
    have digit : isDigit c = true := areDigits c List.mem_cons_self
    rw [List.cons_append, readNumber, if_pos digit]
    simp only [next, if_neg small]
    exact inductionHypothesis (value * 10 + digitValue c)
      (fun d member => areDigits d (List.mem_cons_of_mem c member)) below

/-- The marker for "no digit yet" counts as zero at the first digit. -/
theorem readNumber_numeral (numeral : Numeral) (rest : List UInt8) {stop : UInt8}
    (isStop : isDigit stop = false) :
    readNumber 0xFFFF (numeral.digits ++ stop :: rest) = some (numeral.value, stop :: rest) := by
  obtain ⟨digits, ⟨nonempty, areDigits⟩, below⟩ := numeral
  cases digits with
  | nil => exact absurd rfl nonempty
  | cons c digits =>
    have digit : isDigit c = true := areDigits c List.mem_cons_self
    have restart : readNumber 0xFFFF (c :: digits ++ stop :: rest) =
        readNumber 0 (c :: digits ++ stop :: rest) := by
      simp [readNumber, digit]
    exact restart.trans (readNumber_digits (c :: digits) rest 0 areDigits below isStop)

/-- The group parser's loop reads a digit string to its end. -/
theorem readGroup_digits (digits rest : List UInt8) (value : Nat) (numbers : List Nat)
    (areDigits : ∀ c ∈ digits, isDigit c = true) (below : decimalFrom value digits < 0xFF) :
    readGroup value numbers (digits ++ rest) = readGroup (decimalFrom value digits) numbers rest := by
  induction digits generalizing value with
  | nil => rfl
  | cons c digits inductionHypothesis =>
    obtain ⟨next, small⟩ := digit_step below
    have digit : isDigit c = true := areDigits c List.mem_cons_self
    rw [List.cons_append, readGroup, if_pos digit]
    simp only [next, if_neg small]
    exact inductionHypothesis (value * 10 + digitValue c)
      (fun d member => areDigits d (List.mem_cons_of_mem c member)) below

/-- One number of a group. -/
theorem readGroup_numeral (numeral : Numeral) (rest : List UInt8) (numbers : List Nat) :
    readGroup 0xFFFF numbers (numeral.digits ++ rest) = readGroup numeral.value numbers rest := by
  obtain ⟨digits, ⟨nonempty, areDigits⟩, below⟩ := numeral
  cases digits with
  | nil => exact absurd rfl nonempty
  | cons c digits =>
    have digit : isDigit c = true := areDigits c List.mem_cons_self
    have restart : readGroup 0xFFFF numbers (c :: digits ++ rest) =
        readGroup 0 numbers (c :: digits ++ rest) := by
      simp [readGroup, digit]
    exact restart.trans (readGroup_digits (c :: digits) rest 0 numbers areDigits below)

/-- A number that was read is stored while the array has room. -/
theorem recordHdd_numeral (numeral : Numeral) (numbers : List Nat)
    (room : numbers.length < raidHddCapacity) :
    recordHdd numeral.value numbers = .ok (numbers ++ [numeral.value]) := by
  have read : numeral.value ≠ 0xFFFF := by
    have below : numeral.value < 0xFF := numeral.below
    omega
  rw [recordHdd, if_neg read, if_neg (by omega)]

/-- A group body is read number by number up to its bracket. -/
theorem readGroup_body (others : List Numeral) (first : Numeral) (numbers : List Nat)
    (rest : List UInt8) (room : numbers.length + others.length < raidHddCapacity) :
    readGroup 0xFFFF numbers (first.digits ++ (moreNumbers others ++ char8 ']' :: rest)) =
      .ok (some (numbers ++ (first :: others).map Numeral.value, char8 ']' :: rest)) := by
  induction others generalizing first numbers with
  | nil =>
    have stored := recordHdd_numeral first numbers (by simpa using room)
    have bracket : isDigit (char8 ']') = false := by decide
    have noComma : char8 ']' ≠ char8 ',' := by decide
    rw [readGroup_numeral]
    simp only [moreNumbers, List.flatMap_nil, List.nil_append, readGroup, bracket,
      Bool.false_eq_true, if_false, noComma, if_true, stored]
    rfl
  | cons second others inductionHypothesis =>
    simp only [List.length_cons] at room
    have stored := recordHdd_numeral first numbers (by omega)
    have comma : isDigit (char8 ',') = false := by decide
    have tail := inductionHypothesis second (numbers ++ [first.value]) (by simp; omega)
    rw [readGroup_numeral]
    simp only [moreNumbers, List.flatMap_cons, List.cons_append, List.append_assoc, readGroup,
      comma, Bool.false_eq_true, if_false, if_true, stored]
    simp only [moreNumbers] at tail
    change readGroup 0xFFFF (numbers ++ [first.value]) _ = _
    rw [tail]
    simp

end Numbers

section Clauses

/-- The command clause of a line is its first one. -/
theorem parseCmdSpecie_line (reading : Reading) :
    parseCmdSpecie reading.line = (ofKind .specie reading.clauses).head?.map Clause.toSection := by
  rw [Reading.clauses]
  cases found_line .specie reading with
  | absent missed absent =>
    change afterKey 'C' reading.line = none at missed
    rw [absent, parseCmdSpecie, parseCode, missed]
    rfl
  | first before later piece split hit sameKind clauses =>
    rw [clauses]
    cases clause : piece.clause with
    | specie letter =>
      rw [clause] at hit
      change afterKey 'C' reading.line = some (letter.code :: char8 ']' :: _) at hit
      rw [parseCmdSpecie, parseCode, hit]
      cases letter <;> rfl
    | _ => simp [clause, Clause.kind] at sameKind

/-- The JBOD clause of a line is its first one. -/
theorem parseCmdRaidJbod_line (reading : Reading) :
    parseCmdRaidJbod reading.line = (ofKind .jbod reading.clauses).head?.map Clause.toSection := by
  rw [Reading.clauses]
  cases found_line .jbod reading with
  | absent missed absent =>
    change afterKey 'J' reading.line = none at missed
    rw [absent, parseCmdRaidJbod, parseCode, missed]
    rfl
  | first before later piece split hit sameKind clauses =>
    rw [clauses]
    cases clause : piece.clause with
    | jbod action =>
      rw [clause] at hit
      change afterKey 'J' reading.line = some (action.code :: char8 ']' :: _) at hit
      rw [parseCmdRaidJbod, parseCode, hit]
      cases action <;> rfl
    | _ => simp [clause, Clause.kind] at sameKind

/-- The level clause of a line is its first one. -/
theorem parseCmdRaidType_line (reading : Reading) :
    parseCmdRaidType reading.line = (ofKind .level reading.clauses).head?.map Clause.toSection := by
  rw [Reading.clauses]
  cases found_line .level reading with
  | absent missed absent =>
    change afterKey 'R' reading.line = none at missed
    rw [absent, parseCmdRaidType, missed]
    rfl
  | first before later piece split hit sameKind clauses =>
    rw [clauses]
    cases clause : piece.clause with
    | level numeral =>
      rw [clause] at hit
      change afterKey 'R' reading.line = some (numeral.digits ++ char8 ']' :: _) at hit
      have bracket : isDigit (char8 ']') = false := by decide
      have read := readNumber_numeral numeral (tailText later reading.last) bracket
      have below : numeral.value < 0xFF := numeral.below
      have started : numeral.value ≠ 0xFFFF := by omega
      simp [parseCmdRaidType, hit, read, started, Clause.toSection]
    | _ => simp [clause, Clause.kind] at sameKind

/-- The group loop takes every group of a line in order, given a round and room in
the number array for each. -/
theorem parseCmdGroupLoop_tailText (rounds : Nat) (pieces : List Piece) {lead : UInt8}
    {last : List UInt8} (lastFiller : Filler last) (different : lead ≠ char8 'G')
    (enough : (ofKind .group (pieces.map Piece.clause)).length ≤ rounds)
    (room : ∀ piece ∈ pieces, piece.clause.numbers.length ≤ raidHddCapacity) :
    parseCmdGroupLoop rounds (lead :: tailText pieces last) =
      .ok ((ofKind .group (pieces.map Piece.clause)).map Clause.toSection) := by
  induction rounds generalizing pieces lead with
  | zero =>
    have absent : ofKind .group (pieces.map Piece.clause) = [] :=
      List.eq_nil_of_length_eq_zero (Nat.le_zero.mp enough)
    rw [absent]
    rfl
  | succ rounds inductionHypothesis =>
    cases found_lead .group pieces lastFiller different with
    | absent missed absent =>
      change afterKey 'G' _ = none at missed
      simp only [absent, parseCmdGroupLoop, parseCmdGroupSub, missed]
      rfl
    | first before later piece split hit sameKind clauses =>
      rw [clauses] at enough ⊢
      cases clause : piece.clause with
      | group first others =>
        have inside : piece ∈ pieces := by rw [split]; simp
        have fits : ([] : List Nat).length + others.length < raidHddCapacity := by
          have bound := room piece inside
          simp only [clause, Clause.numbers, List.length_map, List.length_cons] at bound
          simp only [List.length_nil]
          omega
        have body := readGroup_body others first [] (tailText later last) fits
        have rest := inductionHypothesis later (by decide : char8 ']' ≠ char8 'G')
          (by simpa using enough)
          (fun other member => room other (by rw [split]; simp [member]))
        simp only [clause, Clause.body, List.append_assoc] at hit
        change afterKey 'G' _ = _ at hit
        simp only [parseCmdGroupLoop, parseCmdGroupSub, hit, body]
        change (do
          let following ← parseCmdGroupLoop rounds (char8 ']' :: tailText later last)
          Except.ok (_ :: following)) = _
        rw [rest]
        simp [Clause.toSection, Function.comp_def, bind, Except.bind]
      | _ => simp [clause, Clause.kind] at sameKind

end Clauses

section Size

/-- A run of digits is copied while the array has room. -/
theorem copySize_digits (digits rest copied : List UInt8) (aPoint : Bool)
    (areDigits : ∀ c ∈ digits, isDigit c = true)
    (room : copied.length + digits.length < raidSizeCapacity) :
    copySize aPoint copied (digits ++ rest) = copySize aPoint (copied ++ digits) rest := by
  induction digits generalizing copied with
  | nil => simp
  | cons c digits inductionHypothesis =>
    have digit : isDigit c = true := areDigits c List.mem_cons_self
    have noPoint : c ≠ char8 '.' := digit_ne digit (by decide)
    simp only [List.length_cons] at room
    have small : ¬ copied.length ≥ raidSizeCapacity := by omega
    have tail := inductionHypothesis (copied ++ [c])
      (fun d member => areDigits d (List.mem_cons_of_mem c member)) (by simp; omega)
    simp only [List.cons_append, copySize, digit, noPoint, true_or, if_true, false_and, if_false,
      small, decide_false, Bool.or_false]
    rw [tail, List.append_assoc, List.singleton_append]

/-- The copy loop copies a size and stops in front of its unit. -/
theorem copySize_size (size : SizeText) (rest : List UInt8) {stop : UInt8}
    (notDigit : isDigit stop = false) (notPoint : stop ≠ char8 '.') :
    copySize false [] (size.chars ++ stop :: rest) = .ok (some (size.chars, stop :: rest)) := by
  have stops (aPoint : Bool) (copied : List UInt8) :
      copySize aPoint copied (stop :: rest) = .ok (some (copied, stop :: rest)) := by
    simp [copySize, notDigit, notPoint]
  have short : size.chars.length < raidSizeCapacity := size.short
  rw [SizeText.chars] at short ⊢
  cases fraction : size.fraction with
  | none =>
    simp only [fraction, Option.map_none, Option.getD_none, List.append_nil] at short ⊢
    rw [copySize_digits size.whole _ [] false size.wholeWritten.2 (by simpa using short)]
    exact stops false size.whole
  | some digits =>
    simp only [fraction, Option.map_some, Option.getD_some, List.length_append,
      List.length_cons] at short
    simp only [Option.map_some, Option.getD_some, List.append_assoc, List.cons_append]
    have small : ¬ size.whole.length ≥ raidSizeCapacity := by omega
    have point : copySize false size.whole (char8 '.' :: (digits ++ stop :: rest)) =
        copySize true (size.whole ++ [char8 '.']) (digits ++ stop :: rest) := by
      simp [copySize, small]
    have further := copySize_digits digits (stop :: rest) (size.whole ++ [char8 '.']) true
      (size.fractionWritten digits fraction).2 (by simp; omega)
    rw [copySize_digits size.whole _ [] false size.wholeWritten.2 (by simp; omega),
      List.nil_append, point, further, stops]
    simp

/-- The unit the parser takes: a `TB` anywhere behind the digits comes first. -/
def takenUnit (unit : SizeUnit) (behind : List UInt8) : SizeUnit :=
  if ascii ['T', 'B'] <:+: behind then .tb else unit

/-- The unit search on a clause with a unit. -/
theorem searchRaidSizeType_unit (unit : SizeUnit) (behind : List UInt8) :
    searchRaidSizeType (unit.text ++ char8 ']' :: behind) =
      ((takenUnit unit behind).denote, (takenUnit unit behind).text) := by
  have found (other : SizeUnit) (rest : List UInt8) :
      strstr (other.text ++ rest) other.text ≠ [] := by
    rw [strstr_here _ _ (by cases other <;> decide)]
    cases other <;> simp [SizeUnit.text, ascii]
  cases unit with
  | tb =>
    have hit := found .tb (char8 ']' :: behind)
    have taken : takenUnit .tb behind = .tb := by simp [takenUnit]
    rw [taken]
    simp only [SizeUnit.text] at hit
    simp [searchRaidSizeType, smcRaidSizeTypeMap, SizeUnit.text, SizeUnit.denote, hit]
  | gb =>
    have hit := found .gb (char8 ']' :: behind)
    have passed : strstr (SizeUnit.gb.text ++ char8 ']' :: behind) (ascii ['T', 'B']) =
        strstr behind (ascii ['T', 'B']) := by
      change strstr ([char8 'G', char8 'B', char8 ']'] ++ behind) (char8 'T' :: [char8 'B']) = _
      exact strstr_skip_absent (by decide) _ _
    have occurs := strstr_eq_nil_iff (by decide : ascii ['T', 'B'] ≠ []) behind
    rw [← passed] at occurs
    simp only [SizeUnit.text] at hit occurs
    by_cases later : ascii ['T', 'B'] <:+: behind
    · have first : strstr (ascii ['G', 'B'] ++ char8 ']' :: behind) (ascii ['T', 'B']) ≠ [] := by
        intro empty
        exact occurs.mp empty later
      simp [searchRaidSizeType, smcRaidSizeTypeMap, SizeUnit.text, SizeUnit.denote, first,
        takenUnit, later]
    · have absent := occurs.mpr later
      simp [searchRaidSizeType, smcRaidSizeTypeMap, SizeUnit.text, SizeUnit.denote, absent, hit,
        takenUnit, later]

/-- A size clause is parsed to its number and the unit taken. -/
theorem parseCmdRaidSize_body (line behind : List UInt8) (number : SizeText) (unit : SizeUnit)
    (hit : afterKey 'S' line = some ((Clause.size number unit).body ++ char8 ']' :: behind)) :
    parseCmdRaidSize line = .ok (some (.size (takenUnit unit behind).denote number.chars)) := by
  obtain ⟨letter, second, text, notDigit, notPoint⟩ : ∃ letter second, unit.text = [letter, second] ∧
      isDigit letter = false ∧ letter ≠ char8 '.' := by
    cases unit
    · exact ⟨char8 'T', char8 'B', rfl, by decide, by decide⟩
    · exact ⟨char8 'G', char8 'B', rfl, by decide, by decide⟩
  have copied := copySize_size number (second :: char8 ']' :: behind) notDigit notPoint
  have leading : ((number.chars ++ letter :: second :: char8 ']' :: behind).head?.map
      isDigit).getD false = true := by
    rw [SizeText.chars]
    cases whole : number.whole with
    | nil => exact absurd whole number.wholeWritten.1
    | cons c rest =>
      have digit : isDigit c = true := number.wholeWritten.2 c (by rw [whole]; exact List.mem_cons_self)
      simp [digit]
  have searched := searchRaidSizeType_unit unit behind
  rw [text] at searched
  simp only [List.cons_append, List.nil_append] at searched
  have known : (takenUnit unit behind).denote ≠ .non := by cases takenUnit unit behind <;> decide
  have width : (takenUnit unit behind).text.length = 2 := by
    cases takenUnit unit behind <;> decide
  simp only [Clause.body, text, List.append_assoc, List.cons_append, List.nil_append] at hit
  simp only [parseCmdRaidSize, hit, leading, if_true, copied]
  change (if (searchRaidSizeType (letter :: second :: char8 ']' :: behind)).1 = .non then _
    else _) = _
  rw [searched]
  simp [known, width]

/-- The size clause of a line is its first one, with the unit taken. -/
theorem parseCmdRaidSize_line (reading : Reading) :
    (ofKind .size reading.clauses = [] ∧ parseCmdRaidSize reading.line = .ok none) ∨
      ∃ before later piece number unit, reading.pieces = before ++ piece :: later ∧
        piece.clause = .size number unit ∧
        ofKind .size reading.clauses =
          piece.clause :: ofKind .size (later.map Piece.clause) ∧
        parseCmdRaidSize reading.line =
          .ok (some (.size (takenUnit unit (tailText later reading.last)).denote number.chars)) := by
  rw [Reading.clauses]
  cases found_line .size reading with
  | absent missed absent =>
    change afterKey 'S' reading.line = none at missed
    exact Or.inl ⟨absent, by simp [parseCmdRaidSize, missed]⟩
  | first before later piece split hit sameKind clauses =>
    cases clause : piece.clause with
    | size number unit =>
      rw [clause] at hit
      refine Or.inr ⟨before, later, piece, number, unit, split, clause, clause ▸ clauses, ?_⟩
      exact parseCmdRaidSize_body _ _ number unit hit
    | _ => simp [clause, Clause.kind] at sameKind

end Size

section Whole

/-- Every number of a group costs at least two characters. -/
theorem numbers_length (clause : Clause) : clause.numbers.length * 2 ≤ clause.text.length := by
  have written (numeral : Numeral) : 0 < numeral.digits.length :=
    List.length_pos_iff.mpr numeral.written.1
  cases clause with
  | group first others =>
    have commas : others.length * 2 ≤ (moreNumbers others).length := by
      induction others with
      | nil => exact Nat.zero_le _
      | cons second others inductionHypothesis =>
        have digits := written second
        simp only [moreNumbers, List.flatMap_cons, List.length_append, List.length_cons] at *
        omega
    simp only [Clause.numbers, Clause.text, Clause.body, clauseKey, ascii, List.length_map,
      List.length_cons, List.length_append]
    omega
  | level numeral =>
    have digits := written numeral
    simp only [Clause.numbers, Clause.text, Clause.body, clauseKey, ascii, List.length_map,
      List.length_cons, List.length_append, List.length_nil]
    omega
  | _ => simp [Clause.numbers]

/-- A piece is no longer than the line it stands in. -/
theorem piece_length (pieces : List Piece) (last : List UInt8) (piece : Piece)
    (member : piece ∈ pieces) : piece.clause.text.length ≤ (tailText pieces last).length := by
  have inside : piece.text.length ≤ (pieces.flatMap Piece.text).length := by
    obtain ⟨before, later, rfl⟩ := List.append_of_mem member
    simp only [List.flatMap_append, List.flatMap_cons, List.length_append]
    omega
  simp only [tailText, List.length_append, Piece.text] at inside ⊢
  omega

/-- A line has at least as many characters as pieces. -/
theorem pieces_length (pieces : List Piece) (last : List UInt8) :
    pieces.length ≤ (tailText pieces last).length := by
  induction pieces with
  | nil => exact Nat.zero_le _
  | cons piece pieces inductionHypothesis =>
    rw [tailText_cons]
    simp only [List.length_append, List.length_cons] at *
    omega

/-- `ParseCmdGroup` takes every group of a line that fits the command buffer. -/
theorem parseCmdGroup_line (reading : Reading) (short : reading.line.length < cmdStringSize) :
    parseCmdGroup reading.line = .ok ((ofKind .group reading.clauses).map Clause.toSection) := by
  simp only [Reading.line, List.length_cons, cmdStringSize] at short
  refine parseCmdGroupLoop_tailText _ reading.pieces reading.lastFiller (by decide) ?_ ?_
  · have filtered : (ofKind .group (reading.pieces.map Piece.clause)).length ≤
        reading.pieces.length := by
      simpa [ofKind] using List.length_filter_le (fun clause => decide (Clause.kind clause = .group))
        (reading.pieces.map Piece.clause)
    have pieces := pieces_length reading.pieces reading.last
    simp only [Reading.line, List.length_cons]
    omega
  · intro piece member
    have numbers := numbers_length piece.clause
    have text := piece_length reading.pieces reading.last piece member
    simp only [raidHddCapacity]
    omega

/-- One step of the normaliser ends it, drops the character or keeps it. -/
theorem deleteUselessChar_cons (c : UInt8) (rest line : List UInt8) (leftPar leftBra : Bool)
    (kept : deleteUselessChar leftPar leftBra (c :: rest) = some line) :
    line = [c] ∨ ∃ leftPar leftBra shorter, deleteUselessChar leftPar leftBra rest = some shorter ∧
      (line = shorter ∨ line = c :: shorter) := by
  have keeps (par bra : Bool) (result : (deleteUselessChar par bra rest).map (c :: ·) = some line) :
      line = [c] ∨ ∃ leftPar leftBra shorter,
        deleteUselessChar leftPar leftBra rest = some shorter ∧
          (line = shorter ∨ line = c :: shorter) := by
    obtain ⟨shorter, same, rfl⟩ := Option.map_eq_some_iff.mp result
    exact Or.inr ⟨par, bra, shorter, same, Or.inr rfl⟩
  rw [deleteUselessChar] at kept
  split_ifs at kept
  · exact Or.inr ⟨leftPar, leftBra, line, kept, Or.inl rfl⟩
  · exact keeps _ _ kept
  · exact Or.inl (Option.some.inj kept).symm
  · exact keeps _ _ kept
  · exact keeps _ _ kept
  · exact keeps _ _ kept
  · exact Or.inr ⟨leftPar, leftBra, line, kept, Or.inl rfl⟩

/-- The normaliser never lengthens its input. -/
theorem deleteUselessChar_length (text line : List UInt8) (leftPar leftBra : Bool)
    (kept : deleteUselessChar leftPar leftBra text = some line) : line.length ≤ text.length := by
  induction text generalizing leftPar leftBra line with
  | nil => exact absurd kept (by simp [deleteUselessChar])
  | cons c rest inductionHypothesis =>
    rcases deleteUselessChar_cons c rest line leftPar leftBra kept with
      rfl | ⟨par, bra, shorter, same, rfl | rfl⟩
    · simp
    · exact Nat.le_succ_of_le (inductionHypothesis _ _ _ same)
    · exact Nat.succ_le_succ (inductionHypothesis _ _ _ same)

/-- A normalised line fits the command buffer with its terminator. -/
theorem reConstructTheCmdLine_length (written : List UInt16) (line : List UInt8)
    (normal : reConstructTheCmdLine written = some line) : line.length < cmdStringSize := by
  rw [reConstructTheCmdLine] at normal
  split at normal
  · exact absurd normal (by simp)
  · rename_i fits
    have kept := deleteUselessChar_length _ _ _ _ normal
    have narrowed : (unicodeStrToAsciiStr written).length ≤ written.length := by
      simpa [unicodeStrToAsciiStr] using
        (List.takeWhile_sublist (· ≠ (0 : UInt8)) (l := written.map UInt16.toUInt8)).length_le
    rw [List.length_map] at kept
    omega

/-- What `AnalysisAndParseCmdString` makes of a line with a reading: the first
command, all groups, and the first size, level and JBOD action. -/
theorem analysis_reading (written : List UInt16) (reading : Reading)
    (normal : reConstructTheCmdLine written = some reading.line) :
    ∃ size, parseCmdRaidSize reading.line = .ok size ∧
      analysisAndParseCmdString written =
        .ok ((ofKind .specie reading.clauses).head?.map (fun specie =>
          [specie.toSection] ++ (ofKind .group reading.clauses).map Clause.toSection ++
            size.toList ++ ((ofKind .level reading.clauses).head?.map Clause.toSection).toList ++
            ((ofKind .jbod reading.clauses).head?.map Clause.toSection).toList)) := by
  have short := reConstructTheCmdLine_length written reading.line normal
  obtain ⟨size, parsed⟩ : ∃ size, parseCmdRaidSize reading.line = .ok size := by
    rcases parseCmdRaidSize_line reading with ⟨-, parsed⟩ | ⟨_, _, _, _, _, -, -, -, parsed⟩
    · exact ⟨_, parsed⟩
    · exact ⟨_, parsed⟩
  refine ⟨size, parsed, ?_⟩
  rw [analysisAndParseCmdString, normal]
  simp only [parseCmdSpecie_line, parseCmdGroup_line reading short, parsed,
    parseCmdRaidType_line, parseCmdRaidJbod_line]
  cases (ofKind .specie reading.clauses).head? with
  | none => rfl
  | some specie => rfl

/-- One command, and at most one size, level and JBOD action. -/
structure WellCounted (clauses : List Clause) : Prop where
  specie : (ofKind .specie clauses).length = 1
  size : (ofKind .size clauses).length ≤ 1
  level : (ofKind .level clauses).length ≤ 1
  jbod : (ofKind .jbod clauses).length ≤ 1

/-- No `TB` occurs in the line behind a size in `GB`. -/
def UnitsClear (reading : Reading) : Prop :=
  ∀ before piece later number, reading.pieces = before ++ piece :: later →
    piece.clause = .size number .gb → ¬ ascii ['T', 'B'] <:+: tailText later reading.last

/-- The sections of a clause sequence, kind by kind. -/
theorem sections_eq (clauses : List Clause) :
    sections clauses = (ofKind .specie clauses).map Clause.toSection ++
      (ofKind .group clauses).map Clause.toSection ++ (ofKind .size clauses).map Clause.toSection ++
      (ofKind .level clauses).map Clause.toSection ++
      (ofKind .jbod clauses).map Clause.toSection := by
  simp [sections]

/-- A list of at most one element is its head. -/
theorem head_toList {α β : Type} (f : α → β) (items : List α) (single : items.length ≤ 1) :
    (items.head?.map f).toList = items.map f := by
  cases items with
  | nil => rfl
  | cons item items =>
    have empty : items = [] := List.eq_nil_of_length_eq_zero (by simpa using single)
    rw [empty]
    rfl

/-- A line of well-counted clauses is parsed into exactly their sections. -/
theorem analysis_sections (written : List UInt16) (reading : Reading)
    (normal : reConstructTheCmdLine written = some reading.line)
    (counted : WellCounted reading.clauses) (clear : UnitsClear reading) :
    analysisAndParseCmdString written = .ok (some (sections reading.clauses)) := by
  obtain ⟨size, parsed, analysed⟩ := analysis_reading written reading normal
  have sized : size.toList = (ofKind .size reading.clauses).map Clause.toSection := by
    rcases parseCmdRaidSize_line reading with
      ⟨absent, none⟩ | ⟨before, later, piece, number, unit, split, clause, clauses, taken⟩
    · rw [parsed] at none
      rw [Except.ok.inj none, absent]
      rfl
    · have single := counted.size
      rw [clauses] at single
      have alone : ofKind .size (later.map Piece.clause) = [] :=
        List.eq_nil_of_length_eq_zero (by simpa using single)
      have own : takenUnit unit (tailText later reading.last) = unit := by
        cases unit with
        | tb => simp [takenUnit]
        | gb => exact if_neg (clear before piece later number split clause)
      rw [parsed] at taken
      rw [Except.ok.inj taken, clauses, alone, clause, own]
      rfl
  obtain ⟨specie, one⟩ := List.length_eq_one_iff.mp counted.specie
  rw [analysed, sized, head_toList _ _ counted.level, head_toList _ _ counted.jbod, sections_eq, one]
  rfl

end Whole

end SmcPkg.CmdLine
