import SmcPkg.RaidOob.CmdLine

/-!
# Writing a command and parsing it back

A command may be written with its clauses in any order that keeps the groups in
order, with blanks anywhere, in either letter case and inside arbitrary other
text. The normaliser undoes all of this: it meets the writer at the canonical
line, on which the clause parsers are already known.

Text before the opening brace is narrowed to bytes like the rest. A character
whose low byte is zero ends the string there, and one whose low byte is a brace
counts as that brace, so both have to be absent from it.
-/

namespace SmcPkg.CmdRoundTrip

open CString RaidCmd CmdGrammar CmdLine

/-- The characters between space and the lower-case letters. All canonical text
lies in this range: blanks, lower-case letters, braces and the terminator do not. -/
def Printed (c : UInt8) : Prop := 0x20 < c.toNat ∧ c.toNat < 0x61

/-- Digits are printed characters. -/
theorem printed_digit {c : UInt8} (digit : isDigit c = true) : Printed c := by
  have range : char8 '0' ≤ c ∧ c ≤ char8 '9' := by
    simpa only [isDigit, Bool.and_eq_true, decide_eq_true_eq] using digit
  have lower : 0x30 ≤ c.toNat := UInt8.le_iff_toNat_le.mp range.1
  have upper : c.toNat ≤ 0x39 := UInt8.le_iff_toNat_le.mp range.2
  exact ⟨by omega, by omega⟩

/-- Canonical text is printed. -/
theorem printed_clause (clause : Clause) (c : UInt8) (member : c ∈ clause.text) : Printed c := by
  simp only [Clause.text, List.mem_append, List.mem_singleton] at member
  rcases member with (key | inside) | rfl
  · have keys : ∀ c ∈ clauseKey clause.kind.letter, Printed c := by
      generalize clause.kind = kind
      simp only [Printed]
      exact forall_mem_of_all (by cases kind <;> decide)
    exact keys c key
  · rcases body_chars clause c inside with digit | letter
    · exact printed_digit digit
    · have letters : ∀ c ∈ bodyLetters, Printed c := by
        simp only [Printed]
        exact forall_mem_of_all (by decide)
      exact letters c letter
  · simp only [Printed]; decide

/-- The narrowed, upper-case form of a wide text. -/
def folded (written : List UInt16) : List UInt8 :=
  written.map (fun c => upperAscii c.toUInt8)

section Characters

/-- Upper-casing keeps a printed character. -/
theorem upperAscii_printed {c : UInt8} (printed : Printed c) : upperAscii c = c := by
  have notLower : ¬ (char8 'a' ≤ c ∧ c ≤ char8 'z') := by
    intro range
    have lower : 0x61 ≤ c.toNat := UInt8.le_iff_toNat_le.mp range.1
    have below := printed.2
    omega
  rw [upperAscii, if_neg notLower]

/-- The lower-case form of a letter folds to the letter. -/
theorem upperAscii_lower {canonical : UInt8} (lower : char8 'A' ≤ canonical)
    (upper : canonical ≤ char8 'Z') : upperAscii (canonical + 0x20) = canonical := by
  have fromA : 0x41 ≤ canonical.toNat := UInt8.le_iff_toNat_le.mp lower
  have toZ : canonical.toNat ≤ 0x5A := UInt8.le_iff_toNat_le.mp upper
  have sum : (canonical + 0x20).toNat = canonical.toNat + 0x20 := by
    rw [UInt8.toNat_add]
    simp
    omega
  have range : char8 'a' ≤ canonical + 0x20 ∧ canonical + 0x20 ≤ char8 'z' := by
    constructor
    · rw [UInt8.le_iff_toNat_le, sum]
      change 0x61 ≤ _
      omega
    · rw [UInt8.le_iff_toNat_le, sum]
      change _ ≤ 0x7A
      omega
  rw [upperAscii, if_pos range]
  exact UInt8.add_sub_cancel canonical 0x20

/-- A written character folds to the canonical one it spells. -/
theorem folded_char {c : UInt16} {canonical : UInt8} (printed : Printed canonical)
    (same : SpellsChar c canonical) : upperAscii c.toUInt8 = canonical ∧ c.toUInt8 ≠ 0 := by
  have folds : upperAscii c.toUInt8 = canonical := by
    rcases same with rfl | ⟨lower, upper, rfl⟩
    · rw [UInt8.toUInt8_toUInt16]
      exact upperAscii_printed printed
    · rw [UInt16.toUInt8_add, UInt8.toUInt8_toUInt16]
      exact upperAscii_lower lower upper
  refine ⟨folds, ?_⟩
  intro zero
  rw [zero] at folds
  rw [← folds] at printed
  exact absurd printed.1 (by decide)

/-- Folding creates no brace. -/
theorem upperAscii_brace {c brace : UInt8} (isBrace : brace = char8 '{' ∨ brace = char8 '}')
    (different : c ≠ brace) : upperAscii c ≠ brace := by
  rw [upperAscii]
  split
  · rename_i range
    have lower : 0x61 ≤ c.toNat := UInt8.le_iff_toNat_le.mp range.1
    have upper : c.toNat ≤ 0x7A := UInt8.le_iff_toNat_le.mp range.2
    have difference : (c - 0x20).toNat = c.toNat - 0x20 := by
      rw [UInt8.toNat_sub_of_le _ _ (UInt8.le_iff_toNat_le.mpr (by change 0x20 ≤ _; omega))]
      rfl
    intro same
    have code : c.toNat - 0x20 = brace.toNat := by rw [← difference, same]
    rcases isBrace with rfl | rfl
    · change _ = 0x7B at code
      omega
    · change _ = 0x7D at code
      omega
  · exact different

end Characters

section Normaliser

/-- The normaliser keeps printed text that has no bracket, inside the braces. -/
theorem deleteUselessChar_text (text rest : List UInt8) (leftBra : Bool)
    (printed : ∀ c ∈ text, Printed c) (noOpen : char8 '[' ∉ text) (noClose : char8 ']' ∉ text) :
    deleteUselessChar true leftBra (text ++ rest) =
      (deleteUselessChar true leftBra rest).map (text ++ ·) := by
  induction text with
  | nil => simp
  | cons c text inductionHypothesis =>
    simp only [List.mem_cons, not_or, forall_eq_or_imp] at printed noOpen noClose
    obtain ⟨inRange, printedTail⟩ := printed
    have notBlank : ¬ (c = char8 ' ' ∨ c = char8 '\t') := by
      rintro (rfl | rfl)
      · exact absurd inRange.1 (by decide)
      · exact absurd inRange.1 (by decide)
    have notLeft : c ≠ char8 '{' := by
      rintro rfl
      exact absurd inRange.2 (by decide)
    have notRight : c ≠ char8 '}' := by
      rintro rfl
      exact absurd inRange.2 (by decide)
    rw [List.cons_append, deleteUselessChar, if_neg notBlank, if_neg notLeft, if_neg notRight,
      if_pos rfl, if_neg (Ne.symm noOpen.1), if_neg (Ne.symm noClose.1),
      inductionHypothesis printedTail noOpen.2 noClose.2, Option.map_map]
    rfl

/-- The normaliser keeps a whole clause. -/
theorem deleteUselessChar_clause (clause : Clause) (rest : List UInt8) :
    deleteUselessChar true false (clause.text ++ rest) =
      (deleteUselessChar true false rest).map (clause.text ++ ·) := by
  have bodyOpen : char8 '[' ∉ clause.body := absent_from_body clause (by decide) (by decide)
  have bodyClose : char8 ']' ∉ clause.body := absent_from_body clause (by decide) (by decide)
  have printedBody : ∀ c ∈ clause.body, Printed c := by
    intro c member
    exact printed_clause clause c (by simp [Clause.text, member])
  have printedKey : ∀ c ∈ [char8 clause.kind.letter, char8 ':'], Printed c := by
    generalize clause.kind = kind
    simp only [Printed]
    exact forall_mem_of_all (by cases kind <;> decide)
  have keyOpen : char8 '[' ∉ [char8 clause.kind.letter, char8 ':'] := by
    generalize clause.kind = kind
    cases kind <;> decide
  have keyClose : char8 ']' ∉ [char8 clause.kind.letter, char8 ':'] := by
    generalize clause.kind = kind
    cases kind <;> decide
  have opened (text : List UInt8) : deleteUselessChar true false (char8 '[' :: text) =
      (deleteUselessChar true true text).map (char8 '[' :: ·) := rfl
  have closed (text : List UInt8) : deleteUselessChar true true (char8 ']' :: text) =
      (deleteUselessChar true false text).map (char8 ']' :: ·) := rfl
  have spelled : clause.text ++ rest = [char8 clause.kind.letter, char8 ':'] ++
      (char8 '[' :: (clause.body ++ (char8 ']' :: rest))) := by
    simp [Clause.text, clauseKey, ascii]
  rw [spelled, deleteUselessChar_text _ _ _ printedKey keyOpen keyClose, opened,
    deleteUselessChar_text _ _ _ printedBody bodyOpen bodyClose, closed]
  simp only [Option.map_map]
  congr 1
  funext kept
  simp [Clause.text, clauseKey, ascii]

/-- The normaliser keeps canonical text up to the closing brace and ends there. -/
theorem deleteUselessChar_clauses (clauses : List Clause) (rest : List UInt8) :
    deleteUselessChar true false (clausesText clauses ++ char8 '}' :: rest) =
      some (clausesText clauses ++ [char8 '}']) := by
  induction clauses with
  | nil => rfl
  | cons clause clauses inductionHypothesis =>
    have split : clausesText (clause :: clauses) = clause.text ++ clausesText clauses := by
      simp [clausesText]
    rw [split, List.append_assoc, deleteUselessChar_clause, inductionHypothesis]
    simp

/-- Blanks and letter case make no difference to the normaliser. -/
theorem deleteUselessChar_spelled {written : List UInt16} {canonical : List UInt8}
    (spelled : Spells written canonical) (printed : ∀ c ∈ canonical, Printed c)
    (leftPar leftBra : Bool) (rest : List UInt8) :
    deleteUselessChar leftPar leftBra (folded written ++ rest) =
      deleteUselessChar leftPar leftBra (canonical ++ rest) := by
  induction spelled generalizing leftPar leftBra with
  | done => rfl
  | blank c written canonical isBlank tail inductionHypothesis =>
    have blank : upperAscii c.toUInt8 = char8 ' ' ∨ upperAscii c.toUInt8 = char8 '\t' := by
      rcases isBlank with rfl | rfl
      · exact Or.inl (by decide)
      · exact Or.inr (by decide)
    simp only [folded, List.map_cons, List.cons_append, deleteUselessChar, if_pos blank]
    exact inductionHypothesis printed leftPar leftBra
  | char c expected written canonical same tail inductionHypothesis =>
    have folds := (folded_char (printed expected List.mem_cons_self) same).1
    have further := inductionHypothesis
      (fun d member => printed d (List.mem_cons_of_mem expected member))
    simp only [folded] at further
    simp only [folded, List.map_cons, List.cons_append, folds, deleteUselessChar, further]

/-- Text before the opening brace is dropped. -/
theorem deleteUselessChar_before (text rest : List UInt8) (leftBra : Bool)
    (noLeft : char8 '{' ∉ text) (noRight : char8 '}' ∉ text) :
    deleteUselessChar false leftBra (text ++ rest) = deleteUselessChar false leftBra rest := by
  induction text with
  | nil => rfl
  | cons c text inductionHypothesis =>
    simp only [List.mem_cons, not_or] at noLeft noRight
    rw [List.cons_append, deleteUselessChar, if_neg (Ne.symm noLeft.1), if_neg (Ne.symm noRight.1),
      inductionHypothesis noLeft.2 noRight.2]
    simp

/-- Text whose low bytes are neither the terminator nor a brace. -/
def Outside (text : List UInt16) : Prop :=
  ∀ c ∈ text, c.toUInt8 ≠ 0 ∧ c.toUInt8 ≠ char8 '{' ∧ c.toUInt8 ≠ char8 '}'

/-- A spelled canonical text has no low byte that is the terminator. -/
theorem spelled_nonzero {written : List UInt16} {canonical : List UInt8}
    (spelled : Spells written canonical) (printed : ∀ c ∈ canonical, Printed c) :
    ∀ c ∈ written, c.toUInt8 ≠ 0 := by
  induction spelled with
  | done => simp
  | blank c written canonical isBlank tail inductionHypothesis =>
    intro d member
    rcases List.mem_cons.mp member with rfl | member
    · rcases isBlank with rfl | rfl <;> decide
    · exact inductionHypothesis printed d member
  | char c expected written canonical same tail inductionHypothesis =>
    intro d member
    rcases List.mem_cons.mp member with rfl | member
    · exact (folded_char (printed expected List.mem_cons_self) same).2
    · exact inductionHypothesis
        (fun d member => printed d (List.mem_cons_of_mem expected member)) d member

/-- A written command: other text, the spelled clauses between braces, any text. -/
def framed (before body after : List UInt16) : List UInt16 :=
  before ++ 0x7B :: (body ++ 0x7D :: after)

/-- The normaliser turns a written command into its canonical line. -/
theorem reConstructTheCmdLine_framed (before body after : List UInt16) (clauses : List Clause)
    (outside : Outside before) (spelled : Spells body (clausesText clauses))
    (short : (framed before body after).length ≤ 254) :
    reConstructTheCmdLine (framed before body after) = some (lineText clauses) := by
  have printed : ∀ c ∈ clausesText clauses, Printed c := by
    intro c member
    obtain ⟨clause, -, inside⟩ := List.mem_flatMap.mp member
    exact printed_clause clause c inside
  have bodyNonzero := spelled_nonzero spelled printed
  obtain ⟨rest, narrowed⟩ : ∃ rest, unicodeStrToAsciiStr (framed before body after) =
      before.map UInt16.toUInt8 ++ char8 '{' :: (body.map UInt16.toUInt8 ++ char8 '}' :: rest) := by
    refine ⟨(after.map UInt16.toUInt8).takeWhile (· ≠ 0), ?_⟩
    simp only [unicodeStrToAsciiStr, framed, List.map_append, List.map_cons]
    rw [List.takeWhile_append_of_pos (by simpa using fun c member => (outside c member).1),
      List.takeWhile_cons_of_pos (by decide),
      List.takeWhile_append_of_pos (by simpa using bodyNonzero),
      List.takeWhile_cons_of_pos (by decide)]
    rfl
  have noBrace (brace : UInt8) (isBrace : brace = char8 '{' ∨ brace = char8 '}') :
      brace ∉ folded before := by
    intro member
    obtain ⟨c, inside, same⟩ := List.mem_map.mp member
    have different : c.toUInt8 ≠ brace := by
      rcases isBrace with rfl | rfl
      · exact (outside c inside).2.1
      · exact (outside c inside).2.2
    exact upperAscii_brace isBrace different same
  have fits : ¬ (framed before body after).length + 1 > cmdStringSize := by
    simp only [cmdStringSize]
    omega
  have opened (text : List UInt8) : deleteUselessChar false false (char8 '{' :: text) =
      (deleteUselessChar true false text).map (char8 '{' :: ·) := rfl
  have upper : ((unicodeStrToAsciiStr (framed before body after)).map upperAscii) =
      folded before ++ char8 '{' :: (folded body ++ char8 '}' :: rest.map upperAscii) := by
    rw [narrowed]
    simp only [List.map_append, List.map_cons, List.map_map, folded]
    rfl
  rw [reConstructTheCmdLine, if_neg fits, upper,
    deleteUselessChar_before _ _ _ (noBrace _ (Or.inl rfl)) (noBrace _ (Or.inr rfl)), opened,
    deleteUselessChar_spelled spelled printed, deleteUselessChar_clauses]
  rfl

end Normaliser

section RoundTrip

/-- Clauses without fillers are read back from their line. -/
theorem ofClauses_line (clauses : List Clause) :
    (Reading.ofClauses clauses).line = lineText clauses := by
  simp [Reading.line, Reading.ofClauses, tailText, lineText, clausesText, Piece.text,
    List.flatMap_map]

/-- The reading without fillers has the given clauses. -/
theorem ofClauses_clauses (clauses : List Clause) :
    (Reading.ofClauses clauses).clauses = clauses := by
  simp [Reading.clauses, Reading.ofClauses, Function.comp_def]

/-- The letter `T` occurs in size clauses only. -/
theorem letter_of_size (clause : Clause) (member : char8 'T' ∈ clause.text) :
    clause.kind = .size := by
  simp only [Clause.text, List.mem_append, List.mem_singleton] at member
  have notNumeral (numeral : Numeral) : char8 'T' ∉ numeral.digits := by
    intro inside
    exact absurd (numeral.written.2 _ inside) (by decide)
  cases clause with
  | size number unit => rfl
  | specie letter => cases letter <;> exact absurd member (by decide)
  | jbod action => cases action <;> exact absurd member (by decide)
  | level numeral =>
    rcases member with (key | inside) | close
    · exact absurd key (by change _ ∉ clauseKey 'R'; decide)
    · exact absurd inside (notNumeral numeral)
    · exact absurd close (by decide)
  | group first others =>
    rcases member with (key | inside) | close
    · exact absurd key (by change _ ∉ clauseKey 'G'; decide)
    · rcases List.mem_append.mp inside with inside | inside
      · exact absurd inside (notNumeral first)
      · obtain ⟨numeral, -, inside⟩ := List.mem_flatMap.mp inside
        rcases List.mem_cons.mp inside with comma | inside
        · exact absurd comma (by decide)
        · exact absurd inside (notNumeral numeral)
    · exact absurd close (by decide)

/-- With a single size clause and no fillers, no other unit follows a size. -/
theorem ofClauses_unitsClear (clauses : List Clause)
    (single : (ofKind .size clauses).length ≤ 1) : UnitsClear (Reading.ofClauses clauses) := by
  intro before piece later number split clause occurs
  have letter : char8 'T' ∈ tailText later [] := occurs.subset (by decide)
  rw [tailText] at letter
  rcases List.mem_append.mp letter with inside | close
  · obtain ⟨other, member, inside⟩ := List.mem_flatMap.mp inside
    have unled : other.lead = [] := by
      have among : other ∈ (Reading.ofClauses clauses).pieces := by rw [split]; simp [member]
      obtain ⟨_, -, rfl⟩ := List.mem_map.mp among
      rfl
    have sized : other.clause.kind = .size := by
      rw [Piece.text, unled, List.nil_append] at inside
      exact letter_of_size other.clause inside
    have parts : clauses = before.map Piece.clause ++ piece.clause :: later.map Piece.clause := by
      rw [← ofClauses_clauses clauses, Reading.clauses, split, List.map_append, List.map_cons]
    have second : other.clause ∈ ofKind .size (later.map Piece.clause) := by
      simp only [ofKind, List.mem_filter, List.mem_map, decide_eq_true_eq]
      exact ⟨⟨other, member, rfl⟩, sized⟩
    have positive := List.length_pos_of_mem second
    rw [parts] at single
    simp only [ofKind, List.filter_append, List.length_append, clause, Clause.kind,
      List.filter_cons_of_pos, decide_true, List.length_cons] at single positive
    omega
  · exact absurd close (by decide)

/-- The clauses that write a command are well counted. -/
theorem writes_wellCounted {command : Command} {clauses : List Clause}
    (writes : Writes command clauses) : WellCounted clauses := by
  have optional {α : Type} (item : Option α) : item.toList.length ≤ 1 := by cases item <;> simp
  have level : (ofKind .level clauses).length = command.level.toList.length := by
    simpa using congrArg List.length writes.level
  constructor
  · rw [writes.specie]
    rfl
  · rw [writes.size, List.length_map]
    exact optional _
  · rw [level]
    exact optional _
  · rw [writes.jbod, List.length_map]
    exact optional _

/-- The clauses that write a command stand for the command's sections. -/
theorem writes_sections {command : Command} {clauses : List Clause}
    (writes : Writes command clauses) : sections clauses = command.sections := by
  have groups : (ofKind .group clauses).map Clause.toSection =
      command.groups.map (fun group => .group (group.map newHdd)) := by
    rw [← writes.groups, List.map_map]
    refine List.map_congr_left ?_
    intro clause member
    have kind : clause.kind = .group := by simpa [ofKind] using (List.mem_filter.mp member).2
    cases clause with
    | group first others => simp [Clause.toSection, Clause.numbers, Function.comp_def]
    | _ => simp [Clause.kind] at kind
  have level : (ofKind .level clauses).map Clause.toSection =
      command.level.toList.map .raidType := by
    have numbers := writes.level
    cases inside : ofKind .level clauses with
    | nil =>
      rw [inside] at numbers
      cases value : command.level <;> simp [value] at numbers ⊢
    | cons clause rest =>
      have member : clause ∈ ofKind .level clauses := by rw [inside]; exact List.mem_cons_self
      have kind : clause.kind = .level := by simpa [ofKind] using (List.mem_filter.mp member).2
      rw [inside] at numbers
      cases value : command.level with
      | none => simp [value] at numbers
      | some value' =>
        cases clause with
        | level numeral =>
          simp [value, Clause.numbers] at numbers
          simp [Clause.toSection, numbers]
        | _ => simp [Clause.kind] at kind
  rw [sections_eq, writes.specie, groups, writes.size, level, writes.jbod, Command.sections]
  simp [Clause.toSection, Function.comp_def]

/-- Every rendering of a command is parsed back into the command's sections, when
the text before the opening brace has no low byte that is the terminator or a
brace. -/
theorem analysis_round_trip (command : Command) (clauses : List Clause)
    (before body after : List UInt16) (writes : Writes command clauses)
    (outside : Outside before) (spelled : Spells body (clausesText clauses))
    (short : (framed before body after).length ≤ 254) :
    analysisAndParseCmdString (framed before body after) = .ok (some command.sections) := by
  have counted := writes_wellCounted writes
  have normal := reConstructTheCmdLine_framed before body after clauses outside spelled short
  rw [← ofClauses_line] at normal
  have clear := ofClauses_unitsClear clauses counted.size
  have analysed := analysis_sections _ _ normal (by rw [ofClauses_clauses]; exact counted) clear
  rw [analysed, ofClauses_clauses, writes_sections writes]

/-- The numeral `1`. -/
def one : Numeral := ⟨[char8 '1'], ⟨by simp, forall_mem_of_all (by decide)⟩, by decide⟩

/-- Building a volume on drive 1. -/
def buildOnDriveOne : Command where
  specie := .b
  groups := [[1]]
  size := none
  level := none
  jbod := none
  groupsWritten := by simp
  levelWritten := by simp

/-- The group clause may come first, and the other text is arbitrary. -/
theorem analysis_round_trip_build :
    analysisAndParseCmdString (framed (wide ['R', ':']) (wide ['g', ':', '[', ' ', '1', ']', 'C',
        ':', '[', 'b', ']']) (wide ['}', 'J'])) =
      .ok (some [.command .build, .group [newHdd 1]]) := by
  refine analysis_round_trip buildOnDriveOne [.group one [], .specie .b] _ _ _
    ⟨rfl, rfl, rfl, rfl, rfl⟩ (forall_mem_of_all (by decide)) ?_ (by decide)
  change Spells _ (ascii ['G', ':', '[', '1', ']', 'C', ':', '[', 'B', ']'])
  repeat' first
    | exact .done
    | refine .char _ _ _ _ (by unfold SpellsChar; decide) ?_
    | refine .blank _ _ _ (by unfold Blank; decide) ?_

/-- A brace-free text before the command is not enough: the character `Ā` has the
low byte zero, which ends the narrowed string before the command. -/
theorem analysis_wide_lead :
    ∃ (command : Command) (clauses : List Clause) (before body after : List UInt16),
      Writes command clauses ∧ (∀ c ∈ before, c ≠ 0 ∧ c ≠ 0x7B ∧ c ≠ 0x7D) ∧
      Spells body (clausesText clauses) ∧ (framed before body after).length ≤ 254 ∧
      analysisAndParseCmdString (framed before body after) ≠ .ok (some command.sections) := by
  refine ⟨⟨.b, [], none, none, none, by simp, by simp⟩, [.specie .b], [0x0100],
    wide ['C', ':', '[', 'B', ']'], [], ⟨rfl, rfl, rfl, rfl, rfl⟩,
    forall_mem_of_all (by decide), ?_, by decide, by decide⟩
  change Spells _ (ascii ['C', ':', '[', 'B', ']'])
  repeat' first
    | exact .done
    | refine .char _ _ _ _ (by unfold SpellsChar; decide) ?_

end RoundTrip

end SmcPkg.CmdRoundTrip
