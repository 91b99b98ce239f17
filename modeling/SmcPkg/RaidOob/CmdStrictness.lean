import SmcPkg.RaidOob.CmdLine

/-!
# When the parser is strict

A strict parser accepts a command only if everything in it that looks like a
clause is a clause, and then returns one section for every clause with the value
written there. `AnalysisAndParseCmdString` is not strict: a malformed clause is
treated like an absent one, a second clause of a kind is never looked at, the
group loop ends at its first malformed group, and the unit of a size may be taken
from elsewhere in the line.

`strict_iff` says on exactly which strings it is strict all the same.
-/

namespace SmcPkg.CmdStrictness

open CString RaidCmd CmdGrammar CmdLine

/-- The parser behaves strictly on a string: it stays inside its arrays, and what
it accepts can be read as clauses whose sections are the ones returned. -/
def Strict (written : List UInt16) : Prop :=
  ∃ outcome, analysisAndParseCmdString written = .ok outcome ∧
    ∀ parsed, outcome = some parsed →
      ∃ reading : Reading, reConstructTheCmdLine written = some reading.line ∧
        parsed = sections reading.clauses

/-- The first command key of a line is followed by a command letter and a bracket. -/
def CommandFirst (line : List UInt8) : Prop :=
  ∃ letter : Specie, (Clause.specie letter).text <+: strstr line (clauseKey 'C')

/-- The kind of clause a section comes from. -/
def sectionKind : CmdSection → Kind
  | .command _ => .specie
  | .group _ => .group
  | .size _ _ => .size
  | .raidType _ => .level
  | .jbod _ => .jbod

/-- The sections of one kind. -/
def sectionsOf (kind : Kind) (parsed : List CmdSection) : List CmdSection :=
  parsed.filter (fun part => sectionKind part = kind)

/-- A clause and its section have the same kind. -/
theorem toSection_kind (clause : Clause) : sectionKind clause.toSection = clause.kind := by
  cases clause <;> rfl

/-- Sections of the clauses of one kind are of that kind. -/
theorem sectionsOf_clauses (kind other : Kind) (clauses : List Clause) :
    sectionsOf kind ((ofKind other clauses).map Clause.toSection) =
      if other = kind then (ofKind kind clauses).map Clause.toSection else [] := by
  have kinds : ∀ part ∈ (ofKind other clauses).map Clause.toSection, sectionKind part = other := by
    intro part member
    obtain ⟨clause, inside, rfl⟩ := List.mem_map.mp member
    rw [toSection_kind]
    simpa [ofKind] using (List.mem_filter.mp inside).2
  split
  · rename_i same
    subst same
    exact List.filter_eq_self.mpr (fun part member => by simpa using kinds part member)
  · rename_i different
    refine List.filter_eq_nil_iff.mpr ?_
    intro part member
    simpa [kinds part member] using different

/-- The sections of a clause sequence hold one section for every clause. -/
theorem sectionsOf_sections (kind : Kind) (clauses : List Clause) :
    sectionsOf kind (sections clauses) = (ofKind kind clauses).map Clause.toSection := by
  have spread (left right : List CmdSection) :
      sectionsOf kind (left ++ right) = sectionsOf kind left ++ sectionsOf kind right :=
    List.filter_append ..
  rw [sections_eq]
  simp only [spread, sectionsOf_clauses]
  cases kind <;> simp

/-- A code letter is in the table exactly when the language has it. -/
theorem specieMap_isSome (code : UInt8) :
    (specieMap.lookup code).isSome ↔ ∃ letter : Specie, code = letter.code := by
  constructor
  · intro found
    by_cases isB : code = char8 'B'
    · exact ⟨.b, isB⟩
    by_cases isD : code = char8 'D'
    · exact ⟨.d, isD⟩
    by_cases isO : code = char8 'O'
    · exact ⟨.o, isO⟩
    simp [specieMap, List.lookup, beq_false_of_ne isB, beq_false_of_ne isD,
      beq_false_of_ne isO] at found
  · rintro ⟨letter, rfl⟩
    cases letter <;> rfl

/-- `ParseCmdSpecie` succeeds exactly when the first command key is well formed. -/
theorem parseCmdSpecie_isSome (line : List UInt8) :
    (parseCmdSpecie line).isSome ↔ CommandFirst line := by
  rcases strstr_cases line (clauseKey 'C') with missed | ⟨behind, hit⟩
  · have absent : ¬ CommandFirst line := by
      rintro ⟨letter, start⟩
      rw [missed, List.prefix_nil] at start
      simp [Clause.text] at start
    simp [parseCmdSpecie, parseCode, afterKey, missed, absent]
  · have key : afterKey 'C' line = some behind := by
      rw [afterKey, hit]
      rfl
    have start : CommandFirst line ↔ ∃ letter : Specie, [letter.code, char8 ']'] <+: behind := by
      refine exists_congr (fun letter => ?_)
      rw [hit, Clause.text, List.append_assoc]
      exact List.prefix_append_right_inj (clauseKey 'C')
    rw [start, parseCmdSpecie, parseCode, key, Option.isSome_map]
    cases behind with
    | nil => simp
    | cons code later =>
      cases later with
      | nil => simp
      | cons close rest =>
        have table := specieMap_isSome code
        simp only [List.cons_prefix_cons, List.nil_prefix, and_true]
        cases found : specieMap.lookup code with
        | none =>
          rw [found] at table
          have unknown : ¬ ∃ letter : Specie, code = letter.code := by simpa using table
          constructor
          · intro impossible
            exact absurd impossible (by simp)
          · rintro ⟨letter, same, -⟩
            exact absurd ⟨letter, same.symm⟩ unknown
        | some value =>
          rw [found] at table
          obtain ⟨letter, same⟩ := table.mp rfl
          by_cases closed : close = char8 ']'
          · simp only [closed, if_true, Option.isSome_some, true_iff]
            exact ⟨letter, same.symm, trivial⟩
          · simp [closed, Ne.symm closed]

/-- A normalised line without a well-formed first command is rejected. -/
theorem analysis_rejects {written : List UInt16} {line : List UInt8}
    (normal : reConstructTheCmdLine written = some line) (noCommand : ¬ CommandFirst line) :
    analysisAndParseCmdString written = .ok none := by
  have absent : parseCmdSpecie line = none := by
    rwa [← parseCmdSpecie_isSome, Option.not_isSome_iff_eq_none] at noCommand
  simp only [analysisAndParseCmdString, normal, absent]

/-- With a well-formed first command, nothing else in the line leads to a rejection. -/
theorem analysis_accepts {written : List UInt16} {line : List UInt8}
    (normal : reConstructTheCmdLine written = some line) (command : CommandFirst line) :
    analysisAndParseCmdString written ≠ .ok none := by
  obtain ⟨specie, found⟩ := Option.isSome_iff_exists.mp ((parseCmdSpecie_isSome line).mpr command)
  simp only [analysisAndParseCmdString, normal, found]
  cases parseCmdGroup line with
  | error fault => simp [bind, Except.bind]
  | ok groups =>
    cases parseCmdRaidSize line with
    | error fault => simp [bind, Except.bind]
    | ok size => simp [bind, Except.bind]

/-- At most one size clause: two splits of a line at size clauses agree. -/
theorem size_split_unique {pieces before later before' later' : List Piece} {piece piece' : Piece}
    (single : (ofKind .size (pieces.map Piece.clause)).length ≤ 1)
    (split : pieces = before ++ piece :: later) (split' : pieces = before' ++ piece' :: later')
    (sized : piece.clause.kind = .size) (sized' : piece'.clause.kind = .size) :
    piece = piece' ∧ later = later' := by
  have alone {before later : List Piece} {piece : Piece} (sized : piece.clause.kind = .size)
      (split : pieces = before ++ piece :: later) : ∀ other ∈ before, other.clause.kind ≠ .size := by
    intro other member again
    have second : other.clause ∈ ofKind .size (before.map Piece.clause) := by
      simp only [ofKind, List.mem_filter, List.mem_map, decide_eq_true_eq]
      exact ⟨⟨other, member, rfl⟩, again⟩
    have positive := List.length_pos_of_mem second
    rw [split] at single
    simp only [ofKind, List.map_append, List.map_cons, List.filter_append, List.length_append,
      List.filter_cons_of_pos, sized, decide_true, List.length_cons] at single positive
    omega
  rw [split] at split'
  rcases List.append_eq_append_iff.mp split' with ⟨gap, before_eq, rest⟩ | ⟨gap, before_eq, rest⟩
  · cases gap with
    | nil => simpa using rest
    | cons other gap =>
      have same : piece = other := (List.cons.inj rest).1
      have inside : piece ∈ before' := by rw [before_eq, same]; simp
      exact absurd sized (alone sized' (split.trans split') piece inside)
  · cases gap with
    | nil =>
      have rest : piece' :: later' = piece :: later := by simpa using rest
      exact ⟨(List.cons.inj rest).1.symm, (List.cons.inj rest).2.symm⟩
    | cons other gap =>
      have same : piece' = other := (List.cons.inj rest).1
      have inside : piece' ∈ before := by rw [before_eq, same]; simp
      exact absurd sized' (alone sized split piece' inside)

/-- The section of the first clause of a kind is of that kind. -/
theorem sectionsOf_head (kind other : Kind) (clauses : List Clause) : sectionsOf kind
    ((ofKind other clauses).head?.map Clause.toSection).toList =
      if other = kind then ((ofKind other clauses).head?.map Clause.toSection).toList else [] := by
  cases head : (ofKind other clauses).head? with
  | none => simp [sectionsOf]
  | some clause =>
    have member := List.mem_of_mem_head? head
    have clauseKind : clause.kind = other := by simpa [ofKind] using (List.mem_filter.mp member).2
    by_cases equal : other = kind
    · simp [sectionsOf, toSection_kind, clauseKind, equal]
    · simp [sectionsOf, toSection_kind, clauseKind, equal]

/-- What the parser reads as a size is a section of a size. -/
theorem sectionsOf_size {reading : Reading} {size : Option CmdSection}
    (parsed : parseCmdRaidSize reading.line = .ok size) (kind : Kind) :
    sectionsOf kind size.toList = if kind = .size then size.toList else [] := by
  have ofSize : size = none ∨ ∃ unit text, size = some (.size unit text) := by
    rcases parseCmdRaidSize_line reading with ⟨-, result⟩ | ⟨_, _, _, _, _, -, -, -, result⟩
    · exact Or.inl (Except.ok.inj (parsed.symm.trans result))
    · exact Or.inr ⟨_, _, Except.ok.inj (parsed.symm.trans result)⟩
  rcases ofSize with rfl | ⟨unit, text, rfl⟩
  · simp [sectionsOf]
  · cases kind <;> rfl

/-- If the section that is read as the size is that of the clause, the size has the unit of the
clause: no `TB` behind it has been taken for it. -/
theorem unitsClear_of_sized {reading : Reading} {size : Option CmdSection}
    (parsed : parseCmdRaidSize reading.line = .ok size)
    (single : (ofKind .size reading.clauses).length ≤ 1)
    (sized : size.toList = (ofKind .size reading.clauses).map Clause.toSection) :
    UnitsClear reading := by
  intro before piece later number split clause occurs
  rcases parseCmdRaidSize_line reading with
    ⟨absent, -⟩ | ⟨before', later', piece', number', unit, split', clause', clauses, result⟩
  · have member : piece.clause ∈ ofKind .size reading.clauses := by
      simp only [ofKind, List.mem_filter, Reading.clauses, List.mem_map, decide_eq_true_eq]
      exact ⟨⟨piece, by rw [split]; simp, rfl⟩, by rw [clause]; rfl⟩
    rw [absent] at member
    exact absurd member List.not_mem_nil
  · obtain ⟨rfl, rfl⟩ := size_split_unique single split split'
      (by rw [clause]; rfl) (by rw [clause']; rfl)
    rw [clause] at clause'
    obtain ⟨rfl, rfl⟩ := Clause.size.inj clause'
    have taken : size = some (.size .tb number.chars) := by
      rw [Except.ok.inj (parsed.symm.trans result)]
      simp [takenUnit, occurs, SizeUnit.denote]
    rw [taken, clauses, clause] at sized
    simp [Clause.toSection, SizeUnit.denote] at sized

/-- When the sections of a reading are what the parser returned, the clauses are
well counted and every size kept its own unit. -/
theorem reading_faithful (written : List UInt16) (reading : Reading)
    (normal : reConstructTheCmdLine written = some reading.line)
    (faithful : analysisAndParseCmdString written = .ok (some (sections reading.clauses))) :
    WellCounted reading.clauses ∧ UnitsClear reading := by
  obtain ⟨size, parsed, analysed⟩ := analysis_reading written reading normal
  rw [analysed] at faithful
  obtain ⟨specie, first, same⟩ := Option.map_eq_some_iff.mp (Except.ok.inj faithful)
  have firstKind : specie.kind = .specie := by
    have member := List.mem_of_mem_head? first
    simpa [ofKind] using (List.mem_filter.mp member).2
  -- Each kind is compared by itself: the parser returned at most one section of it.
  have perKind (kind : Kind) := (congrArg (sectionsOf kind) same).trans
    (sectionsOf_sections kind reading.clauses)
  have specieKind (kind : Kind) : sectionsOf kind [specie.toSection] =
      if kind = .specie then [specie.toSection] else [] := by
    cases kind <;> simp [sectionsOf, toSection_kind, firstKind]
  have spread (kind : Kind) (left right : List CmdSection) :
      sectionsOf kind (left ++ right) = sectionsOf kind left ++ sectionsOf kind right :=
    List.filter_append ..
  simp only [spread, sectionsOf_head, sectionsOf_size parsed, specieKind, sectionsOf_clauses]
    at perKind
  have optional {α : Type} (item : Option α) : item.toList.length ≤ 1 := by cases item <;> simp
  have sized : size.toList = (ofKind .size reading.clauses).map Clause.toSection := by
    simpa using perKind .size
  have counted : WellCounted reading.clauses := by
    constructor
    · simpa using (congrArg List.length (perKind .specie)).symm
    · have length := congrArg List.length sized
      rw [List.length_map] at length
      rw [← length]
      exact optional size
    · have length := congrArg List.length (perKind .level)
      simp only [reduceCtorEq, if_false, if_true, List.nil_append, List.append_nil,
        List.length_map] at length
      rw [← length]
      exact optional _
    · have length := congrArg List.length (perKind .jbod)
      simp only [reduceCtorEq, if_false, if_true, List.nil_append, List.append_nil,
        List.length_map] at length
      rw [← length]
      exact optional _
  exact ⟨counted, unitsClear_of_sized parsed counted.size sized⟩

/-- The parser is strict on a string exactly when the string is rejected for its
braces, brackets, length or first command clause, or can be read as well-formed
clauses with one command, at most one size, level and JBOD action, and no `TB`
behind a size in `GB`. -/
theorem strict_iff (written : List UInt16) :
    Strict written ↔
      ∀ line, reConstructTheCmdLine written = some line → CommandFirst line →
        ∃ reading : Reading, line = reading.line ∧ WellCounted reading.clauses ∧
          UnitsClear reading := by
  constructor
  · rintro ⟨outcome, analysed, faithful⟩ line normal command
    cases outcome with
    | none => exact absurd analysed (analysis_accepts normal command)
    | some parsed =>
      obtain ⟨reading, read, rfl⟩ := faithful parsed rfl
      exact ⟨reading, Option.some.inj (normal.symm.trans read),
        reading_faithful written reading read analysed⟩
  · intro readable
    cases normal : reConstructTheCmdLine written with
    | none => exact ⟨none, by simp [analysisAndParseCmdString, normal], by simp⟩
    | some line =>
      by_cases command : CommandFirst line
      · obtain ⟨reading, rfl, counted, clear⟩ := readable line normal command
        refine ⟨_, analysis_sections written reading normal counted clear, ?_⟩
        intro parsed same
        exact ⟨reading, normal, (Option.some.inj same).symm⟩
      · exact ⟨none, analysis_rejects normal command, by simp⟩

/-- The command `{C:[B]G:[1]R:[X]}`, whose level is not a number. -/
def badLevel : List UInt16 :=
  wide ['{', 'C', ':', '[', 'B', ']', 'G', ':', '[', '1', ']', 'R', ':', '[', 'X', ']', '}']

/-- A build command with a malformed level is accepted without the level. -/
theorem not_strict_badLevel : ¬ Strict badLevel := by
  rintro ⟨outcome, analysed, faithful⟩
  have accepted : analysisAndParseCmdString badLevel =
      .ok (some [.command .build, .group [newHdd 1]]) := by decide
  obtain ⟨reading, normal, same⟩ := faithful _ (Except.ok.inj (analysed.symm.trans accepted))
  have levels := congrArg (sectionsOf .level) same
  rw [sectionsOf_sections] at levels
  cases found_line .level reading with
  | absent missed absent =>
    have line : reConstructTheCmdLine badLevel = some (ascii ['{', 'C', ':', '[', 'B', ']', 'G',
        ':', '[', '1', ']', 'R', ':', '[', 'X', ']', '}']) := by decide
    rw [← Option.some.inj (line.symm.trans normal)] at missed
    exact absurd missed (by decide)
  | first before later piece split hit sameKind clauses =>
    rw [Reading.clauses, clauses] at levels
    exact absurd levels (by simp [sectionsOf, sectionKind])

end SmcPkg.CmdStrictness
