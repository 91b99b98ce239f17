import SmcPkg.RaidOob.CmdParse

/-!
# The RAID command language

The grammar the command comment describes, stated on its own: a command is a
sequence of clauses between braces, each a key letter followed by a bracketed
body. `Clause` holds only well-formed clauses, so a malformed one cannot be
written down, and `Clause.text` is its canonical spelling in upper case without
blanks. `Clause.toSection` is the section such a clause stands for.

A line may hold text between its clauses. `Reading` splits a line into clauses and
such fillers; a filler has neither a colon nor a bracket, so that whatever looks
like a clause has to be one.

A canonical text is found again in a wide string by `Spells`, which allows blanks
anywhere and either letter case. Nothing here mentions the parser's searches.
-/

namespace SmcPkg.CmdGrammar

open CString RaidCmd

/-- The command letters of the language. -/
inductive Specie
  | b
  | d
  | o
  deriving DecidableEq, Repr

/-- The units of a size. -/
inductive SizeUnit
  | tb
  | gb
  deriving DecidableEq, Repr

/-- The JBOD actions. -/
inductive JbodAction
  | u
  | m
  deriving DecidableEq, Repr

/-- The letter of a command clause. -/
def Specie.code : Specie → UInt8
  | .b => char8 'B'
  | .d => char8 'D'
  | .o => char8 'O'

/-- The command a letter denotes. -/
def Specie.denote : Specie → CmdSpecie
  | .b => .build
  | .d => .delete
  | .o => .other

/-- The two letters of a unit. -/
def SizeUnit.text : SizeUnit → List UInt8
  | .tb => ascii ['T', 'B']
  | .gb => ascii ['G', 'B']

/-- The size type a unit denotes. -/
def SizeUnit.denote : SizeUnit → RaidSizeType
  | .tb => .tb
  | .gb => .gb

/-- The letter of a JBOD clause. -/
def JbodAction.code : JbodAction → UInt8
  | .u => char8 'U'
  | .m => char8 'M'

/-- The action a letter denotes. -/
def JbodAction.denote : JbodAction → CmdJbod
  | .u => .unconfig
  | .m => .make

/-- A nonempty string of digits. -/
def DigitString (digits : List UInt8) : Prop :=
  digits ≠ [] ∧ ∀ c ∈ digits, isDigit c = true

/-- A drive number or RAID level as written: digits, possibly with leading
zeros, whose value is below 255. -/
structure Numeral where
  digits : List UInt8
  written : DigitString digits
  below : decimal digits < 0xFF

/-- The number a numeral denotes. -/
def Numeral.value (numeral : Numeral) : Nat := decimal numeral.digits

/-- A size as written: digits, optionally a point and further digits, shorter
than the array that receives it. -/
structure SizeText where
  whole : List UInt8
  fraction : Option (List UInt8)
  wholeWritten : DigitString whole
  fractionWritten : ∀ digits, fraction = some digits → DigitString digits
  short : (whole ++ (fraction.map (char8 '.' :: ·)).getD []).length < raidSizeCapacity

/-- The characters of a size. -/
def SizeText.chars (size : SizeText) : List UInt8 :=
  size.whole ++ (size.fraction.map (char8 '.' :: ·)).getD []

/-- One well-formed clause. A group has at least one number. -/
inductive Clause
  | specie (specie : Specie)
  | group (first : Numeral) (others : List Numeral)
  | size (number : SizeText) (unit : SizeUnit)
  | level (level : Numeral)
  | jbod (action : JbodAction)

/-- The kinds of clauses, in the order of the parsed sections. -/
inductive Kind
  | specie
  | group
  | size
  | level
  | jbod
  deriving DecidableEq, Repr

/-- The key letter of a kind. -/
def Kind.letter : Kind → Char
  | .specie => 'C'
  | .group => 'G'
  | .size => 'S'
  | .level => 'R'
  | .jbod => 'J'

/-- The kind of a clause. -/
def Clause.kind : Clause → Kind
  | .specie _ => .specie
  | .group _ _ => .group
  | .size _ _ => .size
  | .level _ => .level
  | .jbod _ => .jbod

/-- Further numbers of a group, each behind a comma. -/
def moreNumbers (others : List Numeral) : List UInt8 :=
  others.flatMap (fun numeral => char8 ',' :: numeral.digits)

/-- What stands between the brackets of a clause. -/
def Clause.body : Clause → List UInt8
  | .specie letter => [letter.code]
  | .group first others => first.digits ++ moreNumbers others
  | .size number unit => number.chars ++ unit.text
  | .level numeral => numeral.digits
  | .jbod action => [action.code]

/-- The canonical spelling of a clause. -/
def Clause.text (clause : Clause) : List UInt8 :=
  clauseKey clause.kind.letter ++ clause.body ++ [char8 ']']

/-- The section a clause stands for. -/
def Clause.toSection : Clause → CmdSection
  | .specie letter => .command letter.denote
  | .group first others => .group ((first :: others).map (fun numeral => newHdd numeral.value))
  | .size number unit => .size unit.denote number.chars
  | .level numeral => .raidType numeral.value
  | .jbod action => .jbod action.denote

/-- The spelling of a clause sequence. -/
def clausesText (clauses : List Clause) : List UInt8 := clauses.flatMap Clause.text

/-- A command line: the clauses between braces. -/
def lineText (clauses : List Clause) : List UInt8 :=
  char8 '{' :: (clausesText clauses ++ [char8 '}'])

/-- Text that belongs to no clause: it has neither a colon nor a bracket. -/
def Filler (text : List UInt8) : Prop :=
  char8 ':' ∉ text ∧ char8 '[' ∉ text ∧ char8 ']' ∉ text

/-- A clause together with the filler that precedes it. -/
structure Piece where
  lead : List UInt8
  filler : Filler lead
  clause : Clause

/-- A line read as clauses with fillers between them. -/
structure Reading where
  pieces : List Piece
  last : List UInt8
  lastFiller : Filler last

/-- The text of a piece. -/
def Piece.text (piece : Piece) : List UInt8 := piece.lead ++ piece.clause.text

/-- The text from some piece of a line up to its closing brace. -/
def tailText (pieces : List Piece) (last : List UInt8) : List UInt8 :=
  pieces.flatMap Piece.text ++ (last ++ [char8 '}'])

/-- The line a reading reads. -/
def Reading.line (reading : Reading) : List UInt8 :=
  char8 '{' :: tailText reading.pieces reading.last

/-- The clauses of a reading. -/
def Reading.clauses (reading : Reading) : List Clause := reading.pieces.map Piece.clause

/-- Clauses written one after the other, without fillers. -/
def Reading.ofClauses (clauses : List Clause) : Reading where
  pieces := clauses.map (fun clause => ⟨[], by simp [Filler], clause⟩)
  last := []
  lastFiller := by simp [Filler]

/-- The clauses of one kind, in order. -/
def ofKind (kind : Kind) (clauses : List Clause) : List Clause :=
  clauses.filter (fun clause => clause.kind = kind)

/-- One section for every clause, ordered by kind and inside a kind by position. -/
def sections (clauses : List Clause) : List CmdSection :=
  [Kind.specie, .group, .size, .level, .jbod].flatMap
    (fun kind => (ofKind kind clauses).map Clause.toSection)

/-- A space or a tab. -/
def Blank (c : UInt16) : Prop := c = 0x20 ∨ c = 0x09

/-- A wide character spells a canonical one when it is that character or, for an
upper-case letter, the lower-case form of it. -/
def SpellsChar (c : UInt16) (canonical : UInt8) : Prop :=
  c = canonical.toUInt16 ∨
    (char8 'A' ≤ canonical ∧ canonical ≤ char8 'Z' ∧ c = canonical.toUInt16 + 0x20)

/-- A wide text spells a canonical text: blanks anywhere, either letter case. -/
inductive Spells : List UInt16 → List UInt8 → Prop
  | done : Spells [] []
  | blank (c : UInt16) (written : List UInt16) (canonical : List UInt8)
      (isBlank : Blank c) (rest : Spells written canonical) : Spells (c :: written) canonical
  | char (c : UInt16) (expected : UInt8) (written : List UInt16) (canonical : List UInt8)
      (same : SpellsChar c expected) (rest : Spells written canonical) :
      Spells (c :: written) (expected :: canonical)

/-- A command apart from its spelling. -/
structure Command where
  specie : Specie
  groups : List (List Nat)
  size : Option (SizeText × SizeUnit)
  level : Option Nat
  jbod : Option JbodAction
  groupsWritten : ∀ group ∈ groups, group ≠ [] ∧ ∀ number ∈ group, number < 0xFF
  levelWritten : ∀ value, level = some value → value < 0xFF

/-- The numbers of a group clause; other clauses have none. -/
def Clause.numbers : Clause → List Nat
  | .group first others => (first :: others).map Numeral.value
  | .level numeral => [numeral.value]
  | _ => []

/-- A clause sequence writes a command when it has exactly the command's clauses,
in any order that keeps the order of the groups. -/
structure Writes (command : Command) (clauses : List Clause) : Prop where
  specie : ofKind .specie clauses = [.specie command.specie]
  groups : (ofKind .group clauses).map Clause.numbers = command.groups
  size : ofKind .size clauses =
    command.size.toList.map (fun size => .size size.1 size.2)
  level : (ofKind .level clauses).map Clause.numbers = command.level.toList.map ([·])
  jbod : ofKind .jbod clauses = command.jbod.toList.map .jbod

/-- The section list of a command. -/
def Command.sections (command : Command) : List CmdSection :=
  [.command command.specie.denote] ++
    command.groups.map (fun group => .group (group.map newHdd)) ++
    command.size.toList.map (fun size => .size size.2.denote size.1.chars) ++
    command.level.toList.map .raidType ++
    command.jbod.toList.map (fun action => .jbod action.denote)

end SmcPkg.CmdGrammar
