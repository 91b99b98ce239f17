import SmcPkg.Lib.CString

/-!
# The RAID command strings and their parser

A RAID command arrives as a wide string such as `{C:[B] G:[1,2] R:[5]}`. The
module narrows it to bytes, converts it to upper case, removes blanks and
whatever stands outside the braces, and then searches the whole remaining line
once for each clause key. Every clause parser answers NULL for an absent and for
a malformed clause alike; only the command clause `C:[` is mandatory.

A NULL pointer is `none`. A write behind the end of one of the parser's fixed
arrays is the explicit outcome `Fault`, since nothing is known about the run
after it. Strings are the characters before the terminator.
-/

namespace SmcPkg.RaidCmd

open CString

/-- `SMC_RAID_CMD_SPECIE_ENUM`. -/
inductive CmdSpecie
  | build
  | delete
  | other
  | non
  deriving DecidableEq, Repr

/-- `SMC_RAID_CMD_JBOD_ENUM`. -/
inductive CmdJbod
  | make
  | unconfig
  | non
  deriving DecidableEq, Repr

/-- `RAID_SIZE_TYPE`. -/
inductive RaidSizeType
  | tb
  | gb
  | non
  deriving DecidableEq, Repr

/-- `SMC_RAID_ITEMS_TYPE`, the kind of an inventory item. -/
inductive ItemsType
  | information
  | changeable
  | hdg
  | rdg
  | jbod
  | smcCmd
  | null
  deriving DecidableEq, Repr

/-- `SMC_RAID_CMD_GROUP_HDD`. The name is NULL until the drive is resolved
against the card's inventory. -/
structure GroupHdd where
  hdNum : Nat
  hddType : ItemsType
  hdHame : Option String
  deriving DecidableEq, Repr

/-- One section of a parsed command, `SMC_RAID_CMD_SECTION` with its body. -/
inductive CmdSection
  | group (groupHddSet : List GroupHdd)
  | raidType (raidType : Nat)
  | size (raidSizeType : RaidSizeType) (raidSizeContext : List UInt8)
  | command (raidCmdSpecie : CmdSpecie)
  | jbod (raidCmdJbodEnum : CmdJbod)
  deriving DecidableEq, Repr

/-- Undefined behaviour reached by the code, or a loop bound that was reached. -/
inductive Fault
  | overflow
  | nullDeref
  | useAfterFree
  | outOfFuel
  deriving DecidableEq, Repr

/-- The result of a modelled function that may leave its defined behaviour. -/
abbrev Checked := Except Fault

/-- A result in two steps. -/
theorem Checked.bind_ok {α β : Type} {first : Checked α} {next : α → Checked β} {result : β}
    (ran : first >>= next = .ok result) :
    ∃ value, first = .ok value ∧ next value = .ok result := by
  cases first with
  | error fault => cases ran
  | ok value => exact ⟨value, rfl, ran⟩

/-- The capacity of `RaidSizeContext`. -/
def raidSizeCapacity : Nat := 80

/-- The capacity of `RaidHddNum` in `ParseCmdGroupSub`. -/
def raidHddCapacity : Nat := 128

/-- `SMC_ITEM_CMD_STRING_SIZE`. -/
def cmdStringSize : Nat := 255

/-- `SmcRaidSizeTypeMap` without its terminating entry. -/
def smcRaidSizeTypeMap : List (RaidSizeType × List UInt8) :=
  [(.tb, ascii ['T', 'B']), (.gb, ascii ['G', 'B'])]

/-- `SpecieMap` without its terminating entry. -/
def specieMap : List (UInt8 × CmdSpecie) :=
  [(char8 'B', .build), (char8 'D', .delete), (char8 'O', .other)]

/-- `JbodMap` without its terminating entry. -/
def jbodMap : List (UInt8 × CmdJbod) :=
  [(char8 'M', .make), (char8 'U', .unconfig)]

/-- The key that opens a clause: the letter, a colon and a bracket. -/
def clauseKey (letter : Char) : List UInt8 := ascii [letter, ':', '[']

/-- Every clause parser starts alike: search the key and step behind it. -/
def afterKey (letter : Char) (line : List UInt8) : Option (List UInt8) :=
  match strstr line (clauseKey letter) with
  | [] => none
  | found => some (found.drop 3)

/-- A clause holding one code letter: look it up and require the closing
bracket right behind it. -/
def parseCode {β : Type} (letter : Char) (table : List (UInt8 × β)) (line : List UInt8) :
    Option β :=
  match afterKey letter line with
  | some (code :: close :: _) =>
    match table.lookup code with
    | some value => if close = char8 ']' then some value else none
    | none => none
  | _ => none

/-- `ParseCmdSpecie`. -/
def parseCmdSpecie (line : List UInt8) : Option CmdSection :=
  (parseCode 'C' specieMap line).map .command

/-- `ParseCmdRaidJbod`. -/
def parseCmdRaidJbod (line : List UInt8) : Option CmdSection :=
  (parseCode 'J' jbodMap line).map .jbod

/-- The digit loop shared by the level and the group parser. `0xFFFF` marks that
no digit has been read; a value of 255 or more is refused at once. -/
def readNumber : Nat → List UInt8 → Option (Nat × List UInt8)
  | tempVal, [] => some (tempVal, [])
  | tempVal, c :: rest =>
    if isDigit c then
      let next := (if tempVal = 0xFFFF then 0 else tempVal) * 10 + digitValue c
      if next ≥ 0x0FF then none else readNumber next rest
    else some (tempVal, c :: rest)

/-- `ParseCmdRaidType`, called with the digit range and without a special value. -/
def parseCmdRaidType (line : List UInt8) : Option CmdSection := do
  let body ← afterKey 'R' line
  let (tempVal, rest) ← readNumber 0xFFFF body
  if rest.head? ≠ some (char8 ']') then none
  else if tempVal = 0xFFFF then none
  else some (.raidType tempVal)

/-- The copy loop of `ParseCmdRaidSize`: digits and at most one point. The copy
has no bound of its own, so an 81st character is written behind the array. -/
def copySize : Bool → List UInt8 → List UInt8 → Checked (Option (List UInt8 × List UInt8))
  | _, copied, [] => .ok (some (copied, []))
  | aPoint, copied, c :: rest =>
    if isDigit c ∨ c = char8 '.' then
      if c = char8 '.' ∧ aPoint then .ok none
      else if copied.length ≥ raidSizeCapacity then .error .overflow
      else copySize (aPoint || c = char8 '.') (copied ++ [c]) rest
    else .ok (some (copied, c :: rest))

/-- `SearchRaidSizeType`: the first unit that occurs anywhere in the text. -/
def searchRaidSizeType (text : List UInt8) : RaidSizeType × List UInt8 :=
  (smcRaidSizeTypeMap.find? (fun entry => strstr text entry.2 ≠ [])).getD (.non, [])

/-- `ParseCmdRaidSize`. The unit is searched in the whole rest of the line, and
its length is skipped at the current position. -/
def parseCmdRaidSize (line : List UInt8) : Checked (Option CmdSection) :=
  match afterKey 'S' line with
  | none => .ok none
  | some body =>
    if (body.head?.map isDigit).getD false then do
      match ← copySize false [] body with
      | none => .ok none
      | some (context, rest) =>
        let unit := searchRaidSizeType rest
        if unit.1 = .non then .ok none
        else if (rest.drop unit.2.length).head? ≠ some (char8 ']') then .ok none
        else .ok (some (.size unit.1 context))
    else .ok none

/-- A drive as the parser creates it: numbered, neither typed nor named. The
zeroed type field reads as `RAID_INFORMATION_TYPE`. -/
def newHdd (number : Nat) : GroupHdd := ⟨number, .information, none⟩

/-- `RaidHddNum[RaidHddIndex++] = TempVal`, skipped when no digit was read. -/
def recordHdd (tempVal : Nat) (numbers : List Nat) : Checked (List Nat) :=
  if tempVal = 0xFFFF then .ok numbers
  else if numbers.length ≥ raidHddCapacity then .error .overflow
  else .ok (numbers ++ [tempVal])

/-- The number loop of `ParseCmdGroupSub`, one character at a time. The result
stands at the closing bracket, as the source's position does. -/
def readGroup : Nat → List Nat → List UInt8 → Checked (Option (List Nat × List UInt8))
  | _, _, [] => .ok none
  | tempVal, numbers, c :: rest =>
    if isDigit c then
      let next := (if tempVal = 0xFFFF then 0 else tempVal) * 10 + digitValue c
      if next ≥ 0x0FF then .ok none else readGroup next numbers rest
    else if c = char8 ',' then do
      let numbers ← recordHdd tempVal numbers
      readGroup 0xFFFF numbers rest
    else if c = char8 ']' then do
      let numbers ← recordHdd tempVal numbers
      .ok (some (numbers, c :: rest))
    else .ok none

/-- `ParseCmdGroupSub`: the section and the position behind it. -/
def parseCmdGroupSub (line : List UInt8) : Checked (Option (CmdSection × List UInt8)) :=
  match afterKey 'G' line with
  | none => .ok none
  | some body => do
    match ← readGroup 0xFFFF [] body with
    | none => .ok none
    | some ([], _) => .ok none
    | some (numbers, rest) => .ok (some (.group (numbers.map newHdd), rest))

/-- The loop of `ParseCmdGroup` with a bound on its rounds. -/
def parseCmdGroupLoop : Nat → List UInt8 → Checked (List CmdSection)
  | 0, _ => .ok []
  | rounds + 1, line => do
    match ← parseCmdGroupSub line with
    | none => .ok []
    | some (section_, rest) =>
      let following ← parseCmdGroupLoop rounds rest
      .ok (section_ :: following)

/-- `ParseCmdGroup`: take groups until the first that is absent or malformed.
Every round consumes a key, so the length of the line bounds the rounds. -/
def parseCmdGroup (line : List UInt8) : Checked (List CmdSection) :=
  parseCmdGroupLoop line.length line

/-- The scan of `DeleteUselessChar`. Outside the braces everything is dropped;
inside, blanks are dropped and brackets must alternate. The scan ends at the
first closing brace. -/
def deleteUselessChar : Bool → Bool → List UInt8 → Option (List UInt8)
  | _, _, [] => none
  | leftPar, leftBra, c :: rest =>
    if c = char8 ' ' ∨ c = char8 '\t' then deleteUselessChar leftPar leftBra rest
    else if c = char8 '{' then
      if leftPar then none else (deleteUselessChar true leftBra rest).map (c :: ·)
    else if c = char8 '}' then
      if leftPar && !leftBra then some [c] else none
    else if leftPar then
      if c = char8 '[' then
        if leftBra then none else (deleteUselessChar leftPar true rest).map (c :: ·)
      else if c = char8 ']' then
        if leftBra then (deleteUselessChar leftPar false rest).map (c :: ·) else none
      else (deleteUselessChar leftPar leftBra rest).map (c :: ·)
    else deleteUselessChar leftPar leftBra rest

/-- `UnicodeStrToAsciiStr`: the low bytes, read up to the first zero byte. -/
def unicodeStrToAsciiStr (source : List UInt16) : List UInt8 :=
  (source.map UInt16.toUInt8).takeWhile (· ≠ 0)

/-- One character of `UpperAsciiString`. -/
def upperAscii (c : UInt8) : UInt8 :=
  if char8 'a' ≤ c ∧ c ≤ char8 'z' then c - 0x20 else c

/-- `ReConstructTheCmdLine`. -/
def reConstructTheCmdLine (oriCmdCfg : List UInt16) : Option (List UInt8) :=
  if oriCmdCfg.length + 1 > cmdStringSize then none
  else deleteUselessChar false false ((unicodeStrToAsciiStr oriCmdCfg).map upperAscii)

/-- `AnalysisAndParseCmdString`: the sections of an accepted command, in the
order in which they are linked. -/
def analysisAndParseCmdString (cmdCfgString : List UInt16) :
    Checked (Option (List CmdSection)) :=
  match reConstructTheCmdLine cmdCfgString with
  | none => .ok none
  | some line =>
    match parseCmdSpecie line with
    | none => .ok none
    | some specie => do
      let groups ← parseCmdGroup line
      let size ← parseCmdRaidSize line
      .ok (some ([specie] ++ groups ++ size.toList ++ (parseCmdRaidType line).toList ++
        (parseCmdRaidJbod line).toList))

end SmcPkg.RaidCmd
