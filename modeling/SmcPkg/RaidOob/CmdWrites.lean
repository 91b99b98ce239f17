import SmcPkg.Lib.Stores
import SmcPkg.RaidOob.CmdLine

/-!
# What the command parser writes

The parser keeps a command in a copy of 255 bytes, normalises it through a second array
of that size, gathers the numbers of a group in `RaidHddNum` and the text of a size in
`RaidSizeContext`. Only the length of the whole command is checked. It is enough for the
first three: a normalised line is no longer than the command, and a number of a group takes
a digit and a separator. The text of a size may fill its array without a terminator, or be
longer.

`analysis_returns_iff` connects the stores with the parser: it returns exactly if all of them
are inside. `keptChars_of_accepted` says that an accepted line is what the stores of the
normaliser have left.
-/

namespace SmcPkg.CmdWrites

open CString RaidCmd CmdLine Stores

/-- The arrays that the parser writes: the command copy, `aTempString`, `RaidHddNum`,
`RaidSizeContext` and the field of that name in the section. -/
inductive Buffer
  | cmdString
  | tempString
  | raidHddNum
  | raidSizeContext
  | sectionContext
  deriving DecidableEq, Repr

/-- The capacities of the arrays. -/
def Buffer.capacity : Buffer → Nat
  | .cmdString => cmdStringSize
  | .tempString => cmdStringSize
  | .raidHddNum => raidHddCapacity
  | .raidSizeContext => raidSizeCapacity
  | .sectionContext => raidSizeCapacity

/-- A store of the parser, with characters and numbers in one width. -/
abbrev Write := Store Buffer UInt16

/-- `MemSet` on a whole array. -/
def memSet (buffer : Buffer) (value : UInt16) : Write :=
  ⟨buffer, 0, List.replicate buffer.capacity value⟩

section Source

/-- What `UpperAsciiString` stores: the letters that change, in place. -/
def upperWrites : Nat → List UInt8 → List Write
  | _, [] => []
  | index, c :: rest =>
    if char8 'a' ≤ c ∧ c ≤ char8 'z' then
      ⟨.cmdString, index, [(upperAscii c).toUInt16]⟩ :: upperWrites (index + 1) rest
    else upperWrites (index + 1) rest

/-- The characters that `DeleteUselessChar` stores back, up to the end of its scan,
whether it then accepts the line or not. -/
def keptChars : Bool → Bool → List UInt8 → List UInt8
  | _, _, [] => []
  | leftPar, leftBra, c :: rest =>
    if c = char8 ' ' ∨ c = char8 '\t' then keptChars leftPar leftBra rest
    else if c = char8 '{' then
      if leftPar then [] else c :: keptChars true leftBra rest
    else if c = char8 '}' then
      if leftPar then [c] else []
    else if leftPar then
      if c = char8 '[' then
        if leftBra then [] else c :: keptChars leftPar true rest
      else if c = char8 ']' then
        if leftBra then c :: keptChars leftPar false rest else []
      else c :: keptChars leftPar leftBra rest
    else keptChars leftPar leftBra rest

/-- The stores of `DeleteUselessChar` on a copy with these bytes in front. -/
def deleteUselessWrites (copy : List UInt8) (line : List UInt8) : List Write :=
  [memSet .tempString 0,
    ⟨.tempString, 0, (List.range cmdStringSize).map (fun i => (copy[i]?.getD 0).toUInt16)⟩,
    memSet .cmdString 0] ++
  oneByOne .cmdString 0 ((keptChars false false line).map UInt8.toUInt16)

/-- The stores of `ReConstructTheCmdLine`. The narrowing loop writes every character and
the terminator. -/
def reConstructWrites (oriCmdCfg : List UInt16) : List Write :=
  if oriCmdCfg.length + 1 > cmdStringSize then []
  else
    let narrowed := oriCmdCfg.map UInt16.toUInt8
    let text := unicodeStrToAsciiStr oriCmdCfg
    [memSet .cmdString 0] ++
      oneByOne .cmdString 0 ((narrowed ++ [0]).map UInt8.toUInt16) ++
      upperWrites 0 text ++
      deleteUselessWrites (text.map upperAscii ++ narrowed.drop text.length) (text.map upperAscii)

/-- What is stored for a number once its separator is reached. -/
def readNumbers (tempVal : Nat) : List Nat := if tempVal = 0xFFFF then [] else [tempVal]

/-- The numbers that the loop of `ParseCmdGroupSub` stores, in their order. -/
def storedNumbers : Nat → List UInt8 → List Nat
  | _, [] => []
  | tempVal, c :: rest =>
    if isDigit c then
      let next := (if tempVal = 0xFFFF then 0 else tempVal) * 10 + digitValue c
      if next ≥ 0x0FF then [] else storedNumbers next rest
    else if c = char8 ',' then readNumbers tempVal ++ storedNumbers 0xFFFF rest
    else if c = char8 ']' then readNumbers tempVal
    else []

/-- The stores of `ParseCmdGroupSub`. -/
def groupSubWrites (line : List UInt8) : List Write :=
  if line = [] then []
  else memSet .raidHddNum 0xFFFF ::
    match afterKey 'G' line with
    | none => []
    | some body => oneByOne .raidHddNum 0 ((storedNumbers 0xFFFF body).map UInt16.ofNat)

/-- The stores of `ParseCmdGroup`, with the bound on its rounds. -/
def groupWrites : Nat → List UInt8 → List Write
  | 0, _ => []
  | rounds + 1, line =>
    groupSubWrites line ++
      match parseCmdGroupSub line with
      | .ok (some (_, rest)) => groupWrites rounds rest
      | _ => []

/-- The copy loop of `ParseCmdRaidSize` by itself: the characters it stores, and the rest
of the line unless a second point ends the parser. -/
def copyRun : Bool → List UInt8 → List UInt8 × Option (List UInt8)
  | _, [] => ([], some [])
  | aPoint, c :: rest =>
    if isDigit c ∨ c = char8 '.' then
      if c = char8 '.' ∧ aPoint then ([], none)
      else
        let later := copyRun (aPoint || c = char8 '.') rest
        (c :: later.1, later.2)
    else ([], some (c :: rest))

/-- The stores into the section once the unit and the bracket are accepted: the field is
cleared with its record, and then the whole array is copied. -/
def sectionWrites (copied : List UInt8) (rest : List UInt8) : List Write :=
  let unit := searchRaidSizeType rest
  if unit.1 = .non then []
  else if (rest.drop unit.2.length).head? ≠ some (char8 ']') then []
  else
    [memSet .sectionContext 0,
      ⟨.sectionContext, 0,
        (List.range raidSizeCapacity).map (fun i => (copied[i]?.getD 0).toUInt16)⟩]

/-- The stores of `ParseCmdRaidSize`. -/
def sizeWrites (line : List UInt8) : List Write :=
  if line = [] then []
  else memSet .raidSizeContext 0 ::
    match afterKey 'S' line with
    | none => []
    | some body =>
      if (body.head?.map isDigit).getD false then
        oneByOne .raidSizeContext 0 ((copyRun false body).1.map UInt8.toUInt16) ++
          match (copyRun false body).2 with
          | none => []
          | some rest => sectionWrites (copyRun false body).1 rest
      else []

/-- The stores of `AnalysisAndParseCmdString`. The other clause parsers write no array. -/
def analysisWrites (cmdCfgString : List UInt16) : List Write :=
  reConstructWrites cmdCfgString ++
    match reConstructTheCmdLine cmdCfgString with
    | none => []
    | some line =>
      match parseCmdSpecie line with
      | none => []
      | some _ => groupWrites line.length line ++ sizeWrites line

end Source

/-- Every write lies in its array, and both texts of a size have a terminator at every
moment. -/
structure Contained (writes : List Write) : Prop where
  inside : ∀ write ∈ writes, write.Inside Buffer.capacity
  context : Terminated Buffer.capacity .raidSizeContext writes
  section_ : Terminated Buffer.capacity .sectionContext writes

/-- The length of the number that a text starts with: digits, and a point with the digits
behind it. -/
def sizeRun (body : List UInt8) : Nat :=
  let whole := body.takeWhile isDigit
  if whole = [] then 0
  else match body.dropWhile isDigit with
    | [] => whole.length
    | c :: fraction =>
      if c = char8 '.' then whole.length + 1 + (fraction.takeWhile isDigit).length
      else whole.length

/-- The length of the number in the first size clause of a line with a command clause. -/
def sizeRunOf (cmdCfgString : List UInt16) : Nat :=
  match reConstructTheCmdLine cmdCfgString with
  | none => 0
  | some line =>
    if parseCmdSpecie line = none then 0 else ((afterKey 'S' line).map sizeRun).getD 0

/-- A command whose size is written with a given number of digits. -/
def sized (digits : Nat) : List UInt16 :=
  ("\x7bC:[B]S:[".toList ++ List.replicate digits '1' ++ "GB]\x7d".toList).map
    (fun c => UInt16.ofNat c.toNat)

section Normaliser

/-- The letters are changed in the command, in front of its end. -/
theorem upperWrites_spec (index : Nat) (text : List UInt8) :
    ∀ write ∈ upperWrites index text,
      write.target = .cmdString ∧ write.start + write.values.length ≤ index + text.length := by
  induction text generalizing index with
  | nil => simp [upperWrites]
  | cons c rest inductionHypothesis =>
    have later := inductionHypothesis (index + 1)
    rw [upperWrites]
    split
    · intro write member
      rcases List.mem_cons.mp member with rfl | member
      · simp
      · have fits := later write member
        simp only [List.length_cons]
        exact ⟨fits.1, by omega⟩
    · intro write member
      have fits := later write member
      simp only [List.length_cons]
      exact ⟨fits.1, by omega⟩

/-- No more characters are kept than there are. -/
theorem keptChars_length (leftPar leftBra : Bool) (text : List UInt8) :
    (keptChars leftPar leftBra text).length ≤ text.length := by
  induction text generalizing leftPar leftBra with
  | nil => simp [keptChars]
  | cons c rest inductionHypothesis =>
    rw [keptChars]
    split_ifs <;> simp only [List.length_cons, List.length_nil] <;>
      first
      | omega
      | exact Nat.succ_le_succ (inductionHypothesis _ _)
      | exact Nat.le_succ_of_le (inductionHypothesis _ _)

/-- An accepted line consists of the characters that were stored back. -/
theorem keptChars_of_accepted {leftPar leftBra : Bool} {text line : List UInt8}
    (accepted : deleteUselessChar leftPar leftBra text = some line) :
    keptChars leftPar leftBra text = line := by
  induction text generalizing leftPar leftBra line with
  | nil => cases accepted
  | cons c rest inductionHypothesis =>
    have kept {par bra : Bool} (result : (deleteUselessChar par bra rest).map (c :: ·) = some line) :
        c :: keptChars par bra rest = line := by
      obtain ⟨shorter, same, rfl⟩ := Option.map_eq_some_iff.mp result
      rw [inductionHypothesis same]
    rw [deleteUselessChar] at accepted
    rw [keptChars]
    split_ifs at accepted ⊢ <;>
      first
      | exact inductionHypothesis accepted
      | exact kept accepted
      | exact Option.some.inj accepted
      | simp_all

/-- Every store of the normaliser lies in the copy or in the second array. -/
theorem reConstructWrites_inside (oriCmdCfg : List UInt16) :
    ∀ write ∈ reConstructWrites oriCmdCfg, write.Inside Buffer.capacity ∧
      (write.target = .cmdString ∨ write.target = .tempString) := by
  rw [reConstructWrites]
  split
  · simp
  · rename_i fits
    have narrowed : (unicodeStrToAsciiStr oriCmdCfg).length ≤ oriCmdCfg.length := by
      simpa [unicodeStrToAsciiStr] using
        (List.takeWhile_sublist (· ≠ (0 : UInt8)) (l := oriCmdCfg.map UInt16.toUInt8)).length_le
    have copied (values : List UInt8) (short : values.length ≤ cmdStringSize) :
        ∀ write ∈ oneByOne Buffer.cmdString 0 (values.map UInt8.toUInt16),
          write.Inside Buffer.capacity ∧
            (write.target = .cmdString ∨ write.target = .tempString) := by
      intro write member
      have inside := (oneByOne_inside Buffer.capacity .cmdString 0
        (values.map UInt8.toUInt16)).mpr (Or.inr (by simpa [Buffer.capacity] using short))
      exact ⟨inside write member, Or.inl (oneByOne_target member)⟩
    have kept := keptChars_length false false ((unicodeStrToAsciiStr oriCmdCfg).map upperAscii)
    rw [List.length_map] at kept
    intro write member
    rcases List.mem_append.mp member with member | member
    · rcases List.mem_append.mp member with member | member
      · rcases List.mem_append.mp member with member | member
        · rw [List.mem_singleton.mp member]
          exact ⟨by simp [Store.Inside, memSet], Or.inl rfl⟩
        · refine copied _ ?_ write member
          simp only [List.length_append, List.length_map, List.length_singleton]
          omega
      · have spec := upperWrites_spec 0 (unicodeStrToAsciiStr oriCmdCfg) write member
        refine ⟨?_, Or.inl spec.1⟩
        rw [Store.Inside, spec.1, Buffer.capacity]
        omega
    · rw [deleteUselessWrites] at member
      rcases List.mem_append.mp member with member | member
      · simp only [List.mem_cons, List.not_mem_nil, or_false] at member
        rcases member with rfl | rfl | rfl
        · exact ⟨by simp [Store.Inside, memSet], Or.inr rfl⟩
        · exact ⟨by simp [Store.Inside, Buffer.capacity], Or.inr rfl⟩
        · exact ⟨by simp [Store.Inside, memSet], Or.inl rfl⟩
      · exact copied _ (by omega) write member

end Normaliser

section Groups

/-- The text of a number gives one number at most. -/
theorem readNumbers_length (tempVal : Nat) :
    (readNumbers tempVal).length = if tempVal = 0xFFFF then 0 else 1 := by
  rw [readNumbers]
  split <;> rfl

/-- A number that is stored takes a digit and a separator. -/
theorem storedNumbers_length (tempVal : Nat) (line : List UInt8) :
    2 * (storedNumbers tempVal line).length ≤
      line.length + if tempVal = 0xFFFF then 0 else 1 := by
  induction line generalizing tempVal with
  | nil => simp [storedNumbers]
  | cons c rest inductionHypothesis =>
    have one := readNumbers_length tempVal
    rw [storedNumbers, List.length_cons]
    by_cases digit : isDigit c = true
    · rw [if_pos digit]
      simp only
      by_cases large : (if tempVal = 0xFFFF then 0 else tempVal) * 10 + digitValue c ≥ 0x0FF
      · rw [if_pos large]
        simp
      · rw [if_neg large]
        have shorter := inductionHypothesis
          ((if tempVal = 0xFFFF then 0 else tempVal) * 10 + digitValue c)
        have unmarked : (if tempVal = 0xFFFF then 0 else tempVal) * 10 + digitValue c ≠ 0xFFFF := by
          omega
        rw [if_neg unmarked] at shorter
        omega
    · rw [if_neg digit]
      by_cases comma : c = char8 ','
      · rw [if_pos comma, List.length_append, one]
        have shorter := inductionHypothesis 0xFFFF
        rw [if_pos rfl] at shorter
        split <;> omega
      · rw [if_neg comma]
        by_cases bracket : c = char8 ']'
        · rw [if_pos bracket, one]
          split <;> omega
        · rw [if_neg bracket]
          simp

/-- The group parser's loop returns what it stored, as long as the array has room. -/
theorem readGroup_stored (tempVal : Nat) (numbers : List Nat) (line : List UInt8)
    (room : numbers.length + (storedNumbers tempVal line).length ≤ raidHddCapacity) :
    readGroup tempVal numbers line = .ok none ∨
      ∃ rest, readGroup tempVal numbers line =
          .ok (some (numbers ++ storedNumbers tempVal line, rest)) ∧
        rest.length ≤ line.length := by
  induction line generalizing tempVal numbers with
  | nil => exact Or.inl rfl
  | cons c rest inductionHypothesis =>
    have recorded (fits : numbers.length + (readNumbers tempVal).length ≤ raidHddCapacity) :
        recordHdd tempVal numbers = .ok (numbers ++ readNumbers tempVal) := by
      rw [recordHdd, readNumbers]
      by_cases unread : tempVal = 0xFFFF
      · rw [if_pos unread, if_pos unread, List.append_nil]
      · rw [readNumbers, if_neg unread, List.length_singleton] at fits
        rw [if_neg unread, if_neg (by omega), if_neg unread]
    rw [storedNumbers] at room ⊢
    rw [readGroup]
    by_cases digit : isDigit c = true
    · rw [if_pos digit] at room ⊢
      rw [if_pos digit]
      simp only at room ⊢
      by_cases large : (if tempVal = 0xFFFF then 0 else tempVal) * 10 + digitValue c ≥ 0x0FF
      · rw [if_pos large]
        exact Or.inl rfl
      · rw [if_neg large] at room ⊢
        rw [if_neg large]
        rcases inductionHypothesis _ numbers room with refused | ⟨last, read, shorter⟩
        · exact Or.inl refused
        · exact Or.inr ⟨last, read, Nat.le_succ_of_le shorter⟩
    · rw [if_neg digit] at room ⊢
      rw [if_neg digit]
      by_cases comma : c = char8 ','
      · rw [if_pos comma] at room ⊢
        rw [if_pos comma]
        rw [List.length_append] at room
        rw [recorded (by omega)]
        rcases inductionHypothesis 0xFFFF (numbers ++ readNumbers tempVal)
          (by rw [List.length_append]; omega) with refused | ⟨last, read, shorter⟩
        · exact Or.inl refused
        · rw [List.append_assoc] at read
          exact Or.inr ⟨last, read, Nat.le_succ_of_le shorter⟩
      · rw [if_neg comma] at room ⊢
        rw [if_neg comma]
        by_cases bracket : c = char8 ']'
        · rw [if_pos bracket] at room ⊢
          rw [if_pos bracket, recorded room]
          exact Or.inr ⟨c :: rest, rfl, le_rfl⟩
        · rw [if_neg bracket]
          exact Or.inl rfl

/-- What follows a key is shorter than the line. -/
theorem afterKey_length {letter : Char} {line body : List UInt8}
    (found : afterKey letter line = some body) : body.length ≤ line.length := by
  have suffix := (strstr_suffix line (clauseKey letter)).length_le
  rw [afterKey] at found
  split at found
  · cases found
  · rename_i searched _
    obtain rfl := Option.some.inj found
    rw [List.length_drop]
    omega

/-- A group of a short line does not fill its array. -/
theorem groupSub_room {line body : List UInt8} (short : line.length < cmdStringSize)
    (found : afterKey 'G' line = some body) :
    (storedNumbers 0xFFFF body).length ≤ raidHddCapacity := by
  have shorter := afterKey_length found
  have stored := storedNumbers_length 0xFFFF body
  rw [if_pos rfl] at stored
  simp only [cmdStringSize] at short
  simp only [raidHddCapacity]
  omega

/-- `ParseCmdGroupSub` returns on a short line, with a line that is no longer. -/
theorem parseCmdGroupSub_short {line : List UInt8} (short : line.length < cmdStringSize) :
    parseCmdGroupSub line = .ok none ∨
      ∃ section_ rest, parseCmdGroupSub line = .ok (some (section_, rest)) ∧
        rest.length ≤ line.length := by
  rw [parseCmdGroupSub]
  cases found : afterKey 'G' line with
  | none => exact Or.inl rfl
  | some body =>
    simp only
    have room := groupSub_room short found
    have shorter := afterKey_length found
    rcases readGroup_stored 0xFFFF [] body (by simpa using room) with
      refused | ⟨rest, read, behind⟩
    · rw [refused]
      exact Or.inl rfl
    · rw [read]
      cases stored : [] ++ storedNumbers 0xFFFF body with
      | nil => exact Or.inl rfl
      | cons number numbers => exact Or.inr ⟨_, rest, rfl, behind.trans shorter⟩

/-- The group parser returns on a short line. -/
theorem parseCmdGroup_returns {line : List UInt8} (short : line.length < cmdStringSize) :
    ∃ groups, parseCmdGroup line = .ok groups := by
  have loop (rounds : Nat) : ∀ line : List UInt8, line.length < cmdStringSize →
      ∃ groups, parseCmdGroupLoop rounds line = .ok groups := by
    induction rounds with
    | zero => exact fun line _ => ⟨[], rfl⟩
    | succ rounds inductionHypothesis =>
      intro line short
      rw [parseCmdGroupLoop]
      rcases parseCmdGroupSub_short short with refused | ⟨section_, rest, parsed, shorter⟩
      · rw [refused]
        exact ⟨[], rfl⟩
      · obtain ⟨groups, following⟩ := inductionHypothesis rest (by omega)
        rw [parsed]
        exact ⟨section_ :: groups, by simp only [bind, Except.bind, following]⟩
  exact loop line.length line short

/-- The numbers of a group fit their array: each takes a digit and a separator of a line of
fewer than 255 characters. -/
theorem groupSubWrites_inside {line : List UInt8} (short : line.length < cmdStringSize) :
    ∀ write ∈ groupSubWrites line,
      write.Inside Buffer.capacity ∧ write.target = .raidHddNum := by
  rw [groupSubWrites]
  split
  · simp
  · intro write member
    rcases List.mem_cons.mp member with rfl | member
    · exact ⟨by simp [Store.Inside, memSet], rfl⟩
    · cases found : afterKey 'G' line with
      | none =>
        rw [found] at member
        cases member
      | some body =>
        rw [found] at member
        have inside := (oneByOne_inside Buffer.capacity .raidHddNum 0
          ((storedNumbers 0xFFFF body).map UInt16.ofNat)).mpr
          (Or.inr (by simpa [Buffer.capacity] using groupSub_room short found))
        exact ⟨inside write member, oneByOne_target member⟩

/-- Every store of the group parser lies in its array of numbers. -/
theorem groupWrites_inside (rounds : Nat) (line : List UInt8)
    (short : line.length < cmdStringSize) :
    ∀ write ∈ groupWrites rounds line,
      write.Inside Buffer.capacity ∧ write.target = .raidHddNum := by
  induction rounds generalizing line with
  | zero => simp [groupWrites]
  | succ rounds inductionHypothesis =>
    intro write member
    rw [groupWrites] at member
    rcases List.mem_append.mp member with member | member
    · exact groupSubWrites_inside short write member
    · rcases parseCmdGroupSub_short short with refused | ⟨section_, rest, parsed, shorter⟩
      · rw [refused] at member
        cases member
      · rw [parsed] at member
        exact inductionHypothesis rest (by omega) write member

end Groups

section Size

/-- A point is no digit. -/
theorem point_not_digit : isDigit (char8 '.') = false := by decide

/-- Behind a point the copy runs over digits. -/
theorem copyRun_point (body : List UInt8) :
    (copyRun true body).1 = body.takeWhile isDigit := by
  induction body with
  | nil => rfl
  | cons c rest inductionHypothesis =>
    rw [copyRun]
    by_cases digit : isDigit c = true
    · have noPoint : c ≠ char8 '.' := digit_ne digit (by decide)
      simp [digit, noPoint, inductionHypothesis]
    · by_cases point : c = char8 '.'
      · simp [point, point_not_digit]
      · simp [digit, point]

/-- Before a point the copy runs over digits, and goes on behind it. -/
theorem copyRun_digits (body : List UInt8) :
    (copyRun false body).1 = body.takeWhile isDigit ++
      match body.dropWhile isDigit with
      | [] => []
      | c :: fraction => if c = char8 '.' then c :: fraction.takeWhile isDigit else [] := by
  induction body with
  | nil => rfl
  | cons c rest inductionHypothesis =>
    rw [copyRun]
    by_cases digit : isDigit c = true
    · have noPoint : c ≠ char8 '.' := digit_ne digit (by decide)
      simp [digit, noPoint, inductionHypothesis]
    · by_cases point : c = char8 '.'
      · simp [point, copyRun_point, point_not_digit]
      · simp [digit, point]

/-- What the copy stores of a text that starts with a digit is its number. -/
theorem copyRun_length (body : List UInt8)
    (leading : (body.head?.map isDigit).getD false = true) :
    (copyRun false body).1.length = sizeRun body := by
  have copied := copyRun_digits body
  have starts : body.takeWhile isDigit ≠ [] := by
    cases body with
    | nil => cases leading
    | cons c rest =>
      have digit : isDigit c = true := by simpa using leading
      simp [digit]
  rw [copied, sizeRun]
  simp only [if_neg starts, List.length_append]
  cases body.dropWhile isDigit with
  | nil => rfl
  | cons c fraction =>
    simp only
    split
    · rw [List.length_cons]
      omega
    · rfl

/-- Only digits and points are copied. -/
theorem copyRun_chars (aPoint : Bool) (body : List UInt8) :
    ∀ c ∈ (copyRun aPoint body).1, isDigit c = true ∨ c = char8 '.' := by
  induction body generalizing aPoint with
  | nil => simp [copyRun]
  | cons c rest inductionHypothesis =>
    rw [copyRun]
    by_cases copied : isDigit c = true ∨ c = char8 '.'
    · rw [if_pos copied]
      by_cases second : c = char8 '.' ∧ aPoint
      · rw [if_pos second]
        simp
      · rw [if_neg second]
        intro d member
        rcases List.mem_cons.mp member with rfl | later
        · exact copied
        · exact inductionHypothesis _ d later
    · rw [if_neg copied]
      simp

/-- The copy loop that faults behind its array stores the same characters. -/
theorem copySize_run (aPoint : Bool) (copied body : List UInt8)
    (fits : copied.length ≤ raidSizeCapacity) :
    copySize aPoint copied body =
      if copied.length + (copyRun aPoint body).1.length ≤ raidSizeCapacity then
        .ok ((copyRun aPoint body).2.map (fun rest => (copied ++ (copyRun aPoint body).1, rest)))
      else .error .overflow := by
  induction body generalizing aPoint copied with
  | nil => simp [copySize, copyRun, fits]
  | cons c rest inductionHypothesis =>
    rw [copySize, copyRun]
    by_cases taken : isDigit c = true ∨ c = char8 '.'
    · rw [if_pos taken, if_pos taken]
      by_cases second : c = char8 '.' ∧ aPoint
      · rw [if_pos second, if_pos second]
        simp [fits]
      · rw [if_neg second, if_neg second]
        simp only [List.length_cons]
        by_cases full : copied.length ≥ raidSizeCapacity
        · rw [if_pos full, if_neg (by omega)]
        · rw [if_neg full, inductionHypothesis _ (copied ++ [c]) (by simp; omega)]
          simp only [List.length_append, List.length_singleton, List.append_assoc,
            List.singleton_append, Nat.add_assoc, Nat.add_comm 1]
    · rw [if_neg taken, if_neg taken]
      simp [fits]

/-- The characters that the size parser stores for a line. -/
def sizeCopied (line : List UInt8) : List UInt8 :=
  match afterKey 'S' line with
  | none => []
  | some body => if (body.head?.map isDigit).getD false then (copyRun false body).1 else []

/-- The stores of the size parser behind its copy loop. -/
def sizeSection (line : List UInt8) : List Write :=
  match afterKey 'S' line with
  | none => []
  | some body =>
    if (body.head?.map isDigit).getD false then
      match (copyRun false body).2 with
      | none => []
      | some rest => sectionWrites (copyRun false body).1 rest
    else []

/-- The writes for a size: the array is cleared, the text is copied byte by byte, and the
section is stored. -/
theorem sizeWrites_eq {line : List UInt8} (nonempty : line ≠ []) :
    sizeWrites line = memSet .raidSizeContext 0 ::
      (oneByOne .raidSizeContext 0 ((sizeCopied line).map UInt8.toUInt16) ++ sizeSection line) := by
  rw [sizeWrites, if_neg nonempty, sizeCopied, sizeSection]
  cases afterKey 'S' line with
  | none => rfl
  | some body =>
    simp only
    split <;> rfl

/-- As many characters are copied as the text of the size has. -/
theorem sizeCopied_length (line : List UInt8) :
    (sizeCopied line).length = ((afterKey 'S' line).map sizeRun).getD 0 := by
  rw [sizeCopied]
  cases afterKey 'S' line with
  | none => rfl
  | some body =>
    by_cases leading : (body.head?.map isDigit).getD false = true
    · simp only [if_pos leading, Option.map_some, Option.getD_some]
      exact copyRun_length body leading
    · have empty : body.takeWhile isDigit = [] := by
        cases body with
        | nil => rfl
        | cons c rest =>
          have other : isDigit c ≠ true := by simpa using leading
          simp [other]
      simp [leading, sizeRun, empty]

/-- The size parser returns exactly if its copy loop stays inside. -/
theorem parseCmdRaidSize_returns (line : List UInt8) :
    (∃ size, parseCmdRaidSize line = .ok size) ↔ (sizeCopied line).length ≤ raidSizeCapacity := by
  rw [parseCmdRaidSize, sizeCopied]
  cases afterKey 'S' line with
  | none => simp
  | some body =>
    simp only
    by_cases leading : (body.head?.map isDigit).getD false = true
    · rw [if_pos leading, if_pos leading, copySize_run false [] body (Nat.zero_le _)]
      simp only [List.length_nil, Nat.zero_add, List.nil_append]
      by_cases fits : (copyRun false body).1.length ≤ raidSizeCapacity
      · rw [if_pos fits]
        refine iff_of_true ?_ fits
        cases (copyRun false body).2 with
        | none => exact ⟨none, rfl⟩
        | some rest =>
          simp only [bind, Except.bind, Option.map_some]
          split
          · exact ⟨none, rfl⟩
          · split
            · exact ⟨none, rfl⟩
            · exact ⟨_, rfl⟩
      · rw [if_neg fits]
        refine iff_of_false ?_ fits
        rintro ⟨size, returned⟩
        cases returned
    · simp [leading]

/-- A character of a size is not the terminator. -/
theorem sizeCopied_nonzero {line : List UInt8} {c : UInt8} (member : c ∈ sizeCopied line) :
    c.toUInt16 ≠ 0 := by
  have written : isDigit c = true ∨ c = char8 '.' := by
    rw [sizeCopied] at member
    cases found : afterKey 'S' line with
    | none =>
      rw [found] at member
      cases member
    | some body =>
      simp only [found] at member
      split at member
      · exact copyRun_chars false body c member
      · cases member
  have zero : isDigit 0 = false := by decide
  have point : (0 : UInt8) ≠ char8 '.' := by decide
  intro terminator
  have none : c = 0 := UInt8.toNat.inj (by simpa using congrArg UInt16.toNat terminator)
  rcases written with digit | same
  · exact digit_ne digit zero none
  · exact point (none ▸ same)

/-- The section is either not made, or its field is cleared and then filled from the array. -/
theorem sizeSection_cases (line : List UInt8) :
    sizeSection line = [] ∨ sizeSection line = [memSet .sectionContext 0,
      ⟨.sectionContext, 0, (List.range raidSizeCapacity).map
        (fun i => ((sizeCopied line)[i]?.getD 0).toUInt16)⟩] := by
  rw [sizeSection, sizeCopied]
  cases afterKey 'S' line with
  | none => exact Or.inl rfl
  | some body =>
    simp only
    split
    · cases (copyRun false body).2 with
      | none => exact Or.inl rfl
      | some rest =>
        simp only [sectionWrites]
        split
        · exact Or.inl rfl
        · split
          · exact Or.inl rfl
          · exact Or.inr rfl
    · exact Or.inl rfl

/-- The section of a size is stored in its own array. -/
theorem sizeSection_inside (line : List UInt8) :
    ∀ write ∈ sizeSection line,
      write.Inside Buffer.capacity ∧ write.target = .sectionContext := by
  rcases sizeSection_cases line with none | made
  · simp [none]
  · rw [made]
    intro write member
    simp only [List.mem_cons, List.not_mem_nil, or_false] at member
    rcases member with rfl | rfl
    · exact ⟨by simp [Store.Inside, memSet], rfl⟩
    · exact ⟨by simp [Store.Inside, Buffer.capacity], rfl⟩

end Size

section Whole

/-- A write of a buffer that holds no text of a size. -/
def Apart (write : Write) : Prop :=
  write.Inside Buffer.capacity ∧ write.target ≠ .raidSizeContext ∧ write.target ≠ .sectionContext

/-- Writes that stay apart from the two small arrays are contained. -/
theorem contained_of_apart {writes : List Write} (apart : ∀ write ∈ writes, Apart write) :
    Contained writes where
  inside write member := (apart write member).1
  context := terminated_of_other (fun write member => (apart write member).2.1)
  section_ := terminated_of_other (fun write member => (apart write member).2.2)

/-- The normaliser writes the command and its second array only, and inside of both. -/
theorem reConstructWrites_apart (oriCmdCfg : List UInt16) :
    ∀ write ∈ reConstructWrites oriCmdCfg, Apart write := by
  intro write member
  obtain ⟨inside, target | target⟩ := reConstructWrites_inside oriCmdCfg write member
  · exact ⟨inside, by rw [target]; decide, by rw [target]; decide⟩
  · exact ⟨inside, by rw [target]; decide, by rw [target]; decide⟩

variable {early : List Write} {line : List UInt8}

/-- The size parser stays inside exactly if its copy loop does. -/
theorem sizeWrites_inside (nonempty : line ≠ []) :
    (∀ write ∈ sizeWrites line, write.Inside Buffer.capacity) ↔
      (sizeCopied line).length ≤ raidSizeCapacity := by
  rw [sizeWrites_eq nonempty, List.forall_mem_cons, List.forall_mem_append, oneByOne_inside,
    List.map_eq_nil_iff, List.length_map, Nat.zero_add]
  constructor
  · rintro ⟨-, empty | fits, -⟩
    · rw [empty]
      exact Nat.zero_le _
    · exact fits
  · intro fits
    exact ⟨by simp [Store.Inside, memSet], Or.inr fits,
      fun write member => (sizeSection_inside line write member).1⟩

/-- With a shorter text everything stays inside, and the last cell of both arrays is zero. -/
theorem contained_of_short (apart : ∀ write ∈ early, Apart write) (nonempty : line ≠ [])
    (short : (sizeCopied line).length < raidSizeCapacity) :
    Contained (early ++ sizeWrites line) := by
  have unused : (sizeCopied line)[raidSizeCapacity - 1]? = none :=
    List.getElem?_eq_none (by omega)
  have inside : ∀ write ∈ early ++ sizeWrites line, write.Inside Buffer.capacity :=
    List.forall_mem_append.mpr ⟨fun write member => (apart write member).1,
      (sizeWrites_inside nonempty).mpr short.le⟩
  refine ⟨inside, ?_, ?_⟩
  all_goals rw [sizeWrites_eq nonempty]
  · have room : raidSizeCapacity - 1 < Buffer.raidSizeContext.capacity := by decide
    refine terminated_of_cleared early _ (fun write member => (apart write member).2.1) room ?_
    intro write member value covers
    rcases List.mem_append.mp member with member | member
    · have held := (at_of_oneByOne member covers).2
      rw [Nat.sub_zero, List.getElem?_map, unused] at held
      cases held
    · rw [Store.at_other (by rw [(sizeSection_inside line write member).2]; decide)] at covers
      cases covers
  · have regroup : early ++ memSet .raidSizeContext 0 :: (oneByOne .raidSizeContext 0
          ((sizeCopied line).map UInt8.toUInt16) ++ sizeSection line) =
        (early ++ memSet .raidSizeContext 0 :: oneByOne .raidSizeContext 0
          ((sizeCopied line).map UInt8.toUInt16)) ++ sizeSection line := by simp
    have untouched : ∀ write ∈ early ++ memSet .raidSizeContext 0 :: oneByOne .raidSizeContext 0
        ((sizeCopied line).map UInt8.toUInt16), write.target ≠ .sectionContext := by
      intro write member
      rcases List.mem_append.mp member with member | member
      · exact (apart write member).2.2
      · rcases List.mem_cons.mp member with rfl | member
        · decide
        · rw [oneByOne_target member]
          decide
    rw [regroup]
    rcases sizeSection_cases line with none | made
    · rw [none, List.append_nil]
      exact terminated_of_other untouched
    · have room : raidSizeCapacity - 1 < Buffer.sectionContext.capacity := by decide
      rw [made]
      refine terminated_of_cleared _ _ untouched room ?_
      intro write member value covers
      obtain rfl := List.mem_singleton.mp member
      have last : value = ((sizeCopied line)[raidSizeCapacity - 1]?.getD 0).toUInt16 := by
        simpa [Store.at, raidSizeCapacity] using covers.symm
      rw [last, unused]
      rfl

/-- A longer text leaves the array, and one of its length leaves no terminator. -/
theorem short_of_contained (nonempty : line ≠ [])
    (contained : Contained (early ++ sizeWrites line)) :
    (sizeCopied line).length < raidSizeCapacity := by
  have fits : (sizeCopied line).length ≤ raidSizeCapacity :=
    (sizeWrites_inside nonempty).mp
      (fun write member => contained.inside write (List.mem_append_right early member))
  by_contra long
  have full : (sizeCopied line).length = raidSizeCapacity :=
    Nat.le_antisymm fits (Nat.not_lt.mp long)
  rw [sizeWrites_eq nonempty] at contained
  obtain ⟨index, inside, terminator⟩ := contained.context
    (early ++ memSet .raidSizeContext 0 ::
      oneByOne .raidSizeContext 0 ((sizeCopied line).map UInt8.toUInt16))
    ⟨sizeSection line, by simp⟩
    ⟨memSet .raidSizeContext 0, List.mem_append_right early List.mem_cons_self, rfl⟩
  have reached : index < (sizeCopied line).length := by
    rw [full]
    exact inside
  rw [cell_append, cell, cell_oneByOne, if_pos (Nat.zero_le index), Nat.sub_zero,
    List.getElem?_map, List.getElem?_eq_getElem reached] at terminator
  exact sizeCopied_nonzero (List.getElem_mem reached) (Option.some.inj terminator)

/-- The stores before the size parser are apart from the texts of a size. -/
theorem apart_before {cmdCfgString : List UInt16} {rounds : Nat}
    (short : line.length < cmdStringSize) :
    ∀ write ∈ reConstructWrites cmdCfgString ++ groupWrites rounds line, Apart write := by
  intro write member
  rcases List.mem_append.mp member with member | member
  · exact reConstructWrites_apart cmdCfgString write member
  · obtain ⟨inside, target⟩ := groupWrites_inside rounds line short write member
    exact ⟨inside, by rw [target]; decide, by rw [target]; decide⟩

/-- The parser that faults behind its arrays returns exactly if every store is inside. -/
theorem analysis_returns_iff (cmdCfgString : List UInt16) :
    (∃ sections, analysisAndParseCmdString cmdCfgString = .ok sections) ↔
      ∀ write ∈ analysisWrites cmdCfgString, write.Inside Buffer.capacity := by
  have normaliser := reConstructWrites_apart cmdCfgString
  rw [analysisAndParseCmdString, analysisWrites]
  cases normal : reConstructTheCmdLine cmdCfgString with
  | none =>
    simp only [List.append_nil]
    exact iff_of_true ⟨none, rfl⟩ (fun write member => (normaliser write member).1)
  | some line =>
    cases specie : parseCmdSpecie line with
    | none =>
      simp only [specie, List.append_nil]
      exact iff_of_true ⟨none, rfl⟩ (fun write member => (normaliser write member).1)
    | some command =>
      have short := reConstructTheCmdLine_length cmdCfgString line normal
      have nonempty : line ≠ [] := by
        rintro rfl
        cases specie
      obtain ⟨groups, grouped⟩ := parseCmdGroup_returns short
      simp only [specie]
      rw [← List.append_assoc, List.forall_mem_append, sizeWrites_inside nonempty,
        ← parseCmdRaidSize_returns, grouped]
      simp only [bind, Except.bind]
      constructor
      · rintro ⟨sections, returned⟩
        refine ⟨fun write member => (apart_before short write member).1, ?_⟩
        cases sized : parseCmdRaidSize line with
        | error fault =>
          rw [sized] at returned
          cases returned
        | ok size => exact ⟨size, rfl⟩
      · rintro ⟨-, size, sized⟩
        rw [sized]
        exact ⟨_, rfl⟩

/-- What the parser writes stays in its arrays, and the text of a size is terminated, exactly if the
number of the first size clause leaves room for the terminator. The string is arbitrary; all other
arrays are large enough for every string. -/
theorem analysisWrites_contained_iff (cmdCfgString : List UInt16) :
    Contained (analysisWrites cmdCfgString) ↔ sizeRunOf cmdCfgString < raidSizeCapacity := by
  have normaliser := reConstructWrites_apart cmdCfgString
  rw [analysisWrites, sizeRunOf]
  cases normal : reConstructTheCmdLine cmdCfgString with
  | none =>
    simp only [List.append_nil]
    exact iff_of_true (contained_of_apart normaliser) (by decide)
  | some line =>
    cases specie : parseCmdSpecie line with
    | none =>
      simp only [specie, List.append_nil, if_true]
      exact iff_of_true (contained_of_apart normaliser) (by decide)
    | some command =>
      have short := reConstructTheCmdLine_length cmdCfgString line normal
      have nonempty : line ≠ [] := by
        rintro rfl
        cases specie
      simp only [specie, reduceCtorEq, if_false]
      rw [← List.append_assoc, ← sizeCopied_length]
      exact ⟨short_of_contained nonempty, contained_of_short (apart_before short) nonempty⟩

/-- The eighty-first digit of a size is written behind the array. -/
theorem not_always_contained :
    ¬ ∀ cmdCfgString : List UInt16, cmdCfgString.length < cmdStringSize →
      Contained (analysisWrites cmdCfgString) := by
  intro contained
  have all := (contained (sized 81) (by decide +kernel)).inside
  revert all
  decide +kernel

end Whole

end SmcPkg.CmdWrites
