import SmcPkg.RaidOob.SetupRoutes

/-!
# Rounds of the enumeration

The calls of `SmcLsiRaidLib_ParseNvData` share a cursor of three parts. Between two calls
the three stand for the setup variables that are still to be handed out. When there is
none left a call says so and sets the cursor back, so the calls go round.

The lists of the cards do not change between two calls, and the copies that a call hands out get
their pools. The static variables may hold anything that earlier calls have left.
-/

namespace SmcPkg.SetupVars

open CString RaidCmd VarTable Card ApplyData BrowserHook Session

variable {σ : Type} {cards : List (SetupCard σ)}

/-- `SmcLsiRaidLib_ParseNvData`. -/
def parseNvData (reNew : Bool) (cards : List (SetupCard σ)) (cursor : NvCursor σ) :
    Checked (Option NvData × NvCursor σ) :=
  smcLsiRaidLibParseNvData cards { cursor with reNewVar := reNew || cursor.reNewVar }

/-- What calls one after the other come back with, by the argument `ReNew` of each. -/
def parseNvRun (cards : List (SetupCard σ)) :
    List Bool → NvCursor σ → Checked (List (Option NvData))
  | [], _ => .ok []
  | reNew :: calls, cursor => do
    let (data, cursor) ← parseNvData reNew cards cursor
    .ok (data :: (← parseNvRun cards calls cursor))

/-- What a call hands out for a setup variable, and for the end. -/
def handOut : Option (Nat × CardState σ × RaidVar) → Checked (Option NvData)
  | none => .ok none
  | some (index, card, var) => do
    let bytes ← readVar card.tables var
    .ok (some ⟨index, asciiStrToUnicodeStr var.raidVarName, var.raidVarGuid, bytes⟩)

/-- One round: the setup variables of all cards, and the end. -/
def round (cards : List (SetupCard σ)) : List (Option (Nat × CardState σ × RaidVar)) :=
  (allVars cards).map some ++ [none]

/-- A round gives all variables and then the end. -/
theorem round_then (tail : List (Option (Nat × CardState σ × RaidVar))) :
    (allVars cards).map some ++ none :: tail = round cards ++ tail := by
  rw [round, List.append_assoc, List.singleton_append]

/-- The first entries of round after round. -/
def rounds (cards : List (SetupCard σ)) (calls : Nat) :
    List (Option (Nat × CardState σ × RaidVar)) :=
  (List.replicate calls (round cards)).flatten.take calls

/-- The variables that a cursor stands for. -/
def NvCursor.left (cards : List (SetupCard σ)) (cursor : NvCursor σ) :
    List (Nat × CardState σ × RaidVar) :=
  if cursor.reNewVar then allVars cards else cursor.pending

/-- The cursor that a call goes on with, after it has started over if it has to. -/
def NvCursor.renewed (cards : List (SetupCard σ)) (cursor : NvCursor σ) : NvCursor σ :=
  if cursor.reNewVar then ⟨true, cards.zipIdx.map Prod.swap, []⟩ else cursor

/-- A renewed cursor has all variables before it. -/
theorem renewed_pending (cursor : NvCursor σ) :
    (cursor.renewed cards).pending = cursor.left cards := by
  rw [NvCursor.renewed, NvCursor.left]
  split
  · rfl
  · rfl

/-- The variables at hand, after the search for the next card that has some. -/
def NvCursor.atHand (cursor : NvCursor σ) :
    List (Nat × CardState σ × RaidVar) × List (Nat × SetupCard σ) :=
  if cursor.vars = [] then nextVars cursor.cards else (cursor.vars, cursor.cards)

/-- The search for the variables at hand loses none. -/
theorem atHand_pending (cursor : NvCursor σ) :
    cursor.atHand.1 ++ cursor.atHand.2.flatMap nvVars = cursor.pending ∧
      (cursor.atHand.1 = [] → cursor.pending = []) := by
  rw [NvCursor.atHand]
  split
  · rename_i none
    obtain ⟨next, nextEmpty⟩ := nextVars_pending cursor.cards
    rw [NvCursor.pending, none, List.nil_append]
    exact ⟨next, nextEmpty⟩
  · rename_i nonempty
    exact ⟨rfl, fun none => absurd none nonempty⟩

/-- A call that has no variables at hand. -/
theorem parseNvData_empty {cursor : NvCursor σ}
    (hand : (cursor.renewed cards).atHand.1 = []) :
    smcLsiRaidLibParseNvData cards cursor =
      .ok (none, ⟨true, (cursor.renewed cards).atHand.2, []⟩) := by
  generalize pair : (cursor.renewed cards).atHand = found at hand ⊢
  obtain ⟨vars, rest⟩ := found
  subst hand
  rw [NvCursor.atHand, NvCursor.renewed] at pair
  simp only [smcLsiRaidLibParseNvData, pair]

/-- A call that has variables at hand. -/
theorem parseNvData_cons {cursor : NvCursor σ} {entry : Nat × CardState σ × RaidVar}
    {vars : List (Nat × CardState σ × RaidVar)}
    (hand : (cursor.renewed cards).atHand.1 = entry :: vars) :
    smcLsiRaidLibParseNvData cards cursor =
      handOut (some entry) >>= fun data =>
        .ok (data, ⟨false, (cursor.renewed cards).atHand.2, vars⟩) := by
  obtain ⟨index, card, var⟩ := entry
  generalize pair : (cursor.renewed cards).atHand = found at hand ⊢
  obtain ⟨left, rest⟩ := found
  subst hand
  rw [NvCursor.atHand, NvCursor.renewed] at pair
  simp only [smcLsiRaidLibParseNvData, pair, handOut]
  cases readVar card.tables var with
  | error fault => rfl
  | ok bytes => rfl

/-- One call with nothing left comes to the end, and the next one starts over. -/
theorem parseNvData_end {cursor : NvCursor σ} (none : cursor.left cards = []) :
    ∃ later, smcLsiRaidLibParseNvData cards cursor = .ok (Option.none, later) ∧
      later.left cards = allVars cards := by
  have whole := (atHand_pending (cursor.renewed cards)).1
  rw [renewed_pending, none, List.append_eq_nil_iff] at whole
  exact ⟨⟨true, (cursor.renewed cards).atHand.2, []⟩, parseNvData_empty whole.1, rfl⟩

/-- One call with variables left hands out the first of them. -/
theorem parseNvData_next {cursor : NvCursor σ} {entry : Nat × CardState σ × RaidVar}
    {more : List (Nat × CardState σ × RaidVar)} (nonempty : cursor.left cards = entry :: more) :
    ∃ later, smcLsiRaidLibParseNvData cards cursor =
        (handOut (some entry) >>= fun data => .ok (data, later)) ∧ later.left cards = more := by
  obtain ⟨whole, empty⟩ := atHand_pending (cursor.renewed cards)
  rw [renewed_pending, nonempty] at whole empty
  cases hand : (cursor.renewed cards).atHand.1 with
  | nil => exact absurd (empty hand) (List.cons_ne_nil entry more)
  | cons first vars =>
    rw [hand] at whole
    obtain ⟨rfl, rfl⟩ := List.cons.inj whole
    exact ⟨⟨false, (cursor.renewed cards).atHand.2, vars⟩, parseNvData_cons hand, rfl⟩

/-- Calls that do not start over by themselves, from any cursor. -/
theorem parseNvRun_left (calls more : Nat) (enough : calls ≤ more) (cursor : NvCursor σ) :
    parseNvRun cards (List.replicate calls false) cursor =
      (((cursor.left cards).map some ++ none ::
        (List.replicate more (round cards)).flatten).take calls).mapM handOut := by
  induction calls generalizing cursor more with
  | zero => rfl
  | succ calls inductionHypothesis =>
    rw [List.replicate_succ, parseNvRun, parseNvData, Bool.false_or]
    cases left : cursor.left cards with
    | nil =>
      obtain ⟨later, done, next⟩ := parseNvData_end left
      obtain ⟨more, rfl⟩ : ∃ fewer, more = fewer + 1 := ⟨more - 1, by omega⟩
      have rest := inductionHypothesis more (by omega) later
      rw [next] at rest
      have again : (allVars cards).map some ++ none :: (List.replicate more (round cards)).flatten =
          (List.replicate (more + 1) (round cards)).flatten := by
        rw [round_then, List.replicate_succ, List.flatten_cons]
      rw [again] at rest
      simp only [done, rest, bind, Except.bind, List.map_nil, List.nil_append,
        List.take_succ_cons, List.mapM_cons, handOut]
      rfl
    | cons entry rest =>
      obtain ⟨later, done, next⟩ := parseNvData_next left
      have rest := inductionHypothesis more (by omega) later
      rw [next] at rest
      simp only [done, List.map_cons, List.cons_append, List.take_succ_cons, List.mapM_cons]
      cases handed : handOut (some entry) with
      | error fault => rfl
      | ok data =>
        simp only [rest, bind, Except.bind]
        rfl

/-- There are enough entries in as many rounds as calls, so a further round makes no
difference. -/
theorem rounds_enough (calls : Nat) :
    rounds cards calls = (List.replicate (calls + 1) (round cards)).flatten.take calls := by
  have enough : calls ≤ (List.replicate calls (round cards)).flatten.length := by
    have one : 1 ≤ (round cards).length := by
      rw [round, List.length_append]
      exact Nat.le_add_left 1 _
    rw [List.length_flatten, List.map_replicate, List.sum_replicate, smul_eq_mul]
    exact Nat.le_mul_of_pos_right calls one
  rw [rounds, List.replicate_succ', List.flatten_append, List.take_append_of_le_length enough]

/-- A call that starts over and any number of calls that do not hand out the setup variables of all
cards, card by card and each once, then the end, and so on from the first variable. The cursor
that earlier calls have left is arbitrary, and so are the numbers of cards and of variables. -/
theorem parseNvRun_rounds (cards : List (SetupCard σ)) (cursor : NvCursor σ) (calls : Nat) :
    parseNvRun cards (true :: List.replicate calls false) cursor =
      (rounds cards (calls + 1)).mapM handOut := by
  have first : parseNvRun cards (true :: List.replicate calls false) cursor =
      parseNvRun cards (List.replicate (calls + 1) false) { cursor with reNewVar := true } := rfl
  have all : ({ cursor with reNewVar := true } : NvCursor σ).left cards = allVars cards := rfl
  have more : (allVars cards).map some ++ none ::
      (List.replicate (calls + 1) (round cards)).flatten =
        (List.replicate (calls + 1 + 1) (round cards)).flatten := by
    rw [round_then, List.replicate_succ (n := calls + 1), List.flatten_cons]
  rw [first, parseNvRun_left (calls + 1) (calls + 1) (Nat.le_refl _), all, more, rounds_enough]

end SmcPkg.SetupVars
