import SmcPkg.RaidOob.Card

/-!
# The browser callback and the download of the cards

While a driver is worked on, `FormBrowser2->BrowserCallback` is the module's own
function. `SmcLsiHookBrowser2Protocol` exchanges it with the callback that is kept
in a static variable, so a second call undoes the first. The download calls it from
two rows of its step table, and a row that fails ends the table and the loop over
the cards at once.
-/

namespace SmcPkg.BrowserHook

open Card

section Hook

/-- The callback of the browser and the static variables of the hook: the callback
to be exchanged with it, and whether the protocol has been located. The locate
requests made so far are counted to tell their answers apart. -/
structure Browser where
  browserCallback : UInt64
  hookBrowserCallback : UInt64
  browser2 : Bool
  locateCalls : Nat
  deriving DecidableEq, Repr

/-- Exchange the two callbacks. -/
def Browser.swapped (browser : Browser) : Browser :=
  { browser with
    browserCallback := browser.hookBrowserCallback
    hookBrowserCallback := browser.browserCallback }

/-- `SmcLsiHookBrowser2Protocol`. Only the first successful call asks for the
protocol. -/
def smcLsiHookBrowser2Protocol (locateProtocol : Nat → Status) (browser : Browser) :
    Status × Browser :=
  if browser.browser2 then (efiSuccess, browser.swapped)
  else
    let status := locateProtocol browser.locateCalls
    let asked := { browser with locateCalls := browser.locateCalls + 1 }
    if efiError status then (status, asked)
    else (efiSuccess, { asked.swapped with browser2 := true })

end Hook

section DownLoad

/-- The functions of `mSmcLsiInsideDownFunc`. -/
inductive DownFunc
  | initialLsiVarHashTable
  | freeLsiVarHashTable
  | initialFunc
  | collectInformationForm
  | hookBrowser2Protocol
  | callbackAccessMenu
  | initialItemsQIdTable
  | debugForItemsQIdTable
  | collectInformationItems
  | collectInformationChRec
  | setSmcLsiVariableTable
  | createSmcRaidVarAndItems
  deriving DecidableEq, Repr

/-- `mSmcLsiInsideDownFunc`. -/
def mSmcLsiInsideDownFunc : List DownFunc :=
  [.initialLsiVarHashTable, .freeLsiVarHashTable, .initialFunc, .collectInformationForm,
    .hookBrowser2Protocol, .callbackAccessMenu, .initialItemsQIdTable, .debugForItemsQIdTable,
    .collectInformationItems, .collectInformationChRec, .setSmcLsiVariableTable,
    .createSmcRaidVarAndItems, .hookBrowser2Protocol]

/-- A card as the download meets it: its type, what the functions that may fail
answer for it, and what the functions of `SmcLsiAfterDownFuncTable` answer. -/
structure DownCard where
  raidCardType : RaidType
  initialFunc : Status
  collectInformationForm : Status
  initialItemsQIdTable : Status
  collectInformationItems : Status
  collectInformationChRec : Status
  setSmcLsiVariableTable : Status
  afterDown : List Status

/-- One row of the table. The functions without a status of their own return
EFI_SUCCESS on every path. -/
def DownFunc.func (locateProtocol : Nat → Status) (card : DownCard) (browser : Browser) :
    DownFunc → Status × Browser
  | .hookBrowser2Protocol => smcLsiHookBrowser2Protocol locateProtocol browser
  | .initialFunc => (card.initialFunc, browser)
  | .collectInformationForm => (card.collectInformationForm, browser)
  | .initialItemsQIdTable => (card.initialItemsQIdTable, browser)
  | .collectInformationItems => (card.collectInformationItems, browser)
  | .collectInformationChRec => (card.collectInformationChRec, browser)
  | .setSmcLsiVariableTable => (card.setSmcLsiVariableTable, browser)
  | _ => (efiSuccess, browser)

/-- The loop over a table, which ends at the first error. -/
def downRows (locateProtocol : Nat → Status) (card : DownCard) :
    Status → List DownFunc → Browser → Status × Browser
  | status, [], browser => (status, browser)
  | _, row :: rows, browser =>
    let (status, browser) := row.func locateProtocol card browser
    if efiError status then (status, browser) else downRows locateProtocol card status rows browser

/-- The loop over `SmcLsiAfterDownFuncTable`. -/
def afterDownRows : Status → List Status → Status
  | status, [] => status
  | _, status :: statuses => if efiError status then status else afterDownRows status statuses

/-- `SmcLsiRaidLib_DownLoad`. The status of `RaidDownTheLastCleanFunc` is always
EFI_SUCCESS. -/
def smcLsiRaidLibDownLoad (locateProtocol : Nat → Status) :
    Status → List DownCard → Browser → Status × Browser
  | status, [], browser => (status, browser)
  | status, card :: cards, browser =>
    if card.raidCardType = .raidNull then (status, browser)
    else
      let (status, browser) := downRows locateProtocol card status mSmcLsiInsideDownFunc browser
      if efiError status then (status, browser)
      else
        let status := afterDownRows status card.afterDown
        if efiError status then (status, browser)
        else smcLsiRaidLibDownLoad locateProtocol efiSuccess cards browser

end DownLoad

section Restored

/-- The functions between the two hook rows succeed. -/
def DownCard.closes (card : DownCard) : Prop :=
  efiError card.initialItemsQIdTable = false ∧ efiError card.collectInformationItems = false ∧
    efiError card.collectInformationChRec = false ∧ efiError card.setSmcLsiVariableTable = false

/-- The first hook row is reached. -/
def DownCard.opens (card : DownCard) : Prop :=
  efiError card.initialFunc = false ∧ efiError card.collectInformationForm = false

/-- The hook exchanges the callbacks. -/
def Hookable (locateProtocol : Nat → Status) (browser : Browser) : Prop :=
  browser.browser2 = true ∨ efiError (locateProtocol browser.locateCalls) = false

/-- Every step of a card succeeds. -/
def DownCard.completes (card : DownCard) : Prop :=
  card.raidCardType ≠ .raidNull ∧ card.opens ∧ card.closes ∧
    ∀ status ∈ card.afterDown, efiError status = false

/-- No card that is reached fails between the two hook rows. -/
def NoneFailsInside (cards : List DownCard) : Prop :=
  ∀ before card after, cards = before ++ card :: after → (∀ other ∈ before, other.completes) →
    card.raidCardType ≠ .raidNull → card.opens → card.closes

/-- Two browsers have the same callbacks in the same places. -/
structure Alike (browser other : Browser) : Prop where
  browserCallback : other.browserCallback = browser.browserCallback
  hookBrowserCallback : other.hookBrowserCallback = browser.hookBrowserCallback

/-- Two browsers have the same callbacks, exchanged. -/
structure Exchanged (browser other : Browser) : Prop where
  browserCallback : other.browserCallback = browser.hookBrowserCallback
  hookBrowserCallback : other.hookBrowserCallback = browser.browserCallback

/-- Two exchanges leave a browser as it was. -/
theorem Exchanged.twice {browser middle other : Browser} (first : Exchanged browser middle)
    (second : Exchanged middle other) : Alike browser other :=
  ⟨second.browserCallback.trans first.hookBrowserCallback,
    second.hookBrowserCallback.trans first.browserCallback⟩

variable {locateProtocol : Nat → Status} {browser : Browser} {card : DownCard}

/-- A hook that finds the protocol exchanges the callbacks. -/
theorem hook_hookable (hookable : Hookable locateProtocol browser) :
    ∃ next, smcLsiHookBrowser2Protocol locateProtocol browser = (efiSuccess, next) ∧
      Exchanged browser next ∧ next.browser2 = true := by
  rw [smcLsiHookBrowser2Protocol]
  by_cases located : browser.browser2 = true
  · rw [if_pos located]
    exact ⟨browser.swapped, rfl, ⟨rfl, rfl⟩, located⟩
  · rw [if_neg located]
    have answered := hookable.resolve_left located
    simp only [answered, Bool.false_eq_true, if_false]
    exact ⟨_, rfl, ⟨rfl, rfl⟩, rfl⟩

/-- A hook that does not find it fails and changes no callback. -/
theorem hook_not_hookable (missing : ¬ Hookable locateProtocol browser) :
    ∃ status next, smcLsiHookBrowser2Protocol locateProtocol browser = (status, next) ∧
      efiError status = true ∧ Alike browser next := by
  rw [Hookable, not_or, Bool.not_eq_true, Bool.not_eq_false] at missing
  rw [smcLsiHookBrowser2Protocol, missing.1]
  simp only [missing.2, Bool.false_eq_true, if_false, if_true]
  exact ⟨_, _, rfl, missing.2, ⟨rfl, rfl⟩⟩

/-- How the table of a card can end: with the callbacks as they were, or exchanged
because a function between the hook rows has failed. -/
inductive TableEnd (locateProtocol : Nat → Status) (card : DownCard) (browser : Browser) :
    Status × Browser → Prop
  | complete (next : Browser) (opens : card.opens) (hookable : Hookable locateProtocol browser)
      (closes : card.closes) (alike : Alike browser next) (located : next.browser2 = true) :
      TableEnd locateProtocol card browser (efiSuccess, next)
  | outside (status : Status) (next : Browser) (failed : efiError status = true)
      (reason : ¬ card.opens ∨ ¬ Hookable locateProtocol browser) (alike : Alike browser next) :
      TableEnd locateProtocol card browser (status, next)
  | inside (status : Status) (next : Browser) (failed : efiError status = true)
      (opens : card.opens) (hookable : Hookable locateProtocol browser) (reason : ¬ card.closes)
      (exchanged : Exchanged browser next) : TableEnd locateProtocol card browser (status, next)

/-- A success is no error. -/
theorem efiError_efiSuccess : efiError efiSuccess = false := by decide

/-- The table of a card. -/
theorem downRows_end (status : Status) : TableEnd locateProtocol card browser
    (downRows locateProtocol card status mSmcLsiInsideDownFunc browser) := by
  simp only [mSmcLsiInsideDownFunc, downRows, DownFunc.func, efiError_efiSuccess,
    Bool.false_eq_true, if_false]
  by_cases initialised : efiError card.initialFunc = true
  · rw [if_pos initialised]
    exact .outside _ _ initialised (Or.inl fun opens => by simp [opens.1] at initialised) ⟨rfl, rfl⟩
  by_cases collected : efiError card.collectInformationForm = true
  · rw [if_neg initialised, if_pos collected]
    exact .outside _ _ collected (Or.inl fun opens => by simp [opens.2] at collected) ⟨rfl, rfl⟩
  rw [if_neg initialised, if_neg collected]
  have opens : card.opens := ⟨Bool.eq_false_iff.mpr initialised, Bool.eq_false_iff.mpr collected⟩
  by_cases hookable : Hookable locateProtocol browser
  · obtain ⟨middle, hooked, exchanged, located⟩ := hook_hookable hookable
    simp only [hooked, efiError_efiSuccess, Bool.false_eq_true, if_false]
    by_cases questions : efiError card.initialItemsQIdTable = true
    · rw [if_pos questions]
      exact .inside _ _ questions opens hookable
        (fun closes => by simp [closes.1] at questions) exchanged
    by_cases items : efiError card.collectInformationItems = true
    · rw [if_neg questions, if_pos items]
      exact .inside _ _ items opens hookable (fun closes => by simp [closes.2.1] at items) exchanged
    by_cases records : efiError card.collectInformationChRec = true
    · rw [if_neg questions, if_neg items, if_pos records]
      exact .inside _ _ records opens hookable
        (fun closes => by simp [closes.2.2.1] at records) exchanged
    by_cases stores : efiError card.setSmcLsiVariableTable = true
    · rw [if_neg questions, if_neg items, if_neg records, if_pos stores]
      exact .inside _ _ stores opens hookable
        (fun closes => by simp [closes.2.2.2] at stores) exchanged
    rw [if_neg questions, if_neg items, if_neg records, if_neg stores]
    obtain ⟨next, again, back, still⟩ :=
      hook_hookable (show Hookable locateProtocol middle from Or.inl located)
    simp only [again, efiError_efiSuccess, Bool.false_eq_true, if_false]
    refine .complete next opens hookable ⟨?_, ?_, ?_, ?_⟩ (exchanged.twice back) still
    · exact Bool.eq_false_iff.mpr questions
    · exact Bool.eq_false_iff.mpr items
    · exact Bool.eq_false_iff.mpr records
    · exact Bool.eq_false_iff.mpr stores
  · obtain ⟨answer, next, hooked, failed, alike⟩ := hook_not_hookable hookable
    simp only [hooked, failed, if_true]
    exact .outside answer next failed (Or.inr hookable) alike

/-- Whether the after functions succeed. -/
theorem afterDownRows_error (status : Status) (fine : efiError status = false)
    (statuses : List Status) :
    efiError (afterDownRows status statuses) = false ↔
      ∀ answer ∈ statuses, efiError answer = false := by
  induction statuses generalizing status with
  | nil => simpa [afterDownRows] using fine
  | cons answer statuses inductionHypothesis =>
    rw [afterDownRows]
    by_cases failed : efiError answer = true
    · simp [failed]
    · have fineNext := Bool.eq_false_iff.mpr failed
      rw [if_neg failed, inductionHypothesis answer fineNext]
      simp [fineNext]

/-- None fails inside exactly if the first card does not, nor one behind it, if the loop comes
there. -/
theorem noneFailsInside_cons (card : DownCard) (cards : List DownCard) :
    NoneFailsInside (card :: cards) ↔
      (card.raidCardType ≠ .raidNull → card.opens → card.closes) ∧
        (card.completes → NoneFailsInside cards) := by
  constructor
  · intro none
    refine ⟨none [] card cards rfl (by simp), ?_⟩
    intro completes before other after split allBefore
    refine none (card :: before) other after (by rw [split, List.cons_append]) ?_
    intro earlier member
    rcases List.mem_cons.mp member with rfl | inside
    · exact completes
    · exact allBefore earlier inside
  · rintro ⟨first, rest⟩ before other after split allBefore
    cases before with
    | nil =>
      obtain ⟨rfl, rfl⟩ := List.cons.inj split
      exact first
    | cons earlier before =>
      obtain ⟨rfl, rfl⟩ := List.cons.inj split
      exact rest (allBefore _ List.mem_cons_self) before other after rfl
        (fun earlier member => allBefore earlier (List.mem_cons_of_mem _ member))

/-- The download keeps the callback exactly when no card that is reached fails
between the hook rows, unless there is nothing to exchange. -/
theorem downLoad_restored_iff (status : Status) (cards : List DownCard) :
    (smcLsiRaidLibDownLoad locateProtocol status cards browser).2.browserCallback =
        browser.browserCallback ↔
      browser.hookBrowserCallback = browser.browserCallback ∨
        ¬ Hookable locateProtocol browser ∨ NoneFailsInside cards := by
  induction cards generalizing status browser with
  | nil =>
    rw [smcLsiRaidLibDownLoad]
    simp [NoneFailsInside]
  | cons card cards inductionHypothesis =>
    rw [smcLsiRaidLibDownLoad, noneFailsInside_cons]
    by_cases absent : card.raidCardType = .raidNull
    · simp [absent, DownCard.completes]
    · rw [if_neg absent]
      have ended : TableEnd locateProtocol card browser
        (downRows locateProtocol card status mSmcLsiInsideDownFunc browser) := downRows_end status
      generalize downRows locateProtocol card status mSmcLsiInsideDownFunc browser = result at ended
      cases ended with
      | outside status next failed reason alike =>
        simp only [failed, if_true, alike.browserCallback, true_iff]
        rcases reason with closed | missing
        · exact Or.inr (Or.inr ⟨fun _ opens => absurd opens closed,
            fun completes => absurd completes.2.1 closed⟩)
        · exact Or.inr (Or.inl missing)
      | inside status next failed opens hookable reason exchanged =>
        simp only [failed, if_true, exchanged.browserCallback]
        constructor
        · exact Or.inl
        · rintro (same | missing | ⟨closes, -⟩)
          · exact same
          · exact absurd hookable missing
          · exact absurd (closes absent opens) reason
      | complete next opens hookable closes alike located =>
        simp only [efiError_efiSuccess, Bool.false_eq_true, if_false]
        by_cases fails : efiError (afterDownRows efiSuccess card.afterDown) = true
        · simp only [fails, if_true, alike.browserCallback, true_iff]
          refine Or.inr (Or.inr ⟨fun _ _ => closes, fun completes => ?_⟩)
          have fine := (afterDownRows_error _ efiError_efiSuccess _).mpr completes.2.2.2
          rw [fails] at fine
          exact absurd fine.symm Bool.false_ne_true
        · have afterFine := (afterDownRows_error _ efiError_efiSuccess _).mp
            (Bool.eq_false_iff.mpr fails)
          have completes : card.completes := ⟨absent, opens, closes, afterFine⟩
          have still : Hookable locateProtocol next := Or.inl located
          rw [if_neg fails, ← alike.browserCallback, inductionHypothesis,
            alike.hookBrowserCallback]
          simp [completes, closes, hookable, still, alike.browserCallback]

end Restored

end SmcPkg.BrowserHook
