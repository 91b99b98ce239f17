import SmcPkg.RaidOob.Session

/-!
# The browser callback over whole calls

Between the hook rows of the table that `HandleData` goes through stand only
functions that always succeed, so the callback is back in its place however the
call ends. Between the hook rows of the download stand functions that may fail.
-/

namespace SmcPkg.Session

open RaidCmd VarTable Card ApplyData BrowserHook Traced

variable {σ : Type} {firmware : Firmware} {index : Nat}

/-- The rule for one row of the table. -/
theorem leads_changeRows {pre middle faulted : List Event → Working σ → Prop}
    {post : Status → List Event → Working σ → Prop} {row : ChangeFunc} {rows : List ChangeFunc}
    {status : Status}
    (leadsRow : Leads pre (row.func firmware index) (fun answer written working =>
      if efiError answer then post answer written working else middle written working) faulted)
    (leadsRows : ∀ answer, Leads middle (changeRows firmware index answer rows) post faulted) :
    Leads pre (changeRows firmware index status (row :: rows)) post faulted := by
  rw [changeRows]
  refine leads_bind _ leadsRow (fun answer => ?_)
  by_cases failed : efiError answer = true
  · simp only [failed, if_true]
    exact leads_pure (fun _ _ holds => holds)
  · simp only [failed]
    exact leadsRows answer

/-- The rule for a row that always succeeds. -/
theorem leads_succeeding {pre middle faulted : List Event → Working σ → Prop}
    {post : Status → List Event → Working σ → Prop} {row : ChangeFunc} {rows : List ChangeFunc}
    {status : Status}
    (leadsRow : Leads pre (row.func firmware index) (fun answer written working =>
      answer = efiSuccess ∧ middle written working) faulted)
    (leadsRows : ∀ answer, Leads middle (changeRows firmware index answer rows) post faulted) :
    Leads pre (changeRows firmware index status (row :: rows)) post faulted := by
  refine leads_changeRows (Leads.weaken leadsRow (fun _ _ before => before) ?_) leadsRows
  rintro answer written working ⟨rfl, after⟩
  rw [efiError_efiSuccess]
  exact after

/-- A step that only looks at the card and changes it. -/
theorem leads_changeCard {pre faulted : List Event → Working σ → Prop}
    {change : CardState σ → CardState σ} {post : Status → List Event → Working σ → Prop}
    (holds : ∀ written working, pre written working →
      post efiSuccess written { working with card := change working.card }) :
    Leads pre (changeCard change >>= fun _ => pure efiSuccess) post faulted := by
  refine leads_update_bind (leads_pure ?_)
  rintro written state ⟨earlier, rfl, before⟩
  exact holds written earlier before

section Rows

variable {holds : Browser → Prop}

/-- Nothing is claimed when a step ends in a fault. -/
def unclaimed (_ : List Event) (_ : Working σ) : Prop := True

/-- A step that succeeds and leaves the browser alone. -/
def KeepsBrowser (holds : Browser → Prop) (step : Step σ Status) : Prop :=
  Leads (fun _ working => holds working.browser) step
    (fun status _ working => status = efiSuccess ∧ holds working.browser) unclaimed

/-- The check of the changed variables does not touch the browser. -/
theorem checkRow_browser : KeepsBrowser holds (checkRow firmware : Step σ Status) := by
  refine leads_current_bind (fun seen => ?_)
  refine leads_lift_bind (fun _ _ _ => trivial) (fun marks _ => ?_)
  exact leads_changeCard (fun written working before => ⟨rfl, before.1⟩)

/-- The copy of the changed variables does not touch the browser. -/
theorem copyRow_browser : KeepsBrowser holds (copyRow firmware : Step σ Status) := by
  refine leads_current_bind (fun seen => ?_)
  refine leads_lift_bind (fun _ _ _ => trivial) (fun tables _ => ?_)
  exact leads_changeCard (fun written working before => ⟨rfl, before.1⟩)

/-- A record of a changed question is played with the browser as it is: the callbacks do not set
it. -/
theorem accessRecord_browser (record : ChRecord) :
    Leads (fun _ working => holds working.browser) (accessRecord record : Step σ Unit)
      (fun _ _ working => holds working.browser) unclaimed := by
  rw [accessRecord]
  split
  · refine leads_current_bind (fun seen => ?_)
    split
    · intro written state before
      simp only [changeCard, update]
      exact before.1
    · exact leads_fail (fun _ _ _ => trivial)
  · exact leads_pure (fun _ _ before => before)

/-- So are all records of a card, one after the other. -/
theorem accessRecords_browser (records : List ChRecord) :
    Leads (fun _ working => holds working.browser) (accessRecords records : Step σ Unit)
      (fun _ _ working => holds working.browser) unclaimed := by
  induction records with
  | nil => exact leads_pure (fun _ _ before => before)
  | cons record records inductionHypothesis =>
    exact leads_bind _ (accessRecord_browser record) (fun _ => inductionHypothesis)

/-- The row that plays the records keeps what holds of the browser. -/
theorem accessRow_browser : KeepsBrowser holds (accessRow : Step σ Status) := by
  refine leads_current_bind (fun seen => ?_)
  refine leads_bind (fun _ _ working => holds working.browser) ?_ (fun _ => ?_)
  · exact Leads.weaken (accessRecords_browser seen.card.marks.records)
      (fun _ _ before => before.1) (fun _ _ _ after => after)
  · exact leads_pure (fun _ _ before => ⟨rfl, before⟩)

/-- The parser of the commands does not touch the browser. -/
theorem parseRow_browser : KeepsBrowser holds (parseRow firmware index : Step σ Status) := by
  refine leads_current_bind (fun seen => ?_)
  refine leads_lift_bind (fun _ _ _ => trivial) (fun accepted _ => ?_)
  refine leads_emit_bind (leads_changeCard ?_)
  rintro written working ⟨earlier, -, before⟩
  exact ⟨rfl, before.1⟩

/-- The resolution of the drives does not touch the browser. -/
theorem collectRow_browser : KeepsBrowser holds (collectRow : Step σ Status) := by
  refine leads_current_bind (fun seen => ?_)
  refine leads_lift_bind (fun _ _ _ => trivial) (fun commands _ => ?_)
  exact leads_changeCard (fun written working before => ⟨rfl, before.1⟩)

/-- The examination of the commands does not touch the browser. -/
theorem examineRow_browser : KeepsBrowser holds (examineRow : Step σ Status) :=
  leads_changeCard (fun _ _ before => ⟨rfl, before⟩)

/-- A command is run with the browser as it is. -/
theorem handleCommand_browser (cmd : CmdSet) :
    Leads (fun _ working => holds working.browser) (handleCommand firmware index cmd : Step σ CmdSet)
      (fun _ _ working => holds working.browser) unclaimed := by
  refine leads_current_bind (fun seen => ?_)
  split
  · split
    · exact leads_pure (fun _ _ before => before.1)
    · refine leads_emit_bind ?_
      rintro written state ⟨earlier, -, before⟩
      rcases ran : runFunction firmware _ cmd state with ⟨events, later, value⟩
      have same : later.browser = state.browser :=
        (congrArg (fun outcome => outcome.state.browser) ran).symm
      cases value with
      | ok cmd =>
        change holds later.browser
        rw [same]
        exact before.1
      | error fault => trivial
  · exact leads_pure (fun _ _ before => before.1)

/-- So are all commands of a card, one after the other. -/
theorem handleCommands_browser (commands : List CmdSet) :
    Leads (fun _ working => holds working.browser)
      (handleCommands firmware index commands : Step σ (List CmdSet))
      (fun _ _ working => holds working.browser) unclaimed := by
  induction commands with
  | nil => exact leads_pure (fun _ _ before => before)
  | cons cmd commands inductionHypothesis =>
    refine leads_bind _ (handleCommand_browser cmd) (fun _ => ?_)
    exact leads_bind _ inductionHypothesis (fun _ => leads_pure (fun _ _ before => before))

/-- The row that runs the commands keeps what holds of the browser. -/
theorem handleRow_browser : KeepsBrowser holds (handleRow firmware index : Step σ Status) := by
  refine leads_current_bind (fun seen => ?_)
  refine leads_bind (fun _ _ working => holds working.browser) ?_ (fun _ => ?_)
  · exact Leads.weaken (handleCommands_browser seen.card.raidCmdSet)
      (fun _ _ before => before.1) (fun _ _ _ after => after)
  · exact leads_changeCard (fun _ _ before => ⟨rfl, before⟩)

/-- Every function of the table but the hook succeeds and leaves the browser alone. -/
theorem func_browser {row : ChangeFunc} (plain : row ≠ .hookBrowser2Protocol) :
    KeepsBrowser holds (row.func firmware index : Step σ Status) := by
  cases row with
  | initialLsiVarHashTable => exact leads_pure (fun _ _ before => ⟨rfl, before⟩)
  | checkChangeableItemsInChangedVar => exact checkRow_browser
  | changedVarToOOBVarBuffer => exact copyRow_browser
  | hookBrowser2Protocol => exact absurd rfl plain
  | accessRAIDRecordtoChangeSetting => exact accessRow_browser
  | parseRaidCfgCmdString => exact parseRow_browser
  | collectCfgCmdData => exact collectRow_browser
  | examineBasicForCmdRequire => exact examineRow_browser
  | handleRaidCfgCmdString => exact handleRow_browser

/-- A plain row in front of further rows. -/
theorem leads_plain {row : ChangeFunc} {rows : List ChangeFunc} {status : Status}
    {post : Status → List Event → Working σ → Prop} (plain : row ≠ .hookBrowser2Protocol)
    (leadsRows : ∀ answer, Leads (fun _ working => holds working.browser)
      (changeRows firmware index answer rows) post unclaimed) :
    Leads (fun _ working => holds working.browser)
      (changeRows firmware index status (row :: rows)) post unclaimed :=
  leads_succeeding (func_browser plain) leadsRows

/-- A hook row in front of further rows. -/
theorem leads_hook {rows : List ChangeFunc} {status : Status} (later : Browser → Prop)
    {post : Status → List Event → Working σ → Prop}
    (hooked : ∀ browser, holds browser →
      (∃ next, smcLsiHookBrowser2Protocol firmware.locateProtocol browser = (efiSuccess, next) ∧
        later next) ∨
      ∃ answer next, smcLsiHookBrowser2Protocol firmware.locateProtocol browser = (answer, next) ∧
        efiError answer = true ∧
          ∀ written working, working.browser = next → post answer written working)
    (leadsRows : ∀ answer, Leads (fun _ working => later working.browser)
      (changeRows firmware index answer rows) post unclaimed) :
    Leads (fun _ working => holds working.browser)
      (changeRows firmware index status (.hookBrowser2Protocol :: rows)) post unclaimed := by
  refine leads_changeRows ?_ leadsRows
  refine leads_current_bind (fun seen => ?_)
  rcases found : smcLsiHookBrowser2Protocol firmware.locateProtocol seen.browser with ⟨answer, next⟩
  refine leads_update_bind (leads_pure ?_)
  rintro written working ⟨earlier, rfl, before, rfl⟩
  rcases hooked earlier.browser before with ⟨_, done, after⟩ | ⟨_, _, done, failed, after⟩
  · obtain ⟨rfl, rfl⟩ := Prod.mk.inj (found.symm.trans done)
    rw [efiError_efiSuccess]
    exact after
  · obtain ⟨rfl, rfl⟩ := Prod.mk.inj (found.symm.trans done)
    rw [if_pos failed]
    exact after _ _ rfl

end Rows

section Calls

/-- The callbacks are exchanged, and the protocol is known. -/
def HookedIn (start browser : Browser) : Prop := Exchanged start browser ∧ browser.browser2 = true

/-- The callbacks are in their places, and the protocol is known. -/
def HookedOut (start browser : Browser) : Prop := Alike start browser ∧ browser.browser2 = true

/-- The first call of the hook saves the callback of the browser and puts its own in. -/
theorem hook_in {start : Browser} (browser : Browser) (out : HookedOut start browser) :
    ∃ next, smcLsiHookBrowser2Protocol firmware.locateProtocol browser = (efiSuccess, next) ∧
      HookedIn start next := by
  obtain ⟨next, done, exchanged, located⟩ :=
    hook_hookable (show Hookable firmware.locateProtocol browser from Or.inl out.2)
  exact ⟨next, done, ⟨exchanged.browserCallback.trans out.1.hookBrowserCallback,
    exchanged.hookBrowserCallback.trans out.1.browserCallback⟩, located⟩

/-- The second call of the hook puts back the callback that the first one has saved. -/
theorem hook_out {start : Browser} (browser : Browser) (inside : HookedIn start browser) :
    ∃ next, smcLsiHookBrowser2Protocol firmware.locateProtocol browser = (efiSuccess, next) ∧
      HookedOut start next := by
  obtain ⟨next, done, exchanged, located⟩ :=
    hook_hookable (show Hookable firmware.locateProtocol browser from Or.inl inside.2)
  exact ⟨next, done, inside.1.twice exchanged, located⟩

/-- The first hook row may fail, and then nothing is exchanged. -/
theorem hook_first {start : Browser} (browser : Browser) (alike : Alike start browser) :
    (∃ next, smcLsiHookBrowser2Protocol firmware.locateProtocol browser = (efiSuccess, next) ∧
      HookedIn start next) ∨
    ∃ answer next, smcLsiHookBrowser2Protocol firmware.locateProtocol browser = (answer, next) ∧
      efiError answer = true ∧ Alike start next := by
  by_cases hookable : Hookable firmware.locateProtocol browser
  · obtain ⟨next, done, exchanged, located⟩ := hook_hookable hookable
    exact Or.inl ⟨next, done, ⟨exchanged.browserCallback.trans alike.hookBrowserCallback,
      exchanged.hookBrowserCallback.trans alike.browserCallback⟩, located⟩
  · obtain ⟨answer, next, done, failed, same⟩ := hook_not_hookable hookable
    exact Or.inr ⟨answer, next, done, failed,
      ⟨same.browserCallback.trans alike.browserCallback,
        same.hookBrowserCallback.trans alike.hookBrowserCallback⟩⟩

/-- The table leaves the callbacks in their places. -/
theorem changeRows_alike (firmware : Firmware) (index : Nat) (start : Browser) (status : Status) :
    Leads (fun _ working => Alike start working.browser)
      (changeRows firmware index status mSmcLsiInsideChangeFunc : Step σ Status)
      (fun _ _ working => Alike start working.browser) unclaimed := by
  refine leads_plain (by decide) (fun _ => leads_plain (by decide) (fun _ =>
    leads_plain (by decide) (fun _ => ?_)))
  refine leads_hook (HookedIn start) ?_ (fun _ => leads_plain (by decide) (fun _ => ?_))
  · intro browser alike
    refine (hook_first browser alike).imp_right ?_
    rintro ⟨answer, next, done, failed, same⟩
    refine ⟨answer, next, done, failed, ?_⟩
    rintro written working rfl
    exact same
  refine leads_hook (HookedOut start) (fun browser inside => Or.inl (hook_out browser inside))
    (fun _ => leads_plain (by decide) (fun _ => leads_plain (by decide) (fun _ =>
      leads_plain (by decide) (fun _ => ?_))))
  refine leads_hook (HookedIn start) (fun browser out => Or.inl (hook_in browser out))
    (fun _ => leads_plain (by decide) (fun _ => ?_))
  refine leads_hook (HookedOut start) (fun browser inside => Or.inl (hook_out browser inside))
    (fun _ => ?_)
  exact leads_pure (fun _ _ out => out.1)

/-- The loop over the cards leaves the callbacks in their places. -/
theorem handleCards_alike (firmware : Firmware) (start : Browser) (cards : List (CardState σ)) (index : Nat)
    (status : Status) :
    Leads (fun _ browser => Alike start browser) (handleCards firmware index status cards)
      (fun _ _ browser => Alike start browser) (fun _ _ => True) := by
  induction cards generalizing index status with
  | nil => exact leads_pure (fun _ _ alike => alike)
  | cons card cards inductionHypothesis =>
    rw [handleCards]
    split
    · exact leads_pure (fun _ _ alike => alike)
    · refine leads_bind (fun _ _ browser => Alike start browser) ?_ (fun result => ?_)
      · intro written browser alike
        have table := changeRows_alike firmware index start status written ⟨card, browser⟩ alike
        rw [onCard]
        rcases ran : changeRows firmware index status mSmcLsiInsideChangeFunc ⟨card, browser⟩ with
          ⟨events, later, value⟩
        rw [ran] at table
        cases value with
        | ok status => exact table
        | error fault => trivial
      · obtain ⟨answer, card⟩ := result
        by_cases failed : efiError answer = true
        · simp only [failed, if_true]
          exact leads_pure (fun _ _ alike => alike)
        · simp only [failed]
          exact leads_bind _ (inductionHypothesis _ _) (fun _ => leads_pure (fun _ _ alike => alike))

/-- `HandleData` leaves the callback in its place, and the download does so exactly
when no card that is reached fails between the hook rows, unless there is nothing
to exchange. -/
theorem callback_restored_iff (firmware : Firmware) (protocol : Protocol σ)
    (cards : List DownCard) (browser : Browser) :
    (∀ events later status,
      smcLsiRaidLibHandleData firmware protocol = ⟨events, later, .ok status⟩ →
        later.browser.browserCallback = protocol.browser.browserCallback) ∧
    ((smcLsiRaidLibDownLoad firmware.locateProtocol efiSuccess cards browser).2.browserCallback =
        browser.browserCallback ↔
      browser.hookBrowserCallback = browser.browserCallback ∨
        ¬ Hookable firmware.locateProtocol browser ∨ NoneFailsInside cards) := by
  refine ⟨?_, downLoad_restored_iff efiSuccess cards⟩
  intro events later status done
  rw [smcLsiRaidLibHandleData] at done
  split at done
  · have alike := handleCards_alike firmware protocol.browser protocol.cards 0
      efiSuccess [] protocol.browser ⟨rfl, rfl⟩
    rcases ran : handleCards firmware 0 efiSuccess protocol.cards protocol.browser with
      ⟨written, final, value⟩
    rw [ran] at alike
    simp only [ran] at done
    cases value with
    | error fault => simp at done
    | ok result =>
      simp only [Outcome.mk.injEq] at done
      rw [← done.2.1]
      exact alike.browserCallback
  · simp only [Outcome.mk.injEq] at done
    rw [← done.2.1]

/-- A card whose inventory of questions cannot be set up. -/
def questionless : DownCard :=
  ⟨.raid3108, efiSuccess, efiSuccess, efiNotFound, efiSuccess, efiSuccess, efiSuccess, []⟩

/-- That card leaves the module's own callback in place. -/
theorem downLoad_not_restored :
    (smcLsiRaidLibDownLoad (fun _ => efiSuccess) efiSuccess [questionless]
      ⟨1, 2, false, 0⟩).2.browserCallback ≠ (⟨1, 2, false, 0⟩ : Browser).browserCallback := by
  decide

end Calls

end SmcPkg.Session
