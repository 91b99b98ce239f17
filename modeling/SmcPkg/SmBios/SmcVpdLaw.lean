import Mathlib
import SmcPkg.SmBios.SmcVpd

/-!
# When the VPD of a card is refused

Each loop is told by what it comes to: the resources that the answers tell, the dwords that are
copied, and whether the name is found. The lengths of the structure that is added for VPD are never
both right, so that the collection does what it should do for the cards that it refuses.
-/

namespace SmcPkg.SmcVpd

open Bytes Buffer Card RaidCmd

section Loops

variable {device : Device} {behind : Memory}

/-- A dword that is delivered is read. -/
theorem getVpdData_delivered {call : Nat} {offset : UInt16}
    (delivered : device.delivers call 0 = true) :
    getVpdData device call offset = some (device.answer call offset) :=
  if_pos delivered

/-- One that is not leaves nothing to read. -/
theorem getVpdData_none {call : Nat} {offset : UInt16}
    (missing : device.delivers call 0 = false) : getVpdData device call offset = none :=
  if_neg (by rw [missing]; exact Bool.false_ne_true)

/-- The loop over the resources comes to what the answers tell, if they are delivered. -/
theorem resourceLoop_delivered {call count : Nat}
    (delivered : ∀ i, call ≤ i → i < call + count → device.delivers i 0 = true) :
    resourceLoop device count call (device.resources call) =
      some (device.resources (call + count)) := by
  induction count generalizing call with
  | zero => rfl
  | succ count inductionHypothesis =>
    rw [resourceLoop, getVpdData_delivered (delivered call (Nat.le_refl _) (by omega))]
    have rest := @inductionHypothesis (call + 1)
      (fun i above below => delivered i (by omega) (by omega))
    rw [Device.resources] at rest
    simp only
    rw [rest]
    congr 2
    omega

/-- The loop ends without resources at the first dword that is missing. -/
theorem resourceLoop_none {call count i : Nat} (above : call ≤ i) (below : i < call + count)
    (missing : device.delivers i 0 = false) :
    resourceLoop device count call (device.resources call) = none := by
  induction count generalizing call with
  | zero => omega
  | succ count inductionHypothesis =>
    rw [resourceLoop]
    by_cases delivered : device.delivers call 0 = true
    · have later : call ≠ i := by
        rintro rfl
        rw [missing] at delivered
        cases delivered
      rw [getVpdData_delivered delivered]
      exact @inductionHypothesis (call + 1) (by omega) (by omega)
    · rw [getVpdData_none (by simpa using delivered)]

/-- The data after a number of dwords. -/
def Device.dwords (device : Device) (behind : Memory) (n : Nat) : Memory := fun i =>
  if i < 4 * n then device.vpd i else emptyData behind i

/-- Before the first dword the data are empty. -/
theorem dwords_zero : device.dwords behind 0 = emptyData behind := by
  funext i
  exact if_neg (by omega)

/-- The address of the first dword. -/
theorem aligned_toNat (offset : UInt16) :
    ((offset &&& 0xfffc) + 4 * 0).toNat = offset.toNat / 4 * 4 := by
  have below := UInt16.toNat_lt offset
  have above := @Nat.and_div_two_pow offset.toNat 0xfffc 2
  have low := @Nat.and_mod_two_pow offset.toNat 0xfffc 2
  have masked := Nat.and_two_pow_sub_one_eq_mod (offset.toNat / 2 ^ 2) 14
  have high : 0xfffc / 2 ^ 2 = 2 ^ 14 - 1 := rfl
  have none : 0xfffc % 2 ^ 2 = 0 := rfl
  rw [high, masked] at above
  rw [none, Nat.and_zero] at low
  have mask : (0xfffc : UInt16).toNat = 0xfffc := rfl
  have zero : (4 * 0 : UInt16).toNat = 0 := rfl
  rw [UInt16.toNat_add, UInt16.toNat_and, mask, zero]
  omega

/-- The answer to a call for a dword as it stands in the VPD. -/
theorem answer_aligned {call n : Nat} (inside : 4 * n < 2 ^ 16) :
    device.answer call (UInt16.ofNat (4 * n)) = word32 device.vpd (4 * n) := by
  have place : (UInt16.ofNat (4 * n)).toNat = 4 * n := by
    rw [UInt16.toNat_ofNat']
    exact Nat.mod_eq_of_lt inside
  have aligned : UInt16.ofNat (4 * n) % 4 = 0 := by
    apply UInt16.toNat_inj.mp
    have four : (4 : UInt16).toNat = 4 := rfl
    have zero : (0 : UInt16).toNat = 0 := rfl
    rw [UInt16.toNat_mod, place, four, zero]
    omega
  unfold Device.answer Device.dword
  rw [if_pos aligned, aligned_toNat, place]
  congr 1
  omega

/-- One dword more. -/
theorem dwords_succ {n : Nat} (inside : 4 * n + 4 ≤ space) :
    write space (device.dwords behind n) (4 * n)
      (le32 (device.answer (4 + n) (UInt16.ofNat (4 * n))).toNat) =
      .ok (device.dwords behind (n + 1)) := by
  have small : space = 222 := by decide
  rw [answer_aligned (by omega), le32_word32]
  obtain ⟨written, stored, wrote⟩ := @write_ok space (4 * n) (device.dwords behind n)
    [device.vpd (4 * n), device.vpd (4 * n + 1), device.vpd (4 * n + 2), device.vpd (4 * n + 3)]
    inside
  rw [stored]
  congr 1
  funext i
  by_cases here : 4 * n ≤ i ∧ i < 4 * n + 4
  · have byte := wrote.stored (i - 4 * n) (by simp; omega)
    have place : 4 * n + (i - 4 * n) = i := by omega
    rw [place] at byte
    rw [byte, Device.dwords, if_pos (by omega)]
    obtain same | same | same | same : i = 4 * n ∨ i = 4 * n + 1 ∨ i = 4 * n + 2 ∨ i = 4 * n + 3 := by
      omega
    all_goals
      subst same
      simp
  · rw [wrote.elsewhere i (by simp; omega)]
    unfold Device.dwords
    by_cases before : i < 4 * n
    · rw [if_pos before, if_pos (by omega)]
    · rw [if_neg before, if_neg (by omega)]

/-- With the last dword all data are there. -/
theorem dwords_all {vpdLen n : Nat} (last : n = (vpdLen + 3) / 4) :
    device.dwords behind n = device.copied vpdLen behind := by
  funext i
  unfold Device.dwords Device.copied
  rw [last, Nat.mul_comm]

/-- What the copy comes to: it is refused at a dword that is not delivered, and has all dwords
otherwise. -/
def Copies (device : Device) (behind : Memory) (vpdLen n : Nat) (result : Option Memory) : Prop :=
  (result = none ∧ ∃ m, 4 * m < vpdLen ∧ device.delivers (4 + m) 0 = false) ∨
    (result = some (device.copied vpdLen behind) ∧
      ∀ m, n ≤ m → 4 * m < vpdLen → device.delivers (4 + m) 0 = true)

/-- The copy reads one dword after the other, each at its place, until all are there or one is
missing. -/
theorem copyLoop_copies {vpdLen : UInt16} (short : vpdLen.toNat ≤ 200) {n steps : Nat}
    (reached : n ≤ (vpdLen.toNat + 3) / 4) :
    (steps + n ≤ (vpdLen.toNat + 3) / 4 ∧
      copyLoop device vpdLen steps (4 + n) (UInt16.ofNat (4 * n)) (device.dwords behind n) =
        .error .outOfFuel) ∨
    ∃ result, copyLoop device vpdLen steps (4 + n) (UInt16.ofNat (4 * n))
        (device.dwords behind n) = .ok result ∧
      Copies device behind vpdLen.toNat n result := by
  have small : space = 222 := by decide
  induction steps generalizing n with
  | zero => exact Or.inl ⟨by omega, rfl⟩
  | succ steps inductionHypothesis =>
    have place : (UInt16.ofNat (4 * n)).toNat = 4 * n := by
      rw [UInt16.toNat_ofNat']
      omega
    rw [copyLoop]
    by_cases more : 4 * n < vpdLen.toNat
    · have before : UInt16.ofNat (4 * n) < vpdLen := by
        rw [UInt16.lt_iff_toNat_lt, place]
        exact more
      rw [if_pos before]
      by_cases delivered : device.delivers (4 + n) 0 = true
      · rw [getVpdData_delivered delivered, place]
        simp only
        rw [dwords_succ (by omega)]
        have next : UInt16.ofNat (4 * n) + 4 = UInt16.ofNat (4 * (n + 1)) :=
          (UInt16.ofNat_add (4 * n) 4).symm
        simp only [bind, Except.bind]
        rw [next, Nat.add_assoc]
        rcases @inductionHypothesis (n + 1) (by omega) with
          ⟨few, ran⟩ | ⟨result, ran, refused | ⟨same, all⟩⟩
        · exact Or.inl ⟨by omega, ran⟩
        · exact Or.inr ⟨result, ran, Or.inl refused⟩
        · refine Or.inr ⟨result, ran, Or.inr ⟨same, ?_⟩⟩
          intro m above below
          rcases Nat.lt_or_eq_of_le above with later | rfl
          · exact all m later below
          · exact delivered
      · have missing : device.delivers (4 + n) 0 = false := by simpa using delivered
        rw [getVpdData_none missing]
        exact Or.inr ⟨none, rfl, Or.inl ⟨rfl, n, more, missing⟩⟩
    · have notBelow : ¬ UInt16.ofNat (4 * n) < vpdLen := by
        rw [UInt16.lt_iff_toNat_lt, place]
        exact more
      have last : n = (vpdLen.toNat + 3) / 4 := by omega
      rw [if_neg notBelow, dwords_all last]
      exact Or.inr ⟨_, rfl, Or.inr ⟨rfl, fun m above below => by omega⟩⟩

variable {resources : Resources} {vpdData : Memory}

/-- The name is at a place of the identifier string. -/
def Named (vpdData : Memory) (resources : Resources) (i : Nat) : Bool :=
  startsWith (shifted (resources.vpdIdOffset.toNat + i) vpdData) supermicro

/-- The place goes on in a byte. -/
theorem next_place {i : UInt8} (below : i.toNat < 255) : (i + 1).toNat = i.toNat + 1 := by
  rw [UInt8.toNat_add]
  have one : (1 : UInt8).toNat = 1 := rfl
  rw [one]
  omega

/-- A search that ends without the name has passed all places, which fit in a byte. -/
theorem idLoop_false {steps : Nat} {i : UInt8}
    (ended : idLoop vpdData resources steps i = .ok false) :
    resources.vpdIdLen.toNat ≤ 255 ∧
      ∀ k, i.toNat ≤ k → k < resources.vpdIdLen.toNat → Named vpdData resources k = false := by
  induction steps generalizing i with
  | zero => cases ended
  | succ steps inductionHypothesis =>
    have small := UInt8.toNat_lt i
    rw [idLoop] at ended
    split_ifs at ended with inside found
    · cases ended
    · obtain ⟨fits, rest⟩ := inductionHypothesis ended
      rw [UInt16.lt_iff_toNat_lt, UInt8.toNat_toUInt16] at inside
      refine ⟨fits, ?_⟩
      intro k above below
      rcases Nat.lt_or_eq_of_le above with later | rfl
      · exact rest k (by rw [next_place (by omega)]; exact later) below
      · exact Bool.eq_false_of_not_eq_true found
    · rw [UInt16.lt_iff_toNat_lt, UInt8.toNat_toUInt16] at inside
      exact ⟨by omega, fun k above below => by omega⟩

/-- The search of the name goes over all places without a match. -/
theorem idLoop_passes (fits : resources.vpdIdLen.toNat ≤ 255) {i : UInt8} {steps : Nat}
    (inside : i.toNat ≤ resources.vpdIdLen.toNat)
    (enough : resources.vpdIdLen.toNat < i.toNat + steps)
    (absent : ∀ k < resources.vpdIdLen.toNat, Named vpdData resources k = false) :
    idLoop vpdData resources steps i = .ok false := by
  induction steps generalizing i with
  | zero => omega
  | succ steps inductionHypothesis =>
    rw [idLoop]
    by_cases more : i.toNat < resources.vpdIdLen.toNat
    · have before : i.toUInt16 < resources.vpdIdLen := by
        rw [UInt16.lt_iff_toNat_lt, UInt8.toNat_toUInt16]
        exact more
      have next := @next_place i (by omega)
      have missing := absent i.toNat more
      rw [Named] at missing
      rw [if_pos before, if_neg (by rw [missing]; exact Bool.false_ne_true)]
      exact inductionHypothesis (by omega) (by omega)
    · have after : ¬ i.toUInt16 < resources.vpdIdLen := by
        rw [UInt16.lt_iff_toNat_lt, UInt8.toNat_toUInt16]
        exact more
      rw [if_neg after]

end Loops

section Result

variable {device : Device} {slotType slotID : UInt8} {behind : Memory} {updateHandle : UInt16}
  {header : AssetInfoHeader}

/-- The length of the entry counts a byte too many. -/
theorem not_counts (collected : Collected) :
    ¬ (smBiosType40Create updateHandle header collected).Counts := by
  rintro ⟨-, entry⟩
  have present : (smBiosType40Create updateHandle header collected).entryBytes =
      28 + collected.vpdLen.toNat := by
    simp only [AdditionalInfo.entryBytes, smBiosType40Create, bytesOf, AssetInfoHeader.bytes, le32,
      List.length_append, List.length_cons, List.length_nil, List.length_map, List.length_range]
  have counted : (smBiosType40Create updateHandle header collected).entryLength.toNat =
      (29 + collected.vpdLen.toNat % 256) % 256 := by
    simp only [smBiosType40Create, UInt8.toNat_add, UInt16.toNat_toUInt8, UInt8.reduceToNat]
    omega
  rw [present, counted] at entry
  omega

/-- Whether a card is refused from the copy on. -/
def RefusedLate (device : Device) (behind : Memory) (resources : Resources) : Prop :=
  (∃ n, 4 * n < resources.vpdLen.toNat ∧ device.delivers (4 + n) 0 = false) ∨
    (resources.vpdIdLen.toNat ≤ 255 ∧ ∀ i < resources.vpdIdLen.toNat,
      Named (device.copied resources.vpdLen.toNat behind) resources i = false)

variable {resources : Resources}

/-- Where nothing is collected, the data have been refused. -/
theorem collect_none {steps : Nat} (short : resources.vpdLen.toNat ≤ 200)
    (ended : collect device slotType slotID steps resources (emptyData behind) = .ok none) :
    RefusedLate device behind resources := by
  unfold collect at ended
  obtain ⟨copied, copies, rest⟩ := Checked.bind_ok ended
  have start := @copyLoop_copies device behind resources.vpdLen short 0 steps (Nat.zero_le _)
  rw [dwords_zero] at start
  rcases start with ⟨-, few⟩ | ⟨result, ran, refused | ⟨same, -⟩⟩
  · cases few.symm.trans copies
  · exact Or.inl refused.2
  · cases ran.symm.trans copies
    subst same
    obtain ⟨smcFlag, search, rest⟩ := Checked.bind_ok rest
    cases smcFlag with
    | false =>
      obtain ⟨fits, absent⟩ := idLoop_false search
      exact Or.inr ⟨fits, fun i below => absent i (Nat.zero_le _) below⟩
    | true =>
      simp only [if_true] at rest
      cases filled : fillSlot slotType slotID resources steps
          (device.copied resources.vpdLen.toNat behind) with
      | error fault =>
        rw [filled] at rest
        cases rest
      | ok collected =>
        rw [filled] at rest
        cases rest

/-- Refused data are not collected. -/
theorem collect_refuses (short : resources.vpdLen.toNat ≤ 200)
    (refused : RefusedLate device behind resources) :
    collect device slotType slotID 257 resources (emptyData behind) = .ok none := by
  unfold collect
  have start := @copyLoop_copies device behind resources.vpdLen short 0 257 (Nat.zero_le _)
  rw [dwords_zero] at start
  rcases start with ⟨few, -⟩ | ⟨result, ran, ⟨same, -⟩ | ⟨same, all⟩⟩
  · omega
  · subst same
    rw [show copyLoop device resources.vpdLen 257 4 0 (emptyData behind) = _ from ran]
    rfl
  · subst same
    rcases refused with ⟨n, below, missing⟩ | ⟨fits, absent⟩
    · rw [all n (Nat.zero_le _) below] at missing
      cases missing
    · have search := @idLoop_passes resources
        (device.copied resources.vpdLen.toNat behind) fits 0 257 (Nat.zero_le _)
        (by simp; omega) absent
      rw [show copyLoop device resources.vpdLen 257 4 0 (emptyData behind) = _ from ran]
      simp only [bind, Except.bind]
      rw [search]
      rfl

/-- The first four calls are delivered, the length is short, and there is an end tag. -/
structure Accepted (device : Device) : Prop where
  delivered : ∀ call < 4, device.delivers call 0 = true
  short : (device.resources 3).vpdLen.toNat ≤ 200
  ended : (device.answer 3 (device.resources 3).vpdLen).toUInt8 = 0x78

/-- Resources with the offset of the end tag read. -/
def Resources.withEnd (resources : Resources) : Resources :=
  { resources with offsets := resources.offsets ++ [resources.vpdLen] }

/-- The byte that closes the name leaves the length. -/
theorem withEnd_vpdLen : resources.withEnd.vpdLen = resources.vpdLen := rfl

/-- It leaves the refusal as well. -/
theorem refusedLate_withEnd :
    RefusedLate device behind resources.withEnd ↔ RefusedLate device behind resources :=
  Iff.rfl

/-- Accepted resources are collected with their name closed. -/
theorem vpdDataCollect_accepted (accepted : Accepted device) (steps : Nat) (vpdData : Memory) :
    vpdDataCollect device slotType slotID steps vpdData =
      collect device slotType slotID steps (device.resources 3).withEnd vpdData := by
  have loop := @resourceLoop_delivered device 0 3
    (fun i _ below => accepted.delivered i (by omega))
  have short : ¬ 200 < (device.resources 3).vpdLen := by
    rw [UInt16.lt_iff_toNat_lt]
    exact Nat.not_lt.mpr accepted.short
  have resources : resourceLoop device 3 0 noResources = some (device.resources 3) := loop
  unfold vpdDataCollect
  rw [resources]
  simp only
  rw [if_neg short, getVpdData_delivered (accepted.delivered 3 (by omega))]
  simp only
  rw [if_neg (not_not.mpr accepted.ended), Resources.withEnd]

/-- A card that is not accepted is refused before the copy. -/
theorem vpdDataCollect_early (early : ¬ Accepted device) (steps : Nat) (vpdData : Memory) :
    vpdDataCollect device slotType slotID steps vpdData = .ok none := by
  unfold vpdDataCollect
  by_cases first : ∀ call < 3, device.delivers call 0 = true
  · have loop := @resourceLoop_delivered device 0 3 (fun i _ below => first i (by omega))
    have resources : resourceLoop device 3 0 noResources = some (device.resources 3) := loop
    rw [resources]
    simp only
    split_ifs with long
    · rfl
    · cases delivered : device.delivers 3 0 with
      | false => rw [getVpdData_none delivered]
      | true =>
        rw [getVpdData_delivered delivered]
        simp only
        split_ifs with other
        · rfl
        · refine absurd ⟨?_, ?_, not_not.mp other⟩ early
          · intro call below
            rcases Nat.lt_or_eq_of_le (Nat.le_of_lt_succ below) with before | rfl
            · exact first call before
            · exact delivered
          · rw [UInt16.lt_iff_toNat_lt] at long
            exact Nat.le_of_not_lt long
  · push Not at first
    obtain ⟨call, below, missing⟩ := first
    have noResource : resourceLoop device 3 0 noResources = none :=
      @resourceLoop_none device 0 3 call (Nat.zero_le _) (by omega) (by simpa using missing)
    rw [noResource]

/-- Whether an accepted card is refused after all. -/
theorem refused_accepted (accepted : Accepted device) :
    Refused device behind ↔ RefusedLate device behind (device.resources 3) := by
  unfold Refused
  constructor
  · rintro (⟨call, below, missing⟩ | long | other | late)
    · rw [accepted.delivered call below] at missing
      cases missing
    · exact absurd accepted.short (Nat.not_le.mpr long)
    · exact absurd accepted.ended other
    · exact late
  · exact fun late => Or.inr (Or.inr (Or.inr late))

/-- Resources that are not accepted are refused. -/
theorem refused_early (early : ¬ Accepted device) : Refused device behind := by
  by_contra kept
  unfold Refused at kept
  simp only [not_or] at kept
  refine early ⟨?_, Nat.le_of_not_lt kept.2.1, not_not.mp kept.2.2.1⟩
  intro call below
  by_contra missing
  exact kept.1 ⟨call, below, by simpa using missing⟩

/-- A call that returns an error has refused the card. -/
theorem refused_of_none {steps : Nat}
    (ended : vpdDataCollect device slotType slotID steps (emptyData behind) = .ok none) :
    Refused device behind := by
  by_cases accepted : Accepted device
  · rw [vpdDataCollect_accepted accepted] at ended
    rw [refused_accepted accepted, ← refusedLate_withEnd]
    exact collect_none (by rw [withEnd_vpdLen]; exact accepted.short) ended
  · exact refused_early accepted

/-- A call for a card that is refused. -/
theorem vpdDataCollect_refused (refused : Refused device behind) :
    vpdDataCollect device slotType slotID 257 (emptyData behind) = .ok none := by
  by_cases accepted : Accepted device
  · rw [refused_accepted accepted, ← refusedLate_withEnd] at refused
    rw [vpdDataCollect_accepted accepted]
    exact collect_refuses (by rw [withEnd_vpdLen]; exact accepted.short) refused
  · exact vpdDataCollect_early accepted _ _

/-- A call that does what it should do has refused the card. -/
theorem refused_of_lawful (lawful : Lawful device slotType slotID behind updateHandle header) :
    Refused device behind := by
  obtain ⟨steps, result, ended, right⟩ := lawful
  cases result with
  | none => exact refused_of_none ended
  | some collected => exact absurd (right collected rfl).2.2 (not_counts collected)

/-- The collection does what it should do if and only if it refuses the card. A card that is accepted
is one for which the code does not end, stores outside, or tells a wrong length. The device answers
with any dwords, and may be late at any of them. -/
theorem collects_iff_refused :
    Lawful device slotType slotID behind updateHandle header ↔ Refused device behind := by
  constructor
  · exact refused_of_lawful
  · intro refused
    exact ⟨257, none, vpdDataCollect_refused refused, fun collected same => nomatch same⟩

/-- The VPD of a card: an identifier string and a resource with a slot item, 24 bytes, and the end
tag. -/
def slotVpd : List UInt8 :=
  [0x82, 10, 0] ++ supermicro ++ [0x91, 8, 0, 0x56, 0x42, 5, 0, 0, 0, 0, 0, 0x78]

/-- A card with this VPD whose dwords are always ready. -/
def slotCard : Device := ⟨memoryOf slotVpd fun _ => 0, fun _ _ _ => true, fun _ => 0⟩

/-- The card is accepted, its end tag is not copied, and its entry is counted too long. -/
theorem not_every_card :
    ¬ ∀ device slotType slotID behind updateHandle header,
      Lawful device slotType slotID behind updateHandle header := by
  intro lawful
  have delivers : ∀ call, slotCard.delivers call 0 = true := fun _ => rfl
  have refused := refused_of_lawful (lawful slotCard 1 1 (fun _ => 0) 0 ⟨0, 0, 0, 0, 0⟩)
  have resources : (slotCard.resources 3).vpdLen = 24 ∧ (slotCard.resources 3).vpdIdOffset = 0 ∧
      (slotCard.resources 3).vpdIdLen = 13 := by decide
  have ended : (slotCard.answer 3 24).toUInt8 = 0x78 := by decide
  obtain ⟨length, place, string⟩ := resources
  unfold Refused at refused
  simp only [length, place, string, delivers, ended] at refused
  simp at refused
  have named := refused 3 (by decide)
  revert named
  decide

end Result

end SmcPkg.SmcVpd
