import Mathlib

/-!
# Intrusive chains and bucket tables

Entries are addresses, and each carries the link to its successor itself. A chain
ends at NULL, here `none`; a walk along it is bounded by fuel, because nothing in
the representation excludes a cycle. `Chain` says that the links from a start do
reach NULL, and names the entries in between.

A bucket table holds the start of one chain for every bucket. `Holds` says that
the buckets hold exactly the entries of one list, each in its own bucket and in
the order of the list. Appending a new entry keeps this for the longer list.
Appending an entry that is already in its chain closes a cycle instead.
-/

namespace SmcPkg.Buckets

variable {α : Type}

/-- Following the links from a start reaches NULL through exactly these entries. -/
inductive Chain (next : α → Option α) : Option α → List α → Prop
  | nil : Chain next none []
  | cons (a : α) (rest : List α) (tail : Chain next (next a) rest) :
      Chain next (some a) (a :: rest)

/-- The first entry along the links that satisfies a test. Fuel that runs out is
the outer `none`. -/
def findFrom (next : α → Option α) (test : α → Bool) : Nat → Option α → Option (Option α)
  | _, none => some none
  | 0, some _ => none
  | fuel + 1, some a => if test a then some (some a) else findFrom next test fuel (next a)

/-- The entry whose link is NULL, along the links from a given entry. -/
def lastFrom (next : α → Option α) : Nat → α → Option α
  | 0, _ => none
  | fuel + 1, a =>
    match next a with
    | none => some a
    | some b => lastFrom next fuel b

/-- A search along a chain is a search in its list of entries. -/
theorem findFrom_chain {next : α → Option α} {start : Option α} {entries : List α}
    (chain : Chain next start entries) (test : α → Bool) (fuel : Nat)
    (enough : entries.length ≤ fuel) :
    findFrom next test fuel start = some (entries.find? test) := by
  induction chain generalizing fuel with
  | nil => cases fuel <;> rfl
  | cons a rest tail inductionHypothesis =>
    cases fuel with
    | zero => exact absurd enough (by simp)
    | succ fuel =>
      have onward := inductionHypothesis fuel (Nat.le_of_succ_le_succ enough)
      by_cases found : test a = true
      · simp [findFrom, List.find?, found]
      · simp [findFrom, List.find?, found, onward]

/-- The walk to the end of a chain stops at its last entry. -/
theorem lastFrom_chain {next : α → Option α} {rest : List α} (a : α)
    (chain : Chain next (some a) (a :: rest)) (fuel : Nat) (enough : rest.length < fuel) :
    lastFrom next fuel a = some ((a :: rest).getLast (List.cons_ne_nil a rest)) := by
  induction rest generalizing a fuel with
  | nil =>
    obtain ⟨fuel, rfl⟩ : ∃ smaller, fuel = smaller + 1 := ⟨fuel - 1, by omega⟩
    cases chain with
    | cons _ _ tail =>
      cases link : next a with
      | none => simp [lastFrom, link]
      | some b => rw [link] at tail; exact nomatch tail
  | cons b rest inductionHypothesis =>
    obtain ⟨fuel, rfl⟩ : ∃ smaller, fuel = smaller + 1 := ⟨fuel - 1, by omega⟩
    cases chain with
    | cons _ _ tail =>
      have link : next a = some b := by
        cases link : next a with
        | none => rw [link] at tail; exact nomatch tail
        | some c => rw [link] at tail; cases tail; rfl
      rw [link] at tail
      have onward := inductionHypothesis b tail fuel (Nat.lt_of_succ_lt_succ enough)
      simp [lastFrom, link, onward]

/-- However much fuel it takes, a walk that ends stops at the last entry. -/
theorem lastFrom_unique {next : α → Option α} {a last final : α} {rest : List α} {fuel : Nat}
    (chain : Chain next (some a) (a :: rest)) (reached : lastFrom next fuel a = some last)
    (isFinal : (a :: rest).getLast? = some final) : last = final := by
  induction fuel generalizing a rest with
  | zero => exact absurd reached (by simp [lastFrom])
  | succ fuel inductionHypothesis =>
    cases chain with
    | cons _ _ tail =>
      cases link : next a with
      | none =>
        rw [link] at tail
        cases tail
        simp only [lastFrom, link, Option.some.injEq] at reached
        rw [← reached]
        simpa using isFinal
      | some b =>
        rw [link] at tail
        cases tail with
        | cons _ rest tail =>
          simp only [lastFrom, link] at reached
          exact inductionHypothesis (.cons b rest tail) reached (by simpa using isFinal)

/-- A chain depends only on the links of its own entries. -/
theorem chain_congr {next next' : α → Option α} {start : Option α} {entries : List α}
    (chain : Chain next start entries) (same : ∀ a ∈ entries, next' a = next a) :
    Chain next' start entries := by
  induction chain with
  | nil => exact .nil
  | cons a rest tail inductionHypothesis =>
    have tail' := inductionHypothesis (fun b member => same b (List.mem_cons_of_mem a member))
    refine .cons a rest ?_
    rw [same a List.mem_cons_self]
    exact tail'

/-- An entry that links to itself and fails the test keeps the search from ending. -/
theorem findFrom_self_cycle {next : α → Option α} {test : α → Bool} {a : α}
    (cycle : next a = some a) (missed : test a = false) (fuel : Nat) :
    findFrom next test fuel (some a) = none := by
  induction fuel with
  | zero => rfl
  | succ fuel inductionHypothesis => simp [findFrom, missed, cycle, inductionHypothesis]

/-- An entry that links to itself is on no chain. -/
theorem self_cycle_not_chain {next : α → Option α} {a : α} (cycle : next a = some a)
    {start : Option α} {entries : List α} (chain : Chain next start entries) : a ∉ entries := by
  induction chain with
  | nil => exact List.not_mem_nil
  | cons b rest tail inductionHypothesis =>
    intro member
    rcases List.mem_cons.mp member with rfl | member
    · rw [cycle] at tail
      cases tail with
      | cons _ rest' tail' => exact inductionHypothesis List.mem_cons_self
    · exact inductionHypothesis member

/-- Links that run into an entry which is its own successor never reach NULL. -/
theorem not_chain_of_cycle {next next' : α → Option α} {start : Option α} {before : List α} {a : α}
    (cut : Chain next start (before ++ [a])) (same : ∀ b ∈ before, next' b = next b)
    (cycle : next' a = some a) (entries : List α) : ¬ Chain next' start entries := by
  induction before generalizing start entries with
  | nil =>
    intro chain
    cases cut
    cases chain
    exact self_cycle_not_chain cycle (.cons _ _ ‹_›) List.mem_cons_self
  | cons b before inductionHypothesis =>
    intro chain
    cases cut with
    | cons _ _ tail =>
      cases chain with
      | cons _ rest chainTail =>
        rw [same b List.mem_cons_self] at chainTail
        exact inductionHypothesis tail
          (fun c member => same c (List.mem_cons_of_mem b member)) rest chainTail

variable [DecidableEq α]

/-- Clearing the link of an entry on a chain cuts the chain behind it. -/
theorem chain_cut {next : α → Option α} {start : Option α} {before after : List α} {a : α}
    (chain : Chain next start (before ++ a :: after)) (distinct : (before ++ a :: after).Nodup) :
    Chain (Function.update next a none) start (before ++ [a]) := by
  induction before generalizing start with
  | nil =>
    cases chain
    refine .cons a [] ?_
    rw [Function.update_self]
    exact .nil
  | cons b before inductionHypothesis =>
    cases chain with
    | cons _ _ tail =>
      obtain ⟨notLater, distinctTail⟩ := List.nodup_cons.mp distinct
      have different : b ≠ a := fun same => notLater (by simp [same])
      refine .cons b _ ?_
      rw [Function.update_of_ne different]
      exact inductionHypothesis tail distinctTail

/-- Linking a fresh entry behind the last one extends the chain by it. -/
theorem chain_extend {next : α → Option α} {start : Option α} {rest : List α} {first a : α}
    (chain : Chain next start (first :: rest)) (distinct : (first :: rest).Nodup)
    (fresh : a ∉ first :: rest) (ends : next a = none) :
    Chain (Function.update next ((first :: rest).getLast (List.cons_ne_nil first rest)) (some a))
      start (first :: rest ++ [a]) := by
  induction rest generalizing start first with
  | nil =>
    cases chain with
    | cons _ _ tail =>
      refine .cons first [a] ?_
      have different : a ≠ first := fun same => fresh (by simp [same])
      simp only [List.getLast_singleton, Function.update_self]
      refine .cons a [] ?_
      rw [Function.update_of_ne different, ends]
      exact .nil
  | cons second rest inductionHypothesis =>
    cases chain with
    | cons _ _ tail =>
      refine .cons first _ ?_
      have notLast : first ≠ (first :: second :: rest).getLast (List.cons_ne_nil _ _) := by
        rw [List.getLast_cons (List.cons_ne_nil second rest)]
        intro same
        have member := List.getLast_mem (List.cons_ne_nil second rest)
        rw [← same] at member
        exact (List.nodup_cons.mp distinct).1 member
      rw [Function.update_of_ne notLast, List.getLast_cons (List.cons_ne_nil second rest)]
      exact inductionHypothesis tail (List.nodup_cons.mp distinct).2
        (fun member => fresh (List.mem_cons_of_mem first member))

omit [DecidableEq α] in
/-- A filter that keeps every match does not change the first match. -/
theorem find_filter {index : α → Nat} {bucket : Nat} {test : α → Bool} {entries : List α}
    (inside : ∀ a ∈ entries, test a = true → index a = bucket) :
    (entries.filter (fun a => index a = bucket)).find? test = entries.find? test := by
  induction entries with
  | nil => rfl
  | cons a entries inductionHypothesis =>
    have onward := inductionHypothesis
      (fun b member => inside b (List.mem_cons_of_mem a member))
    by_cases found : test a = true
    · have own := inside a List.mem_cons_self found
      simp [found, own]
    · by_cases own : index a = bucket <;> simp [found, own, onward]

/-- The links of a bucket table: the successor of each entry and the start of each
bucket. -/
structure Links (α : Type) where
  next : α → Option α
  head : Nat → Option α

namespace Links

/-- The table without entries. -/
def empty : Links α := ⟨fun _ => none, fun _ => none⟩

/-- Clear the link of one entry, as initialising it does. -/
def clear (links : Links α) (a : α) : Links α :=
  { links with next := Function.update links.next a none }

/-- Append an entry to a bucket: it becomes the start of an empty bucket, and the
successor of the last entry otherwise. -/
def append (links : Links α) (fuel bucket : Nat) (a : α) : Option (Links α) :=
  match links.head bucket with
  | none => some { links with head := Function.update links.head bucket (some a) }
  | some first =>
    (lastFrom links.next fuel first).map
      (fun last => { links with next := Function.update links.next last (some a) })

/-- Search a bucket. -/
def search (links : Links α) (fuel bucket : Nat) (test : α → Bool) : Option (Option α) :=
  findFrom links.next test fuel (links.head bucket)

/-- Every bucket is a chain of the listed entries that belong to it, in order. -/
def Holds (links : Links α) (index : α → Nat) (entries : List α) : Prop :=
  ∀ bucket, Chain links.next (links.head bucket) (entries.filter (fun a => index a = bucket))

omit [DecidableEq α] in
/-- The empty table holds nothing. -/
theorem empty_holds (index : α → Nat) : (empty : Links α).Holds index [] := by
  intro bucket
  exact .nil

omit [DecidableEq α] in
/-- What a table holds depends on the buckets of its own entries only. -/
theorem holds_congr {links : Links α} {index index' : α → Nat} {entries : List α}
    (holds : links.Holds index entries) (same : ∀ a ∈ entries, index' a = index a) :
    links.Holds index' entries := by
  intro bucket
  have filtered : entries.filter (fun a => index' a = bucket) =
      entries.filter (fun a => index a = bucket) := by
    refine List.filter_congr ?_
    intro a member
    rw [same a member]
  rw [filtered]
  exact holds bucket

/-- Clearing the link of an entry outside the table changes nothing in it. -/
theorem clear_holds {links : Links α} {index : α → Nat} {entries : List α} {a : α}
    (holds : links.Holds index entries) (absent : a ∉ entries) :
    (links.clear a).Holds index entries := by
  intro bucket
  refine chain_congr (holds bucket) ?_
  intro b member
  have different : b ≠ a := fun same => absent (same ▸ List.mem_of_mem_filter member)
  exact Function.update_of_ne different _ _

omit [DecidableEq α] in
/-- A search in the bucket that holds every match is a search in the whole list. -/
theorem search_holds {links : Links α} {index : α → Nat} {entries : List α}
    (holds : links.Holds index entries) (test : α → Bool) (bucket fuel : Nat)
    (inside : ∀ a ∈ entries, test a = true → index a = bucket)
    (enough : entries.length ≤ fuel) :
    links.search fuel bucket test = some (entries.find? test) := by
  have short : (entries.filter (fun a => index a = bucket)).length ≤ fuel :=
    Nat.le_trans (List.length_filter_le _ _) enough
  rw [search, findFrom_chain (holds bucket) test fuel short, find_filter inside]

/-- Appending a fresh entry puts it behind all others. -/
theorem append_holds {links : Links α} {index : α → Nat} {entries : List α} {a : α} {fuel : Nat}
    (holds : links.Holds index entries) (distinct : entries.Nodup) (fresh : a ∉ entries)
    (ends : links.next a = none) (enough : entries.length ≤ fuel) :
    ∃ appended, links.append fuel (index a) a = some appended ∧
      appended.Holds index (entries ++ [a]) := by
  have own := holds (index a)
  have split (bucket : Nat) : (entries ++ [a]).filter (fun b => index b = bucket) =
      entries.filter (fun b => index b = bucket) ++ if index a = bucket then [a] else [] := by
    by_cases same : index a = bucket <;> simp [List.filter_append, same]
  cases start : links.head (index a) with
  | none =>
    rw [start] at own
    have none : entries.filter (fun b => index b = index a) = [] := by
      cases filtered : entries.filter (fun b => index b = index a) with
      | nil => rfl
      | cons b rest => rw [filtered] at own; exact nomatch own
    refine ⟨_, by rw [append, start], ?_⟩
    intro bucket
    rw [split]
    by_cases same : index a = bucket
    · subst same
      simp only [none, if_true, List.nil_append, Function.update_self]
      exact .cons a [] (by rw [ends]; exact .nil)
    · simp only [if_neg same, List.append_nil, Function.update_of_ne (Ne.symm same)]
      exact holds bucket
  | some first =>
    rw [start] at own
    obtain ⟨rest, filtered⟩ : ∃ rest, entries.filter (fun b => index b = index a) =
        first :: rest := by
      cases filtered : entries.filter (fun b => index b = index a) with
      | nil => rw [filtered] at own; exact nomatch own
      | cons b rest => rw [filtered] at own; cases own; exact ⟨rest, rfl⟩
    have short : rest.length < fuel := by
      have bound := List.length_filter_le (fun b => decide (index b = index a)) entries
      rw [filtered, List.length_cons] at bound
      omega
    rw [filtered] at own
    have last := lastFrom_chain first own fuel short
    refine ⟨⟨Function.update links.next ((first :: rest).getLast (List.cons_ne_nil first rest))
      (some a), links.head⟩, ?_, ?_⟩
    · simp only [append, start, last, Option.map_some]
    intro bucket
    rw [split]
    by_cases same : index a = bucket
    · subst same
      have filteredDistinct : (first :: rest).Nodup := filtered ▸ distinct.filter _
      have filteredFresh : a ∉ first :: rest := by
        rw [← filtered]
        exact fun member => fresh (List.mem_of_mem_filter member)
      simp only [if_true, filtered]
      rw [start]
      exact chain_extend own filteredDistinct filteredFresh ends
    · simp only [if_neg same, List.append_nil]
      refine chain_congr (holds bucket) ?_
      intro b member
      have inBucket : index b = bucket := by simpa using List.of_mem_filter member
      have elsewhere : b ≠ (first :: rest).getLast (List.cons_ne_nil first rest) := by
        intro isLast
        have among := List.getLast_mem (List.cons_ne_nil first rest)
        rw [← isLast, ← filtered] at among
        have own : index b = index a := by simpa using List.of_mem_filter among
        exact same (own.symm.trans inBucket)
      exact Function.update_of_ne elsewhere _ _

/-- Appending an entry that is already in its bucket, after its link was cleared,
makes it its own successor, and the bucket never reaches NULL again. -/
theorem append_listed {links appended : Links α} {index : α → Nat} {entries : List α} {a : α}
    {fuel : Nat} (holds : links.Holds index entries) (distinct : entries.Nodup)
    (listed : a ∈ entries) (done : (links.clear a).append fuel (index a) a = some appended)
    (chain : List α) : ¬ Chain appended.next (appended.head (index a)) chain := by
  have member : a ∈ entries.filter (fun b => index b = index a) := by simp [listed]
  obtain ⟨before, after, split⟩ := List.append_of_mem member
  have own := holds (index a)
  rw [split] at own
  have distinctOwn : (before ++ a :: after).Nodup := split ▸ distinct.filter _
  have cut := chain_cut own distinctOwn
  obtain ⟨first, rest, opening⟩ : ∃ first rest, before ++ [a] = first :: rest := by
    cases before with
    | nil => exact ⟨a, [], rfl⟩
    | cons b before => exact ⟨b, before ++ [a], rfl⟩
  have start : links.head (index a) = some first := by
    rw [opening] at cut
    generalize links.head (index a) = head at cut
    cases cut
    rfl
  have cleared : (links.clear a).head (index a) = some first := start
  rw [append, cleared] at done
  obtain ⟨last, reached, rfl⟩ := Option.map_eq_some_iff.mp done
  have isLast : last = a := by
    rw [start, opening] at cut
    exact lastFrom_unique cut reached (by rw [← opening]; simp)
  subst isLast
  have notBefore : ∀ b ∈ before, b ≠ last := by
    intro b inside same
    rw [List.nodup_append] at distinctOwn
    exact distinctOwn.2.2 b inside last List.mem_cons_self same
  refine not_chain_of_cycle cut ?_ (Function.update_self ..) chain
  intro b inside
  exact Function.update_of_ne (notBefore b inside) _ _

end Links

end SmcPkg.Buckets
