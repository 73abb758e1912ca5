/-
  Spectty.Specs.PollBus

  The poll bus over any sequence of reads.

  Two change detectors are stacked: the reader compares content hashes and
  counts revisions, the bus compares the revisions' tokens as strings.
  `InStep` ties both to the content last read; `poll_law` says which polls
  emit.
-/

import Spectty.SpecBus
import Spectty.Lib.Decimal

namespace Spectty.Specs

open Spectty.Adapters
open Spectty.Lib

-- ============================================================================
-- Tokens
-- ============================================================================

theorem revisionToken_eq (revision : Nat) :
    revisionToken revision = String.ofList (Decimal.padded 20 revision) := rfl

/-- Tokens are ordered as the revisions they stand for. -/
theorem revisionToken_lt_iff {n m : Nat} (hn : n < 2 ^ 64) (hm : m < 2 ^ 64) :
    revisionToken n < revisionToken m ↔ n < m := by
  have h64 : 2 ^ 64 < 10 ^ 20 := by decide
  rw [revisionToken_eq, revisionToken_eq, String.lt_iff, String.toList_ofList, String.toList_ofList]
  exact Decimal.padded_lt_iff (by omega) (by omega) (by decide)

-- ============================================================================
-- Sequences of polls
-- ============================================================================

/-- The reply of a port read. -/
abbrev PortRead := Except String (Option String)

/-- The content of a read, if there is one. -/
def contentOf : PortRead → Option String
  | .ok (some content) => some content
  | _ => none

/-- The content last read; before any read, the seed. -/
def lastContent (seed : Option String) (reads : List PortRead) : Option String :=
  (reads.filterMap contentOf).getLast?.or seed

section

variable (contentHash : String → Nat)

/-- One poll, given what its read replied. -/
def pollRead (bus : SpecBus) (reader : PortPollReader) (r : PortRead) :
    Option Change × SpecBus × PortPollReader :=
  let seen := reader.observed contentHash r
  let decided := bus.decide seen.1
  (decided.1, decided.2, seen.2)

/-- What each poll emits. -/
def pollReads : SpecBus → PortPollReader → List PortRead → List (Option Change)
  | _, _, [] => []
  | bus, reader, r :: rest =>
      (pollRead contentHash bus reader r).1 ::
        pollReads (pollRead contentHash bus reader r).2.1
          (pollRead contentHash bus reader r).2.2 rest

/-- A poll of the source is one read and what follows from it. -/
theorem poll_eq_pollRead (bus : SpecBus) (reader : PortPollReader) :
    bus.poll contentHash reader =
      .op (.storeGet bus.topicKey) fun r => .ret (pollRead contentHash bus reader r) :=
  SpecBus.poll_eq contentHash bus reader

/-- A bus with its reader, fresh or both seeded with the same content. -/
def start (topicKey : String) : Option String → SpecBus × PortPollReader
  | none => (.new topicKey, .new)
  | some seed => (.seeded topicKey PortPollReader.seededToken, .seeded contentHash seed)

end

-- ============================================================================
-- The two detectors agree
-- ============================================================================

section

variable {contentHash : String → Nat} {topicKey : String} {bus : SpecBus} {reader : PortPollReader}
  {last : Option String}

/-- Both detectors stand at the content last read. -/
structure InStep (contentHash : String → Nat) (topicKey : String) (last : Option String)
    (bus : SpecBus) (reader : PortPollReader) : Prop where
  topic : bus.topicKey = topicKey
  hash : reader.lastContentHash = last.map contentHash
  token : bus.lastUpdatedAt = last.map fun _ => revisionToken reader.revision

/-- The seeded reader's token is that of its revision. -/
theorem revisionToken_one : revisionToken 1 = PortPollReader.seededToken := by decide

theorem inStep_start (seed : Option String) :
    InStep contentHash topicKey seed (start contentHash topicKey seed).1
      (start contentHash topicKey seed).2 := by
  cases seed with
  | none => exact ⟨rfl, rfl, rfl⟩
  | some seed => exact ⟨rfl, rfl, congrArg some revisionToken_one.symm⟩

/-- An absent content or an error changes nothing. -/
theorem pollRead_of_none {r : PortRead} (h : contentOf r = none) :
    pollRead contentHash bus reader r = (none, bus, reader) := by
  rcases r with msg | (_ | content)
  · rfl
  · rfl
  · cases h

/-- A content that is the last one read is not emitted. -/
theorem pollRead_of_same {content : String}
    (h : InStep contentHash topicKey (some content) bus reader) :
    pollRead contentHash bus reader (.ok (some content)) = (none, bus, reader) := by
  have hstamp : reader.stamp contentHash content =
      ({ content, updatedAt := revisionToken reader.revision }, reader) := by
    rw [PortPollReader.stamp, h.hash, Option.map_some, if_neg (fun hne => hne rfl)]
  have hnewer : bus.isNewer (revisionToken reader.revision) = false := by
    rw [SpecBus.isNewer, h.token]
    exact decide_eq_false (String.lt_irrefl _)
  rw [pollRead, PortPollReader.observed, hstamp]
  simp only [Prod.map_apply, Function.comp_apply, id_eq, SpecBus.decide, hnewer]
  rfl

/-- Any other content is emitted, and is then the last one read. -/
theorem pollRead_of_ne {content : String} (h : InStep contentHash topicKey last bus reader)
    (hne : ∀ c, last = some c → contentHash c ≠ contentHash content)
    (hrevision : reader.revision + 1 < 2 ^ 64) :
    (∃ change, (pollRead contentHash bus reader (.ok (some content))).1 = some change ∧
        change.topicKey = topicKey ∧ change.content = content) ∧
      InStep contentHash topicKey (some content)
        (pollRead contentHash bus reader (.ok (some content))).2.1
        (pollRead contentHash bus reader (.ok (some content))).2.2 ∧
      (pollRead contentHash bus reader (.ok (some content))).2.2.revision =
        reader.revision + 1 := by
  have hhash : reader.lastContentHash ≠ some (contentHash content) := by
    rw [h.hash]
    intro heq
    obtain ⟨c, hc, hsame⟩ := Option.map_eq_some_iff.mp heq
    exact hne c hc hsame
  have hstamp : reader.stamp contentHash content =
      ({ content, updatedAt := revisionToken (reader.revision + 1) },
        { lastContentHash := some (contentHash content), revision := reader.revision + 1 }) := by
    rw [PortPollReader.stamp, if_pos hhash]
  have hnewer : bus.isNewer (revisionToken (reader.revision + 1)) = true := by
    rw [SpecBus.isNewer, h.token]
    cases last with
    | none => rfl
    | some c =>
        have hlt : revisionToken reader.revision < revisionToken (reader.revision + 1) :=
          (revisionToken_lt_iff (by omega) hrevision).mpr (Nat.lt_succ_self _)
        exact decide_eq_true hlt
  have hpoll : pollRead contentHash bus reader (.ok (some content)) =
      (some { topicKey := bus.topicKey, content, updatedAt := revisionToken (reader.revision + 1) },
        { bus with lastUpdatedAt := some (revisionToken (reader.revision + 1)) },
        { lastContentHash := some (contentHash content), revision := reader.revision + 1 }) := by
    rw [pollRead, PortPollReader.observed, hstamp]
    simp only [Prod.map_apply, Function.comp_apply, id_eq, SpecBus.decide, hnewer]
    rfl
  rw [hpoll]
  exact ⟨⟨_, rfl, h.topic, rfl⟩, ⟨h.topic, rfl, rfl⟩, rfl⟩

-- ============================================================================
-- The law
-- ============================================================================

/-- The contents that a bus over some reads may compare. -/
def contents (seed : Option String) (reads : List PortRead) : List String :=
  seed.toList ++ reads.filterMap contentOf

/-- What a poll is to emit: the content of its read, if it has one and that is
    not the content last read. -/
def expected (seed : Option String) (before : List PortRead) (r : PortRead) : Option String :=
  match contentOf r with
  | none => none
  | some content => if lastContent seed before = some content then none else some content

theorem lastContent_concat (seed : Option String) (before : List PortRead) (r : PortRead) :
    lastContent seed (before ++ [r]) = (contentOf r).or (lastContent seed before) := by
  have hlast : (List.filterMap contentOf [r]).getLast? = contentOf r := by
    cases hr : contentOf r <;> simp [hr]
  rw [lastContent, List.filterMap_append, List.getLast?_append, hlast, Option.or_assoc]
  rfl

theorem expected_of_none {seed : Option String} {before : List PortRead} {r : PortRead}
    (hr : contentOf r = none) : expected seed before r = none := by
  rw [expected, hr]

theorem expected_of_some {seed : Option String} {before : List PortRead} {r : PortRead}
    {content : String} (hr : contentOf r = some content) :
    expected seed before r =
      if lastContent seed before = some content then none else some content := by
  rw [expected, hr]

/-- A content that was read is one of the contents compared. -/
theorem mem_contents_of_lastContent {seed : Option String} {before after : List PortRead}
    {c : String} (h : lastContent seed before = some c) : c ∈ contents seed (before ++ after) := by
  rw [contents, List.filterMap_append]
  rcases Option.or_eq_some_iff.mp h with hread | ⟨-, hseed⟩
  · have hmem := List.mem_of_getLast? hread
    simp [hmem]
  · simp [hseed]

/-- Detectors that are in step emit what is expected, and stay in step. -/
theorem pollRead_of_inStep {seed : Option String} {before after : List PortRead} {r : PortRead}
    (h : InStep contentHash topicKey (lastContent seed before) bus reader)
    (hinj : Set.InjOn contentHash {c | c ∈ contents seed (before ++ r :: after)})
    (hrevision : reader.revision + 1 < 2 ^ 64) :
    (pollRead contentHash bus reader r).1.map (·.content) = expected seed before r ∧
      InStep contentHash topicKey (lastContent seed (before ++ [r]))
        (pollRead contentHash bus reader r).2.1 (pollRead contentHash bus reader r).2.2 ∧
      (pollRead contentHash bus reader r).2.2.revision ≤ reader.revision + 1 := by
  rw [lastContent_concat]
  cases hr : contentOf r with
  | none =>
      rw [pollRead_of_none hr, expected_of_none hr]
      exact ⟨rfl, h, Nat.le_succ _⟩
  | some content =>
      obtain rfl : r = .ok (some content) := by
        rcases r with msg | (_ | c)
        · cases hr
        · cases hr
        · rw [Option.some.inj hr]
      rw [expected_of_some hr]
      by_cases hlast : lastContent seed before = some content
      · rw [hlast] at h
        rw [pollRead_of_same h, if_pos hlast]
        exact ⟨rfl, h, Nat.le_succ _⟩
      · have hne : ∀ c, lastContent seed before = some c → contentHash c ≠ contentHash content := by
          intro c hc hhash
          have hmem : content ∈ contents seed (before ++ .ok (some content) :: after) := by
            simp [contents, contentOf]
          rw [hinj (mem_contents_of_lastContent hc) hmem hhash] at hc
          exact hlast hc
        obtain ⟨⟨change, hchange, -, hcontent⟩, hstep, hrev⟩ := pollRead_of_ne h hne hrevision
        rw [if_neg hlast, hchange, Option.map_some, hcontent]
        exact ⟨rfl, hstep, Nat.le_of_eq hrev⟩

/-- Detectors that are in step emit what is expected, poll by poll. -/
theorem pollReads_of_inStep {seed : Option String} {before earlier later : List PortRead}
    {r : PortRead} (h : InStep contentHash topicKey (lastContent seed before) bus reader)
    (hinj : Set.InjOn contentHash {c | c ∈ contents seed (before ++ (earlier ++ r :: later))})
    (hrevision : reader.revision + (earlier.length + 1) < 2 ^ 64) :
    ((pollReads contentHash bus reader (earlier ++ r :: later))[earlier.length]?).map
        (Option.map (·.content)) =
      some (expected seed (before ++ earlier) r) := by
  induction earlier generalizing bus reader before with
  | nil =>
      have hone := (pollRead_of_inStep h hinj (by simpa using hrevision)).1
      rw [List.append_nil, ← hone]
      rfl
  | cons first earlier ih =>
      rw [List.length_cons] at hrevision
      obtain ⟨-, hstep, hrev⟩ := pollRead_of_inStep h hinj (by omega)
      rw [List.cons_append, List.append_cons] at hinj
      have hrest := ih hstep hinj (by omega)
      rw [List.append_assoc] at hrest
      exact hrest

/-- What the polls of a bus, fresh or seeded, emit over some reads. -/
def emitted (contentHash : String → Nat) (topicKey : String) (seed : Option String)
    (reads : List PortRead) : List (Option String) :=
  (pollReads contentHash (start contentHash topicKey seed).1 (start contentHash topicKey seed).2
    reads).map (Option.map (·.content))

/-- The revision of a bus at its start. -/
theorem revision_start_le (seed : Option String) :
    (start contentHash topicKey seed).2.revision ≤ 1 := by
  cases seed with
  | none => exact Nat.zero_le 1
  | some seed => exact Nat.le_refl 1

/-- Each poll emits what is expected. -/
theorem emitted_eq {seed : Option String} {earlier later : List PortRead} {r : PortRead}
    (hinj : Set.InjOn contentHash {c | c ∈ contents seed (earlier ++ r :: later)})
    (hlen : earlier.length + 2 < 2 ^ 64) :
    (emitted contentHash topicKey seed (earlier ++ r :: later))[earlier.length]? =
      some (expected seed earlier r) := by
  have hle : (start contentHash topicKey seed).2.revision ≤ 1 := revision_start_le seed
  have hstart : InStep contentHash topicKey (lastContent seed []) _ _ := inStep_start seed
  rw [emitted, List.getElem?_map]
  exact pollReads_of_inStep hstart hinj (by omega)

/-- A content that comes back after another one is emitted again. -/
theorem emitted_revert {seed : Option String} {earlier later : List PortRead} {a b : String}
    (hinj : Set.InjOn contentHash
      {c | c ∈ contents seed (earlier ++ .ok (some a) :: .ok (some b) :: .ok (some a) :: later)})
    (hlen : earlier.length + 4 < 2 ^ 64) (hab : a ≠ b) (hlast : lastContent seed earlier ≠ some a) :
    (emitted contentHash topicKey seed
      (earlier ++ .ok (some a) :: .ok (some b) :: .ok (some a) :: later))[earlier.length]? =
        some (some a) ∧
    (emitted contentHash topicKey seed
      (earlier ++ .ok (some a) :: .ok (some b) :: .ok (some a) :: later))[earlier.length + 1]? =
        some (some b) ∧
    (emitted contentHash topicKey seed
      (earlier ++ .ok (some a) :: .ok (some b) :: .ok (some a) :: later))[earlier.length + 2]? =
        some (some a) := by
  have hread : ∀ (before : List PortRead) (c : String),
      lastContent seed (before ++ [.ok (some c)]) = some c :=
    fun before c => lastContent_concat seed before (.ok (some c))
  have hnext : ∀ (before : List PortRead) (c : String), lastContent seed before ≠ some c →
      expected seed before (.ok (some c)) = some c :=
    fun before c hne => (expected_of_some rfl).trans (if_neg hne)
  refine ⟨?_, ?_, ?_⟩
  · rw [emitted_eq hinj (by omega), hnext earlier a hlast]
  · rw [List.append_cons] at hinj ⊢
    have hsecond : (emitted contentHash topicKey seed _)[_]? = _ :=
      emitted_eq hinj (by simp; omega)
    have hne : lastContent seed (earlier ++ [.ok (some a)]) ≠ some b := by
      rw [hread]
      exact fun h => hab (Option.some.inj h)
    rw [hnext _ b hne, List.length_append] at hsecond
    exact hsecond
  · rw [List.append_cons, List.append_cons] at hinj ⊢
    have hthird : (emitted contentHash topicKey seed _)[_]? = _ :=
      emitted_eq hinj (by simp; omega)
    have hne : lastContent seed (earlier ++ [.ok (some a)] ++ [.ok (some b)]) ≠ some a := by
      rw [hread]
      exact fun h => hab (Option.some.inj h).symm
    rw [hnext _ a hne, List.length_append, List.length_append] at hthird
    exact hthird

/-- For a bus over a reader, fresh or both seeded with the same content: each
    poll emits the content of its read if it has one and that is not the
    content last read; absent contents and errors change nothing; a content that comes
    back is emitted again; tokens are ordered as revisions. -/
theorem poll_law (contentHash : String → Nat) (topicKey : String) (seed : Option String)
    (reads : List PortRead) (hinj : Set.InjOn contentHash {c | c ∈ contents seed reads})
    (hlen : reads.length + 1 < 2 ^ 64) :
    (∀ earlier r later, reads = earlier ++ r :: later →
      (emitted contentHash topicKey seed reads)[earlier.length]? =
        some (expected seed earlier r)) ∧
    (∀ r, contentOf r = none → ∀ bus reader,
      pollRead contentHash bus reader r = (none, bus, reader)) ∧
    (∀ earlier a b later,
      reads = earlier ++ .ok (some a) :: .ok (some b) :: .ok (some a) :: later → a ≠ b →
      lastContent seed earlier ≠ some a →
        (emitted contentHash topicKey seed reads)[earlier.length]? = some (some a) ∧
        (emitted contentHash topicKey seed reads)[earlier.length + 1]? = some (some b) ∧
        (emitted contentHash topicKey seed reads)[earlier.length + 2]? = some (some a)) ∧
    ∀ n m, n < 2 ^ 64 → m < 2 ^ 64 → (revisionToken n < revisionToken m ↔ n < m) := by
  refine ⟨?_, ?_, ?_, ?_⟩
  · rintro earlier r later rfl
    rw [List.length_append, List.length_cons] at hlen
    exact emitted_eq hinj (by omega)
  · exact fun r hr bus reader => pollRead_of_none hr
  · rintro earlier a b later rfl hab hlast
    simp only [List.length_append, List.length_cons] at hlen
    exact emitted_revert hinj (by omega) hab hlast
  · exact fun n m hn hm => revisionToken_lt_iff hn hm

end

/-- A fresh bus that reads one content, another one, and the first again. -/
theorem poll_law_revert :
    (emitted String.length "spectty/spec/0" none
        [.ok (some "a"), .ok (some "bb"), .ok (some "a")])[0]? = some (some "a") ∧
      (emitted String.length "spectty/spec/0" none
        [.ok (some "a"), .ok (some "bb"), .ok (some "a")])[1]? = some (some "bb") ∧
      (emitted String.length "spectty/spec/0" none
        [.ok (some "a"), .ok (some "bb"), .ok (some "a")])[2]? = some (some "a") := by
  refine (poll_law String.length "spectty/spec/0" none
    [.ok (some "a"), .ok (some "bb"), .ok (some "a")] ?_ (by decide)).2.2.1 [] "a" "bb" [] rfl
      (by decide) (by decide)
  intro c hc c' hc' hlength
  have hmem : ∀ c ∈ contents none [.ok (some "a"), .ok (some "bb"), .ok (some "a")],
      c = "a" ∨ c = "bb" := by decide
  rcases hmem c hc with rfl | rfl <;> rcases hmem c' hc' with rfl | rfl <;>
    first | rfl | exact absurd hlength (by decide)

end Spectty.Specs
