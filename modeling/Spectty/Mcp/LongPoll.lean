/-
  Spectty.Mcp.LongPoll

  The approval long-poll over any stream of replies of the store: it stops at the
  first read that gives a decision, or is the third error in an unbroken row, and
  else spends its budget (`long_poll_law`).
-/

import Spectty.Mcp.Tools

namespace Spectty.Mcp

open Spectty.Adapters (EngramClientError)
open Spectty.Lib
open Spectty.Lib.Prog (Exec)

/-- The replies of the store to the reads of a poll, in order. -/
abbrev Replies := Nat → Except String (Option String)

/-- Every read is answered by the next reply; the state counts the reads. -/
def answering (replies : Replies) : Prog.Semantics Sys Nat := fun i e j =>
  j = i + 1 ∧ ∃ key, e = ⟨.storeGet key, replies i⟩

/-- From a read on, the program has one run, with this number of reads performed at
    its end, and this value returned. -/
def OnlyRun {α : Type} (replies : Replies) (first : Nat) (p : Prog Sys α) (count : Nat)
    (result : α) : Prop :=
  ∀ count' result', (∃ es, Exec (answering replies) first p es count' result') ↔
    count' = count ∧ result' = result

/-- A read that ends the poll, with what the poll then returns. -/
inductive Stops (J : SerdeJson) (replies : Replies) (actionId : String) :
    Nat → Except EngramClientError (Option String) → Prop where
  | decided {i : Nat} {content decision : String} :
      replies i = .ok (some content) → resolutionOf J content actionId = some decision →
      Stops J replies actionId i (.ok (some decision))
  | outage {i : Nat} {first second third : String} :
      replies i = .error first → replies (i + 1) = .error second →
      replies (i + 2) = .error third →
      Stops J replies actionId (i + 2) (.error (.transport third))

/-- No read from one on, and before the other, ends the poll. -/
def GoesOn (J : SerdeJson) (replies : Replies) (actionId : String) (first limit : Nat) : Prop :=
  ∀ i, first ≤ i → i < limit → ∀ result, ¬ Stops J replies actionId i result

/-- What a poll may do with the reads from one on, and before the other: it stops
    at the first that ends it, or returns nothing after all of them.  With what it
    returns stands the number of reads performed by then. -/
inductive Law (J : SerdeJson) (replies : Replies) (actionId : String) (first limit : Nat) :
    Nat → Except EngramClientError (Option String) → Prop where
  | stopped {i : Nat} {result : Except EngramClientError (Option String)} :
      first ≤ i → i < limit → GoesOn J replies actionId first i →
      Stops J replies actionId i result → Law J replies actionId first limit (i + 1) result
  | spent : GoesOn J replies actionId first limit →
      Law J replies actionId first limit limit (.ok none)

/-- The errors in a row before a read. -/
inductive Row (replies : Replies) : Nat → Nat → Prop where
  | start : Row replies 0 0
  | ok {i n : Nat} {content : Option String} :
      Row replies i n → replies i = .ok content → Row replies (i + 1) 0
  | error {i n : Nat} {msg : String} :
      Row replies i n → replies i = .error msg → Row replies (i + 1) (n + 1)

section

variable {J : SerdeJson} {replies : Replies} {actionId key : String} {i n first limit : Nat}
  {result : Except EngramClientError (Option String)}

/-- Two errors before a read count as two. -/
theorem Row.two_le {one two : String} (hrow : Row replies (i + 2) n)
    (hone : replies i = .error one) (htwo : replies (i + 1) = .error two) : 2 ≤ n := by
  cases hrow with
  | ok _ hok => exact absurd (htwo.symm.trans hok) (by simp)
  | error hrow _ =>
      cases hrow with
      | ok _ hok => exact absurd (hone.symm.trans hok) (by simp)
      | error _ _ => exact Nat.le_add_left 2 _

/-- A third error in a row ends the poll. -/
theorem Row.stops {msg : String} (hrow : Row replies i 2) (h : replies i = .error msg) :
    Stops J replies actionId i (.error (.transport msg)) := by
  cases hrow with
  | error hrow htwo =>
      cases hrow with
      | error _ hone => exact .outage hone htwo h

/-- A first or second error in a row does not. -/
theorem Row.not_stops {msg : String} (hrow : Row replies i n) (hn : n < 2)
    (h : replies i = .error msg) : ¬ Stops J replies actionId i result := by
  rintro (⟨hok, -⟩ | ⟨hone, htwo, -⟩)
  · exact absurd (h.symm.trans hok) (by simp)
  · exact absurd (hrow.two_le hone htwo) (Nat.not_le.mpr hn)

theorem not_stops_of_ok {content : Option String} (h : replies i = .ok content)
    (hnone : content.bind (resolutionOf J · actionId) = none) :
    ¬ Stops J replies actionId i result := by
  rintro (⟨hok, hdecision⟩ | ⟨-, -, herror⟩)
  · obtain rfl := Except.ok.inj (h.symm.trans hok)
    exact absurd (hdecision.symm.trans hnone) (by simp)
  · exact absurd (h.symm.trans herror) (by simp)

/-- A read that does not end the poll leaves it to the next ones. -/
theorem Law.later (hgo : ∀ w, ¬ Stops J replies actionId first w)
    (h : Law J replies actionId (first + 1) limit n result) :
    Law J replies actionId first limit n result := by
  have hfrom : ∀ {upTo}, GoesOn J replies actionId (first + 1) upTo →
      GoesOn J replies actionId first upTo := by
    intro upTo hall i hi hlt
    rcases Nat.eq_or_lt_of_le hi with rfl | hi
    · exact hgo
    · exact hall i hi hlt
  cases h with
  | stopped hi hlt hall hstop => exact .stopped (Nat.le_of_succ_le hi) hlt (hfrom hall) hstop
  | spent hall => exact .spent (hfrom hall)

/-- A read that ends the poll is the first to do so. -/
theorem Law.now (hlt : first < limit) (hstop : Stops J replies actionId first result) :
    Law J replies actionId first limit (first + 1) result :=
  .stopped le_rfl hlt (fun _ hi hlt => absurd hi (Nat.not_le.mpr hlt)) hstop

theorem Law.le_limit (h : Law J replies actionId first limit n result) : n ≤ limit := by
  cases h with
  | stopped _ hlt _ _ => exact hlt
  | spent _ => exact le_rfl

theorem onlyRun_ret {α : Type} {a : α} : OnlyRun replies i (.ret a) i a := by
  intro last v
  constructor
  · rintro ⟨es, hx⟩
    cases hx
    exact ⟨rfl, rfl⟩
  · rintro ⟨rfl, rfl⟩
    exact ⟨[], .ret⟩

theorem OnlyRun.storeGet {α : Type} {k : Except String (Option String) → Prog Sys α} {v : α}
    {last : Nat} (h : OnlyRun replies (i + 1) (k (replies i)) last v) :
    OnlyRun replies i (.op (.storeGet key) k) last v := by
  intro last' v'
  rw [← h last' v']
  constructor
  · rintro ⟨es, hx⟩
    cases hx with
    | op hstep hrest =>
        obtain ⟨rfl, key', he⟩ := hstep
        cases he
        exact ⟨_, hrest⟩
  · rintro ⟨es, hx⟩
    exact ⟨_, .op ⟨rfl, key, rfl⟩ hx⟩

/-- From any read, with the errors before it counted, the poll has one run, and
    that obeys the law. -/
theorem exec_pollForResolution (J : SerdeJson) (key actionId : String) (polls : Nat)
    (hrow : Row replies first n) (hn : n < approvalMaxConsecutiveGetFailures) :
    ∃ count result, Law J replies actionId first (first + polls) count result ∧
      OnlyRun replies first (pollForResolution J key actionId polls n) count result := by
  induction polls generalizing first n with
  | zero =>
      exact ⟨first, .ok none, .spent fun i hi hlt => absurd hi (Nat.not_le.mpr hlt), onlyRun_ret⟩
  | succ polls ih =>
      have hlt : first < first + (polls + 1) := Nat.lt_add_of_pos_right (Nat.succ_pos polls)
      have hlimit : first + 1 + polls = first + (polls + 1) := by omega
      rw [pollForResolution_succ]
      cases hread : replies first with
      | ok content =>
          cases hdecision : content.bind (resolutionOf J · actionId) with
          | some decision =>
              obtain ⟨document, rfl, hresolution⟩ := Option.bind_eq_some_iff.mp hdecision
              refine ⟨_, _, .now hlt (.decided hread hresolution), .storeGet ?_⟩
              simp only [hread, hdecision]
              exact onlyRun_ret
          | none =>
              obtain ⟨count, result, hlaw, hrun⟩ := ih (hrow.ok hread) (by decide)
              rw [hlimit] at hlaw
              refine ⟨count, result, hlaw.later fun _ => not_stops_of_ok hread hdecision,
                .storeGet ?_⟩
              simpa only [hread, hdecision] using hrun
      | error msg =>
          by_cases hlast : n + 1 ≥ approvalMaxConsecutiveGetFailures
          · obtain rfl : n = 2 :=
              Nat.le_antisymm (Nat.le_of_lt_succ hn) (Nat.le_of_succ_le_succ hlast)
            refine ⟨_, _, .now hlt (hrow.stops hread), .storeGet ?_⟩
            simp only [hread, if_pos hlast]
            exact onlyRun_ret
          · obtain ⟨count, result, hlaw, hrun⟩ := ih (hrow.error hread) (Nat.not_le.mp hlast)
            rw [hlimit] at hlaw
            refine ⟨count, result, hlaw.later fun _ => hrow.not_stops ?_ hread, .storeGet ?_⟩
            · exact Nat.lt_of_succ_lt_succ (Nat.not_le.mp hlast)
            · simpa only [hread, if_neg hlast] using hrun

end

/-- A poll has one run.  It stops at the first read that gives a decision for the
    action, or is the third error in an unbroken row, and returns it; where none of
    the reads of the budget does so, it performs them all and returns nothing. -/
theorem long_poll_law (J : SerdeJson) (key actionId : String) (replies : Replies)
    (maxPolls : Nat) :
    ∃ count result, count ≤ maxPolls ∧ Law J replies actionId 0 maxPolls count result ∧
      OnlyRun replies 0 (pollForResolution J key actionId maxPolls 0) count result := by
  obtain ⟨count, result, hlaw, hrun⟩ :=
    exec_pollForResolution J key actionId maxPolls (.start : Row replies 0 0) (by decide)
  rw [Nat.zero_add] at hlaw
  exact ⟨count, result, hlaw.le_limit, hlaw, hrun⟩

end Spectty.Mcp
