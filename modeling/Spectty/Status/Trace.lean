/-
  Spectty.Status.Trace

  The events of a signal loop against the changes of the stored status
  (`emitted_is_changes`), for every runner, every list of rounds and every
  interleaving with threads that do not observe the session.

  An observation and the event of its answer are two steps.  So one event
  may be due, and it is still emitted when the session is removed in between
  (`emitted_after_removal`).
-/

import Spectty.Status.Authority
import Mathlib.Data.List.Chain

namespace Spectty.Status

open Spectty.Core
open Spectty.Adapters
open Spectty.Lib

-- ============================================================================
-- Changes and events of a trace
-- ============================================================================

section

variable {ι : Type}

/-- The status a step moves the session to, if it moves it. -/
def statusChange (id : SessionId) (m : Moment ι World Sys) : Option AgentStatus :=
  match m.before.status id, m.after.status id with
  | some s, some s' => if s = s' then none else some s'
  | _, _ => none

/-- The changes of the stored status, in order. -/
def changes (id : SessionId) (tr : List (Moment ι World Sys)) : List AgentStatus :=
  tr.filterMap (statusChange id)

/-- The status event an operation emits. -/
def emission (e : Event Sys) : Option StatusChanged :=
  match e.op with
  | .emit event => some event
  | _ => none

theorem changes_concat (id : SessionId) (tr : List (Moment ι World Sys)) (m : Moment ι World Sys) :
    changes id (tr ++ [m]) = changes id tr ++ (statusChange id m).toList := by
  unfold changes
  rw [List.filterMap_append]
  cases h : statusChange id m <;> simp [h]

/-- A step that keeps or drops the stored status changes nothing. -/
theorem statusChange_of_le {id : SessionId} {m : Moment ι World Sys}
    (h : m.after.status id = m.before.status id ∨ m.after.status id = none) :
    statusChange id m = none := by
  unfold statusChange
  rcases h with h | h <;> rw [h]
  · cases m.before.status id <;> simp
  · cases m.before.status id <;> rfl

theorem statusChange_some {id : SessionId} {m : Moment ι World Sys} {s s' : AgentStatus}
    (hs : m.before.status id = some s) (hs' : m.after.status id = some s') (hne : s ≠ s') :
    statusChange id m = some s' := by
  unfold statusChange
  rw [hs, hs']
  exact if_neg hne

variable [DecidableEq ι]

/-- The events thread `i` emits, in order. -/
def emittedBy (i : ι) (tr : List (Moment ι World Sys)) : List StatusChanged :=
  (Pool.eventsOf i tr).filterMap emission

theorem emittedBy_concat_self (tr : List (Moment ι World Sys)) (m : Moment ι World Sys) :
    emittedBy m.thread (tr ++ [m]) = emittedBy m.thread tr ++ (emission m.event).toList := by
  unfold emittedBy
  rw [Pool.eventsOf_concat_self, List.filterMap_append]
  cases h : emission m.event <;> simp [h]

theorem emittedBy_concat_of_ne {i : ι} {tr : List (Moment ι World Sys)} {m : Moment ι World Sys}
    (h : m.thread ≠ i) : emittedBy i (tr ++ [m]) = emittedBy i tr := by
  unfold emittedBy
  rw [Pool.eventsOf_concat_of_ne h]

end

-- ============================================================================
-- The invariant
-- ============================================================================

section

variable {ι : Type} [DecidableEq ι] (runner : AgentRunner) (id : SessionId) (s₀ : AgentStatus)
  (i : ι)

/-- What holds between the loop's phase, the trace and the stored status. -/
structure TraceInv (q : ι → SignalPhase) (tr : List (Moment ι World Sys)) (w : World) :
    Prop where
  /-- The events and the due one are those of the changes. -/
  exact : emittedBy i tr ++ ((q i).due.map (statusEvent runner id)).toList =
    (changes id tr).map (statusEvent runner id)
  edges : (s₀ :: changes id tr).IsChain Edge
  /-- The last change is stored, or the session is gone. -/
  stored : w.status id = (s₀ :: changes id tr).getLast? ∨ w.status id = none
  /-- After a removal the session stays gone and its status unchanged. -/
  removed : ∀ pre m post, tr = pre ++ m :: post → m.after.status id = none →
    w.status id = none ∧ changes id tr = changes id pre

variable {runner id s₀ i} {q : ι → SignalPhase} {tr : List (Moment ι World Sys)}
  {m : Moment ι World Sys} {w w' : World}

/-- A step that keeps or drops the stored status. -/
theorem TraceInv.step_le {q' : ι → SignalPhase} (h : TraceInv runner id s₀ i q tr m.before)
    (hle : m.after.status id = m.before.status id ∨ m.after.status id = none)
    (hexact : emittedBy i (tr ++ [m]) ++ ((q' i).due.map (statusEvent runner id)).toList =
      emittedBy i tr ++ ((q i).due.map (statusEvent runner id)).toList) :
    TraceInv runner id s₀ i q' (tr ++ [m]) m.after := by
  have hsame : changes id (tr ++ [m]) = changes id tr := by
    rw [changes_concat, statusChange_of_le hle]
    simp
  refine ⟨?_, ?_, ?_, ?_⟩
  · rw [hexact, hsame]
    exact h.exact
  · rw [hsame]
    exact h.edges
  · rw [hsame]
    rcases hle with hle | hle
    · rw [hle]
      exact h.stored
    · exact Or.inr hle
  · intro pre m' post hsplit hnone
    rw [hsame]
    rcases Pool.concat_eq_append_cons hsplit with ⟨rfl, rfl, -⟩ | ⟨post', -, htr⟩
    · exact ⟨hnone, rfl⟩
    · obtain ⟨hgone, hchanges⟩ := h.removed pre m' post' htr hnone
      refine ⟨?_, hchanges⟩
      rcases hle with hle | hle
      · rw [hle, hgone]
      · exact hle

/-- An observation that moves the stored status. -/
theorem TraceInv.step_change {q' : ι → SignalPhase} {s s' : AgentStatus}
    (h : TraceInv runner id s₀ i q tr m.before) (hs : m.before.status id = some s)
    (hs' : m.after.status id = some s') (hedge : Edge s s') (hquiet : (q i).due = none)
    (hdue : (q' i).due = some s') (hemitted : emittedBy i (tr ++ [m]) = emittedBy i tr) :
    TraceInv runner id s₀ i q' (tr ++ [m]) m.after := by
  have hchanges : changes id (tr ++ [m]) = changes id tr ++ [s'] := by
    rw [changes_concat, statusChange_some hs hs' hedge.ne]
    rfl
  have hlast : (s₀ :: changes id tr).getLast? = some s := by
    rcases h.stored with hst | hst
    · rw [← hst, hs]
    · rw [hs] at hst
      cases hst
  refine ⟨?_, ?_, ?_, ?_⟩
  · have hexact := h.exact
    rw [hquiet] at hexact
    rw [hemitted, hdue, hchanges, List.map_append, ← hexact]
    simp
  · rw [hchanges, ← List.cons_append, List.isChain_append]
    refine ⟨h.edges, by simp, fun x hx y hy => ?_⟩
    rw [hlast] at hx
    obtain rfl := Option.some.inj hx
    obtain rfl := Option.some.inj hy
    exact hedge
  · left
    rw [hs', hchanges, ← List.cons_append, List.getLast?_concat]
  · intro pre m' post hsplit hnone
    -- a removed session has no stored status to move
    exfalso
    rcases Pool.concat_eq_append_cons hsplit with ⟨-, rfl, -⟩ | ⟨post', -, htr⟩
    · rw [hs'] at hnone
      cases hnone
    · have hgone := (h.removed pre m' post' htr hnone).1
      rw [hs] at hgone
      cases hgone

/-- Every operation the protocols admit keeps the invariant. -/
theorem TraceInv.step {q' : SignalPhase} (h : TraceInv runner id s₀ i q tr m.before)
    (hprot : loopProtocol runner id false i m.thread (q m.thread) m.event = some q')
    (hstep : World.step m.before m.event m.after) :
    TraceInv runner id s₀ i (Function.update q m.thread q') (tr ++ [m]) m.after := by
  by_cases hi : m.thread = i
  · subst hi
    rw [loopProtocol, if_pos rfl] at hprot
    have hkind := signalStep_of_protocol hprot
    have hemitted := emittedBy_concat_self tr m
    obtain ⟨i, e, w, w'⟩ := m
    simp only at hprot hstep h hkind hemitted ⊢
    generalize hq : q i = qi at hkind
    cases hkind with
    | look =>
        obtain ⟨rfl, -⟩ := World.step_getSession hstep
        refine h.step_le (Or.inl rfl) ?_
        rw [hemitted, Function.update_self, hq]
        simp [emission, SignalPhase.due]
    | @apply found source observed r hguard =>
        rcases World.step_applyObserved hstep with
          ⟨rfl, rfl⟩ | ⟨s, hs, hmoved, rfl, hafter⟩
        · refine h.step_le (Or.inl rfl) ?_
          rw [hemitted, Function.update_self, hq]
          simp [emission, SignalPhase.due, afterApply]
        · refine h.step_change hs hafter (edge_transition hmoved) ?_ ?_ ?_
          · rw [hq]
            rfl
          · rw [Function.update_self]
            rfl
          · rw [hemitted]
            simp [emission]
    | @announce status r =>
        have hsame : w'.status id = w.status id := World.step_status hstep rfl
        refine h.step_le (Or.inl hsame) ?_
        rw [hemitted, Function.update_self, hq]
        simp [emission, SignalPhase.due]
  · rw [loopProtocol, if_neg hi] at hprot
    split_ifs at hprot with hop
    refine h.step_le (World.step_status_le hstep hop) ?_
    rw [emittedBy_concat_of_ne hi, Function.update_of_ne (Ne.symm hi)]

-- ============================================================================
-- The law
-- ============================================================================

/-- A chain of edges never repeats a status, and ends at a terminal one. -/
theorem eq_nil_of_terminal {s : AgentStatus} {pre post : List AgentStatus}
    (h : (pre ++ s :: post).IsChain Edge) (hs : s.isTerminal = true) : post = [] := by
  cases post with
  | nil => rfl
  | cons s' post =>
      have hedge : Edge s s' := (List.isChain_append_cons_cons.mp h).2.1
      rw [hedge.not_terminal] at hs
      cases hs

variable (runner id s₀ i)

/-- The events of the loop and the changes of the stored status. -/
structure TraceLaw (tr : List (Moment ι World Sys)) (P : Pool ι World Sys Unit) : Prop where
  /-- The events are those of the changes, in order, but for one that may be
      due. -/
  exact : ∃ due, Due runner id (P.threads i) due ∧
    emittedBy i tr ++ (due.map (statusEvent runner id)).toList =
      (changes id tr).map (statusEvent runner id)
  /-- When the loop has returned, none is. -/
  returned : P.threads i = .ret () →
    emittedBy i tr = (changes id tr).map (statusEvent runner id)
  /-- From the start, each emitted status is one edge from the one before. -/
  edges : (s₀ :: (emittedBy i tr).map (·.status)).IsChain Edge
  distinct : (s₀ :: (emittedBy i tr).map (·.status)).IsChain (· ≠ ·)
  /-- Nothing is emitted after a terminal status. -/
  terminal : ∀ pre event post, emittedBy i tr = pre ++ event :: post →
    event.status.isTerminal = true → post = []
  /-- After a removal the status does not change, and only the event that was
      due is emitted. -/
  removal : ∀ pre m post, tr = pre ++ m :: post → m.after.status id = none →
    changes id tr = changes id pre ∧
      emittedBy i tr <+: (changes id pre).map (statusEvent runner id) ∧
      (emittedBy i tr).length ≤ (emittedBy i pre).length + 1

variable {runner id s₀ i}

/-- The emitted statuses are the first changes. -/
theorem TraceInv.emitted_prefix (h : TraceInv runner id s₀ i q tr w) :
    (emittedBy i tr).map (·.status) <+: changes id tr := by
  have hmap := congrArg (List.map StatusChanged.status) h.exact
  have hid : (StatusChanged.status ∘ statusEvent runner id) = fun s => s := rfl
  rw [List.map_append, List.map_map, hid, List.map_id'] at hmap
  exact ⟨_, hmap⟩

theorem traceLaw_of_inv {P₀ P : Pool ι World Sys Unit} (hr : Pool.Run World.step P₀ tr P)
    (hinv : ∀ {tr P}, Pool.Run World.step P₀ tr P → ∃ q : ι → SignalPhase,
      Due runner id (P.threads i) (q i).due ∧ TraceInv runner id s₀ i q tr P.shared) :
    TraceLaw runner id s₀ i tr P := by
  obtain ⟨q, hdue, h⟩ := hinv hr
  have hprefix := h.emitted_prefix
  have hedges : (s₀ :: (emittedBy i tr).map (·.status)).IsChain Edge :=
    h.edges.prefix (List.cons_prefix_cons.mpr ⟨rfl, hprefix⟩)
  refine ⟨⟨_, hdue, h.exact⟩, fun hret => ?_, hedges, hedges.imp fun _ _ he => he.ne, ?_, ?_⟩
  · have hexact := h.exact
    cases hq : (q i).due with
    | none => simpa [hq] using hexact
    | some status =>
        rw [hq, hret] at hdue
        obtain ⟨k, hk⟩ := hdue
        cases hk
  · intro pre event post hsplit hterminal
    rw [hsplit, List.map_append, List.map_cons, ← List.cons_append] at hedges
    exact List.map_eq_nil_iff.mp (eq_nil_of_terminal hedges hterminal)
  · intro pre m post hsplit hnone
    obtain ⟨-, hchanges⟩ := h.removed pre m post hsplit hnone
    obtain ⟨P₁, P₂, hpre, -, -⟩ := hr.split hsplit
    obtain ⟨q₁, -, h₁⟩ := hinv hpre
    refine ⟨hchanges, ⟨_, hchanges ▸ h.exact⟩, ?_⟩
    have hlen := congrArg List.length h.exact
    have hlen₁ := congrArg List.length h₁.exact
    rw [hchanges, ← hlen₁, List.length_append, List.length_append] at hlen
    have hone : ((q₁ i).due.map (statusEvent runner id)).toList.length ≤ 1 := by
      cases (q₁ i).due <;> simp
    omega

/-- In every run of a session's signal loop among threads that do not observe
    the session, its events are the changes of the stored status. -/
theorem emitted_is_changes {J : SerdeJson} {hooksActive : Bool} {exitCodeOnEof : Int}
    {hookReader : StateFileReader} {startedAt : Timestamp} {ticks : List Tick}
    {P₀ P : Pool ι World Sys Unit}
    (hloop : P₀.threads i =
      runSignalLoop J runner id hooksActive exitCodeOnEof hookReader startedAt ticks)
    (hothers : ∀ j, j ≠ i → Prog.AllOps (World.observesNot id · = true) (P₀.threads j))
    (hstart : P₀.shared.status id = some s₀) (hr : Pool.Run World.step P₀ tr P) :
    TraceLaw runner id s₀ i tr P := by
  refine traceLaw_of_inv hr fun {tr P} hr => ?_
  have hinit : TraceInv runner id s₀ i (fun _ => .quiet none) [] P₀.shared :=
    ⟨rfl, by simp [changes], Or.inl hstart, by simp⟩
  obtain ⟨q, -, hfollows, hinv⟩ :=
    hr.coupled (δ := loopProtocol runner id false i) (C := fun _ _ => True)
      (follows_loopProtocol hloop hothers fun h => by cases h) hinit
      (fun q tr m q' _ h _ hprot hstep => h.step hprot hstep) fun _ _ _ _ => trivial
  have hthread := hfollows i
  rw [loopProtocol, if_pos rfl] at hthread
  exact ⟨q, due_of_follows hthread, hinv⟩

end

/-- A stop event, applied and announced. -/
theorem emitted_is_changes_stop :
    ∃ tr P, Pool.Run World.step stopPool tr P ∧ changes "1" tr = [.idle] ∧
      TraceLaw claudeCodeRunner "1" .running () tr P := by
  obtain ⟨k, hk, k', hk'⟩ := stopPool_thread
  obtain ⟨w, hstep, hidle⟩ := stopPool_apply
  have hstart : Pool.Run World.step stopPool [] ⟨stopPool.shared, stopPool.threads⟩ := .nil
  have happly := hstart.next () hk hstep hk'
  have hrun := happly.next () (Function.update_self ..) (World.step_emission w _) rfl
  refine ⟨_, _, hrun, ?_, emitted_is_changes rfl (fun j hj => absurd rfl hj) rfl hrun⟩
  rw [changes_concat, changes_concat, statusChange_some rfl hidle (by decide),
    statusChange_of_le (Or.inl rfl)]
  rfl

-- ============================================================================
-- A removal between the observation and its event
-- ============================================================================

/-- The loop of a session and the command that closes it. -/
inductive Closing where
  | loop
  | close
deriving DecidableEq

/-- A running session that gets a stop event, and its removal. -/
def closingPool : Pool Closing World Sys Unit where
  shared := stopPool.shared
  threads := fun
    | .loop => stopPool.threads ()
    | .close => do
        let _ ← Sys.removeSession "1"
        return ()

/-- The event of the stop is emitted after the session is gone. -/
theorem emitted_after_removal :
    ∃ tr P, Pool.Run World.step closingPool tr P ∧
      ∃ pre m m', tr = pre ++ [m, m'] ∧ m.event.op = .removeSession "1" ∧
        m.after.status "1" = none ∧ m'.thread = .loop ∧
        m'.event.op = .emit (statusEvent claudeCodeRunner "1" .idle) := by
  obtain ⟨k, hk, k', hk'⟩ := stopPool_thread
  obtain ⟨w, hstep, -⟩ := stopPool_apply
  have hstart : Pool.Run World.step closingPool [] ⟨stopPool.shared, closingPool.threads⟩ := .nil
  have happly := hstart.next .loop hk hstep hk'
  have hremove := happly.next .close rfl (⟨rfl, rfl⟩ : World.step w ⟨.removeSession "1", _⟩ _) rfl
  have hemit := hremove.next .loop rfl (World.step_emission _ _) rfl
  exact ⟨_, _, hemit, [_], _, _, rfl, rfl, SessionRegistry.status_remove_self, rfl, rfl⟩

end Spectty.Status
