/-
  Spectty.Ui.Panes

  The spec pane and the VibeLens panel: what they hold, and which session it came
  from.

  A pane reads its session's documents when its effect runs, and adopts the events
  of the session in `sessionIdRef`, which each render sets to its `sessionId`.  Its
  state survives a render with another session, a hydrate keeps what is there, and
  a refresh is never cancelled (`panes_mix_sessions`).  `held_from_own_session` says
  in which runs everything held comes from the session on show, and
  `owned_step_iff` that a step that breaks the condition breaks this.
-/

import Spectty.Core.Session
import Spectty.Lib.Json
import Spectty.Lib.Machine

namespace Spectty.Ui

open Spectty.Core
open Spectty.Lib

/-- A document, with the session whose read or event it came from. -/
structure Sourced where
  value : Json
  source : SessionId

/-- The state variables of the two components. -/
inductive Slot where
  | spec
  | approval
  | explanation
deriving DecidableEq, Repr

/-- What a pane holds. -/
abbrev Held := Slot → Option Sourced

/-- A queued state update. -/
inductive PaneUpdate where
  | set (slot : Slot) (value : Option Sourced)
  /-- The update `prev ?? value`. -/
  | hydrate (slot : Slot) (value : Sourced)

def Held.apply (prev : Held) : PaneUpdate → Held
  | .set slot value => Function.update prev slot value
  | .hydrate slot value =>
      if (prev slot).isNone then Function.update prev slot (some value) else prev

/-- What an update may put into the state. -/
def PaneUpdate.value : PaneUpdate → Option Sourced
  | .set _ value => value
  | .hydrate _ value => some value

/-- The document is an object whose member `key` is an array. -/
def hasArray (key : String) (value : Json) : Bool :=
  match value.get key with
  | some (.arr _) => true
  | _ => false

def isSpecContract (value : Json) : Bool := hasArray "tasks" value

def isDiffExplanation (value : Json) : Bool := hasArray "files" value

/-- The reads that the panes make. -/
inductive ReadKind where
  | getSpec
  | getApproval
  | getDiffExplanation
  | refresh
deriving DecidableEq, Repr

namespace ReadKind

/-- A read that an effect makes is ignored once the effect has been cleaned up. -/
def cancellable : ReadKind → Bool
  | .refresh => false
  | _ => true

/-- The update that a read's result queues. -/
def update (result : Sourced) : ReadKind → Option PaneUpdate
  | .getSpec => if isSpecContract result.value then some (.hydrate .spec result) else none
  | .getApproval => some (.set .approval (if result.value.isNull then none else some result))
  | .getDiffExplanation =>
      if isDiffExplanation result.value then some (.hydrate .explanation result) else none
  | .refresh =>
      if isDiffExplanation result.value then some (.set .explanation (some result)) else none

end ReadKind

/-- What the listeners and the refresh button of the panes react to. -/
inductive PaneEvent where
  | specUpdated (sessionId : SessionId) (spec : Json)
  | statusChanged (sessionId : SessionId) (status : AgentStatus)
  | diffUpdated (sessionId : SessionId) (explanation : Json)
  | refresh

/-- The two components. -/
inductive PaneKind where
  | specPane
  | vibeLensPanel
deriving DecidableEq, Repr

namespace PaneKind

/-- The reads that the effect makes. -/
def effectReads : PaneKind → List ReadKind
  | .specPane => [.getSpec, .getApproval]
  | .vibeLensPanel => [.getDiffExplanation]

/-- The updates and the reads of an event, with the ref as it is. -/
def handle (sessionIdRef : SessionId) : PaneKind → PaneEvent → List PaneUpdate × List ReadKind
  | .specPane, .specUpdated sessionId spec =>
      if sessionId = sessionIdRef then
        ([.set .spec (some ⟨spec, sessionId⟩)],
          if (spec.get "approval").bind Json.asStr = some "Pending" then [.getApproval] else [])
      else ([], [])
  | .specPane, .statusChanged sessionId status =>
      if sessionId = sessionIdRef ∧ status = .awaitingInput then ([], [.getApproval])
      else ([], [])
  | .vibeLensPanel, .diffUpdated sessionId explanation =>
      if sessionId = sessionIdRef then ([.set .explanation (some ⟨explanation, sessionId⟩)], [])
      else ([], [])
  | .vibeLensPanel, .refresh => ([], [.refresh])
  | _, _ => ([], [])

end PaneKind

/-- A read in flight: for which session, and by the effect with which number. -/
structure PaneRead where
  kind : ReadKind
  sessionId : SessionId
  effect : Nat
deriving DecidableEq, Repr

/-- A pane between two steps of the event loop.  The `sessionId` is that of the last
    render, which `sessionIdRef` mirrors.  The effects are numbered as they run; all
    but the last have been cleaned up. -/
structure Pane where
  held : Held
  pending : List PaneUpdate
  sessionId : SessionId
  effects : Nat
  effectDue : Bool
  inFlight : List PaneRead

/-- A step of the event loop: a render with a session, the effect of a render, a
    promise that resolves, or an event that the listeners of an effect hear. -/
inductive PaneStep where
  | render (sessionId : SessionId)
  | runEffect
  | resolve (read : PaneRead) (result : Json)
  | event (effect : Nat) (event : PaneEvent)

namespace Pane

/-- The first render. -/
def mount (sessionId : SessionId) : Pane where
  held := fun _ => none
  pending := []
  sessionId := sessionId
  effects := 0
  effectDue := true
  inFlight := []

/-- What the next render finds in the state. -/
def nextHeld (self : Pane) : Held := self.pending.foldl Held.apply self.held

def send (self : Pane) (effect : Nat) (kinds : List ReadKind) : Pane :=
  { self with
    inFlight := self.inFlight ++ kinds.map fun kind => ⟨kind, self.sessionId, effect⟩ }

/-- Clean the last effect up, and run it again. -/
def runEffect (kind : PaneKind) (self : Pane) : Pane :=
  if self.effectDue then
    { self with effects := self.effects + 1, effectDue := false }.send (self.effects + 1)
      kind.effectReads
  else self

/-- The result of a read is not ignored. -/
def accepts (self : Pane) (read : PaneRead) : Bool :=
  read.kind.cancellable = false ∨ read.effect = self.effects

/-- One step.  A render runs the effect of the one before if that is still due. -/
def step (kind : PaneKind) (self : Pane) : PaneStep → Pane
  | .render sessionId =>
      let self := self.runEffect kind
      { self with
        held := self.nextHeld
        pending := []
        sessionId := sessionId
        effectDue := sessionId ≠ self.sessionId }
  | .runEffect => self.runEffect kind
  | .resolve read result =>
      if read ∈ self.inFlight then
        { self with
          inFlight := self.inFlight.erase read
          pending := self.pending ++
            if self.accepts read then (read.kind.update ⟨result, read.sessionId⟩).toList else [] }
      else self
  | .event effect event =>
      if 0 < effect ∧ effect ≤ self.effects then
        let (updates, reads) := kind.handle self.sessionId event
        { self with pending := self.pending ++ updates }.send effect reads
      else self

/-- Once the effect of the last render has run, all that is held comes from the session
    on show. -/
def HoldsOwn (self : Pane) : Prop :=
  self.effectDue = false → ∀ slot v, self.held slot = some v → v.source = self.sessionId

/-- A render with another session finds nothing in the state, and a read that brings a
    document resolves while its session is on show. -/
def Fits (self : Pane) : PaneStep → Prop
  | .render sessionId => sessionId ≠ self.sessionId → ∀ slot, self.nextHeld slot = none
  | .runEffect => True
  | .resolve read result =>
      read ∈ self.inFlight → self.accepts read = true →
        ∀ update ∈ read.kind.update ⟨result, read.sessionId⟩, update.value ≠ none →
          read.sessionId = self.sessionId
  | .event _ _ => True

/-- All that is held or queued comes from the session on show. -/
structure Owned (pane : Pane) : Prop where
  held : ∀ slot v, pane.held slot = some v → v.source = pane.sessionId
  pending : ∀ update ∈ pane.pending, ∀ v ∈ update.value, v.source = pane.sessionId

variable {self : Pane} {kind : PaneKind} {id : SessionId}

-- ============================================================================
-- One step
-- ============================================================================

/-- An update changes the state to what was there or to what it brings. -/
theorem apply_eq_some {prev : Held} {update : PaneUpdate} {slot : Slot} {v : Sourced}
    (h : prev.apply update slot = some v) : prev slot = some v ∨ v ∈ update.value := by
  cases update with
  | set changed value =>
      by_cases hslot : slot = changed
      · subst hslot
        rw [Held.apply, Function.update_self] at h
        exact .inr h
      · rw [Held.apply, Function.update_of_ne hslot] at h
        exact .inl h
  | hydrate changed value =>
      rw [Held.apply] at h
      split_ifs at h
      · by_cases hslot : slot = changed
        · subst hslot
          rw [Function.update_self] at h
          exact .inr h
        · rw [Function.update_of_ne hslot] at h
          exact .inl h
      · exact .inl h

/-- What the next render finds was there, or queued. -/
theorem nextHeld_eq_some {updates : List PaneUpdate} {prev : Held} {slot : Slot} {v : Sourced}
    (h : updates.foldl Held.apply prev slot = some v) :
    prev slot = some v ∨ ∃ update ∈ updates, v ∈ update.value := by
  induction updates generalizing prev with
  | nil => exact .inl h
  | cons update updates ih =>
      rcases ih h with hprev | ⟨later, hlater, hv⟩
      · rcases apply_eq_some hprev with hprev | hv
        · exact .inl hprev
        · exact .inr ⟨update, List.mem_cons_self, hv⟩
      · exact .inr ⟨later, List.mem_cons_of_mem _ hlater, hv⟩

theorem Owned.nextHeld (h : Owned self) {slot : Slot} {v : Sourced}
    (hv : self.nextHeld slot = some v) : v.source = self.sessionId := by
  rcases nextHeld_eq_some hv with hheld | ⟨update, hupdate, hvalue⟩
  · exact h.held slot v hheld
  · exact h.pending update hupdate v hvalue

/-- What an update of a read brings is its result. -/
theorem value_update {kind : ReadKind} {result v : Sourced} {update : PaneUpdate}
    (h : update ∈ kind.update result) (hv : v ∈ update.value) : v = result := by
  have hset : ∀ slot, PaneUpdate.set slot (some result) = update → v = result := by
    rintro slot rfl
    exact (Option.some.inj hv).symm
  have hhydrate : ∀ slot, PaneUpdate.hydrate slot result = update → v = result := by
    rintro slot rfl
    exact (Option.some.inj hv).symm
  cases kind with
  | getSpec =>
      exact hhydrate .spec (Option.some.inj (Option.ite_none_right_eq_some.mp h).2)
  | getApproval =>
      by_cases hnull : result.value.isNull = true
      · rw [ReadKind.update, if_pos hnull] at h
        cases h
        cases hv
      · rw [ReadKind.update, if_neg hnull] at h
        exact hset .approval (Option.some.inj h)
  | getDiffExplanation =>
      exact hhydrate .explanation (Option.some.inj (Option.ite_none_right_eq_some.mp h).2)
  | refresh =>
      exact hset .explanation (Option.some.inj (Option.ite_none_right_eq_some.mp h).2)

/-- What an event brings is of the session on show. -/
theorem source_handle {event : PaneEvent} {v : Sourced} {update : PaneUpdate}
    (h : update ∈ (kind.handle id event).1) (hv : v ∈ update.value) : v.source = id := by
  have hset : ∀ slot value, update = .set slot (some ⟨value, id⟩) → v.source = id := by
    rintro slot value rfl
    rw [← Option.some.inj hv]
  have hnone : ∀ {reads : List ReadKind}, update ∈ (([], reads) : List PaneUpdate × _).1 →
      v.source = id := fun hmem => absurd hmem List.not_mem_nil
  cases kind with
  | specPane =>
      cases event with
      | specUpdated sessionId spec =>
          rw [PaneKind.handle] at h
          split_ifs at h with hsession hpending
          all_goals first
            | exact hnone h
            | exact hset _ _ (hsession ▸ List.mem_singleton.mp h)
      | statusChanged sessionId status =>
          rw [PaneKind.handle] at h
          split_ifs at h <;> exact hnone h
      | diffUpdated sessionId explanation => exact hnone h
      | refresh => exact hnone h
  | vibeLensPanel =>
      cases event with
      | diffUpdated sessionId explanation =>
          rw [PaneKind.handle] at h
          split_ifs at h with hsession
          · exact hset _ _ (hsession ▸ List.mem_singleton.mp h)
          · exact hnone h
      | specUpdated sessionId spec => exact hnone h
      | statusChanged sessionId status => exact hnone h
      | refresh => exact hnone h

@[simp] theorem held_runEffect : (self.runEffect kind).held = self.held := by
  unfold runEffect
  split <;> rfl

@[simp] theorem pending_runEffect : (self.runEffect kind).pending = self.pending := by
  unfold runEffect
  split <;> rfl

@[simp] theorem sessionId_runEffect : (self.runEffect kind).sessionId = self.sessionId := by
  unfold runEffect
  split <;> rfl

@[simp] theorem nextHeld_runEffect (self : Pane) (kind : PaneKind) :
    (self.runEffect kind).nextHeld = self.nextHeld := by
  rw [Pane.nextHeld, pending_runEffect, held_runEffect, Pane.nextHeld]

theorem owned_runEffect (h : Owned self) : Owned (self.runEffect kind) where
  held := by simpa using h.held
  pending := by simpa using h.pending

/-- A render keeps what is of the session it comes with. -/
theorem owned_render_iff (h : Owned self) (sessionId : SessionId) :
    Owned (self.step kind (.render sessionId)) ↔ self.Fits (.render sessionId) := by
  constructor
  · intro howned hne slot
    by_contra hsome
    obtain ⟨v, hv⟩ := Option.ne_none_iff_exists'.mp hsome
    have hthis : (self.step kind (.render sessionId)).held slot = some v := by
      show (self.runEffect kind).nextHeld slot = some v
      rw [nextHeld_runEffect, hv]
    exact hne ((howned.held slot v hthis).symm.trans (h.nextHeld hv))
  · intro hfits
    refine ⟨fun slot v hv => ?_, fun update hupdate => absurd hupdate List.not_mem_nil⟩
    have hv : self.nextHeld slot = some v := by
      rw [← nextHeld_runEffect self kind]
      exact hv
    by_cases hsame : sessionId = self.sessionId
    · exact (h.nextHeld hv).trans hsame.symm
    · exact absurd hv (by simp [hfits hsame slot])

theorem owned_resolve_iff (h : Owned self) (read : PaneRead) (result : Json) :
    Owned (self.step kind (.resolve read result)) ↔ self.Fits (.resolve read result) := by
  by_cases hread : read ∈ self.inFlight ∧ self.accepts read = true
  · obtain ⟨hflight, haccepts⟩ := hread
    have hstep : self.step kind (.resolve read result) =
        { self with
          inFlight := self.inFlight.erase read
          pending := self.pending ++ (read.kind.update ⟨result, read.sessionId⟩).toList } := by
      rw [step, if_pos hflight, if_pos haccepts]
    rw [hstep]
    constructor
    · intro howned _ _ update hupdate hvalue
      obtain ⟨v, hv⟩ := Option.ne_none_iff_exists'.mp hvalue
      have hsource := howned.pending update
        (List.mem_append_right _ (Option.mem_toList.mpr hupdate)) v hv
      rwa [value_update hupdate hv] at hsource
    · intro hfits
      refine ⟨h.held, fun update hupdate v hv => ?_⟩
      rcases List.mem_append.mp hupdate with hold | hnew
      · exact h.pending update hold v hv
      · have hnew := Option.mem_toList.mp hnew
        rw [value_update hnew hv]
        exact hfits hflight haccepts update hnew (by simp [Option.mem_def.mp hv])
  · refine iff_of_true ?_ fun hflight haccepts => absurd ⟨hflight, haccepts⟩ hread
    rw [step]
    split_ifs with hflight haccepts
    · exact absurd ⟨hflight, haccepts⟩ hread
    · exact ⟨h.held, by simpa using h.pending⟩
    · exact h

theorem owned_event (h : Owned self) (effect : Nat) (event : PaneEvent) :
    Owned (self.step kind (.event effect event)) := by
  rw [step]
  split_ifs
  · refine ⟨h.held, fun update hupdate v hv => ?_⟩
    rcases List.mem_append.mp hupdate with hold | hnew
    · exact h.pending update hold v hv
    · exact source_handle hnew hv
  · exact h

/-- A step from a pane that holds and queues only what is of its session keeps it so
    just when it fits. -/
theorem owned_step_iff (h : Owned self) (step : PaneStep) :
    Owned (self.step kind step) ↔ self.Fits step := by
  cases step with
  | render sessionId => exact owned_render_iff h sessionId
  | runEffect => exact iff_of_true (owned_runEffect h) trivial
  | resolve read result => exact owned_resolve_iff h read result
  | event effect event => exact iff_of_true (owned_event h effect event) trivial

-- ============================================================================
-- A run
-- ============================================================================

/-- In a run whose renders with another session find nothing in the state, and whose
    reads that bring a document resolve while their session is on show, all that a
    pane holds comes from the session on show. -/
theorem held_from_own_session (kind : PaneKind) (id : SessionId) (steps : List PaneStep)
    (h : Machine.Along (step kind) Fits (mount id) steps) :
    HoldsOwn (Machine.run (step kind) (mount id) steps) := by
  have howned : Owned (Machine.run (step kind) (mount id) steps) :=
    Machine.invariant (I := fun _ => Owned) ⟨by simp [mount], by simp [mount]⟩
      (fun _ step hfits howned => (owned_step_iff howned step).mpr hfits) h
  exact fun _ => howned.held

/-- The prop changes before the first read has resolved: that read is ignored, the one of
    the new session is shown. -/
theorem held_from_own_session_change :
    let pane := Machine.run (step .vibeLensPanel) (mount "a")
      [.runEffect, .render "b", .runEffect,
        .resolve ⟨.getDiffExplanation, "a", 1⟩ (.obj [("files", .arr [])]),
        .resolve ⟨.getDiffExplanation, "b", 2⟩ (.obj [("files", .arr [])]), .render "b"]
    pane.held .explanation = some ⟨.obj [("files", .arr [])], "b"⟩ ∧ HoldsOwn pane := by
  refine ⟨rfl, held_from_own_session .vibeLensPanel "a" _ ?_⟩
  refine Machine.along_cons.mpr ⟨trivial, Machine.along_cons.mpr ⟨fun _ _ => rfl, ?_⟩⟩
  refine Machine.along_cons.mpr ⟨trivial, Machine.along_cons.mpr ⟨?ignored, ?_⟩⟩
  case ignored => exact fun _ haccepts => absurd haccepts (by decide)
  refine Machine.along_cons.mpr ⟨fun _ _ _ _ _ => rfl, Machine.along_cons.mpr ⟨?_, ?_⟩⟩
  · exact fun hne => absurd rfl hne
  · exact Machine.along_nil

/-- The spec pane goes on with the plan of the session before; the panel shows what a
    refresh of the session before has read. -/
theorem panes_mix_sessions :
    (¬ HoldsOwn (Machine.run (step .specPane) (mount "a")
      [.runEffect, .resolve ⟨.getSpec, "a", 1⟩ (.obj [("tasks", .arr [])]), .render "a",
        .render "b", .runEffect])) ∧
    ¬ HoldsOwn (Machine.run (step .vibeLensPanel) (mount "a")
      [.runEffect, .event 1 .refresh, .render "b", .runEffect,
        .resolve ⟨.refresh, "a", 1⟩ (.obj [("files", .arr [])]), .render "b"]) := by
  constructor
  · intro h
    exact absurd (h rfl .spec ⟨.obj [("tasks", .arr [])], "a"⟩ rfl) (by decide)
  · intro h
    exact absurd (h rfl .explanation ⟨.obj [("files", .arr [])], "a"⟩ rfl) (by decide)

end Pane

end Spectty.Ui
