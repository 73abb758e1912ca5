/-
  Spectty.Ui.UseSession

  The session hook of the UI: it seeds its view when the spawn promise
  resolves, and adopts each `status_changed` event of the session it shows.

  State updates are queued until the next render, and the listeners filter on
  the id that the last render left in `sessionIdRef`.  An event that comes
  before the render after the resolution is dropped, whatever it says
  (`ends_on_last_iff`).
-/

import Spectty.Effects
import Mathlib.Data.List.TakeWhile

namespace Spectty.Ui

open Spectty.Core

/-- The UI's projection of a session. -/
structure SessionSummary where
  id : SessionId
  title : String
  status : AgentStatus
  agentKind : String
deriving DecidableEq, Repr

/-- What the hook holds for its component. -/
structure View where
  session : Option SessionSummary
  status : Option AgentStatus
  tier : Option AgentTier
  error : Option String
deriving DecidableEq, Repr

/-- A queued state update. -/
inductive Update where
  | setSession (session : SessionSummary)
  /-- The update of `session` on an event: it takes the status of its own id only. -/
  | adopt (payload : StatusChanged)
  | setStatus (status : AgentStatus)
  | setTier (tier : AgentTier)
  | setError (error : Option String)

namespace View

def apply (prev : View) : Update → View
  | .setSession session => { prev with session := some session }
  | .adopt payload =>
      { prev with session := prev.session.map fun s =>
          if s.id = payload.sessionId then { s with status := payload.status } else s }
  | .setStatus status => { prev with status := some status }
  | .setTier tier => { prev with tier := some tier }
  | .setError error => { prev with error := error }

/-- The session on show. -/
def sessionId (self : View) : Option SessionId := self.session.map (·.id)

end View

/-- The hook between two steps of the event loop. -/
structure UseSession where
  view : View
  sessionIdRef : Option SessionId
  pending : List Update

namespace UseSession

/-- A new hook. -/
def mount : UseSession where
  view := { session := none, status := none, tier := none, error := none }
  sessionIdRef := none
  pending := []

/-- The view that the next render takes over. -/
def nextView (self : UseSession) : View := self.pending.foldl View.apply self.view

/-- Render: the updates are applied in order, and the ref follows. -/
def render (self : UseSession) : UseSession where
  view := self.nextView
  sessionIdRef := self.nextView.sessionId
  pending := []

def enqueue (self : UseSession) (updates : List Update) : UseSession :=
  { self with pending := self.pending ++ updates }

/-- The listener of `status_changed`. -/
def onStatusChanged (self : UseSession) (payload : StatusChanged) : UseSession :=
  if some payload.sessionId = self.sessionIdRef then
    self.enqueue [.setStatus payload.status, .adopt payload]
  else self

/-- `spawn` up to its await. -/
def beginSpawn (self : UseSession) : UseSession := self.enqueue [.setError none]

/-- `spawn` once the promise has resolved to `id`. -/
def resolveSpawn (self : UseSession) (agent : AgentSpec) (title : String) (id : SessionId) :
    UseSession :=
  self.enqueue
    [.setSession { id, title, status := .starting, agentKind := agent.kind },
      .setStatus .starting, .setTier agent.tier]

/-- What may happen to the hook around the resolution. -/
inductive Step where
  | event (payload : StatusChanged)
  | render

def step (self : UseSession) : Step → UseSession
  | .event payload => self.onStatusChanged payload
  | .render => self.render

/-- A spawn whose promise resolves between the steps `before` and `after`, until
    nothing is left to render. -/
def spawn (self : UseSession) (agent : AgentSpec) (title : String) (id : SessionId)
    (before after : List Step) : UseSession :=
  (after.foldl step ((before.foldl step self.beginSpawn).resolveSpawn agent title id)).render

end UseSession

open UseSession (Step)

/-- The statuses announced for a session, in order. -/
def announced (id : SessionId) (steps : List Step) : List AgentStatus :=
  steps.filterMap fun
    | .event payload => if payload.sessionId = id then some payload.status else none
    | .render => none

/-- The status announced last, `starting` when there is none. -/
def lastAnnounced (id : SessionId) (steps : List Step) : AgentStatus :=
  (announced id steps).getLast?.getD .starting

def Step.isRender : Step → Bool
  | .render => true
  | .event _ => false

/-- The steps from the first render on. -/
def fromRender (steps : List Step) : List Step := steps.dropWhile fun s => !Step.isRender s

/-- The hook shows a session in a status. -/
def Shows (view : View) (id : SessionId) (status : AgentStatus) : Prop :=
  view.status = some status ∧ ∃ s, view.session = some s ∧ s.id = id ∧ s.status = status

/-- A hook with nothing to render. -/
structure Settled (hook : UseSession) : Prop where
  pending : hook.pending = []
  ref : hook.sessionIdRef = hook.view.sessionId

/-- No event is about the session with the id `shown`. -/
def NotAbout (shown : Option SessionId) (steps : List Step) : Prop :=
  ∀ payload, .event payload ∈ steps → some payload.sessionId ≠ shown

-- ============================================================================
-- Before the render
-- ============================================================================

section

variable {self : UseSession} {id : SessionId} {shown : Option SessionId} {steps : List Step}
  {status : AgentStatus}

@[simp] theorem nextView_enqueue (updates : List Update) :
    (self.enqueue updates).nextView = updates.foldl View.apply self.nextView := by
  rw [UseSession.nextView, UseSession.enqueue, List.foldl_append]
  rfl

@[simp] theorem nextView_render : self.render.nextView = self.nextView := rfl

theorem onStatusChanged_of_ne {payload : StatusChanged}
    (h : some payload.sessionId ≠ self.sessionIdRef) : self.onStatusChanged payload = self :=
  if_neg h

/-- Before the resolution a settled hook stays as it is, but for its error. -/
theorem foldl_before (steps : List Step) (hpending : self.nextView.sessionId = shown)
    (href : self.sessionIdRef = shown) (h : NotAbout shown steps) :
    (steps.foldl UseSession.step self).nextView.sessionId = shown ∧
      (steps.foldl UseSession.step self).sessionIdRef = shown := by
  induction steps generalizing self with
  | nil => exact ⟨hpending, href⟩
  | cons step steps ih =>
      have hrest : NotAbout shown steps := fun payload hmem => h payload (by simp [hmem])
      rw [List.foldl_cons]
      cases step with
      | event payload =>
          rw [UseSession.step, onStatusChanged_of_ne (by rw [href]; exact h payload (by simp))]
          exact ih hpending href hrest
      | render => exact ih hpending hpending hrest

/-- Until the render nothing is heard. -/
theorem foldl_unheard (href : self.sessionIdRef = shown) (h : NotAbout shown steps)
    (hquiet : ∀ step ∈ steps, Step.isRender step = false) :
    steps.foldl UseSession.step self = self := by
  induction steps with
  | nil => rfl
  | cons step steps ih =>
      cases step with
      | event payload =>
          rw [List.foldl_cons, UseSession.step,
            onStatusChanged_of_ne (by rw [href]; exact h payload (by simp))]
          exact ih (fun payload hmem => h payload (by simp [hmem]))
            fun step hmem => hquiet step (by simp [hmem])
      | render => exact absurd (hquiet .render (by simp)) (by simp [Step.isRender])

-- ============================================================================
-- After the render
-- ============================================================================

theorem announced_cons_event (id : SessionId) (payload : StatusChanged) (steps : List Step) :
    announced id (.event payload :: steps) =
      (if payload.sessionId = id then [payload.status] else []) ++ announced id steps := by
  by_cases h : payload.sessionId = id <;> simp [announced, h]

@[simp] theorem announced_cons_render (id : SessionId) (steps : List Step) :
    announced id (.render :: steps) = announced id steps := rfl

/-- An event of the session on show is adopted. -/
theorem shows_onStatusChanged (payload : StatusChanged) (href : self.sessionIdRef = some id)
    (hshows : Shows self.nextView id status) :
    Shows (self.onStatusChanged payload).nextView id
        (if payload.sessionId = id then payload.status else status) ∧
      (self.onStatusChanged payload).sessionIdRef = some id := by
  by_cases hid : payload.sessionId = id
  · obtain ⟨-, s, hs, hsid, -⟩ := hshows
    rw [if_pos hid, UseSession.onStatusChanged, if_pos (by rw [hid, href])]
    refine ⟨?_, href⟩
    rw [nextView_enqueue]
    refine ⟨rfl, { s with status := payload.status }, ?_, hsid, rfl⟩
    simp [View.apply, hs, hsid, hid]
  · rw [if_neg hid, onStatusChanged_of_ne (by rw [href]; simpa using hid)]
    exact ⟨hshows, href⟩

/-- A render tells the listeners which session is on show. -/
theorem sessionIdRef_render (hshows : Shows self.nextView id status) :
    self.render.sessionIdRef = some id := by
  obtain ⟨-, s, hs, hsid, -⟩ := hshows
  show self.nextView.session.map (·.id) = some id
  rw [hs, Option.map_some, hsid]

/-- Once the ref has the id, the hook follows the announcements. -/
theorem shows_foldl (href : self.sessionIdRef = some id) (hshows : Shows self.nextView id status) :
    Shows (steps.foldl UseSession.step self).nextView id
      ((announced id steps).getLast?.getD status) := by
  induction steps generalizing self status with
  | nil => exact hshows
  | cons step steps ih =>
      rw [List.foldl_cons]
      cases step with
      | event payload =>
          obtain ⟨hnext, href'⟩ := shows_onStatusChanged payload href hshows
          have hrest := ih href' hnext
          rw [announced_cons_event]
          by_cases hid : payload.sessionId = id
          · rw [if_pos hid] at hrest ⊢
            rwa [List.singleton_append, List.getLast?_cons, Option.getD_some]
          · rw [if_neg hid] at hrest ⊢
            exact hrest
      | render => exact ih (sessionIdRef_render hshows) hshows

end

-- ============================================================================
-- The spawn
-- ============================================================================

section

variable {self : UseSession} {id : SessionId} {before after : List Step}

theorem foldl_fromRender {hook : UseSession} {shown : Option SessionId}
    (href : hook.sessionIdRef = shown) (h : NotAbout shown after)
    (hshows : Shows hook.nextView id .starting) :
    Shows (after.foldl UseSession.step hook).nextView id (lastAnnounced id (fromRender after)) := by
  have hsplit := List.takeWhile_append_dropWhile (p := fun s => !Step.isRender s) (l := after)
  have hquiet : (after.takeWhile fun s => !Step.isRender s).foldl UseSession.step hook = hook := by
    refine foldl_unheard href (fun payload hmem => h payload ?_) fun step hmem => ?_
    · exact (List.takeWhile_prefix _).mem hmem
    · simpa using List.mem_takeWhile_imp hmem
  have hfold : after.foldl UseSession.step hook =
      (fromRender after).foldl UseSession.step hook := by
    conv_lhs => rw [← hsplit, List.foldl_append, hquiet]
    rfl
  rw [hfold]
  cases hrest : fromRender after with
  | nil => exact hshows
  | cons step rest =>
      -- the first step is the render, which sets the ref
      have hrender : step = .render := by
        have hhead := List.head?_dropWhile_not (fun s => !Step.isRender s) after
        rw [fromRender] at hrest
        rw [hrest] at hhead
        cases step with
        | render => rfl
        | event payload => simp [Step.isRender] at hhead
      subst hrender
      rw [lastAnnounced, announced_cons_render]
      show Shows (rest.foldl UseSession.step hook.render).nextView id _
      exact shows_foldl (sessionIdRef_render hshows) hshows

/-- After a spawn the hook shows the status that was announced last from the
    render on. -/
theorem shows_spawn (agent : AgentSpec) (title : String) (id : SessionId) (hsettled : Settled self)
    (hevents : NotAbout self.sessionIdRef (before ++ after)) :
    Shows (self.spawn agent title id before after).view id
      (lastAnnounced id (fromRender after)) := by
  have hbegin : self.beginSpawn.nextView.sessionId = self.sessionIdRef := by
    rw [UseSession.beginSpawn, nextView_enqueue, UseSession.nextView, hsettled.pending,
      hsettled.ref]
    rfl
  obtain ⟨hnext, href⟩ := foldl_before before hbegin rfl
    fun payload hmem => hevents payload (by simp [hmem])
  refine foldl_fromRender href
    (fun payload hmem => hevents payload (by simp [hmem])) ?_
  rw [UseSession.resolveSpawn, nextView_enqueue]
  exact ⟨rfl, _, rfl, rfl, rfl⟩

theorem Shows.unique {view : View} {a b : AgentStatus} (ha : Shows view id a)
    (hb : Shows view id b) : a = b :=
  Option.some.inj (ha.1.symm.trans hb.1)

theorem announced_append (id : SessionId) (steps rest : List Step) :
    announced id (steps ++ rest) = announced id steps ++ announced id rest :=
  List.filterMap_append ..

/-- What is announced from the render on is announced last. -/
theorem lastAnnounced_append (h : announced id (fromRender after) ≠ []) :
    lastAnnounced id (before ++ after) = lastAnnounced id (fromRender after) := by
  have hsplit := List.takeWhile_append_dropWhile (p := fun s => !Step.isRender s) (l := after)
  unfold lastAnnounced
  conv_lhs => rw [← hsplit, announced_append, announced_append, ← List.append_assoc,
    List.getLast?_append]
  show (((announced id (fromRender after)).getLast?).or _).getD _ = _
  rw [List.getLast?_eq_some_getLast h, Option.some_or]

end

/-- The hook ends on the status that was announced last, if and only if one was
    announced after the render that follows the resolution, or the last one is
    `starting`, the status the hook begins with. -/
theorem ends_on_last_iff (self : UseSession) (agent : AgentSpec) (title : String) (id : SessionId)
    (before after : List Step) (hsettled : Settled self)
    (hevents : NotAbout self.sessionIdRef (before ++ after)) :
    Shows (self.spawn agent title id before after).view id (lastAnnounced id (before ++ after)) ↔
      announced id (fromRender after) ≠ [] ∨ lastAnnounced id (before ++ after) = .starting := by
  have hshows := shows_spawn agent title id hsettled hevents
  by_cases hheard : announced id (fromRender after) = []
  · have hstart : lastAnnounced id (fromRender after) = .starting := by
      rw [lastAnnounced, hheard]
      rfl
    rw [hstart] at hshows
    constructor
    · exact fun h => .inr (h.unique hshows)
    · rintro (h | h)
      · exact absurd hheard h
      · rwa [h]
  · rw [lastAnnounced_append hheard]
    exact iff_of_true hshows (.inl hheard)

/-- The first transition comes before the resolution: the hook goes on showing
    `starting`. -/
theorem idle_dropped :
    let hook := UseSession.mount.spawn ⟨"generic", some ["sh"], .generic⟩ "sh" "0"
      [.event ⟨"0", .idle, []⟩] []
    lastAnnounced "0" [.event ⟨"0", .idle, []⟩] = .idle ∧ hook.view.status = some .starting ∧
      hook.view.session = some ⟨"0", "sh", .starting, "generic"⟩ := by
  decide

/-- A hook that hears one event and misses another. -/
theorem ends_on_last_iff_mount :
    Shows (UseSession.mount.spawn ⟨"generic", some ["sh"], .generic⟩ "sh" "0"
        [.event ⟨"0", .idle, []⟩] [.render, .event ⟨"0", .running, []⟩]).view "0" .running ↔
      announced "0" [.render, .event ⟨"0", .running, []⟩] ≠ [] ∨ AgentStatus.running = .starting :=
  ends_on_last_iff .mount ⟨"generic", some ["sh"], .generic⟩ "sh" "0" [.event ⟨"0", .idle, []⟩]
    [.render, .event ⟨"0", .running, []⟩] ⟨rfl, rfl⟩
    (by simp [NotAbout, UseSession.mount])

end Spectty.Ui
