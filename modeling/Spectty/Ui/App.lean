/-
  Spectty.Ui.App

  The window: the spawn dialog, or the panes of the session that the session hook holds.

  A click on Spawn mints the channel that the next session terminal drains, and the hook
  shows the session whose spawn resolves last.  `screen_law` says whose output is on
  screen while the keys go to the session on show; `sessions_law` that a user who spawns
  when nothing is under way has one session at most, and sees its output.
-/

import Spectty.Lib.Machine
import Spectty.Ui.UseSession
import Mathlib.Data.List.Nodup
import Mathlib.Data.List.Perm.Basic
import Std.Data.String.ToNat

namespace Spectty.Ui

open Spectty.Core
open Spectty.Lib

-- ============================================================================
-- The window and the backend
-- ============================================================================

/-- No session, status or tier. -/
def View.clear (prev : View) : View := { prev with session := none, status := none, tier := none }

/-- A queued state update, of the kinds that a spawn and an event make, or of a close. -/
inductive AppUpdate where
  | hook (update : Update)
  | clear

def AppUpdate.apply (prev : View) : AppUpdate → View
  | .hook update => prev.apply update
  | .clear => prev.clear

/-- A call of `spawnSession`; the channels are numbered as they are minted. -/
structure SpawnCall where
  channel : Nat
  agent : AgentSpec
  title : String

/-- How the backend answers a spawn.  One that fails may have taken an id. -/
inductive SpawnAnswer where
  | spawned
  | failed (minted : Bool) (msg : String)

/-- How the backend answers a close.  One that fails may have killed the terminal. -/
inductive CloseAnswer where
  | closed
  | failed (killed : Bool) (msg : String)

/-- The window with the calls, replies and `session_closed` events in flight, and the
    backend.  `terminal` are the properties of the mounted session terminal, `spawned` the
    sessions with the channels of their output, `live` those with a terminal, and
    `halfClosed` those whose close failed after the kill. -/
structure App where
  view : View
  sessionIdRef : Option SessionId
  pending : List AppUpdate
  outputChannelRef : Nat
  terminal : Option (SessionId × Nat)
  calls : List SpawnCall
  replies : List (SpawnCall × Except String SessionId)
  closes : List SessionId
  closedEvents : List SessionId
  closeReplies : List (Except String Unit)
  minted : Nat
  spawned : List (SessionId × Nat)
  live : List SessionId
  halfClosed : List SessionId

/-- A step: the user clicks; the backend serves a call; a promise resolves; an event is
    delivered; or the window renders. -/
inductive AppStep where
  | onSpawn (agent : AgentSpec) (title : String)
  | spawnSession (k : Nat) (answer : SpawnAnswer)
  | resolveSpawn (k : Nat)
  | onClose
  | closeSession (k : Nat) (answer : CloseAnswer)
  | resolveClose (k : Nat)
  | sessionClosed (k : Nat)
  | statusChanged (payload : StatusChanged)
  | render

namespace App

/-- The first render. -/
def start : App where
  view := UseSession.mount.view
  sessionIdRef := none
  pending := []
  outputChannelRef := 0
  terminal := none
  calls := []
  replies := []
  closes := []
  closedEvents := []
  closeReplies := []
  minted := 0
  spawned := []
  live := []
  halfClosed := []

/-- The view that the next render takes over. -/
def nextView (self : App) : View := self.pending.foldl AppUpdate.apply self.view

def enqueue (self : App) (updates : List AppUpdate) : App :=
  { self with pending := self.pending ++ updates }

/-- The updates of a spawn that has resolved. -/
def seed (call : SpawnCall) (id : SessionId) : List AppUpdate :=
  [.hook <| .setSession
      { id, title := call.title, status := .starting, agentKind := call.agent.kind },
    .hook (.setStatus .starting), .hook (.setTier call.agent.tier)]

/-- The backend serves a spawn. -/
def handleSpawn (self : App) (call : SpawnCall) : SpawnAnswer → App
  | .spawned =>
      let id := toString self.minted
      { self with
        minted := self.minted + 1
        spawned := self.spawned ++ [(id, call.channel)]
        live := self.live ++ [id]
        replies := self.replies ++ [(call, .ok id)] }
  | .failed minted msg =>
      { self with
        minted := if minted then self.minted + 1 else self.minted
        replies := self.replies ++ [(call, .error msg)] }

/-- The backend serves a close. -/
def handleClose (self : App) (id : SessionId) : CloseAnswer → App
  | .closed =>
      { self with
        live := self.live.filter (· ≠ id)
        closedEvents := self.closedEvents ++ [id]
        closeReplies := self.closeReplies ++ [.ok ()] }
  | .failed killed msg =>
      { self with
        live := if killed then self.live.filter (· ≠ id) else self.live
        halfClosed := if killed then self.halfClosed ++ [id] else self.halfClosed
        closeReplies := self.closeReplies ++ [.error msg] }

def next (self : App) : AppStep → App
  | .onSpawn agent title =>
      -- the dialog is there when the last render had no session
      if self.view.session.isNone then
        let call : SpawnCall := { channel := self.outputChannelRef + 1, agent, title }
        { self with outputChannelRef := call.channel, calls := self.calls ++ [call] }.enqueue
          [.hook (.setError none)]
      else self
  | .spawnSession k answer =>
      match self.calls[k]? with
      | none => self
      | some call => { self with calls := self.calls.eraseIdx k }.handleSpawn call answer
  | .resolveSpawn k =>
      match self.replies[k]? with
      | none => self
      | some (call, reply) =>
          { self with replies := self.replies.eraseIdx k }.enqueue <|
            match reply with
            | .ok id => seed call id
            | .error msg => [.hook (.setError (some msg))]
  | .onClose =>
      match self.sessionIdRef with
      | none => self
      | some id => { self with closes := self.closes ++ [id] }
  | .closeSession k answer =>
      match self.closes[k]? with
      | none => self
      | some id => { self with closes := self.closes.eraseIdx k }.handleClose id answer
  | .resolveClose k =>
      match self.closeReplies[k]? with
      | none => self
      | some reply =>
          { self with closeReplies := self.closeReplies.eraseIdx k }.enqueue <|
            match reply with
            | .ok () => [.clear]
            | .error _ => []
  | .sessionClosed k =>
      match self.closedEvents[k]? with
      | none => self
      | some id =>
          { self with closedEvents := self.closedEvents.eraseIdx k }.enqueue <|
            if some id = self.sessionIdRef then [.clear] else []
  | .statusChanged payload =>
      if some payload.sessionId = self.sessionIdRef then
        self.enqueue [.hook (.setStatus payload.status), .hook (.adopt payload)]
      else self
  | .render =>
      { self with
        view := self.nextView
        sessionIdRef := self.nextView.sessionId
        pending := []
        terminal := self.nextView.session.map fun session => (session.id, self.outputChannelRef) }

-- ============================================================================
-- What is on show was spawned
-- ============================================================================

end App

/-- The session that an update puts on show. -/
def AppUpdate.shows : AppUpdate → Option SessionId
  | .hook (.setSession session) => some session.id
  | _ => none

/-- An adopted status leaves the session that is on show. -/
theorem sessionId_adopt (prev : View) (payload : StatusChanged) :
    (prev.apply (.adopt payload)).sessionId = prev.sessionId := by
  show (prev.session.map _).map _ = prev.session.map _
  rw [Option.map_map]
  congr 1
  funext session
  simp only [Function.comp_apply]
  split <;> rfl

theorem AppUpdate.sessionId_apply {prev : View} {update : AppUpdate} {id : SessionId}
    (h : (update.apply prev).sessionId = some id) :
    update.shows = some id ∨ prev.sessionId = some id := by
  rcases update with (session | payload | status | tier | error) | -
  · exact .inl h
  · right
    rw [← sessionId_adopt prev payload]
    exact h
  · exact .inr h
  · exact .inr h
  · exact .inr h
  · cases h

namespace App

/-- The channel that the output of each session goes to, and that each spawn under way has,
    is its own and was minted; and what is on show, or is to be, was spawned. -/
structure Sound (app : App) : Prop where
  ref : app.sessionIdRef = app.view.sessionId
  terminal : app.terminal = app.view.session.map fun session => (session.id, app.outputChannelRef)
  ids : ∀ p ∈ app.spawned, ∃ n < app.minted, p.1 = toString n
  ids_nodup : (app.spawned.map (·.1)).Nodup
  channels : ∀ c ∈ app.calls.map (·.channel) ++ app.spawned.map (·.2), c ≤ app.outputChannelRef
  channels_nodup : (app.calls.map (·.channel) ++ app.spawned.map (·.2)).Nodup
  shown : ∀ id, app.view.sessionId = some id → id ∈ app.spawned.map (·.1)
  pending : ∀ update ∈ app.pending, ∀ id, update.shows = some id → id ∈ app.spawned.map (·.1)
  replies : ∀ p ∈ app.replies, ∀ id, p.2 = .ok id → (id, p.1.channel) ∈ app.spawned

variable {self : App}

theorem sessionId_nextView (h : self.Sound) {id : SessionId}
    (hid : self.nextView.sessionId = some id) : id ∈ self.spawned.map (·.1) := by
  have hfold : ∀ (updates : List AppUpdate) (view : View),
      (∀ update ∈ updates, ∀ id, update.shows = some id → id ∈ self.spawned.map (·.1)) →
      (∀ id, view.sessionId = some id → id ∈ self.spawned.map (·.1)) →
      ∀ id, (updates.foldl AppUpdate.apply view).sessionId = some id →
        id ∈ self.spawned.map (·.1) := by
    intro updates
    induction updates with
    | nil => exact fun view _ hview => hview
    | cons update updates ih =>
        intro view hupdates hview
        refine ih (update.apply view) (fun u hu => hupdates u (by simp [hu])) fun id hid => ?_
        rcases AppUpdate.sessionId_apply hid with hshows | hprev
        · exact hupdates update (by simp) id hshows
        · exact hview id hprev
  exact hfold self.pending self.view h.pending h.shown id hid

theorem sound_start : start.Sound where
  ref := rfl
  terminal := rfl
  ids := by simp [start]
  ids_nodup := by simp [start]
  channels := by simp [start]
  channels_nodup := by simp [start]
  shown := by simp [start, UseSession.mount, View.sessionId]
  pending := by simp [start]
  replies := by simp [start]

/-- Updates that put nothing on show that was not spawned. -/
theorem sound_enqueue (h : self.Sound) {updates : List AppUpdate}
    (hshows : ∀ update ∈ updates, ∀ id, update.shows = some id → id ∈ self.spawned.map (·.1)) :
    (self.enqueue updates).Sound := by
  refine { h with pending := fun update hupdate => ?_ }
  rcases List.mem_append.mp hupdate with hold | hnew
  · exact h.pending update hold
  · exact hshows update hnew

theorem sound_onSpawn (h : self.Sound) (agent : AgentSpec) (title : String) :
    (self.next (.onSpawn agent title)).Sound := by
  cases hdialog : self.view.session with
  | some session => simpa [next, hdialog] using h
  | none =>
      have hnext : self.next (.onSpawn agent title) =
          ({ self with
            outputChannelRef := self.outputChannelRef + 1
            calls := self.calls ++ [⟨self.outputChannelRef + 1, agent, title⟩] } : App).enqueue
              [.hook (.setError none)] := by
        simp [next, hdialog]
      rw [hnext]
      apply sound_enqueue
      · refine { h with terminal := ?_, channels := ?_, channels_nodup := ?_ }
        · show self.terminal = self.view.session.map _
          rw [h.terminal, hdialog]
          rfl
        · intro c hc
          show c ≤ self.outputChannelRef + 1
          simp only [List.map_append, List.map_cons, List.map_nil, List.append_assoc,
            List.mem_append, List.mem_singleton] at hc
          have hold := h.channels c
          rw [List.mem_append] at hold
          rcases hc with hc | rfl | hc
          · exact Nat.le_succ_of_le (hold (.inl hc))
          · exact Nat.le_refl _
          · exact Nat.le_succ_of_le (hold (.inr hc))
        · simp only [List.map_append, List.map_cons, List.map_nil, List.append_assoc,
            List.singleton_append]
          rw [List.perm_middle.nodup_iff, List.nodup_cons]
          refine ⟨fun hin => ?_, h.channels_nodup⟩
          have hle := h.channels _ hin
          omega
      · simp [AppUpdate.shows]

/-- The channel of a call that is served, apart from the others. -/
theorem channels_eraseIdx {k : Nat} {call : SpawnCall} (hcall : self.calls[k]? = some call) :
    (self.calls.map (·.channel) ++ self.spawned.map (·.2)).Perm
      (call.channel :: ((self.calls.eraseIdx k).map (·.channel) ++ self.spawned.map (·.2))) := by
  obtain ⟨hk, rfl⟩ := List.getElem?_eq_some_iff.mp hcall
  have hperm := (List.getElem_cons_eraseIdx_perm hk).map (·.channel)
  exact hperm.symm.append_right _

theorem minted_fresh (h : self.Sound) : toString self.minted ∉ self.spawned.map (·.1) := by
  intro hin
  obtain ⟨p, hp, hid⟩ := List.mem_map.mp hin
  obtain ⟨n, hn, hn'⟩ := h.ids p hp
  have hsame : n = self.minted := Nat.repr_injective (hn'.symm.trans hid)
  omega

section

variable {k : Nat} {call : SpawnCall} (hcall : self.calls[k]? = some call)

include hcall

theorem channels_served (h : self.Sound) :
    (∀ c ∈ call.channel :: ((self.calls.eraseIdx k).map (·.channel) ++ self.spawned.map (·.2)),
      c ≤ self.outputChannelRef) ∧
    (call.channel ::
      ((self.calls.eraseIdx k).map (·.channel) ++ self.spawned.map (·.2))).Nodup := by
  have hperm := channels_eraseIdx hcall
  exact ⟨fun c hc => h.channels c (hperm.mem_iff.mpr hc), hperm.nodup_iff.mp h.channels_nodup⟩

/-- A spawn that fails leaves no session. -/
theorem sound_failed (h : self.Sound) (minted : Bool) (msg : String) :
    (({ self with calls := self.calls.eraseIdx k } : App).handleSpawn call
      (.failed minted msg)).Sound := by
  obtain ⟨hle, hnodup⟩ := channels_served hcall h
  refine { h with ids := ?_, channels := ?_, channels_nodup := ?_, replies := ?_ }
  · intro p hp
    obtain ⟨n, hn, hid⟩ := h.ids p hp
    refine ⟨n, ?_, hid⟩
    show n < if minted then self.minted + 1 else self.minted
    split <;> omega
  · exact fun c hc => hle c (List.mem_cons_of_mem _ hc)
  · exact (List.nodup_cons.mp hnodup).2
  · intro p hp id hid
    rcases List.mem_append.mp hp with hp | hp
    · exact h.replies p hp id hid
    · rw [List.mem_singleton.mp hp] at hid
      cases hid

/-- A spawn that succeeds has a session with a new id, on the channel of its click. -/
theorem sound_spawned (h : self.Sound) :
    (({ self with calls := self.calls.eraseIdx k } : App).handleSpawn call .spawned).Sound := by
  obtain ⟨hle, hnodup⟩ := channels_served hcall h
  have hgrown : ∀ id, id ∈ self.spawned.map (·.1) →
      id ∈ (self.spawned ++ [(toString self.minted, call.channel)]).map (·.1) := by
    intro id hid
    rw [List.map_append]
    exact List.mem_append_left _ hid
  have hchannels : ((self.calls.eraseIdx k).map (·.channel) ++
      (self.spawned ++ [(toString self.minted, call.channel)]).map (·.2)).Perm
      (call.channel :: ((self.calls.eraseIdx k).map (·.channel) ++ self.spawned.map (·.2))) := by
    rw [List.map_append, ← List.append_assoc]
    exact List.perm_append_singleton _ _
  constructor
  case ref => exact h.ref
  case terminal => exact h.terminal
  case ids =>
    intro p hp
    show ∃ n < self.minted + 1, _
    rcases List.mem_append.mp hp with hp | hp
    · obtain ⟨n, hn, hid⟩ := h.ids p hp
      exact ⟨n, Nat.lt_succ_of_lt hn, hid⟩
    · rw [List.mem_singleton.mp hp]
      exact ⟨self.minted, Nat.lt_succ_self _, rfl⟩
  case ids_nodup =>
    show ((self.spawned ++ [_]).map _).Nodup
    rw [List.map_append]
    exact (List.perm_append_singleton _ _).nodup_iff.mpr
      (List.nodup_cons.mpr ⟨minted_fresh h, h.ids_nodup⟩)
  case channels => exact fun c hc => hle c (hchannels.mem_iff.mp hc)
  case channels_nodup => exact hchannels.nodup_iff.mpr hnodup
  case shown => exact fun id hid => hgrown id (h.shown id hid)
  case pending =>
    exact fun update hupdate id hid => hgrown id (h.pending update hupdate id hid)
  case replies =>
    intro p hp id hid
    show _ ∈ self.spawned ++ [_]
    rcases List.mem_append.mp hp with hp | hp
    · exact List.mem_append_left _ (h.replies p hp id hid)
    · rw [List.mem_singleton.mp hp] at hid ⊢
      rw [← Except.ok.inj hid]
      exact List.mem_append_right _ (List.mem_singleton_self _)

end

theorem sound_spawnSession (h : self.Sound) (k : Nat) (answer : SpawnAnswer) :
    (self.next (.spawnSession k answer)).Sound := by
  cases hcall : self.calls[k]? with
  | none => simpa [next, hcall] using h
  | some call =>
      simp only [next, hcall]
      cases answer with
      | failed minted msg => exact sound_failed hcall h minted msg
      | spawned => exact sound_spawned hcall h

theorem sound_resolveSpawn (h : self.Sound) (k : Nat) : (self.next (.resolveSpawn k)).Sound := by
  rcases hreply : self.replies[k]? with _ | ⟨call, reply⟩
  · simpa [next, hreply] using h
  · have hmem := List.mem_of_getElem? hreply
    have hserved : ({ self with replies := self.replies.eraseIdx k } : App).Sound :=
      { h with replies := fun p hp => h.replies p (List.mem_of_mem_eraseIdx hp) }
    simp only [next, hreply]
    apply sound_enqueue hserved
    cases reply with
    | error msg => simp [AppUpdate.shows]
    | ok id =>
        have hspawned := List.mem_map_of_mem (f := (·.1)) (h.replies _ hmem id rfl)
        intro update hupdate id' hid'
        simp only [seed, List.mem_cons, List.not_mem_nil, or_false] at hupdate
        rcases hupdate with rfl | rfl | rfl
        · rw [← Option.some.inj hid']
          exact hspawned
        · cases hid'
        · cases hid'

/-- The steps of a close move nothing that is shown but by updates. -/
theorem sound_closing (h : self.Sound) (closes closedEvents : List SessionId)
    (closeReplies : List (Except String Unit)) (live halfClosed : List SessionId) :
    ({ self with closes, closedEvents, closeReplies, live, halfClosed } : App).Sound :=
  ⟨h.ref, h.terminal, h.ids, h.ids_nodup, h.channels, h.channels_nodup, h.shown, h.pending,
    h.replies⟩

theorem sound_next (h : self.Sound) (c : AppStep) : (self.next c).Sound := by
  cases c with
  | onSpawn agent title => exact sound_onSpawn h agent title
  | spawnSession k answer => exact sound_spawnSession h k answer
  | resolveSpawn k => exact sound_resolveSpawn h k
  | onClose =>
      cases href : self.sessionIdRef with
      | none => simpa [next, href] using h
      | some id =>
          have hnext : self.next .onClose = { self with closes := self.closes ++ [id] } := by
            simp [next, href]
          rw [hnext]
          exact sound_closing h _ _ _ _ _
  | closeSession k answer =>
      cases hclose : self.closes[k]? with
      | none => simpa [next, hclose] using h
      | some id =>
          simp only [next, hclose]
          cases answer with
          | closed => exact sound_closing h _ _ _ _ _
          | failed killed msg => exact sound_closing h _ _ _ _ _
  | resolveClose k =>
      cases hreply : self.closeReplies[k]? with
      | none => simpa [next, hreply] using h
      | some reply =>
          simp only [next, hreply]
          apply sound_enqueue (sound_closing h _ _ _ _ _)
          cases reply with
          | error msg => simp
          | ok => simp [AppUpdate.shows]
  | sessionClosed k =>
      cases hevent : self.closedEvents[k]? with
      | none => simpa [next, hevent] using h
      | some id =>
          simp only [next, hevent]
          apply sound_enqueue (sound_closing h _ _ _ _ _)
          split
          · simp [AppUpdate.shows]
          · simp
  | statusChanged payload =>
      simp only [next]
      split
      · exact sound_enqueue h (by simp [AppUpdate.shows])
      · exact h
  | render =>
      constructor
      case ref => rfl
      case terminal => rfl
      case ids => exact h.ids
      case ids_nodup => exact h.ids_nodup
      case channels => exact h.channels
      case channels_nodup => exact h.channels_nodup
      case shown => exact fun id hid => sessionId_nextView h hid
      case pending => exact fun update hupdate => absurd hupdate (List.not_mem_nil)
      case replies => exact h.replies

theorem sound_run (steps : List AppStep) : (Machine.run next start steps).Sound := by
  induction steps using List.reverseRecOn with
  | nil => exact sound_start
  | append_singleton steps c ih =>
      rw [Machine.run_concat]
      exact sound_next ih c

/-- The mounted terminal is that of the session on show, on the channel clicked last. -/
theorem terminal_eq_some (h : self.Sound) {id : SessionId} {channel : Nat} :
    self.terminal = some (id, channel) ↔
      self.view.sessionId = some id ∧ self.outputChannelRef = channel := by
  rw [h.terminal, View.sessionId]
  cases self.view.session with
  | none => simp
  | some session => simp

/-- In every state of every run the keys go to the session on show, and its terminal is
    fed by the channel of the spawn that was clicked last: with its own output, if and only
    if that is its spawn, and otherwise with that of the session spawned there, if any. -/
theorem screen_law (steps : List AppStep) :
    let self := Machine.run next start steps
    ∀ id channel, self.terminal = some (id, channel) →
      self.view.sessionId = some id ∧ channel = self.outputChannelRef ∧
      ∃ own ≤ channel, (∀ c, (id, c) ∈ self.spawned ↔ c = own) ∧
        ∀ other, (other, channel) ∈ self.spawned → (other = id ↔ own = channel) := by
  intro self id channel hterminal
  have h : self.Sound := sound_run steps
  obtain ⟨hshown, rfl⟩ := (terminal_eq_some h).mp hterminal
  obtain ⟨⟨_, own⟩, hown, rfl⟩ := List.mem_map.mp (h.shown _ hshown)
  have hle : own ≤ self.outputChannelRef :=
    h.channels own (List.mem_append_right _ (List.mem_map_of_mem hown))
  have hchannels := (List.nodup_append.mp h.channels_nodup).2.1
  refine ⟨hshown, rfl, own, hle, fun c => ⟨fun hc => ?_, ?_⟩, fun other hother => ⟨?_, ?_⟩⟩
  · exact (Prod.mk.inj (List.inj_on_of_nodup_map h.ids_nodup hc hown rfl)).2
  · rintro rfl
    exact hown
  · rintro rfl
    exact (Prod.mk.inj (List.inj_on_of_nodup_map h.ids_nodup hown hother rfl)).2
  · rintro rfl
    exact (Prod.mk.inj (List.inj_on_of_nodup_map hchannels hother hown rfl)).1

-- ============================================================================
-- One session at a time
-- ============================================================================

/-- No spawn, close or event is under way, and all is rendered. -/
structure Quiet (app : App) : Prop where
  calls : app.calls = []
  replies : app.replies = []
  closes : app.closes = []
  closedEvents : app.closedEvents = []
  closeReplies : app.closeReplies = []
  pending : app.pending = []

/-- A spawn is clicked when nothing is under way. -/
def Alone (app : App) : AppStep → Prop
  | .onSpawn _ _ => app.Quiet
  | _ => True

/-- Nothing is on show, nor to be closed, while a spawn is under way. -/
structure Waits (app : App) : Prop where
  view : app.view.sessionId = none
  nextView : app.nextView.sessionId = none
  closes : app.closes = []
  closedEvents : app.closedEvents = []
  closeReplies : app.closeReplies = []

/-- The session `id` is on show, or will be with the next render, and no other is to be
    closed: it has its terminal until a close was served. -/
structure OnShow (app : App) (id : SessionId) : Prop where
  nextView : app.nextView.sessionId = some id
  own : (id, app.outputChannelRef) ∈ app.spawned
  view : app.view.sessionId = some id ∨ app.view.sessionId = none ∧
    app.closes = [] ∧ app.closedEvents = [] ∧ app.closeReplies = []
  ids : ∀ closed ∈ app.closes ++ app.closedEvents, closed = id
  live : app.live = [id] ∧ app.closedEvents = [] ∧ .ok () ∉ app.closeReplies ∨
    app.live = [] ∧ (id ∈ app.halfClosed ∨ app.closedEvents ≠ [] ∨ .ok () ∈ app.closeReplies)

/-- How far the one session is: asked for, refused, spawned, on show, or gone. -/
inductive Stage (app : App) : Prop where
  | called (call : SpawnCall) (hcalls : app.calls = [call]) (hreplies : app.replies = [])
      (hwaits : app.Waits) (hchannel : call.channel = app.outputChannelRef) (hlive : app.live = [])
  | refused (call : SpawnCall) (msg : String) (hcalls : app.calls = [])
      (hreplies : app.replies = [(call, .error msg)]) (hwaits : app.Waits) (hlive : app.live = [])
  | spawned (call : SpawnCall) (id : SessionId) (hcalls : app.calls = [])
      (hreplies : app.replies = [(call, .ok id)]) (hwaits : app.Waits)
      (hown : (id, app.outputChannelRef) ∈ app.spawned) (hlive : app.live = [id])
  | shown (id : SessionId) (hcalls : app.calls = []) (hreplies : app.replies = [])
      (hshow : app.OnShow id)
  | gone (hcalls : app.calls = []) (hreplies : app.replies = [])
      (hview : app.nextView.sessionId = none) (hlive : app.live = [])

theorem Stage.length_live (hstage : self.Stage) : self.live.length ≤ 1 := by
  cases hstage with
  | called _ _ _ _ _ hlive => simp [hlive]
  | refused _ _ _ _ _ hlive => simp [hlive]
  | spawned _ _ _ _ _ _ hlive => simp [hlive]
  | gone _ _ _ hlive => simp [hlive]
  | shown id _ _ hshow =>
      rcases hshow.live with ⟨hlive, -⟩ | ⟨hlive, -⟩
      · simp [hlive]
      · simp [hlive]

/-- When something is on show or to be closed, no spawn is under way. -/
theorem Stage.of_not_waits (hstage : self.Stage) (h : ¬ self.Waits) :
    self.calls = [] ∧ self.replies = [] ∧
      ((∃ id, self.OnShow id) ∨ self.nextView.sessionId = none ∧ self.live = []) := by
  cases hstage with
  | called call _ _ hwaits => exact absurd hwaits h
  | refused call msg _ _ hwaits => exact absurd hwaits h
  | spawned call id _ _ hwaits => exact absurd hwaits h
  | shown id hcalls hreplies hshow => exact ⟨hcalls, hreplies, .inl ⟨id, hshow⟩⟩
  | gone hcalls hreplies hview hlive => exact ⟨hcalls, hreplies, .inr ⟨hview, hlive⟩⟩

/-- Without a spawn under way, the stage is told by what is to be shown. -/
theorem stage_of_idle (hcalls : self.calls = []) (hreplies : self.replies = [])
    (h : (∃ id, self.OnShow id) ∨ self.nextView.sessionId = none ∧ self.live = []) :
    self.Stage := by
  rcases h with ⟨id, hshow⟩ | ⟨hview, hlive⟩
  · exact .shown id hcalls hreplies hshow
  · exact .gone hcalls hreplies hview hlive

/-- What is being closed has been on show. -/
theorem OnShow.view_of_closing {id : SessionId} (h : self.OnShow id)
    (hclosing : self.closes ≠ [] ∨ self.closedEvents ≠ [] ∨ self.closeReplies ≠ []) :
    self.view.sessionId = some id := by
  refine h.view.resolve_right fun hnone => ?_
  rcases hclosing with hne | hne | hne
  · exact hne hnone.2.1
  · exact hne hnone.2.2.1
  · exact hne hnone.2.2.2

theorem nextView_enqueue (updates : List AppUpdate) :
    (self.enqueue updates).nextView = updates.foldl AppUpdate.apply self.nextView :=
  List.foldl_append

theorem Waits.ref (h : self.Sound) (hwaits : self.Waits) : self.sessionIdRef = none :=
  h.ref.trans hwaits.view

theorem stage_onSpawn (hstage : self.Stage) (agent : AgentSpec) (title : String)
    (hquiet : self.Quiet) : (self.next (.onSpawn agent title)).Stage := by
  cases hdialog : self.view.session with
  | some session => simpa [next, hdialog] using hstage
  | none =>
      have hnone : self.view.sessionId = none := by rw [View.sessionId, hdialog]; rfl
      have hlive : self.live = [] := by
        cases hstage with
        | called call hcalls => rw [hquiet.calls] at hcalls; cases hcalls
        | refused call msg _ hreplies => rw [hquiet.replies] at hreplies; cases hreplies
        | spawned call id _ hreplies => rw [hquiet.replies] at hreplies; cases hreplies
        | shown id _ _ hshow =>
            have hnext := hshow.nextView
            rw [nextView, hquiet.pending] at hnext
            exact absurd (hnone.symm.trans hnext) (by simp)
        | gone _ _ _ hlive => exact hlive
      have hnext : self.next (.onSpawn agent title) =
          ({ self with
            outputChannelRef := self.outputChannelRef + 1
            calls := self.calls ++ [⟨self.outputChannelRef + 1, agent, title⟩] } : App).enqueue
              [.hook (.setError none)] := by
        simp [next, hdialog]
      rw [hnext]
      refine .called ⟨self.outputChannelRef + 1, agent, title⟩ ?_ hquiet.replies ?_ rfl hlive
      · show self.calls ++ _ = _
        rw [hquiet.calls]
        rfl
      · refine ⟨hnone, ?_, hquiet.closes, hquiet.closedEvents, hquiet.closeReplies⟩
        rw [nextView_enqueue, nextView, hquiet.pending]
        exact hnone

theorem stage_spawnSession (hstage : self.Stage) (k : Nat) (answer : SpawnAnswer) :
    (self.next (.spawnSession k answer)).Stage := by
  cases hcall : self.calls[k]? with
  | none => simpa [next, hcall] using hstage
  | some call =>
      have hnil : self.calls ≠ [] := by
        intro hnil
        rw [hnil] at hcall
        cases hcall
      cases hstage with
      | refused _ _ hcalls => exact absurd hcalls hnil
      | spawned _ _ hcalls => exact absurd hcalls hnil
      | shown _ hcalls => exact absurd hcalls hnil
      | gone hcalls => exact absurd hcalls hnil
      | called call' hcalls hreplies hwaits hchannel hlive =>
          obtain ⟨rfl, rfl⟩ : call' = call ∧ k = 0 := by
            rw [hcalls] at hcall
            cases k with
            | zero => exact ⟨Option.some.inj hcall, rfl⟩
            | succ k => cases hcall
          have hnext : self.next (.spawnSession 0 answer) =
              ({ self with calls := [] } : App).handleSpawn call' answer := by
            simp [next, hcalls]
          rw [hnext]
          cases answer with
          | failed minted msg =>
              refine .refused call' msg rfl ?_ ⟨hwaits.view, hwaits.nextView, hwaits.closes,
                hwaits.closedEvents, hwaits.closeReplies⟩ hlive
              show self.replies ++ _ = _
              rw [hreplies]
              rfl
          | spawned =>
              refine .spawned call' (toString self.minted) rfl ?_ ⟨hwaits.view, hwaits.nextView,
                hwaits.closes, hwaits.closedEvents, hwaits.closeReplies⟩ ?_ ?_
              · show self.replies ++ _ = _
                rw [hreplies]
                rfl
              · show (_, self.outputChannelRef) ∈ self.spawned ++ [(_, call'.channel)]
                rw [hchannel]
                exact List.mem_append_right _ (List.mem_singleton_self _)
              · show self.live ++ _ = _
                rw [hlive]
                rfl

theorem stage_resolveSpawn (hstage : self.Stage) (k : Nat) :
    (self.next (.resolveSpawn k)).Stage := by
  rcases hreply : self.replies[k]? with _ | ⟨call, reply⟩
  · simpa [next, hreply] using hstage
  have hnil : self.replies ≠ [] := by
    intro hnil
    rw [hnil] at hreply
    cases hreply
  have hone : ∀ p, self.replies = [p] → p = (call, reply) ∧ k = 0 := by
    intro p hp
    rw [hp] at hreply
    cases k with
    | zero => exact ⟨Option.some.inj hreply, rfl⟩
    | succ k => cases hreply
  cases hstage with
  | called _ _ hreplies => exact absurd hreplies hnil
  | shown _ _ hreplies => exact absurd hreplies hnil
  | gone _ hreplies => exact absurd hreplies hnil
  | refused call' msg hcalls hreplies hwaits hlive =>
      obtain ⟨heq, rfl⟩ := hone _ hreplies
      have hnext : self.next (.resolveSpawn 0) =
          ({ self with replies := [] } : App).enqueue [.hook (.setError (some msg))] := by
        simp [next, hreplies]
      rw [hnext]
      refine .gone hcalls rfl ?_ hlive
      rw [nextView_enqueue]
      exact hwaits.nextView
  | spawned call' id hcalls hreplies hwaits hown hlive =>
      obtain ⟨heq, rfl⟩ := hone _ hreplies
      have hnext : self.next (.resolveSpawn 0) =
          ({ self with replies := [] } : App).enqueue (seed call' id) := by
        simp [next, hreplies]
      rw [hnext]
      refine .shown id hcalls rfl ⟨?_, hown, .inr ⟨hwaits.view, hwaits.closes,
        hwaits.closedEvents, hwaits.closeReplies⟩, ?_, .inl ⟨hlive, hwaits.closedEvents, ?_⟩⟩
      · rw [nextView_enqueue]
        rfl
      · show ∀ closed ∈ self.closes ++ self.closedEvents, _
        rw [hwaits.closes, hwaits.closedEvents]
        simp
      · show Except.ok () ∉ self.closeReplies
        rw [hwaits.closeReplies]
        simp

/-- The one that is on show can be closed. -/
theorem stage_onClose (h : self.Sound) (hstage : self.Stage) : (self.next .onClose).Stage := by
  cases href : self.sessionIdRef with
  | none => simpa [next, href] using hstage
  | some id =>
      have hshown : self.view.sessionId = some id := h.ref.symm.trans href
      have hnext : self.next .onClose = { self with closes := self.closes ++ [id] } := by
        simp [next, href]
      rw [hnext]
      obtain ⟨hcalls, hreplies, ⟨own, hshow⟩ | hgone⟩ := hstage.of_not_waits fun hwaits =>
        absurd (hwaits.view.symm.trans hshown) (by simp)
      · obtain rfl : own = id := by
          rcases hshow.view with hview | ⟨hview, -⟩
          · exact Option.some.inj (hview.symm.trans hshown)
          · exact absurd (hview.symm.trans hshown) (by simp)
        refine stage_of_idle hcalls hreplies (.inl ⟨own, hshow.nextView, hshow.own, .inl hshown,
          fun closed hclosed => ?_, hshow.live⟩)
        have hclosed : closed ∈ self.closes ++ [own] ++ self.closedEvents := hclosed
        simp only [List.mem_append, List.mem_singleton] at hclosed
        rcases hclosed with (hold | hnew) | hold
        · exact hshow.ids closed (List.mem_append_left _ hold)
        · exact hnew
        · exact hshow.ids closed (List.mem_append_right _ hold)
      · exact stage_of_idle hcalls hreplies (.inr hgone)

/-- An item that is not the one taken stays. -/
theorem mem_eraseIdx_of_ne {α : Type} {l : List α} {k : Nat} {a b : α} (hb : l[k]? = some b)
    (ha : a ∈ l) (hne : a ≠ b) : a ∈ l.eraseIdx k := by
  obtain ⟨hk, rfl⟩ := List.getElem?_eq_some_iff.mp hb
  have hmem := (List.getElem_cons_eraseIdx_perm hk).mem_iff.mpr ha
  exact (List.mem_cons.mp hmem).resolve_left hne

/-- A close that is served takes the terminal, unless it fails before. -/
theorem OnShow.handleClose {id : SessionId} (hshow : self.OnShow id) {k : Nat}
    (hclose : self.closes[k]? = some id) (answer : CloseAnswer) :
    (({ self with closes := self.closes.eraseIdx k } : App).handleClose id answer).OnShow id := by
  have hview := hshow.view_of_closing (.inl (List.ne_nil_of_mem (List.mem_of_getElem? hclose)))
  have hids : ∀ closed ∈ self.closes.eraseIdx k ++ self.closedEvents, closed = id := by
    intro closed hclosed
    refine hshow.ids closed (List.mem_append.mpr ?_)
    exact (List.mem_append.mp hclosed).imp_left List.mem_of_mem_eraseIdx
  have hkilled : self.live.filter (· ≠ id) = [] := by
    rcases hshow.live with ⟨hlive, -⟩ | ⟨hlive, -⟩
    · rw [hlive]
      simp
    · rw [hlive]
      rfl
  rcases answer with - | ⟨- | -, msg⟩
  · refine ⟨hshow.nextView, hshow.own, .inl hview, fun closed hclosed => ?_,
      .inr ⟨hkilled, .inr (.inl ?_)⟩⟩
    · have hclosed : closed ∈ self.closes.eraseIdx k ++ (self.closedEvents ++ [id]) := hclosed
      rw [← List.append_assoc, List.mem_append, List.mem_singleton] at hclosed
      rcases hclosed with hold | hnew
      · exact hids closed hold
      · exact hnew
    · show self.closedEvents ++ [id] ≠ []
      simp
  · refine ⟨hshow.nextView, hshow.own, .inl hview, hids, ?_⟩
    have hreplies : ∀ r, r ∈ self.closeReplies ++ [.error msg] ↔
        r ∈ self.closeReplies ∨ r = .error msg := by simp
    rcases hshow.live with ⟨hlive, hevents, hok⟩ | ⟨hlive, hhalf | hevents | hok⟩
    · refine .inl ⟨hlive, hevents, fun hin => ?_⟩
      rcases (hreplies _).mp hin with hin | hin
      · exact hok hin
      · cases hin
    · exact .inr ⟨hlive, .inl hhalf⟩
    · exact .inr ⟨hlive, .inr (.inl hevents)⟩
    · exact .inr ⟨hlive, .inr (.inr ((hreplies _).mpr (.inl hok)))⟩
  · exact ⟨hshow.nextView, hshow.own, .inl hview, hids,
      .inr ⟨hkilled, .inl (List.mem_append_right _ (List.mem_singleton_self _))⟩⟩

theorem stage_closeSession (hstage : self.Stage) (k : Nat) (answer : CloseAnswer) :
    (self.next (.closeSession k answer)).Stage := by
  cases hclose : self.closes[k]? with
  | none => simpa [next, hclose] using hstage
  | some id =>
      have hmem : id ∈ self.closes := List.mem_of_getElem? hclose
      have hnext : self.next (.closeSession k answer) =
          ({ self with closes := self.closes.eraseIdx k } : App).handleClose id answer := by
        simp [next, hclose]
      rw [hnext]
      obtain ⟨hcalls, hreplies, ⟨own, hshow⟩ | ⟨hview, hlive⟩⟩ :=
        hstage.of_not_waits fun hwaits => List.ne_nil_of_mem hmem hwaits.closes
      · obtain rfl : id = own := hshow.ids id (List.mem_append_left _ hmem)
        have hshow' := hshow.handleClose hclose answer
        cases answer with
        | closed => exact stage_of_idle hcalls hreplies (.inl ⟨id, hshow'⟩)
        | failed killed msg => exact stage_of_idle hcalls hreplies (.inl ⟨id, hshow'⟩)
      · cases answer with
        | closed => exact .gone hcalls hreplies hview (by simp [App.handleClose, hlive])
        | failed killed msg => exact .gone hcalls hreplies hview (by simp [App.handleClose, hlive])

theorem stage_resolveClose (hstage : self.Stage) (k : Nat) :
    (self.next (.resolveClose k)).Stage := by
  cases hreply : self.closeReplies[k]? with
  | none => simpa [next, hreply] using hstage
  | some reply =>
      have hmem : reply ∈ self.closeReplies := List.mem_of_getElem? hreply
      obtain ⟨hcalls, hreplies, ⟨own, hshow⟩ | ⟨hview, hlive⟩⟩ :=
        hstage.of_not_waits fun hwaits => List.ne_nil_of_mem hmem hwaits.closeReplies
      · simp only [next, hreply]
        cases reply with
        | ok =>
            refine .gone hcalls hreplies ?_ ?_
            · rw [nextView_enqueue]
              rfl
            · rcases hshow.live with ⟨-, -, hok⟩ | ⟨hlive, -⟩
              · exact absurd hmem hok
              · exact hlive
        | error msg =>
            have hview := hshow.view_of_closing (.inr (.inr (List.ne_nil_of_mem hmem)))
            refine .shown own hcalls hreplies ⟨?_, hshow.own, .inl hview, hshow.ids, ?_⟩
            · rw [nextView_enqueue]
              exact hshow.nextView
            · rcases hshow.live with ⟨hlive, hevents, hok⟩ | ⟨hlive, hhalf | hevents | hok⟩
              · exact .inl ⟨hlive, hevents, fun hin => hok (List.mem_of_mem_eraseIdx hin)⟩
              · exact .inr ⟨hlive, .inl hhalf⟩
              · exact .inr ⟨hlive, .inr (.inl hevents)⟩
              · exact .inr ⟨hlive, .inr (.inr (mem_eraseIdx_of_ne hreply hok (by simp)))⟩
      · simp only [next, hreply]
        refine .gone hcalls hreplies ?_ hlive
        rw [nextView_enqueue]
        cases reply with
        | ok => rfl
        | error msg => exact hview

theorem stage_sessionClosed (h : self.Sound) (hstage : self.Stage) (k : Nat) :
    (self.next (.sessionClosed k)).Stage := by
  cases hevent : self.closedEvents[k]? with
  | none => simpa [next, hevent] using hstage
  | some id =>
      have hmem : id ∈ self.closedEvents := List.mem_of_getElem? hevent
      obtain ⟨hcalls, hreplies, ⟨own, hshow⟩ | ⟨hview, hlive⟩⟩ :=
        hstage.of_not_waits fun hwaits => List.ne_nil_of_mem hmem hwaits.closedEvents
      · obtain rfl : id = own := hshow.ids id (List.mem_append_right _ hmem)
        have hview := hshow.view_of_closing (.inr (.inl (List.ne_nil_of_mem hmem)))
        have href : some id = self.sessionIdRef := (h.ref.trans hview).symm
        simp only [next, hevent, if_pos href]
        refine .gone hcalls hreplies ?_ ?_
        · rw [nextView_enqueue]
          rfl
        · rcases hshow.live with ⟨-, hevents, -⟩ | ⟨hlive, -⟩
          · exact absurd hevents (List.ne_nil_of_mem hmem)
          · exact hlive
      · simp only [next, hevent]
        refine .gone hcalls hreplies ?_ hlive
        rw [nextView_enqueue]
        split
        · rfl
        · exact hview

theorem stage_statusChanged (h : self.Sound) (hstage : self.Stage) (payload : StatusChanged) :
    (self.next (.statusChanged payload)).Stage := by
  by_cases href : some payload.sessionId = self.sessionIdRef
  · have hview : self.view.sessionId = some payload.sessionId := h.ref.symm.trans href.symm
    have hnext : self.next (.statusChanged payload) =
        self.enqueue [.hook (.setStatus payload.status), .hook (.adopt payload)] := if_pos href
    have hsame : (self.enqueue [.hook (.setStatus payload.status),
        .hook (.adopt payload)]).nextView.sessionId = self.nextView.sessionId := by
      rw [nextView_enqueue]
      exact sessionId_adopt _ payload
    rw [hnext]
    obtain ⟨hcalls, hreplies, ⟨own, hshow⟩ | ⟨hgone, hlive⟩⟩ :=
      hstage.of_not_waits fun hwaits => absurd (hwaits.view.symm.trans hview) (by simp)
    · exact .shown own hcalls hreplies { hshow with nextView := hsame.trans hshow.nextView }
    · exact .gone hcalls hreplies (hsame.trans hgone) hlive
  · simpa [next, href] using hstage

theorem stage_render (hstage : self.Stage) : (self.next .render).Stage := by
  have hwaits' : self.Waits → (self.next .render).Waits := fun hwaits =>
    ⟨hwaits.nextView, hwaits.nextView, hwaits.closes, hwaits.closedEvents, hwaits.closeReplies⟩
  cases hstage with
  | called call hcalls hreplies hwaits hchannel hlive =>
      exact .called call hcalls hreplies (hwaits' hwaits) hchannel hlive
  | refused call msg hcalls hreplies hwaits hlive =>
      exact .refused call msg hcalls hreplies (hwaits' hwaits) hlive
  | spawned call id hcalls hreplies hwaits hown hlive =>
      exact .spawned call id hcalls hreplies (hwaits' hwaits) hown hlive
  | shown id hcalls hreplies hshow =>
      exact .shown id hcalls hreplies { hshow with view := .inl hshow.nextView }
  | gone hcalls hreplies hview hlive => exact .gone hcalls hreplies hview hlive

theorem stage_next (h : self.Sound) (hstage : self.Stage) {c : AppStep} (halone : self.Alone c) :
    (self.next c).Stage := by
  cases c with
  | onSpawn agent title => exact stage_onSpawn hstage agent title halone
  | spawnSession k answer => exact stage_spawnSession hstage k answer
  | resolveSpawn k => exact stage_resolveSpawn hstage k
  | onClose => exact stage_onClose h hstage
  | closeSession k answer => exact stage_closeSession hstage k answer
  | resolveClose k => exact stage_resolveClose hstage k
  | sessionClosed k => exact stage_sessionClosed h hstage k
  | statusChanged payload => exact stage_statusChanged h hstage payload
  | render => exact stage_render hstage

/-- What a step leaves on show stays with its channel: the list of the spawned sessions only
    grows, and a channel is minted when nothing is on show. -/
theorem own_next (hstage : self.Stage)
    (hown : ∀ id, self.view.sessionId = some id → (id, self.outputChannelRef) ∈ self.spawned)
    (c : AppStep) : ∀ id, (self.next c).view.sessionId = some id →
      (id, (self.next c).outputChannelRef) ∈ (self.next c).spawned := by
  cases c with
  | render =>
      intro id hid
      cases hstage with
      | called _ _ _ hwaits => exact absurd (hwaits.nextView.symm.trans hid) (by simp)
      | refused _ _ _ _ hwaits => exact absurd (hwaits.nextView.symm.trans hid) (by simp)
      | spawned _ _ _ _ hwaits => exact absurd (hwaits.nextView.symm.trans hid) (by simp)
      | shown own _ _ hshow =>
          obtain rfl : own = id := Option.some.inj (hshow.nextView.symm.trans hid)
          exact hshow.own
      | gone _ _ hview => exact absurd (hview.symm.trans hid) (by simp)
  | onSpawn agent title =>
      cases hdialog : self.view.session with
      | some session => simpa [next, hdialog] using hown
      | none =>
          have hnone : self.view.sessionId = none := by rw [View.sessionId, hdialog]; rfl
          intro id hid
          have hview : (self.next (.onSpawn agent title)).view = self.view := by
            simp [next, hdialog, enqueue]
          rw [hview] at hid
          exact absurd (hnone.symm.trans hid) (by simp)
  | spawnSession k answer =>
      cases hcall : self.calls[k]? with
      | none => simpa [next, hcall] using hown
      | some call =>
          intro id hid
          simp only [next, hcall] at hid ⊢
          cases answer with
          | spawned => exact List.mem_append_left _ (hown id hid)
          | failed minted msg => exact hown id hid
  | resolveSpawn k =>
      simp only [next]
      split <;> exact hown
  | onClose =>
      simp only [next]
      split <;> exact hown
  | closeSession k answer =>
      simp only [next]
      split
      · exact hown
      · cases answer <;> exact hown
  | resolveClose k =>
      simp only [next]
      split <;> exact hown
  | sessionClosed k =>
      simp only [next]
      split <;> exact hown
  | statusChanged payload =>
      simp only [next]
      split <;> exact hown

/-- The stage of a run in which each spawn is clicked when nothing is under way. -/
theorem stage_run {steps : List AppStep} (halone : Machine.Along next Alone start steps) :
    (Machine.run next start steps).Stage ∧
      ∀ id, (Machine.run next start steps).view.sessionId = some id →
        (id, (Machine.run next start steps).outputChannelRef) ∈
          (Machine.run next start steps).spawned := by
  refine Machine.invariant (P := Alone)
    (I := fun _ app => app.Stage ∧ ∀ id, app.view.sessionId = some id →
      (id, app.outputChannelRef) ∈ app.spawned) ?_ ?_ halone
  · refine ⟨.gone rfl rfl rfl rfl, fun id hid => ?_⟩
    cases hid
  · rintro steps c hc ⟨hstage, hown⟩
    exact ⟨stage_next (sound_run steps) hstage hc, own_next hstage hown c⟩

/-- A user who spawns a session when nothing is under way has one terminal at most, and
    every session terminal shows the output of the session that its keys go to.  Once
    nothing is under way again, the session on show is the one that is there, unless a
    close of it failed after the kill; and when none is on show, none is there. -/
theorem sessions_law (steps : List AppStep) (halone : Machine.Along next Alone start steps) :
    let self := Machine.run next start steps
    self.live.length ≤ 1 ∧
      (∀ id channel, self.terminal = some (id, channel) → (id, channel) ∈ self.spawned) ∧
      (self.Quiet →
        (∃ id channel, self.terminal = some (id, channel) ∧
          (self.live = [id] ∨ self.live = [] ∧ id ∈ self.halfClosed)) ∨
        self.terminal = none ∧ self.live = []) := by
  intro self
  obtain ⟨hstage, hown⟩ := stage_run halone
  have h : self.Sound := sound_run steps
  refine ⟨?_, fun id channel hterminal => ?_, fun hquiet => ?_⟩
  · exact hstage.length_live
  · obtain ⟨hshown, rfl⟩ := (terminal_eq_some h).mp hterminal
    exact hown id hshown
  · have hview : self.nextView = self.view := by rw [nextView, hquiet.pending]; rfl
    cases hstage with
    | called call hcalls => rw [hquiet.calls] at hcalls; cases hcalls
    | refused call msg _ hreplies => rw [hquiet.replies] at hreplies; cases hreplies
    | spawned call id _ hreplies => rw [hquiet.replies] at hreplies; cases hreplies
    | gone _ _ hnone hlive =>
        refine .inr ⟨?_, hlive⟩
        rw [hview, View.sessionId, Option.map_eq_none_iff] at hnone
        rw [h.terminal, hnone]
        rfl
    | shown id _ _ hshow =>
        have hshown : self.view.sessionId = some id := hview ▸ hshow.nextView
        refine .inl ⟨id, self.outputChannelRef, (terminal_eq_some h).mpr ⟨hshown, rfl⟩, ?_⟩
        rcases hshow.live with ⟨hlive, -⟩ | ⟨hlive, hhalf | hevents | hok⟩
        · exact .inl hlive
        · exact .inr ⟨hlive, hhalf⟩
        · exact absurd hquiet.closedEvents hevents
        · rw [hquiet.closeReplies] at hok
          cases hok

/-- A session is spawned, shown and closed, and the next one is asked for. -/
def spawnAndClose : List AppStep :=
  [.onSpawn ⟨"generic", some ["sh"], .generic⟩ "sh", .spawnSession 0 .spawned, .resolveSpawn 0,
    .render, .onClose, .closeSession 0 .closed, .sessionClosed 0, .resolveClose 0, .render,
    .onSpawn ⟨"generic", some ["sh"], .generic⟩ "sh"]

theorem sessions_law_spawnAndClose :
    (Machine.run next start spawnAndClose).live.length ≤ 1 ∧
      (Machine.run next start spawnAndClose).spawned = [("0", 1)] := by
  refine ⟨(sessions_law spawnAndClose ?_).1, rfl⟩
  simp only [spawnAndClose, Machine.along_cons]
  exact ⟨⟨rfl, rfl, rfl, rfl, rfl, rfl⟩, trivial, trivial, trivial, trivial, trivial, trivial,
    trivial, trivial, ⟨rfl, rfl, rfl, rfl, rfl, rfl⟩, Machine.along_nil⟩

/-- Two clicks before the first spawn is answered: the session that is shown last has the
    terminal of the other, and nothing is left to close that one with. -/
example :
    let steps : List AppStep := [.onSpawn ⟨"generic", some ["sh"], .generic⟩ "a",
      .onSpawn ⟨"generic", some ["sh"], .generic⟩ "b", .spawnSession 0 .spawned,
      .spawnSession 0 .spawned, .resolveSpawn 1, .resolveSpawn 0, .render]
    (Machine.run next start steps).terminal = some ("0", 2) ∧
      (Machine.run next start steps).spawned = [("0", 1), ("1", 2)] ∧
      (Machine.run next start steps).live = ["0", "1"] := by
  decide

end App

end Spectty.Ui
