/-
  Spectty.Ui.UseTerminal

  The terminal hook of the UI over the registry of the backend.

  A mounted terminal asks for a spawn, learns the id when the reply comes, and asks for a
  kill when it is unmounted; one that is unmounted before its id comes asks for the kill
  then.  The requests in flight reach the backend in any order.  `terminals_law` says
  that a terminal of the backend belongs to one mount at most, and that none is left
  behind.
-/

import Spectty.Terminals.Registry
import Mathlib.Algebra.Order.Group.Multiset
import Mathlib.Data.List.Perm.Basic
import Mathlib.Tactic.Abel

namespace Spectty.Ui

open Spectty.Commands (PtySpawnIo)
open Spectty.Lib
open Spectty.Terminals

-- ============================================================================
-- The hook and the requests
-- ============================================================================

/-- A mount of the hook. -/
structure UseTerminal where
  disposed : Bool
  ptyId : Option String
deriving DecidableEq, Repr

/-- A command that the UI has invoked; a spawn is to resolve for one mount. -/
inductive PtyRequest where
  | spawnPty (mount : Nat)
  | sendInput (id : String) (data : List UInt8)
  | resizePty (id : String) (cols rows : UInt16)
  | killPty (id : String)
deriving DecidableEq, Repr

/-- All mounts, the requests and the replies to spawns in flight, and the backend.  `stuck`
    are the terminals whose kill found the lock poisoned. -/
structure TerminalUi where
  mounts : List UseTerminal
  requests : List PtyRequest
  replies : List (Nat × Except String String)
  registry : PtyRegistry
  stuck : List String

/-- What the outside answers while a request is served. -/
structure ServeIo where
  spawn : PtySpawnIo
  ptysPoisoned : Bool
  result : Except String Unit

/-- A step: the UI mounts a terminal, has input or a new size for it, or unmounts it; the
    backend serves one of the requests; or one of the spawns resolves. -/
inductive TerminalStep where
  | mount
  | onData (mount : Nat) (data : List UInt8)
  | onResize (mount : Nat) (cols rows : UInt16)
  | unmount (mount : Nat)
  | serve (k : Nat) (io : ServeIo)
  | resolve (k : Nat)

namespace TerminalUi

def start : TerminalUi where
  mounts := []
  requests := []
  replies := []
  registry := .start
  stuck := []

/-- Invoke a command. -/
def invoke (self : TerminalUi) (requests : List PtyRequest) : TerminalUi :=
  { self with requests := self.requests ++ requests }

/-- The backend serves a request. -/
def handle (self : TerminalUi) (io : ServeIo) : PtyRequest → TerminalUi
  | .spawnPty mount =>
      let (reply, registry) := self.registry.ptySpawn io.spawn
      { self with registry, replies := self.replies ++ [(mount, reply)] }
  | .sendInput id data =>
      { self with registry := (self.registry.sendInput id data io.ptysPoisoned io.result).2 }
  | .resizePty id cols rows =>
      { self with
        registry := (self.registry.ptyResize id cols rows io.ptysPoisoned io.result).2 }
  | .killPty id =>
      { self with
        registry := (self.registry.ptyKill id io.ptysPoisoned).2
        stuck := if io.ptysPoisoned then self.stuck ++ [id] else self.stuck }

/-- A spawn resolves: its mount takes the id, or has the terminal killed if it has been
    unmounted meanwhile. -/
def settle (self : TerminalUi) (mount : Nat) : Except String String → TerminalUi
  | .error _ => self
  | .ok id =>
      match self.mounts[mount]? with
      | none => self
      | some hook =>
          if hook.disposed then self.invoke [.killPty id]
          else { self with mounts := self.mounts.set mount { hook with ptyId := some id } }

def next (self : TerminalUi) : TerminalStep → TerminalUi
  | .mount =>
      let mounts := self.mounts ++ [{ disposed := false, ptyId := none }]
      { self with mounts }.invoke [.spawnPty self.mounts.length]
  | .onData mount data =>
      match self.mounts[mount]? with
      | some { disposed := false, ptyId := some id } => self.invoke [.sendInput id data]
      | _ => self
  | .onResize mount cols rows =>
      match self.mounts[mount]? with
      | some { disposed := false, ptyId := some id } => self.invoke [.resizePty id cols rows]
      | _ => self
  | .unmount mount =>
      match self.mounts[mount]? with
      | some { disposed := false, ptyId } =>
          let mounts := self.mounts.set mount { disposed := true, ptyId }
          { self with mounts }.invoke (ptyId.toList.map .killPty)
      | _ => self
  | .serve k io =>
      match self.requests[k]? with
      | none => self
      | some request => { self with requests := self.requests.eraseIdx k }.handle io request
  | .resolve k =>
      match self.replies[k]? with
      | none => self
      | some (mount, reply) =>
          { self with replies := self.replies.eraseIdx k }.settle mount reply

end TerminalUi

-- ============================================================================
-- Lists with one place changed
-- ============================================================================

section

variable {α β : Type} {l : List α} {i : Nat} {a : α}

/-- The item at a place, apart from the others. -/
theorem filterMap_of_getElem? (f : α → Option β) (h : l[i]? = some a) :
    (l.filterMap f : Multiset β) = (f a).toList + (l.eraseIdx i).filterMap f := by
  obtain ⟨hi, rfl⟩ := List.getElem?_eq_some_iff.mp h
  have hperm := (List.getElem_cons_eraseIdx_perm hi).filterMap f
  rw [Multiset.coe_add, ← Multiset.coe_eq_coe.mpr hperm, List.filterMap_cons]
  cases f l[i] <;> rfl

/-- An item added at the end. -/
theorem filterMap_concat (f : α → Option β) (l : List α) (a : α) :
    ((l ++ [a]).filterMap f : Multiset β) = l.filterMap f + (f a).toList := by
  rw [Multiset.coe_add, List.filterMap_append, List.filterMap_cons, List.filterMap_nil]
  cases f a <;> rfl

/-- Another item put there. -/
theorem filterMap_set (f : α → Option β) (h : l[i]? = some a) (b : α) :
    ((l.set i b).filterMap f : Multiset β) = (f b).toList + (l.eraseIdx i).filterMap f := by
  obtain ⟨hi, -⟩ := List.getElem?_eq_some_iff.mp h
  have hperm := (List.set_perm_cons_eraseIdx hi b).filterMap f
  rw [Multiset.coe_add, Multiset.coe_eq_coe.mpr hperm, List.filterMap_cons]
  cases f b <;> rfl

end

-- ============================================================================
-- Who a terminal belongs to
-- ============================================================================

/-- The terminal of a mount. -/
def UseTerminal.held (self : UseTerminal) : Option String :=
  if self.disposed then none else self.ptyId

/-- The terminal that a request is to kill. -/
def PtyRequest.killed : PtyRequest → Option String
  | .killPty id => some id
  | _ => none

/-- The mount that a request spawns a terminal for. -/
def PtyRequest.spawned : PtyRequest → Option Nat
  | .spawnPty mount => some mount
  | _ => none

/-- The terminal that a reply brings. -/
def replied : Nat × Except String String → Option String
  | (_, .ok id) => some id
  | (_, .error _) => none

namespace TerminalUi

/-- The terminals that a mount has, a reply brings, a kill is under way for, or no kill
    could be made of. -/
def tokens (self : TerminalUi) : Multiset String :=
  (self.mounts.filterMap UseTerminal.held : Multiset String) +
    self.requests.filterMap PtyRequest.killed + self.replies.filterMap replied + self.stuck

/-- The mounts that a spawn is under way for. -/
def waiting (self : TerminalUi) : Multiset Nat :=
  (self.requests.filterMap PtyRequest.spawned : Multiset Nat) +
    self.replies.filterMap fun reply => some reply.1

/-- Every terminal of the backend belongs to one place, and no mount with a terminal waits
    for another. -/
structure Sound (ui : TerminalUi) : Prop where
  registry : ui.registry.Sound
  nodup : ui.tokens.Nodup
  registered : ∀ id, (ui.registry.ptys id).isSome ↔ id ∈ ui.tokens
  waiting_nodup : ui.waiting.Nodup
  unassigned : ∀ mount ∈ ui.waiting, ∃ hook, ui.mounts[mount]? = some hook ∧ hook.ptyId = none

theorem sound_start : start.Sound where
  registry := PtyRegistry.sound_start
  nodup := Multiset.nodup_zero
  registered := by simp [start, PtyRegistry.start, tokens]
  waiting_nodup := Multiset.nodup_zero
  unassigned := by simp [start, waiting]

variable {self : TerminalUi}

-- ============================================================================
-- The UI's own steps
-- ============================================================================

/-- Commands that neither spawn nor kill. -/
theorem sound_invoke (h : self.Sound) {requests : List PtyRequest}
    (hkilled : requests.filterMap PtyRequest.killed = [])
    (hspawned : requests.filterMap PtyRequest.spawned = []) : (self.invoke requests).Sound := by
  have htokens : (self.invoke requests).tokens = self.tokens := by
    simp [tokens, invoke, hkilled]
  have hwaiting : (self.invoke requests).waiting = self.waiting := by
    simp [waiting, invoke, hspawned]
  exact ⟨h.registry, htokens ▸ h.nodup, htokens ▸ h.registered, hwaiting ▸ h.waiting_nodup,
    hwaiting ▸ h.unassigned⟩

theorem sound_mount (h : self.Sound) : (self.next .mount).Sound := by
  have htokens : (self.next .mount).tokens = self.tokens := by
    have hheld : [({ disposed := false, ptyId := none } : UseTerminal)].filterMap
        UseTerminal.held = [] := rfl
    have hkilled : [PtyRequest.spawnPty self.mounts.length].filterMap PtyRequest.killed = [] := rfl
    simp only [tokens, next, invoke, List.filterMap_append, hheld, hkilled, List.append_nil]
  have hwaiting : (self.next .mount).waiting = self.mounts.length ::ₘ self.waiting := by
    simp only [waiting, next, invoke, List.filterMap_append, ← Multiset.coe_add]
    show _ + ({self.mounts.length} : Multiset Nat) + _ = _
    rw [add_right_comm, ← Multiset.singleton_add, add_comm]
  refine ⟨h.registry, htokens ▸ h.nodup, htokens ▸ h.registered, ?_, ?_⟩
  · rw [hwaiting, Multiset.nodup_cons]
    refine ⟨fun hin => ?_, h.waiting_nodup⟩
    obtain ⟨hook, hhook, -⟩ := h.unassigned _ hin
    simp at hhook
  · intro mount hmount
    rw [hwaiting, Multiset.mem_cons] at hmount
    rcases hmount with rfl | hold
    · exact ⟨{ disposed := false, ptyId := none }, by simp [next, invoke], rfl⟩
    · obtain ⟨hook, hhook, hnone⟩ := h.unassigned mount hold
      refine ⟨hook, ?_, hnone⟩
      have hlt := (List.getElem?_eq_some_iff.mp hhook).1
      show (self.mounts ++ [_])[mount]? = some hook
      rw [List.getElem?_append_left hlt, hhook]

/-- A mount that goes hands its terminal over to a kill. -/
theorem sound_unmount (h : self.Sound) (mount : Nat) : (self.next (.unmount mount)).Sound := by
  rcases hmount : self.mounts[mount]? with _ | ⟨_ | _, ptyId⟩
  · simpa [next, hmount] using h
  · have hnext : self.next (.unmount mount) =
        { self with
          mounts := self.mounts.set mount { disposed := true, ptyId }
          requests := self.requests ++ ptyId.toList.map .killPty } := by
      simp [next, invoke, hmount]
    have hkilled : (ptyId.toList.map PtyRequest.killPty).filterMap PtyRequest.killed =
        ptyId.toList := by
      cases ptyId <;> rfl
    have hspawned : (ptyId.toList.map PtyRequest.killPty).filterMap PtyRequest.spawned = [] := by
      cases ptyId <;> rfl
    have htokens : (self.next (.unmount mount)).tokens = self.tokens := by
      rw [hnext]
      simp only [tokens, List.filterMap_append, hkilled, ← Multiset.coe_add]
      rw [filterMap_set _ hmount, filterMap_of_getElem? UseTerminal.held hmount]
      show (([] : List String) : Multiset String) + _ + (_ + ↑ptyId.toList) + _ + _ =
        ↑ptyId.toList + _ + _ + _ + _
      rw [Multiset.coe_nil]
      abel
    have hwaiting : (self.next (.unmount mount)).waiting = self.waiting := by
      rw [hnext]
      simp only [waiting, List.filterMap_append, hspawned, List.append_nil]
    refine ⟨?_, htokens ▸ h.nodup, ?_, hwaiting ▸ h.waiting_nodup, ?_⟩
    · rw [hnext]
      exact h.registry
    · rw [htokens, hnext]
      exact h.registered
    · intro other hother
      rw [hwaiting] at hother
      obtain ⟨hook, hhook, hnone⟩ := h.unassigned other hother
      rw [hnext]
      by_cases hsame : mount = other
      · subst hsame
        obtain rfl : hook = { disposed := false, ptyId } :=
          Option.some.inj (hhook.symm.trans hmount)
        have hlt := (List.getElem?_eq_some_iff.mp hmount).1
        exact ⟨{ disposed := true, ptyId }, by simp [hlt], hnone⟩
      · exact ⟨hook, by simp [List.getElem?_set_ne hsame, hhook], hnone⟩
  · simpa [next, hmount] using h

-- ============================================================================
-- What comes back from the backend
-- ============================================================================

section

variable {k mount : Nat} {reply : Except String String}
  (hreply : self.replies[k]? = some (mount, reply))

include hreply

/-- The terminal that a reply brings, apart from the others. -/
theorem tokens_of_reply : self.tokens = (replied (mount, reply)).toList +
    ({ self with replies := self.replies.eraseIdx k } : TerminalUi).tokens := by
  simp only [tokens]
  rw [filterMap_of_getElem? replied hreply]
  abel

/-- The mount that a reply is for, apart from the others. -/
theorem waiting_of_reply : self.waiting =
    mount ::ₘ ({ self with replies := self.replies.eraseIdx k } : TerminalUi).waiting := by
  simp only [waiting]
  rw [filterMap_of_getElem? (fun reply => some reply.1) hreply, ← Multiset.singleton_add]
  show _ + (({mount} : Multiset Nat) + _) = _
  abel

/-- The mounts that still wait do so without a terminal, and the mount of the reply is not
    one of them. -/
theorem waiting_after_reply (h : self.Sound) {other : Nat}
    (hother : other ∈ ({ self with replies := self.replies.eraseIdx k } : TerminalUi).waiting) :
    mount ≠ other ∧ ∃ hook, self.mounts[other]? = some hook ∧ hook.ptyId = none := by
  have hwaiting := waiting_of_reply hreply
  obtain ⟨hnot, -⟩ := Multiset.nodup_cons.mp (hwaiting ▸ h.waiting_nodup)
  refine ⟨fun hsame => ?_, h.unassigned other (hwaiting ▸ Multiset.mem_cons_of_mem hother)⟩
  subst hsame
  exact hnot hother

theorem waiting_nodup_of_reply (h : self.Sound) :
    ({ self with replies := self.replies.eraseIdx k } : TerminalUi).waiting.Nodup :=
  (Multiset.nodup_cons.mp (waiting_of_reply hreply ▸ h.waiting_nodup)).2

end

/-- The mount has gone: its terminal is to be killed. -/
theorem sound_settle_disposed (h : self.Sound) {k mount : Nat} {id : String}
    (hreply : self.replies[k]? = some (mount, .ok id)) :
    ({ self with
      replies := self.replies.eraseIdx k
      requests := self.requests ++ [.killPty id] } : TerminalUi).Sound := by
  have hsame : self.tokens =
      ({ self with
        replies := self.replies.eraseIdx k
        requests := self.requests ++ [.killPty id] } : TerminalUi).tokens := by
    rw [tokens_of_reply hreply]
    simp only [tokens, List.filterMap_append, ← Multiset.coe_add]
    show (([id] : List String) : Multiset String) + _ = _ + (_ + ↑[id]) + _ + _
    abel
  have hstill : ({ self with replies := self.replies.eraseIdx k } : TerminalUi).waiting =
      ({ self with
        replies := self.replies.eraseIdx k
        requests := self.requests ++ [.killPty id] } : TerminalUi).waiting := by
    have hspawned : [PtyRequest.killPty id].filterMap PtyRequest.spawned = [] := rfl
    simp only [waiting, List.filterMap_append, hspawned, List.append_nil]
  exact ⟨h.registry, hsame ▸ h.nodup, hsame ▸ h.registered,
    hstill ▸ waiting_nodup_of_reply hreply h,
    fun other hother => (waiting_after_reply hreply h (hstill ▸ hother)).2⟩

/-- The mount is there: it takes the terminal. -/
theorem sound_settle_mounted (h : self.Sound) {k mount : Nat} {id : String}
    (hreply : self.replies[k]? = some (mount, .ok id))
    (hhook : self.mounts[mount]? = some { disposed := false, ptyId := none }) :
    ({ self with
      replies := self.replies.eraseIdx k
      mounts := self.mounts.set mount { disposed := false, ptyId := some id } } :
        TerminalUi).Sound := by
  have hsame : self.tokens =
      ({ self with
        replies := self.replies.eraseIdx k
        mounts := self.mounts.set mount { disposed := false, ptyId := some id } } :
          TerminalUi).tokens := by
    rw [tokens_of_reply hreply]
    simp only [tokens]
    rw [filterMap_set _ hhook, filterMap_of_getElem? UseTerminal.held hhook]
    show ↑[id] + ((([] : List String) : Multiset String) + _ + _ + _ + _) = ↑[id] + _ + _ + _ + _
    rw [Multiset.coe_nil]
    abel
  refine ⟨h.registry, hsame ▸ h.nodup, hsame ▸ h.registered, waiting_nodup_of_reply hreply h,
    fun other hother => ?_⟩
  obtain ⟨hne, hook, hbefore, hnone⟩ := waiting_after_reply hreply h hother
  exact ⟨hook, (List.getElem?_set_ne hne).trans hbefore, hnone⟩

/-- A spawn resolves: its terminal goes to its mount, or to a kill. -/
theorem sound_resolve (h : self.Sound) (k : Nat) : (self.next (.resolve k)).Sound := by
  rcases hreply : self.replies[k]? with _ | ⟨mount, reply⟩
  · simpa [next, hreply] using h
  have hnext : self.next (.resolve k) =
      ({ self with replies := self.replies.eraseIdx k } : TerminalUi).settle mount reply := by
    simp [next, hreply]
  rw [hnext]
  cases reply with
  | error e =>
      have hsame : self.tokens =
          ({ self with replies := self.replies.eraseIdx k } : TerminalUi).tokens :=
        (tokens_of_reply hreply).trans (Multiset.zero_add _)
      exact ⟨h.registry, hsame ▸ h.nodup, hsame ▸ h.registered, waiting_nodup_of_reply hreply h,
        fun other hother => (waiting_after_reply hreply h hother).2⟩
  | ok id =>
      obtain ⟨⟨disposed, ptyId⟩, hhook, hnone⟩ := h.unassigned mount
        (waiting_of_reply hreply ▸ Multiset.mem_cons_self mount _)
      obtain rfl : ptyId = none := hnone
      cases disposed with
      | true =>
          simp only [settle, hhook, invoke, if_true]
          exact sound_settle_disposed h hreply
      | false =>
          simp only [settle, hhook, Bool.false_eq_true, if_false]
          exact sound_settle_mounted h hreply hhook

-- ============================================================================
-- What the backend serves
-- ============================================================================

section

variable {k : Nat}

/-- The terminal that a request is to kill, apart from the others. -/
theorem tokens_of_request {request : PtyRequest} (hrequest : self.requests[k]? = some request) :
    self.tokens = request.killed.toList +
      ({ self with requests := self.requests.eraseIdx k } : TerminalUi).tokens := by
  simp only [tokens]
  rw [filterMap_of_getElem? PtyRequest.killed hrequest]
  abel

/-- The mount that a request is to spawn for, apart from the others. -/
theorem waiting_of_request {request : PtyRequest} (hrequest : self.requests[k]? = some request) :
    self.waiting = request.spawned.toList +
      ({ self with requests := self.requests.eraseIdx k } : TerminalUi).waiting := by
  simp only [waiting]
  rw [filterMap_of_getElem? PtyRequest.spawned hrequest]
  abel

/-- Input and a new size leave the terminals as they are. -/
theorem sound_served_use (h : self.Sound) {request : PtyRequest}
    (hrequest : self.requests[k]? = some request) (hkilled : request.killed = none)
    (hspawned : request.spawned = none) {registry : PtyRegistry} (hregistry : registry.Sound)
    (hptys : registry.ptys = self.registry.ptys) :
    ({ self with requests := self.requests.eraseIdx k, registry } : TerminalUi).Sound := by
  have htokens := tokens_of_request hrequest
  have hwaiting := waiting_of_request hrequest
  rw [hkilled] at htokens
  rw [hspawned] at hwaiting
  have hsame : self.tokens =
      ({ self with requests := self.requests.eraseIdx k, registry } : TerminalUi).tokens :=
    htokens.trans (Multiset.zero_add _)
  have hstill : self.waiting =
      ({ self with requests := self.requests.eraseIdx k, registry } : TerminalUi).waiting :=
    hwaiting.trans (Multiset.zero_add _)
  refine ⟨hregistry, hsame ▸ h.nodup, fun id => ?_, hstill ▸ h.waiting_nodup,
    hstill ▸ h.unassigned⟩
  rw [← hsame, hptys]
  exact h.registered id

/-- A terminal that is spawned is on its way to the mount that asked for it. -/
theorem sound_served_spawn (h : self.Sound) {mount : Nat}
    (hrequest : self.requests[k]? = some (.spawnPty mount)) (io : PtySpawnIo) :
    ({ self with
      requests := self.requests.eraseIdx k
      replies := self.replies ++ [(mount, (self.registry.ptySpawn io).1)]
      registry := (self.registry.ptySpawn io).2 } : TerminalUi).Sound := by
  have hsound : (self.registry.ptySpawn io).2.Sound := h.registry.exec (.ptySpawn io)
  have hcases := PtyRegistry.ptySpawn_cases h.registry io
  generalize self.registry.ptySpawn io = spawned at hsound hcases ⊢
  obtain ⟨reply, registry⟩ := spawned
  have hstill : self.waiting =
      ({ self with
        requests := self.requests.eraseIdx k
        replies := self.replies ++ [(mount, reply)]
        registry } : TerminalUi).waiting := by
    rw [waiting_of_request hrequest]
    simp only [waiting]
    rw [filterMap_concat]
    show (([mount] : List Nat) : Multiset Nat) + _ = _ + (_ + ↑[mount])
    abel
  have hafter : ({ self with
        requests := self.requests.eraseIdx k
        replies := self.replies ++ [(mount, reply)]
        registry } : TerminalUi).tokens = (replied (mount, reply)).toList + self.tokens := by
    rw [tokens_of_request hrequest]
    simp only [tokens]
    rw [filterMap_concat]
    show _ = _ + (((([] : List String) : Multiset String)) + _)
    rw [Multiset.coe_nil]
    abel
  refine ⟨hsound, ?_, fun other => ?_, hstill ▸ h.waiting_nodup, hstill ▸ h.unassigned⟩
  · rw [hafter]
    rcases hcases with ⟨e, rfl, -⟩ | ⟨id, rfl, hnew, -⟩
    · show (↑([] : List String) + _ : Multiset String).Nodup
      rw [Multiset.coe_nil, zero_add]
      exact h.nodup
    · show (↑[id] + _ : Multiset String).Nodup
      rw [Multiset.coe_singleton, Multiset.singleton_add, Multiset.nodup_cons]
      refine ⟨fun hin => ?_, h.nodup⟩
      have hsome := (h.registered id).mpr hin
      rw [show self.registry.ptys id = none from hnew] at hsome
      cases hsome
  · rw [hafter]
    rcases hcases with ⟨e, rfl, hptys⟩ | ⟨id, rfl, -, hptys⟩
    · rw [show registry.ptys = self.registry.ptys from hptys]
      show _ ↔ other ∈ (↑([] : List String) + _ : Multiset String)
      rw [Multiset.coe_nil, zero_add]
      exact h.registered other
    · rw [show registry.ptys = _ from hptys]
      show _ ↔ other ∈ (↑[id] + _ : Multiset String)
      rw [Multiset.coe_singleton, Multiset.singleton_add, Multiset.mem_cons,
        ← h.registered other]
      by_cases hsame : other = id
      · simp [hsame]
      · simp [hsame]

section

variable {id : String} (hrequest : self.requests[k]? = some (.killPty id))

include hrequest

theorem tokens_of_kill : self.tokens =
    id ::ₘ ({ self with requests := self.requests.eraseIdx k } : TerminalUi).tokens :=
  (tokens_of_request hrequest).trans (Multiset.singleton_add id _)

theorem waiting_of_kill : self.waiting =
    ({ self with requests := self.requests.eraseIdx k } : TerminalUi).waiting :=
  (waiting_of_request hrequest).trans (Multiset.zero_add _)

/-- A terminal that is killed is gone. -/
theorem sound_served_kill (h : self.Sound) :
    ({ self with
      requests := self.requests.eraseIdx k
      registry := (self.registry.ptyKill id false).2 } : TerminalUi).Sound := by
  have hmoved := tokens_of_kill hrequest
  have hstill := waiting_of_kill hrequest
  obtain ⟨hnot, hnodup⟩ := Multiset.nodup_cons.mp (hmoved ▸ h.nodup)
  have hptys := self.registry.ptys_ptyKill id false
  rw [if_neg Bool.false_ne_true] at hptys
  refine ⟨h.registry.exec (.ptyKill id false), hnodup, fun other => ?_,
    hstill ▸ h.waiting_nodup, hstill ▸ h.unassigned⟩
  show ((self.registry.ptyKill id false).2.ptys other).isSome = true ↔ other ∈
    ({ self with requests := self.requests.eraseIdx k } : TerminalUi).tokens
  rw [hptys]
  by_cases hsame : other = id
  · subst hsame
    simp [hnot]
  · have hbefore := h.registered other
    rw [hmoved, Multiset.mem_cons] at hbefore
    simpa [hsame] using hbefore

/-- A terminal whose kill finds the lock poisoned is stuck. -/
theorem sound_served_poisoned (h : self.Sound) :
    ({ self with
      requests := self.requests.eraseIdx k
      registry := (self.registry.ptyKill id true).2
      stuck := self.stuck ++ [id] } : TerminalUi).Sound := by
  have hstill := waiting_of_kill hrequest
  have hsame : self.tokens =
      ({ self with
        requests := self.requests.eraseIdx k
        registry := (self.registry.ptyKill id true).2
        stuck := self.stuck ++ [id] } : TerminalUi).tokens := by
    rw [tokens_of_kill hrequest, ← Multiset.singleton_add]
    simp only [tokens, ← Multiset.coe_add, Multiset.coe_singleton]
    abel
  refine ⟨h.registry.exec (.ptyKill id true), hsame ▸ h.nodup, fun other => ?_,
    hstill ▸ h.waiting_nodup, hstill ▸ h.unassigned⟩
  rw [← hsame, ← h.registered other]
  rfl

end

/-- The backend serves a request. -/
theorem sound_serve (h : self.Sound) (k : Nat) (io : ServeIo) :
    (self.next (.serve k io)).Sound := by
  rcases hrequest : self.requests[k]? with _ | request
  · simpa [next, hrequest] using h
  have hnext : self.next (.serve k io) =
      ({ self with requests := self.requests.eraseIdx k } : TerminalUi).handle io request := by
    simp [next, hrequest]
  rw [hnext]
  cases request with
  | sendInput id data =>
      exact sound_served_use h hrequest rfl rfl
        (h.registry.exec (.sendInput id data io.ptysPoisoned io.result))
        (PtyRegistry.ptys_use _ _ _ _ _)
  | resizePty id cols rows =>
      exact sound_served_use h hrequest rfl rfl
        (h.registry.exec (.ptyResize id cols rows io.ptysPoisoned io.result))
        (PtyRegistry.ptys_use _ _ _ _ _)
  | spawnPty mount => exact sound_served_spawn h hrequest io.spawn
  | killPty id =>
      cases hpoisoned : io.ptysPoisoned with
      | true =>
          simp only [handle, hpoisoned, if_true]
          exact sound_served_poisoned hrequest h
      | false =>
          simp only [handle, hpoisoned, Bool.false_eq_true, if_false]
          exact sound_served_kill hrequest h

end

theorem sound_next (h : self.Sound) (step : TerminalStep) : (self.next step).Sound := by
  cases step with
  | mount => exact sound_mount h
  | onData mount data =>
      rw [next]
      rcases self.mounts[mount]? with _ | ⟨_ | _, _ | id⟩
      · exact h
      · exact h
      · exact sound_invoke h rfl rfl
      · exact h
      · exact h
  | onResize mount cols rows =>
      rw [next]
      rcases self.mounts[mount]? with _ | ⟨_ | _, _ | id⟩
      · exact h
      · exact h
      · exact sound_invoke h rfl rfl
      · exact h
      · exact h
  | unmount mount => exact sound_unmount h mount
  | serve k io => exact sound_serve h k io
  | resolve k => exact sound_resolve h k

theorem sound_run (steps : List TerminalStep) : (Machine.run next start steps).Sound := by
  induction steps using List.reverseRecOn with
  | nil => exact sound_start
  | append_singleton steps step ih =>
      rw [Machine.run_concat]
      exact sound_next ih step

-- ============================================================================
-- Any run
-- ============================================================================

/-- The terminal is that of a mount that has not gone. -/
def Shown (self : TerminalUi) (id : String) : Prop :=
  ∃ hook ∈ self.mounts, hook.disposed = false ∧ hook.ptyId = some id

theorem mem_held_iff {id : String} :
    id ∈ self.mounts.filterMap UseTerminal.held ↔ self.Shown id := by
  simp only [List.mem_filterMap, Shown, UseTerminal.held]
  refine exists_congr fun hook => and_congr_right fun _ => ?_
  cases hook.disposed <;> simp

/-- Whatever is mounted and unmounted, and in whatever order the backend serves what the UI
    asks for: two mounts never show one terminal; a terminal that is shown is there; and
    once nothing is in flight the terminals that are there are those that are shown, but
    for those that could not be killed because the lock was poisoned. -/
theorem terminals_law (steps : List TerminalStep) :
    let self := Machine.run next start steps
    (self.mounts.filterMap UseTerminal.held).Nodup ∧
    (∀ id, self.Shown id → (self.registry.ptys id).isSome) ∧
    (self.requests = [] → self.replies = [] →
      ∀ id, (self.registry.ptys id).isSome ↔ self.Shown id ∨ id ∈ self.stuck) := by
  intro self
  have hsound : self.Sound := sound_run steps
  have hmem : ∀ id, id ∈ self.tokens ↔ self.Shown id ∨
      id ∈ self.requests.filterMap PtyRequest.killed ∨ id ∈ self.replies.filterMap replied ∨
        id ∈ self.stuck := by
    intro id
    rw [← mem_held_iff]
    simp only [tokens, Multiset.mem_add, Multiset.mem_coe, or_assoc]
  refine ⟨?_, fun id hshown => ?_, fun hrequests hreplies id => ?_⟩
  · have hnodup := hsound.nodup
    simp only [tokens, Multiset.coe_add, Multiset.coe_nodup, List.append_assoc] at hnodup
    exact (List.nodup_append.mp hnodup).1
  · exact (hsound.registered id).mpr ((hmem id).mpr (.inl hshown))
  · rw [hsound.registered id, hmem id, hrequests, hreplies]
    simp

end TerminalUi

end Spectty.Ui
