/-
  Spectty.Terminals.Registry

  The registry of live terminals and the commands on it, with what each terminal's
  transport, threads and poll loops are told.

  The stop flag of a terminal is the latch of its shutdown, so the shutdown of a kill
  and that of the drop after it are one.  `registry_law` says what every terminal has
  been told after any sequence of commands: the input sent to it while it was registered,
  and the teardown of a terminal of its kind when it no longer is.
-/

import Spectty.Commands.Session
import Spectty.Lib.Machine
import Std.Data.String.ToNat

namespace Spectty.Terminals

open Spectty.Core
open Spectty.Commands (PtySpawnIo)
open Spectty.Lib

-- ============================================================================
-- A terminal
-- ============================================================================

/-- What is done to a terminal. -/
inductive PtyEffect where
  | write (data : List UInt8)
  | resize (cols rows : UInt16)
  | stopSpecPoll
  | stopDiffPoll
  | stopApprovalPoll
  | dropWatchGuard
  | kill
  | joinReader
deriving DecidableEq, Repr

/-- What a terminal was opened for: a shell, or an agent session, with a file watcher or
    without. -/
inductive PtyKind where
  | raw
  | session (watching : Bool)
deriving DecidableEq, Repr

/-- What a terminal of a kind must be told at its end: each loop that it has is stopped,
    its child is killed, and only then is its reader joined. -/
def PtyKind.teardown : PtyKind → List PtyEffect
  | .raw => [.kill, .joinReader]
  | .session false =>
      [.stopSpecPoll, .stopDiffPoll, .stopApprovalPoll, .kill, .joinReader]
  | .session true =>
      [.stopSpecPoll, .stopDiffPoll, .stopApprovalPoll, .dropWatchGuard, .kill, .joinReader]

/-- The handle of a terminal: the stop flag, and which of the other handles there
    are. -/
structure PtyState where
  stop : Bool
  readerThread : Bool
  specPollShutdown : Bool
  diffPollShutdown : Bool
  approvalPollShutdown : Bool
  diffWatchGuard : Bool
deriving DecidableEq, Repr

namespace PtyState

/-- A terminal without an agent. -/
def raw : PtyState where
  stop := false
  readerThread := true
  specPollShutdown := false
  diffPollShutdown := false
  approvalPollShutdown := false
  diffWatchGuard := false

/-- The terminal of an agent session, with its file watcher if it has one. -/
def session (watching : Bool) : PtyState where
  stop := false
  readerThread := true
  specPollShutdown := true
  diffPollShutdown := true
  approvalPollShutdown := true
  diffWatchGuard := watching

/-- The handle that is made of a new terminal. -/
def made : PtyKind → PtyState
  | .raw => .raw
  | .session watching => .session watching

/-- Stop the loops and the watcher, kill the child and join the read thread; nothing
    when that was done before. -/
def shutdown (self : PtyState) : List PtyEffect × PtyState :=
  if self.stop then ([], self)
  else
    ((if self.specPollShutdown then [.stopSpecPoll] else []) ++
      (if self.diffPollShutdown then [.stopDiffPoll] else []) ++
      (if self.approvalPollShutdown then [.stopApprovalPoll] else []) ++
      (if self.diffWatchGuard then [.dropWatchGuard] else []) ++ [.kill] ++
      (if self.readerThread then [.joinReader] else []),
      { self with stop := true, diffWatchGuard := false, readerThread := false })

/-- A handle that goes out of scope. -/
def drop (self : PtyState) : List PtyEffect := self.shutdown.1

/-- A handle that is shut down, and then goes out of scope. -/
def dispose (self : PtyState) : List PtyEffect :=
  let (effects, self) := self.shutdown
  effects ++ self.drop

end PtyState

-- ============================================================================
-- The commands
-- ============================================================================

/-- The registry of the terminals, the minter of their ids, and a record of what was done
    to each.  `opened` are the ids under which a handle was made, with what it was made
    for. -/
structure PtyRegistry where
  sessions : SessionRegistry
  ptys : String → Option PtyState
  opened : List (String × PtyKind)
  effects : List (String × PtyEffect)

/-- What the outside answers while the terminal of a session is opened. -/
structure SessionPtyIo where
  provisioned : Except String Unit
  openPty : Except String Unit
  spawnThreads : Except String Unit
  watching : Bool
  ptysPoisoned : Bool

def poisoned : String := "pty registry mutex poisoned"

def unknownPty (id : String) : String := "unknown pty id: " ++ id

namespace PtyRegistry

/-- At application start. -/
def start : PtyRegistry where
  sessions := .empty
  ptys := fun _ => none
  opened := []
  effects := []

/-- Some effects on a terminal. -/
def perform (self : PtyRegistry) (id : String) (effects : List PtyEffect) : PtyRegistry :=
  { self with effects := self.effects ++ effects.map fun effect => (id, effect) }

/-- Register a handle; one that was there under the id goes out of scope. -/
def insert (self : PtyRegistry) (id : String) (pty : PtyState) : PtyRegistry :=
  let replaced := ((self.ptys id).map PtyState.drop).getD []
  { self with ptys := Function.update self.ptys id (some pty) }.perform id replaced

/-- A handle was made; it is registered, or goes out of scope at a poisoned lock. -/
def register (self : PtyRegistry) (id : String) (kind : PtyKind) (ptysPoisoned : Bool) :
    Except String String × PtyRegistry :=
  let self := { self with opened := self.opened ++ [(id, kind)] }
  let pty := PtyState.made kind
  if ptysPoisoned then (.error poisoned, self.perform id pty.drop)
  else (.ok id, self.insert id pty)

/-- `pty_spawn`. -/
def ptySpawn (self : PtyRegistry) (io : PtySpawnIo) : Except String String × PtyRegistry :=
  match io.openPty with
  | .error e => (.error e, self)
  | .ok () =>
      let (id, sessions) := self.sessions.mintId
      let self := { self with sessions }
      match io.spawnThread with
      | .error e => (.error e, self)
      | .ok () => self.register id .raw io.ptysPoisoned

/-- The terminal of `spawn_session`. -/
def spawnSession (self : PtyRegistry) (io : SessionPtyIo) : Except String String × PtyRegistry :=
  let (id, sessions) := self.sessions.mintId
  let self := { self with sessions }
  match io.provisioned, io.openPty, io.spawnThreads with
  | .error e, _, _ => (.error e, self)
  | .ok (), .error e, _ => (.error e, self)
  | .ok (), .ok (), .error e => (.error e, self)
  | .ok (), .ok (), .ok () => self.register id (.session io.watching) io.ptysPoisoned

/-- Use the terminal under an id. -/
def use (self : PtyRegistry) (id : String) (ptysPoisoned : Bool) (effect : PtyEffect)
    (result : Except String Unit) : Except String Unit × PtyRegistry :=
  if ptysPoisoned then (.error poisoned, self)
  else
    match self.ptys id with
    | none => (.error (unknownPty id), self)
    | some _ => (result, self.perform id [effect])

/-- `send_input`; `result` is the answer of the transport. -/
def sendInput (self : PtyRegistry) (id : String) (data : List UInt8) (ptysPoisoned : Bool)
    (result : Except String Unit) : Except String Unit × PtyRegistry :=
  self.use id ptysPoisoned (.write data) result

/-- `pty_resize`. -/
def ptyResize (self : PtyRegistry) (id : String) (cols rows : UInt16) (ptysPoisoned : Bool)
    (result : Except String Unit) : Except String Unit × PtyRegistry :=
  self.use id ptysPoisoned (.resize cols rows) result

/-- Take a handle out of the registry. -/
def remove (self : PtyRegistry) (id : String) : PtyRegistry :=
  { self with ptys := Function.update self.ptys id none }

/-- `pty_kill`. -/
def ptyKill (self : PtyRegistry) (id : String) (ptysPoisoned : Bool) :
    Except String Unit × PtyRegistry :=
  if ptysPoisoned then (.error poisoned, self)
  else
    match self.ptys id with
    | none => (.error (unknownPty id), self)
    | some pty => (.ok (), (self.remove id).perform id pty.dispose)

/-- The terminal of `close_session`, which closes without one too. -/
def closeSession (self : PtyRegistry) (id : String) (ptysPoisoned : Bool) :
    Except String Unit × PtyRegistry :=
  if ptysPoisoned then (.error poisoned, self)
  else
    match self.ptys id with
    | none => (.ok (), self)
    | some pty => (.ok (), (self.remove id).perform id pty.dispose)

/-- The registry goes with the application, and this handle with it. -/
def dropEntry (self : PtyRegistry) (id : String) : PtyRegistry :=
  match self.ptys id with
  | none => self
  | some pty => (self.remove id).perform id pty.drop

/-- The commands, and the end of the application for one terminal. -/
inductive Command where
  | ptySpawn (io : PtySpawnIo)
  | spawnSession (io : SessionPtyIo)
  | sendInput (id : String) (data : List UInt8) (ptysPoisoned : Bool) (result : Except String Unit)
  | ptyResize (id : String) (cols rows : UInt16) (ptysPoisoned : Bool)
      (result : Except String Unit)
  | ptyKill (id : String) (ptysPoisoned : Bool)
  | closeSession (id : String) (ptysPoisoned : Bool)
  | dropEntry (id : String)

/-- The registry after a command. -/
def exec (self : PtyRegistry) : Command → PtyRegistry
  | .ptySpawn io => (self.ptySpawn io).2
  | .spawnSession io => (self.spawnSession io).2
  | .sendInput id data ptysPoisoned result => (self.sendInput id data ptysPoisoned result).2
  | .ptyResize id cols rows ptysPoisoned result =>
      (self.ptyResize id cols rows ptysPoisoned result).2
  | .ptyKill id ptysPoisoned => (self.ptyKill id ptysPoisoned).2
  | .closeSession id ptysPoisoned => (self.closeSession id ptysPoisoned).2
  | .dropEntry id => self.dropEntry id

/-- The ids under which a handle was made. -/
def ids (self : PtyRegistry) : List String := self.opened.map Prod.fst

/-- The input that a command carries for a terminal. -/
def Command.inputFor (id : String) : Command → List PtyEffect
  | .sendInput id' data ptysPoisoned _ =>
      if ptysPoisoned = false ∧ id' = id then [.write data] else []
  | .ptyResize id' cols rows ptysPoisoned _ =>
      if ptysPoisoned = false ∧ id' = id then [.resize cols rows] else []
  | _ => []

/-- The input that some commands carry for a terminal while it is registered. -/
def inputOf (id : String) : PtyRegistry → List Command → List PtyEffect
  | _, [] => []
  | self, c :: cmds =>
      (if (self.ptys id).isSome then c.inputFor id else []) ++ inputOf id (self.exec c) cmds

/-- What was done to a terminal, in order. -/
def effectsOn (self : PtyRegistry) (id : String) : List PtyEffect :=
  (self.effects.filter fun e => e.1 = id).map Prod.snd

variable {self : PtyRegistry} {id id' : String} {kind : PtyKind} {pty : PtyState}
  {effects : List PtyEffect} {input : String → List PtyEffect}

-- ============================================================================
-- What was done to a terminal
-- ============================================================================

theorem effectsOn_perform_self :
    (self.perform id effects).effectsOn id = self.effectsOn id ++ effects := by
  simp [perform, effectsOn, List.filter_map, Function.comp_def]

theorem effectsOn_perform_other (h : id' ≠ id) :
    (self.perform id effects).effectsOn id' = self.effectsOn id' := by
  have hnone : (effects.map fun effect => (id, effect)).filter (fun e => e.1 = id') = [] := by
    simp [List.filter_map, Function.comp_def, h.symm]
  simp [perform, effectsOn, hnone]

@[simp] theorem ptys_perform : (self.perform id effects).ptys = self.ptys := rfl

@[simp] theorem opened_perform : (self.perform id effects).opened = self.opened := rfl

@[simp] theorem sessions_perform : (self.perform id effects).sessions = self.sessions := rfl

theorem inputOf_concat (id : String) (self : PtyRegistry) (cmds : List Command) (c : Command) :
    inputOf id self (cmds ++ [c]) = inputOf id self cmds ++
      if ((Machine.run exec self cmds).ptys id).isSome then c.inputFor id else [] := by
  induction cmds generalizing self with
  | nil =>
      rw [List.nil_append, inputOf, inputOf, inputOf, List.append_nil, List.nil_append]
      rfl
  | cons c' cmds ih =>
      rw [List.cons_append, inputOf, inputOf, ih, List.append_assoc]
      rfl

end PtyRegistry

/-- A handle that goes out of scope is torn down as its kind asks. -/
@[simp] theorem PtyState.drop_made (kind : PtyKind) : (made kind).drop = kind.teardown := by
  rcases kind with _ | (_ | _) <;> rfl

/-- After a shutdown the drop does nothing more. -/
@[simp] theorem PtyState.dispose_made (kind : PtyKind) : (made kind).dispose = kind.teardown := by
  rcases kind with _ | (_ | _) <;> rfl

namespace PtyRegistry

variable {self : PtyRegistry} {id id' : String} {kind : PtyKind} {pty : PtyState}
  {effects : List PtyEffect} {input : String → List PtyEffect}

-- ============================================================================
-- The invariant
-- ============================================================================

/-- What a terminal has been told: its input while it is registered, and the teardown of
    its kind after that when it is not. -/
inductive Told (self : PtyRegistry) (id : String) (input : List PtyEffect) : Prop where
  | unopened (hopened : id ∉ self.ids) (hptys : self.ptys id = none)
      (htold : self.effectsOn id = []) (hinput : input = [])
  | live (kind : PtyKind) (hopened : (id, kind) ∈ self.opened)
      (hptys : self.ptys id = some (.made kind)) (htold : self.effectsOn id = input)
  | ended (kind : PtyKind) (hopened : (id, kind) ∈ self.opened) (hptys : self.ptys id = none)
      (htold : self.effectsOn id = input ++ kind.teardown)

/-- The ids are fresh, and every terminal was told the input that it should be. -/
structure Accounts (reg : PtyRegistry) (input : String → List PtyEffect) : Prop where
  ids_nodup : reg.ids.Nodup
  unminted : ∀ n ≥ reg.sessions.nextId, toString n ∉ reg.ids
  told : ∀ id, reg.Told id (input id)

/-- A registry that accounts for some input. -/
def Sound (reg : PtyRegistry) : Prop := ∃ input, reg.Accounts input

theorem mem_ids (h : (id, kind) ∈ self.opened) : id ∈ self.ids :=
  List.mem_map.mpr ⟨(id, kind), h, rfl⟩

/-- What a terminal was told is a matter of its own entry. -/
theorem Told.congr {input : List PtyEffect} (h : self.Told id input) (after : PtyRegistry)
    (hopened : ∀ kind, (id, kind) ∈ after.opened ↔ (id, kind) ∈ self.opened)
    (hptys : after.ptys id = self.ptys id) (heffects : after.effectsOn id = self.effectsOn id) :
    after.Told id input := by
  rcases h with ⟨hno, hnone, hnil, hinput⟩ | ⟨kind, hin, hsome, htold⟩ | ⟨kind, hin, hnone, htold⟩
  · refine .unopened (fun hin => hno ?_) (hptys.trans hnone) (heffects.trans hnil) hinput
    obtain ⟨⟨_, kind⟩, hafter, rfl⟩ := List.mem_map.mp hin
    exact mem_ids ((hopened kind).mp hafter)
  · exact .live kind ((hopened kind).mpr hin) (hptys.trans hsome) (heffects.trans htold)
  · exact .ended kind ((hopened kind).mpr hin) (hptys.trans hnone) (heffects.trans htold)

theorem accounts_start : start.Accounts fun _ => [] where
  ids_nodup := List.nodup_nil
  unminted := by simp [start, ids]
  told id := .unopened (by simp [start, ids]) rfl rfl rfl

theorem sound_start : start.Sound := ⟨_, accounts_start⟩

/-- A terminal is told what is done with it while it is registered. -/
theorem Accounts.use (h : self.Accounts input) (id : String) (ptysPoisoned : Bool)
    (effect : PtyEffect) (result : Except String Unit) :
    (self.use id ptysPoisoned effect result).2.Accounts fun id' => input id' ++
      if (self.ptys id').isSome then
        if ptysPoisoned = false ∧ id = id' then [effect] else []
      else [] := by
  unfold PtyRegistry.use
  cases ptysPoisoned with
  | true => exact ⟨h.ids_nodup, h.unminted, fun id' => by simpa using h.told id'⟩
  | false =>
      show Accounts (match self.ptys id with
        | none => (Except.error (unknownPty id), self)
        | some _ => (result, self.perform id [effect])).2 _
      cases hid : self.ptys id with
      | none =>
          refine ⟨h.ids_nodup, h.unminted, fun id' => ?_⟩
          by_cases hsame : id = id'
          · subst hsame
            simpa [hid] using h.told id
          · simpa [hsame] using h.told id'
      | some pty =>
          refine ⟨h.ids_nodup, h.unminted, fun id' => ?_⟩
          by_cases hsame : id = id'
          · subst hsame
            rcases h.told id with ⟨-, hnone, -⟩ | ⟨kind, hin, hsome, htold⟩ | ⟨kind, -, hnone, -⟩
            · exact absurd (hid.symm.trans hnone) (Option.some_ne_none pty)
            · refine .live kind hin hsome ?_
              rw [effectsOn_perform_self, htold]
              simp [hid]
            · exact absurd (hid.symm.trans hnone) (Option.some_ne_none pty)
          · have htold := (h.told id').congr (self.perform id [effect])
              (fun _ => Iff.rfl) rfl (effectsOn_perform_other (Ne.symm hsame))
            simpa [hsame] using htold

/-- A terminal leaves the registry with one teardown. -/
theorem Accounts.retire (h : self.Accounts input) (hid : self.ptys id = some pty)
    (heffects : ∀ kind, pty = .made kind → effects = kind.teardown) :
    ((self.remove id).perform id effects).Accounts input := by
  refine ⟨h.ids_nodup, h.unminted, fun id' => ?_⟩
  by_cases hsame : id' = id
  · subst hsame
    rcases h.told id' with ⟨-, hnone, -⟩ | ⟨kind, hin, hsome, htold⟩ | ⟨kind, -, hnone, -⟩
    · exact absurd (hid.symm.trans hnone) (Option.some_ne_none pty)
    · have hgone : (self.remove id').ptys id' = none := by simp [remove]
      refine .ended kind hin hgone ?_
      rw [effectsOn_perform_self, heffects kind (Option.some.inj (hid.symm.trans hsome)), ← htold]
      rfl
    · exact absurd (hid.symm.trans hnone) (Option.some_ne_none pty)
  · refine (h.told id').congr _ (fun _ => Iff.rfl) ?_ (effectsOn_perform_other hsame)
    show Function.update self.ptys id none id' = self.ptys id'
    rw [Function.update_of_ne hsame]

/-- An id is minted before anything else is done with it. -/
theorem Accounts.mint (h : self.Accounts input) :
    ({ self with sessions := self.sessions.mintId.2 } : PtyRegistry).Accounts input where
  ids_nodup := h.ids_nodup
  unminted n hn := h.unminted n (Nat.le_of_succ_le hn)
  told id := (h.told id).congr _ (fun _ => Iff.rfl) rfl rfl

/-- A handle under a minted id takes no other's place. -/
theorem Accounts.register (h : self.Accounts input) (kind : PtyKind) (ptysPoisoned : Bool)
    (hid : id ∉ self.ids) (hminted : ∀ n ≥ self.sessions.nextId, toString n ≠ id) :
    (self.register id kind ptysPoisoned).2.Accounts input := by
  have hunopened : self.ptys id = none ∧ self.effectsOn id = [] ∧ input id = [] := by
    rcases h.told id with ⟨-, hnone, hnil, hinput⟩ | ⟨_, hin, -⟩ | ⟨_, hin, -⟩
    · exact ⟨hnone, hnil, hinput⟩
    · exact absurd (mem_ids hin) hid
    · exact absurd (mem_ids hin) hid
  obtain ⟨hnone, hnil, hinput⟩ := hunopened
  have hids : (self.opened ++ [(id, kind)]).map Prod.fst = self.ids ++ [id] := by simp [ids]
  have hnodup : ((self.opened ++ [(id, kind)]).map Prod.fst).Nodup := by
    rw [hids, List.nodup_append]
    refine ⟨h.ids_nodup, List.nodup_singleton id, fun a ha b hb => ?_⟩
    rw [List.mem_singleton.mp hb]
    rintro rfl
    exact hid ha
  have hunminted : ∀ n ≥ self.sessions.nextId,
      toString n ∉ (self.opened ++ [(id, kind)]).map Prod.fst := by
    intro n hn hin
    rw [hids] at hin
    rcases List.mem_append.mp hin with hold | hnew
    · exact h.unminted n hn hold
    · exact hminted n hn (List.mem_singleton.mp hnew)
  have hmem : ∀ id', id' ≠ id → ∀ kind',
      ((id', kind') ∈ self.opened ++ [(id, kind)] ↔ (id', kind') ∈ self.opened) := by
    intro id' hne kind'
    simp [hne]
  have hlast : (id, kind) ∈ self.opened ++ [(id, kind)] := by simp
  unfold PtyRegistry.register
  split
  · -- the lock is poisoned: the handle goes out of scope unregistered
    refine ⟨hnodup, hunminted, fun id' => ?_⟩
    by_cases hsame : id' = id
    · subst hsame
      refine .ended kind hlast hnone ?_
      rw [effectsOn_perform_self, PtyState.drop_made, hinput]
      show self.effectsOn id' ++ kind.teardown = [] ++ kind.teardown
      rw [hnil]
    · exact (h.told id').congr _ (hmem id' hsame) rfl (effectsOn_perform_other hsame)
  · have hreplaced : ((self.ptys id).map PtyState.drop).getD [] = [] := by rw [hnone]; rfl
    refine ⟨hnodup, hunminted, fun id' => ?_⟩
    by_cases hsame : id' = id
    · subst hsame
      have hptys : Function.update self.ptys id' (some (.made kind)) id' = some (.made kind) :=
        Function.update_self id' (some (.made kind)) self.ptys
      refine .live kind hlast hptys ?_
      rw [hinput]
      simp only [insert, hreplaced, effectsOn_perform_self, List.append_nil]
      exact hnil
    · exact (h.told id').congr _ (hmem id' hsame) (Function.update_of_ne hsame _ _)
        (effectsOn_perform_other hsame)

/-- The id of a new terminal is the next one, so it is the id of no other. -/
theorem Accounts.register_minted (h : self.Accounts input) (kind : PtyKind)
    (ptysPoisoned : Bool) :
    (({ self with sessions := self.sessions.mintId.2 } : PtyRegistry).register
      self.sessions.mintId.1 kind ptysPoisoned).2.Accounts input := by
  refine h.mint.register kind ptysPoisoned (h.unminted _ (Nat.le_refl _)) fun n hn heq => ?_
  have hsame : n = self.sessions.nextId := Nat.repr_injective heq
  have hlater : self.sessions.nextId + 1 ≤ n := hn
  omega

/-- A command that carries no input adds none. -/
theorem Accounts.of_noInput {after : PtyRegistry} {c : Command} (h : after.Accounts input)
    (hinput : ∀ id, c.inputFor id = []) :
    after.Accounts fun id => input id ++ if (self.ptys id).isSome then c.inputFor id else [] := by
  have hsame : (fun id => input id ++ if (self.ptys id).isSome then c.inputFor id else []) =
      input := by
    funext id
    rw [hinput, ite_self, List.append_nil]
  rwa [hsame]

theorem Accounts.exec (h : self.Accounts input) (c : Command) :
    (self.exec c).Accounts fun id =>
      input id ++ if (self.ptys id).isSome then c.inputFor id else [] := by
  cases c with
  | ptySpawn io =>
      refine Accounts.of_noInput ?_ fun _ => rfl
      obtain ⟨openPty, spawnThread, ptysPoisoned⟩ := io
      rcases openPty with e | ⟨⟩
      · exact h
      rcases spawnThread with e | ⟨⟩
      · exact h.mint
      · exact h.register_minted .raw ptysPoisoned
  | spawnSession io =>
      refine Accounts.of_noInput ?_ fun _ => rfl
      obtain ⟨provisioned, openPty, spawnThreads, watching, ptysPoisoned⟩ := io
      rcases provisioned with e | ⟨⟩
      · exact h.mint
      rcases openPty with e | ⟨⟩
      · exact h.mint
      rcases spawnThreads with e | ⟨⟩
      · exact h.mint
      · exact h.register_minted (.session watching) ptysPoisoned
  | sendInput id data ptysPoisoned result => exact h.use id ptysPoisoned (.write data) result
  | ptyResize id cols rows ptysPoisoned result =>
      exact h.use id ptysPoisoned (.resize cols rows) result
  | ptyKill id ptysPoisoned =>
      refine Accounts.of_noInput ?_ fun _ => rfl
      show (self.ptyKill id ptysPoisoned).2.Accounts input
      unfold PtyRegistry.ptyKill
      split
      · exact h
      cases hid : self.ptys id with
      | none => exact h
      | some pty => exact h.retire hid fun kind hkind => hkind ▸ PtyState.dispose_made kind
  | closeSession id ptysPoisoned =>
      refine Accounts.of_noInput ?_ fun _ => rfl
      show (self.closeSession id ptysPoisoned).2.Accounts input
      unfold PtyRegistry.closeSession
      split
      · exact h
      cases hid : self.ptys id with
      | none => exact h
      | some pty => exact h.retire hid fun kind hkind => hkind ▸ PtyState.dispose_made kind
  | dropEntry id =>
      refine Accounts.of_noInput ?_ fun _ => rfl
      show (self.dropEntry id).Accounts input
      unfold PtyRegistry.dropEntry
      cases hid : self.ptys id with
      | none => exact h
      | some pty => exact h.retire hid fun kind hkind => hkind ▸ PtyState.drop_made kind

theorem Sound.exec (h : self.Sound) (c : Command) : (self.exec c).Sound := by
  obtain ⟨input, haccounts⟩ := h
  exact ⟨_, haccounts.exec c⟩

theorem accounts_run (cmds : List Command) :
    (Machine.run exec start cmds).Accounts fun id => inputOf id start cmds := by
  induction cmds using List.reverseRecOn with
  | nil => exact accounts_start
  | append_singleton cmds c ih =>
      simp only [Machine.run_concat, inputOf_concat]
      exact ih.exec c

-- ============================================================================
-- Which terminals are registered
-- ============================================================================

/-- Input registers nothing and removes nothing. -/
theorem ptys_use (self : PtyRegistry) (id : String) (ptysPoisoned : Bool) (effect : PtyEffect)
    (result : Except String Unit) :
    (self.use id ptysPoisoned effect result).2.ptys = self.ptys := by
  unfold PtyRegistry.use
  split
  · rfl
  · cases self.ptys id <;> rfl

/-- A kill removes its terminal, unless the lock is poisoned. -/
theorem ptys_ptyKill (self : PtyRegistry) (id : String) (ptysPoisoned : Bool) :
    (self.ptyKill id ptysPoisoned).2.ptys =
      if ptysPoisoned then self.ptys else Function.update self.ptys id none := by
  cases ptysPoisoned with
  | true => rfl
  | false =>
      show (match self.ptys id with
        | none => (Except.error (unknownPty id), self)
        | some pty => (.ok (), (self.remove id).perform id pty.dispose)).2.ptys = _
      cases hid : self.ptys id with
      | none =>
          show self.ptys = Function.update self.ptys id none
          rw [← hid, Function.update_eq_self]
      | some pty => rfl

/-- A spawn fails and registers nothing, or registers a terminal under a new id, which it
    answers. -/
theorem ptySpawn_cases (h : self.Sound) (io : PtySpawnIo) :
    (∃ e, (self.ptySpawn io).1 = .error e ∧ (self.ptySpawn io).2.ptys = self.ptys) ∨
    ∃ id, (self.ptySpawn io).1 = .ok id ∧ self.ptys id = none ∧
      (self.ptySpawn io).2.ptys = Function.update self.ptys id (some .raw) := by
  obtain ⟨input, h⟩ := h
  have hnew : self.ptys self.sessions.mintId.1 = none := by
    have hno := h.unminted self.sessions.nextId (Nat.le_refl _)
    rcases h.told self.sessions.mintId.1 with ⟨-, hnone, -⟩ | ⟨_, hin, -⟩ | ⟨_, hin, -⟩
    · exact hnone
    · exact absurd (mem_ids hin) hno
    · exact absurd (mem_ids hin) hno
  obtain ⟨openPty, spawnThread, ptysPoisoned⟩ := io
  rcases openPty with e | ⟨⟩
  · exact .inl ⟨e, rfl, rfl⟩
  rcases spawnThread with e | ⟨⟩
  · exact .inl ⟨e, rfl, rfl⟩
  cases ptysPoisoned with
  | true => exact .inl ⟨poisoned, rfl, rfl⟩
  | false => exact .inr ⟨self.sessions.mintId.1, rfl, hnew, rfl⟩

/-- A spawn that answers an id has opened it. -/
theorem opened_ptySpawn {io : PtySpawnIo} (hok : (self.ptySpawn io).1 = .ok id) :
    (id, .raw) ∈ (self.ptySpawn io).2.opened := by
  obtain ⟨openPty, spawnThread, ptysPoisoned⟩ := io
  rcases openPty with e | ⟨⟩
  · cases hok
  rcases spawnThread with e | ⟨⟩
  · cases hok
  cases ptysPoisoned with
  | true => cases hok
  | false =>
      obtain rfl := Except.ok.inj hok
      exact List.mem_append_right _ (List.mem_singleton_self _)

theorem opened_spawnSession {io : SessionPtyIo} (hok : (self.spawnSession io).1 = .ok id) :
    (id, .session io.watching) ∈ (self.spawnSession io).2.opened := by
  obtain ⟨provisioned, openPty, spawnThreads, watching, ptysPoisoned⟩ := io
  rcases provisioned with e | ⟨⟩
  · cases hok
  rcases openPty with e | ⟨⟩
  · cases hok
  rcases spawnThreads with e | ⟨⟩
  · cases hok
  cases ptysPoisoned with
  | true => cases hok
  | false =>
      obtain rfl := Except.ok.inj hok
      exact List.mem_append_right _ (List.mem_singleton_self _)

-- ============================================================================
-- Any sequence of commands
-- ============================================================================

/-- Whatever the commands and the answers of the outside, no id is used for two
    terminals.  A terminal was told the input that was sent to it while it was registered
    and, once it is no longer, exactly once to stop each loop that a terminal of its kind
    has, to kill its child and to join its reader, in this order; nothing is ever done
    under an id that was not opened.  A spawn that answers an id has opened it. -/
theorem registry_law (cmds : List Command) :
    let self := Machine.run exec start cmds
    self.ids.Nodup ∧
    (∀ id kind, (id, kind) ∈ self.opened →
      self.effectsOn id = inputOf id start cmds ++
        if (self.ptys id).isSome then [] else kind.teardown) ∧
    (∀ id, id ∉ self.ids → self.ptys id = none ∧ self.effectsOn id = []) ∧
    (∀ io id, (self.ptySpawn io).1 = .ok id → (id, .raw) ∈ (self.ptySpawn io).2.opened) ∧
    ∀ io id, (self.spawnSession io).1 = .ok id →
      (id, .session io.watching) ∈ (self.spawnSession io).2.opened := by
  intro self
  have haccounts : self.Accounts fun id => inputOf id start cmds := accounts_run cmds
  refine ⟨haccounts.ids_nodup, fun id kind hin => ?_, fun id hno => ?_,
    fun _ _ => opened_ptySpawn, fun _ _ => opened_spawnSession⟩
  · -- an id was opened once, so the kind is the one that it was opened for
    have hkind : ∀ kind', (id, kind') ∈ self.opened → kind' = kind := fun kind' hin' =>
      congrArg Prod.snd (List.inj_on_of_nodup_map haccounts.ids_nodup hin' hin rfl)
    rcases haccounts.told id with ⟨hno, -⟩ | ⟨kind', -, hsome, htold⟩ |
      ⟨kind', hin', hnone, htold⟩
    · exact absurd (mem_ids hin) hno
    · rw [htold, hsome, Option.isSome_some, if_pos rfl, List.append_nil]
    · rw [htold, hkind kind' hin', hnone]
      rfl
  · rcases haccounts.told id with ⟨-, hnone, hnil, -⟩ | ⟨_, hin, -⟩ | ⟨_, hin, -⟩
    · exact ⟨hnone, hnil⟩
    · exact absurd (mem_ids hin) hno
    · exact absurd (mem_ids hin) hno

end PtyRegistry

end Spectty.Terminals
