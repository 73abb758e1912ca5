/-
  Spectty.Terminals.Launch

  From the spawn dialog to the process in the terminal, and from there to the
  hooks that it runs.

  The command that is typed is split at its whitespace (`launch_law`).  The session's
  id reaches the process in its environment, the sidecars inherit it, and the path they
  make of it is the one that the session's reader polls.  So in any interleaving of the
  sidecars and readers of all sessions, the ones of a session run as if alone: each reader
  hears of its own agent (`hooks_reach_reader`).
-/

import Spectty.Hook.RuntimeDir
import Spectty.Hook.Sequential
import Spectty.Lib.JsonText
import Spectty.Lib.Places
import Spectty.Lib.Words

namespace Spectty.Terminals

open Spectty.Core
open Spectty.Adapters
open Spectty.Hook
open Spectty.Lib

-- ============================================================================
-- The dialog
-- ============================================================================

/-- What the `\s` of a script's regular expression matches, and its `trim` drops. -/
def isJsWhitespace (c : Char) : Bool :=
  let n := c.toNat
  (9 ≤ n ∧ n ≤ 13) ∨ n = 0x20 ∨ n = 0xA0 ∨ n = 0x1680 ∨ (0x2000 ≤ n ∧ n ≤ 0x200A) ∨
    n = 0x2028 ∨ n = 0x2029 ∨ n = 0x202F ∨ n = 0x205F ∨ n = 0x3000 ∨ n = 0xFEFF

/-- An entry of the dialog. -/
structure AgentChoice where
  kind : String
  label : String
  tier : AgentTier

def agentChoices : List AgentChoice :=
  [⟨"claude-code", "Claude Code", .cooperative⟩, ⟨"generic", "Generic", .generic⟩]

/-- The choice of a kind, the first one if there is none. -/
def agentChoice (kind : String) : AgentChoice :=
  (agentChoices.find? (·.kind = kind)).getD ⟨"claude-code", "Claude Code", .cooperative⟩

/-- The dialog's `submit`. -/
def submit (kind command : String) : AgentSpec where
  kind := kind
  command :=
    if (agentChoice kind).tier = .generic ∧ Text.trim isJsWhitespace command.toList ≠ [] then
      some ((Text.splitRuns isJsWhitespace
        (Text.trim isJsWhitespace command.toList)).map String.ofList)
    else none
  tier := (agentChoice kind).tier

-- ============================================================================
-- The runners
-- ============================================================================

/-- What a launch depends on. -/
structure LaunchContext where
  cwd : String
  cols : Nat
  rows : Nat
  sessionId : String
  userCommand : Option (List String)

/-- What to start in the terminal. -/
structure LaunchSpec where
  program : String
  args : List String
  env : List (String × String)
  cwd : String
  cols : Nat
  rows : Nat
deriving DecidableEq

/-- The login shell of the platform. -/
def defaultShell (platform : Platform) (getEnv : String → Option String) : String :=
  if platform = .windows then ((getEnv "COMSPEC").filter (· ≠ "")).getD "cmd.exe"
  else ((getEnv "SHELL").filter (· ≠ "")).getD "/bin/bash"

/-- The variable that hands the agent its session. -/
def sessionIdEnv : String := "SPECTTY_SESSION_ID"

def ClaudeCodeRunner.launchSpec (ctx : LaunchContext) : LaunchSpec where
  program := "claude"
  args := []
  env := [(sessionIdEnv, ctx.sessionId)]
  cwd := ctx.cwd
  cols := ctx.cols
  rows := ctx.rows

def GenericRunner.launchSpec (defaultProgram : String) (ctx : LaunchContext) : LaunchSpec :=
  let (program, args) :=
    match ctx.userCommand with
    | some (program :: rest) => (program, rest)
    | _ => (defaultProgram, [])
  { program, args, env := [], cwd := ctx.cwd, cols := ctx.cols, rows := ctx.rows }

/-- The runner of a kind. -/
def resolveRunner (platform : Platform) (getEnv : String → Option String) (kind : String) :
    Option (LaunchContext → LaunchSpec) :=
  if kind = "claude-code" then some ClaudeCodeRunner.launchSpec
  else if kind = "generic" then some (GenericRunner.launchSpec (defaultShell platform getEnv))
  else none

/-- What the adapter is given to open a terminal. -/
structure PtySpawnConfig where
  program : String
  args : List String
  cwd : Option String
  cols : Nat
  rows : Nat
  env : List (String × String)
deriving DecidableEq

/-- The launch of a spawn. -/
def launch (platform : Platform) (getEnv : String → Option String) (agent : AgentSpec)
    (workspacePath sessionId : String) (cols rows : Nat) : Except String PtySpawnConfig :=
  match resolveRunner platform getEnv agent.kind with
  | none => .error ("no runner registered for agent kind: " ++ agent.kind)
  | some launchSpec =>
      let spec := launchSpec
        { cwd := workspacePath, cols, rows, sessionId, userCommand := agent.command }
      .ok { program := spec.program, args := spec.args, cwd := some spec.cwd, cols := spec.cols,
            rows := spec.rows, env := spec.env }

-- ============================================================================
-- What is launched
-- ============================================================================

section

variable {platform : Platform} {env : String → Option String}
  {kind command workspacePath id : String} {cols rows : Nat}

theorem defaultShell_ne_empty : defaultShell platform env ≠ "" := by
  have hfilter : ∀ (value : Option String) (fallback : String), fallback ≠ "" →
      ((value.filter (· ≠ "")).getD fallback) ≠ "" := by
    intro value fallback hfallback
    cases value with
    | none => exact hfallback
    | some v =>
        by_cases hv : v = ""
        · simpa [Option.filter, hv] using hfallback
        · simp [Option.filter, hv]
  unfold defaultShell
  split
  · exact hfilter _ _ (by decide)
  · exact hfilter _ _ (by decide)

/-- The words that were typed, none if the command is blank. -/
theorem submit_command (hkind : (agentChoice kind).tier = .generic) :
    ((submit kind command).command.getD []) =
      (Text.words isJsWhitespace command.toList).map String.ofList := by
  by_cases hblank : Text.trim isJsWhitespace command.toList = []
  · simp [submit, hkind, hblank, Text.words]
  · simp [submit, hkind, hblank, Text.words]

/-- The process of the generic agent: the words of its command, or the shell. -/
theorem program_args_generic (ctx : LaunchContext) (shell : String) :
    (GenericRunner.launchSpec shell ctx).program :: (GenericRunner.launchSpec shell ctx).args =
      if ctx.userCommand.getD [] = [] then [shell] else ctx.userCommand.getD [] := by
  unfold GenericRunner.launchSpec
  rcases ctx.userCommand with _ | (_ | ⟨program, rest⟩)
  · rfl
  · rfl
  · rfl

/-- The first of some words, or the shell, is a program. -/
theorem program_ne_empty {ws : List (List Char)} {shell program : String} {args : List String}
    (hws : ∀ word ∈ ws, word ≠ []) (hshell : shell ≠ "")
    (h : program :: args = if ws = [] then [shell] else ws.map String.ofList) : program ≠ "" := by
  cases ws with
  | nil =>
      obtain ⟨rfl, -⟩ := List.cons.inj h
      exact hshell
  | cons word ws =>
      rw [if_neg (List.cons_ne_nil word ws), List.map_cons] at h
      obtain ⟨rfl, -⟩ := List.cons.inj h
      intro hempty
      have hword : word = [] := by simpa using congrArg String.toList hempty
      exact hws word (by simp) hword

/-- How a launch comes out, by the kind that was chosen: the agent's program with its
    session on top of the environment; or what was typed, word by word, with nothing on
    top of it. -/
inductive Launched (platform : Platform) (env : String → Option String)
    (kind command workspacePath id : String) (cols rows : Nat) :
    Except String PtySpawnConfig → Prop
  | claude (cfg : PtySpawnConfig) (hkind : kind = "claude-code")
      (hprogram : cfg.program = "claude") (hargs : cfg.args = [])
      (hwhere : cfg.cwd = some workspacePath ∧ cfg.cols = cols ∧ cfg.rows = rows)
      (henv : cfg.env = [(sessionIdEnv, id)]) :
      Launched platform env kind command workspacePath id cols rows (.ok cfg)
  | generic (cfg : PtySpawnConfig) (ws : List (List Char)) (hkind : kind = "generic")
      (hwords : ∀ ws', Text.Spaced isJsWhitespace ws' command.toList ↔ ws' = ws)
      (hprogram : cfg.program :: cfg.args =
        if ws = [] then [defaultShell platform env] else ws.map String.ofList)
      (hne : cfg.program ≠ "")
      (hwhere : cfg.cwd = some workspacePath ∧ cfg.cols = cols ∧ cfg.rows = rows)
      (henv : cfg.env = []) :
      Launched platform env kind command workspacePath id cols rows (.ok cfg)
  | unknown (hclaude : kind ≠ "claude-code") (hgeneric : kind ≠ "generic") :
      Launched platform env kind command workspacePath id cols rows
        (.error ("no runner registered for agent kind: " ++ kind))

/-- The law of the launch, for all that can be typed. -/
theorem launch_law (platform : Platform) (env : String → Option String)
    (kind command workspacePath id : String) (cols rows : Nat) :
    Launched platform env kind command workspacePath id cols rows
      (launch platform env (submit kind command) workspacePath id cols rows) := by
  by_cases hclaude : kind = "claude-code"
  · subst hclaude
    exact .claude _ rfl rfl rfl ⟨rfl, rfl, rfl⟩ rfl
  by_cases hgeneric : kind = "generic"
  · subst hgeneric
    have htier : (agentChoice "generic").tier = .generic := by decide
    have hspaced := Text.words_spaced (p := isJsWhitespace) command.toList
    have hargs := program_args_generic
      { cwd := workspacePath, cols, rows, sessionId := id,
        userCommand := (submit "generic" command).command } (defaultShell platform env)
    have hcommand : (submit "generic" command).command.getD [] =
        (Text.words isJsWhitespace command.toList).map String.ofList := submit_command htier
    simp only [hcommand, List.map_eq_nil_iff] at hargs
    exact .generic _ _ rfl (fun ws' => Text.words_eq_iff.symm.trans eq_comm) hargs
      (program_ne_empty (fun word hmem => (hspaced.isWord hmem).1) defaultShell_ne_empty hargs)
      ⟨rfl, rfl, rfl⟩ rfl
  · have herror : launch platform env (submit kind command) workspacePath id cols rows =
        .error ("no runner registered for agent kind: " ++ kind) := by
      simp [launch, submit, resolveRunner, hclaude, hgeneric]
    rw [herror]
    exact .unknown hclaude hgeneric

end

-- ============================================================================
-- The hooks of what is launched
-- ============================================================================

/-- The environment of a process: the one it inherits, and the pairs on top. -/
def childEnv (inherited : String → Option String) (pairs : List (String × String)) :
    String → Option String :=
  pairs.foldl (fun env pair => Function.update env pair.1 (some pair.2)) inherited

/-- The environment that the terminal of each session gives its agent, and the agent its
    hooks.  The terminal may set `SHELL` where it is not set. -/
def Inherits (env : String → Option String) (agents : SessionId → String → Option String) : Prop :=
  ∀ id name, name ≠ "SHELL" → agents id name = childEnv env [(sessionIdEnv, id)] name

/-- The state files by path, and the readers of the sessions. -/
structure HookFiles where
  files : String → Option String
  readers : SessionId → StateFileReader

/-- Where an operation is done: the state file that it reads or writes, and the reader
    that polls. -/
structure Address where
  path : String
  id : SessionId

/-- What an operation may do to the file and the reader at its address. -/
def filesStep (J : SerdeJson) : Prog.Semantics (HookSig.at Address) HookFiles :=
  fun hooks e after =>
    ∃ w, Hook.step J ⟨hooks.files e.op.1.path, hooks.readers e.op.1.id⟩ ⟨e.op.2, e.reply⟩ w ∧
      after = ⟨Function.update hooks.files e.op.1.path w.file,
        Function.update hooks.readers e.op.1.id w.reader⟩

section

variable (J : SerdeJson) (platform : Platform) (dirExists : String → Bool)
  (env : String → Option String)

/-- A sidecar that runs in an environment.  Without a session or a directory it fails
    before it looks at a file. -/
def sidecar (args : List String) : Prog (HookSig.at Address) (Except RunError Unit) :=
  let sessionId := env sessionIdEnv
  let runtimeDir := sidecarRuntimeDir platform env
  (runWith J args sessionId runtimeDir dirExists).placed
    ⟨statePath (runtimeDir.getD "") (sessionId.getD ""), sessionId.getD ""⟩ fun r => r

/-- The thread of a session, which polls the path that its reader was made with. -/
def reader (id : SessionId) (polls : Nat) : Prog (HookSig.at Address) (Except RunError Unit) :=
  (pollTimes polls).placed ⟨(StateFileReader.new (specttyRuntimeDir platform env) id).path, id⟩
    (·.mapError .ofHandle)

/-- No file is there, and each reader is new. -/
def HookFiles.start : HookFiles where
  files := fun _ => none
  readers := fun id => .new (specttyRuntimeDir platform env) id

/-- The hooks that the agent of each session runs, and the reader of each session. -/
def hookPool {κ : Type} (agents : SessionId → String → Option String)
    (args : SessionId → κ → List String) (polls : SessionId → Nat) :
    Pool (SessionId × Option κ) HookFiles (HookSig.at Address) (Except RunError Unit) where
  shared := .start platform env
  threads
    | (id, none) => reader platform env id (polls id)
    | (id, some k) => sidecar J platform dirExists (agents id) (args id k)

/-- The directory of the state files is known, and it is there. -/
def dirFound : Bool := (sidecarRuntimeDir platform env).any dirExists

/-- The event that a hook names; none where it would not find the directory. -/
def hookEventName (args : List String) : String :=
  if dirFound platform dirExists env then (parseEventArg args).getD "" else ""

/-- The state file and the reader of a session. -/
def HookFiles.world (id : SessionId) (hooks : HookFiles) : HookWorld :=
  ⟨hooks.files (statePath (specttyRuntimeDir platform env) id), hooks.readers id⟩

/-- The address of the state file and the reader of a session. -/
def address (id : SessionId) : Address := ⟨statePath (specttyRuntimeDir platform env) id, id⟩

end

-- ============================================================================
-- The hooks of one session
-- ============================================================================

section

variable {J : SerdeJson} {platform : Platform} {dirExists : String → Bool}
  {env : String → Option String} {agents : SessionId → String → Option String}
  {id id' : SessionId} {dir : String} {args : List String}

theorem childEnv_self : childEnv env [(sessionIdEnv, id)] sessionIdEnv = some id := by
  simp [childEnv]

theorem childEnv_other {name : String} (hname : name ≠ sessionIdEnv) :
    childEnv env [(sessionIdEnv, id)] name = env name := by
  simp [childEnv, Function.update_of_ne hname]

theorem Inherits.sessionId (h : Inherits env agents) : agents id sessionIdEnv = some id :=
  (h id sessionIdEnv (by decide)).trans childEnv_self

/-- The agent's environment says where the directory is, as the application's does. -/
theorem Inherits.runtimeDir (h : Inherits env agents) :
    sidecarRuntimeDir platform (agents id) = sidecarRuntimeDir platform env := by
  have hother : ∀ name, name ≠ "SHELL" → name ≠ sessionIdEnv → agents id name = env name :=
    fun name hshell hname => (h id name hshell).trans (childEnv_other hname)
  cases platform with
  | macos => simp [sidecarRuntimeDir, platformDataDir, hother "HOME" (by decide) (by decide)]
  | linux =>
      simp [sidecarRuntimeDir, platformDataDir, hother "HOME" (by decide) (by decide),
        hother "XDG_DATA_HOME" (by decide) (by decide)]
  | windows =>
      simp [sidecarRuntimeDir, platformDataDir, hother "LOCALAPPDATA" (by decide) (by decide)]
  | other => rfl

theorem statePath_inj (h : statePath dir id = statePath dir id') : id = id' := by
  have hlist := congrArg String.toList h
  simp only [statePath, String.toList_append, List.append_assoc] at hlist
  have hname := List.append_cancel_left (List.append_cancel_left hlist)
  exact String.toList_inj.mp (List.append_cancel_right hname)

/-- What is done at the address of a session is done to its file and its reader, and to no
    other session's. -/
theorem local_filesStep : Prog.Local (filesStep J) (Hook.step J) (address platform env)
    (HookFiles.world platform env) where
  here := by
    rintro id o r hooks after ⟨w, hstep, rfl⟩
    simp only [HookFiles.world, address, Function.update_self]
    exact hstep
  elsewhere := by
    rintro id id' o r hooks after ⟨w, -, rfl⟩ hne
    have hpath : statePath (specttyRuntimeDir platform env) id' ≠
        statePath (specttyRuntimeDir platform env) id := fun h => hne (statePath_inj h)
    simp only [HookFiles.world, address, Function.update_of_ne hne, Function.update_of_ne hpath]

/-- A sidecar that finds the directory writes the event that it names, at the session's
    address. -/
theorem sidecar_of_found {name : String} (h : Inherits env agents)
    (hfound : dirFound platform dirExists env = true) (hargs : parseEventArg args = some name) :
    sidecar J platform dirExists (agents id) args =
      (handleEvent J name id).placed (address platform env id) (·.mapError .ofHandle) := by
  obtain ⟨dir, hdir, hexists⟩ := (Option.any_eq_true _ _).mp hfound
  unfold sidecar address
  rw [h.sessionId, h.runtimeDir, specttyRuntimeDir_eq, hdir]
  simp only [runWith, hargs, hexists, Option.getD_some, if_true]
  exact Prog.placed_bind_ret ..

/-- A sidecar of a session does what an invocation does, at the session's address. -/
theorem sidecar_eq (h : Inherits env agents) :
    ∃ f : Except HandleError Unit → Except RunError Unit,
      sidecar J platform dirExists (agents id) args =
        (handleEvent J (hookEventName platform dirExists env args) id).placed
          (address platform env id) f := by
  have hnone : handleEvent J "" id = .ret (.error (.unknownEvent "")) := rfl
  cases hargs : parseEventArg args with
  | none =>
      rw [hookEventName, hargs, Option.getD_none, ite_self, hnone]
      exact ⟨fun _ => .error .missingEventArg, by simp [sidecar, runWith, hargs, Prog.placed]⟩
  | some name =>
      rw [hookEventName, hargs, Option.getD_some]
      cases hfound : dirFound platform dirExists env with
      | true => exact ⟨_, sidecar_of_found h hfound hargs⟩
      | false =>
          refine ⟨fun _ => .error .missingRuntimeDir, ?_⟩
          unfold dirFound at hfound
          unfold sidecar
          rw [h.sessionId, h.runtimeDir]
          cases hdir : sidecarRuntimeDir platform env with
          | none => simp [runWith, hargs, hnone, Prog.placed]
          | some dir =>
              rw [hdir, Option.any_some] at hfound
              simp [runWith, hargs, hfound, hnone, Prog.placed]

/-- The hooks and the reader of a session are the invocations and the reader of a pool
    of its own. -/
theorem component_hookPool {κ : Type} {args : SessionId → κ → List String}
    {polls : SessionId → Nat} (h : Inherits env agents) :
    ∃ f : SessionId → Option κ → Except HandleError Unit → Except RunError Unit,
      ∀ id, Pool.Component (address platform env) (HookFiles.world platform env) id (f id)
        (hookPool J platform dirExists env agents args polls)
        (pool J id (fun k => hookEventName platform dirExists env (args id k))
          (.start (specttyRuntimeDir platform env) id) (polls id)) := by
  have hsidecar : ∀ id k, ∃ f : Except HandleError Unit → Except RunError Unit,
      sidecar J platform dirExists (agents id) (args id k) =
        (handleEvent J (hookEventName platform dirExists env (args id k)) id).placed
          (address platform env id) f := fun _ _ => sidecar_eq h
  choose f hf using hsidecar
  refine ⟨fun id i => i.elim (·.mapError .ofHandle) (f id), fun id => ⟨rfl, fun i => ?_⟩⟩
  cases i with
  | none => rfl
  | some k => exact hf id k

/-- What the reader of a session hears, where `tr` is what happens at its file and its
    reader: it is what its own hooks and its own polls do in some interleaving; an event
    that a poll returns is the last one that these hooks have written; hooks that do not
    overlap are delivered in order; and without the directory there is nothing to hear. -/
structure HearsOwn {κ : Type} [DecidableEq κ] (J : SerdeJson) (runtimeDir : String)
    (found : Bool) (id : SessionId) (eventName : κ → String) (polls : Nat)
    (tr : List (HookMoment κ)) : Prop where
  run : ∃ P, Pool.Run (Hook.step J) (pool J id eventName (.start runtimeDir id) polls) tr P
  latest : ∀ a m b event, tr = a ++ m :: b → returnedBy m = some event →
    (written eventName a).getLast? = some event
  inOrder : NonOverlapping tr → (written eventName tr).length < 2 ^ 64 → DeliveryLaw J eventName tr
  missing : found = false → written eventName tr = [] ∧ returned tr = []

end

/-- Each reader hears of the agent of its own session: in every interleaving of the reads
    and the writes of all sidecars with the polls of all readers, of which any may fail. -/
theorem hooks_reach_reader {κ : Type} [DecidableEq κ] (J : SerdeJson) (platform : Platform)
    (dirExists : String → Bool) (env : String → Option String)
    (agents : SessionId → String → Option String) (args : SessionId → κ → List String)
    (polls : SessionId → Nat)
    {tr : List (Moment (SessionId × Option κ) HookFiles (HookSig.at Address))}
    {P : Pool (SessionId × Option κ) HookFiles (HookSig.at Address) (Except RunError Unit)}
    (hagents : Inherits env agents)
    (hr : Pool.Run (filesStep J) (hookPool J platform dirExists env agents args polls) tr P)
    (id : SessionId) :
    HearsOwn J (specttyRuntimeDir platform env) (dirFound platform dirExists env) id
      (fun k => hookEventName platform dirExists env (args id k)) (polls id)
      (Pool.component (HookFiles.world platform env) id tr) := by
  obtain ⟨f, hcomponents⟩ :=
    @component_hookPool J platform dirExists env agents κ args polls hagents
  obtain ⟨Q, hrun, -⟩ := hr.component local_filesStep hcomponents id
  constructor
  case run => exact ⟨Q, hrun⟩
  case latest =>
      intro a m b event htr hm
      obtain ⟨P₁, P₂, hr₁, hs, -⟩ := hrun.split htr
      exact latest_of_run hr₁ hs hm
  case inOrder => exact fun hseq hlt => delivery_law ⟨hrun, hseq, hlt⟩
  case missing =>
      intro hfound
      have hunknown : ∀ k, HookEvent.parse (hookEventName platform dirExists env (args id k)) =
          none := by
        intro k
        rw [hookEventName, hfound]
        rfl
      have hwritten := written_eq_nil hunknown (Pool.component (HookFiles.world platform env) id tr)
      exact ⟨hwritten, returned_eq_nil hrun hwritten⟩

-- ============================================================================
-- Two sessions
-- ============================================================================

section

variable {J : SerdeJson} {platform : Platform} {env : String → Option String} {hooks : HookFiles}
  {id id' : SessionId} {w : HookWorld}

/-- The files and readers with those of one session replaced. -/
def HookFiles.put (platform : Platform) (env : String → Option String) (id : SessionId)
    (w : HookWorld) (hooks : HookFiles) : HookFiles where
  files := Function.update hooks.files (address platform env id).path w.file
  readers := Function.update hooks.readers id w.reader

theorem filesStep_put {o : HookOp} {r : HookOp.Reply o}
    (h : Hook.step J (hooks.world platform env id) ⟨o, r⟩ w) :
    filesStep J hooks ⟨(address platform env id, o), r⟩ (hooks.put platform env id w) :=
  ⟨w, h, rfl⟩

@[simp] theorem world_put_self : (hooks.put platform env id w).world platform env id = w := by
  simp [HookFiles.world, HookFiles.put, address]

@[simp] theorem world_put_of_ne (h : id' ≠ id) :
    (hooks.put platform env id w).world platform env id' = hooks.world platform env id' := by
  have hpath : statePath (specttyRuntimeDir platform env) id' ≠
      statePath (specttyRuntimeDir platform env) id := fun hpath => h (statePath_inj hpath)
  simp [HookFiles.world, HookFiles.put, address, h, hpath]

end

/-- The environment of the application. -/
abbrev homeEnv (name : String) : Option String := if name = "HOME" then some "/home/u" else none

abbrev agentsAtHome (id : SessionId) : String → Option String :=
  childEnv homeEnv [(sessionIdEnv, id)]

theorem inherits_agentsAtHome : Inherits homeEnv agentsAtHome := fun _ _ _ => rfl

/-- The hook of the first session, and that of each other one. -/
def hookArgs (id : SessionId) (_ : Unit) : List String :=
  ["spectty-hook", "--event", if id = "1" then "Submit" else "Stop"]

/-- One hook and one poll of each session. -/
abbrev twoSessions :
    Pool (SessionId × Option Unit) HookFiles (HookSig.at Address) (Except RunError Unit) :=
  hookPool .compact .linux (fun _ => true) homeEnv agentsAtHome hookArgs fun _ => 1

theorem threads_twoSessions (id : SessionId) :
    twoSessions.threads (id, some ()) =
      (handleEvent .compact (if id = "1" then "Submit" else "Stop") id).placed
        (address .linux homeEnv id) (·.mapError .ofHandle) :=
  sidecar_of_found inherits_agentsAtHome rfl rfl

/-- The hooks of two sessions overlap: each reads before the other writes.  Then the first
    session is polled. -/
theorem hooks_reach_reader_two :
    ∃ tr : List (Moment (SessionId × Option Unit) HookFiles (HookSig.at Address)),
      tr.map (·.thread) = [("1", some ()), ("2", some ()), ("2", some ()), ("1", some ()),
        ("1", none)] ∧
      returned (Pool.component (HookFiles.world .linux homeEnv) "1" tr) = [.submit] ∧
      HearsOwn .compact (specttyRuntimeDir .linux homeEnv)
        (dirFound .linux (fun _ => true) homeEnv) "1"
        (fun k => hookEventName .linux (fun _ => true) homeEnv (hookArgs "1" k)) 1
        (Pool.component (HookFiles.world .linux homeEnv) "1" tr) := by
  have hne : ("1" : String) ≠ "2" := by decide
  have hstart : ∀ id, (HookFiles.start .linux homeEnv).world .linux homeEnv id =
      .start (specttyRuntimeDir .linux homeEnv) id := fun _ => rfl
  have hread : ∀ id, Hook.step .compact (.start (specttyRuntimeDir .linux homeEnv) id)
      ⟨.readPrior, .ok none⟩ (.start (specttyRuntimeDir .linux homeEnv) id) :=
    fun _ => ⟨Or.inl rfl, rfl⟩
  have hpoll : (StateFileReader.new (specttyRuntimeDir .linux homeEnv) "1").poll .compact
      (some (stateFile .compact .submit 1 "1")) = (some .submit, _) :=
    (poll_stateFile rfl (by decide)).trans (if_pos (by decide))
  have h0 : Pool.Run (filesStep .compact) twoSessions []
      ⟨.start .linux homeEnv, twoSessions.threads⟩ := .nil
  have h1 := h0.next ("1", some ()) (threads_twoSessions "1")
    (filesStep_put (by rw [hstart]; exact hread "1")) rfl
  have h2 := h1.next ("2", some ()) (threads_twoSessions "2")
    (filesStep_put (by rw [world_put_of_ne hne.symm, hstart]; exact hread "2")) rfl
  have h3 := h2.next ("2", some ()) rfl
    (filesStep_put (by rw [world_put_self]; exact Or.inl ⟨rfl, rfl⟩)) rfl
  have h4 := h3.next ("1", some ()) rfl
    (filesStep_put (by
      rw [world_put_of_ne hne, world_put_of_ne hne, world_put_self]
      exact Or.inl ⟨rfl, rfl⟩)) rfl
  have h5 := h4.next ("1", none) rfl
    (filesStep_put (r := (_, some .submit)) (by
      rw [world_put_self]
      exact ⟨Or.inl rfl, (congrArg Prod.fst hpoll).symm, rfl⟩)) rfl
  exact ⟨_, rfl, rfl,
    hooks_reach_reader _ _ _ _ _ _ _ inherits_agentsAtHome h5 "1"⟩

end Spectty.Terminals
