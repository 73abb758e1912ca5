/-
  Spectty.Commands.Session

  The commands that start and end sessions, over the state they share: the
  session registry, the terminals with their provisioning handles, the diff
  pipelines and the configuration files.

  What a command asks of the outside (the clock, the terminal, the threads,
  locks, files) is in a record of its answers, so that a command is a function
  of the state and of these.
-/

import Spectty.Core.Session
import Spectty.Provision.Ownership
import Spectty.Provision.FileIo

namespace Spectty.Commands

open Spectty.Core
open Spectty.Lib
open Spectty.Provision

-- ============================================================================
-- The application
-- ============================================================================

/-- A path that the managed server may be written to. -/
def IsServersPath (path : String) : Prop :=
  path = ".claude.json" ∨ ∃ dir, path = dir ++ "/.claude.json" ∨ path = dir ++ "/.mcp.json"

/-- What the application finds when it starts: the home directory, the bundled
    sidecars, and the file system, on which a file may have several paths; but no
    link makes one file of a servers' file and a settings file. -/
structure Host where
  home : Option String
  specttyMcpCommand : String
  specttyHookCommand : String
  /-- The file that a path names, throughout: links lead to directories, and none is itself
      a configuration file, which a rename would replace. -/
  fileAt : String → String
  apart : ∀ dir path, IsServersPath path → fileAt path ≠ fileAt (dir ++ "/.claude/settings.json")

/-- The hook events registered in production. -/
def productionHookEvents (hookCmd : String) : List HookEvent :=
  [{ eventName := "UserPromptSubmit"
     entry := { command := hookCmd, args := ["--event", "Submit"] }
     matcher := none },
   { eventName := "Stop"
     entry := { command := hookCmd, args := ["--event", "Stop"] }
     matcher := none },
   { eventName := "Notification"
     entry := { command := hookCmd, args := ["--event", "Permission"] }
     matcher := some "permission_prompt" },
   { eventName := "SessionEnd"
     entry := { command := hookCmd, args := ["--event", "SessionEnd"] }
     matcher := none }]

namespace Host

def homeClaudeJson (self : Host) : String :=
  match self.home with
  | some home => home ++ "/.claude.json"
  | none => ".claude.json"

def homeSettingsJson (self : Host) : String := self.home.getD "."

/-- The provisioner of the managed server. -/
def mcpProvisioner (self : Host) : ClaudeJsonProvisioner where
  homeClaudeJson := self.homeClaudeJson
  mcpEntry := { command := self.specttyMcpCommand, args := ["--stdio"], env := [] }

/-- The provisioner of the hook rows. -/
def hooksProvisioner (self : Host) : ClaudeSettingsProvisioner where
  homeSettingsJson := self.homeSettingsJson
  hookCommand := self.specttyHookCommand
  events := productionHookEvents self.specttyHookCommand

/-- The file seam, with the given failures. -/
abbrev seam (self : Host) (f : Files.Faults) : Prog.Handler ConfigSig Files :=
  Files.resolved self.fileAt f

end Host

/-- Whether a runner's agents are provisioned, by the kind of agent. -/
def requiresProvisioning (kind : String) : Option Bool :=
  if kind = "claude-code" then some true
  else if kind = "generic" then some false
  else none

/-- Where to provision: in the repository if its configuration is tracked. -/
def resolveScope (repoRoot : Option String) (configPath : String)
    (isGitTracked : String → Bool) : ProvisioningScope :=
  match repoRoot with
  | some root => if isGitTracked configPath then .project root else .global
  | none => .global

-- ============================================================================
-- The shared state
-- ============================================================================

/-- A terminal's handles on the configuration files. -/
structure PtyState where
  provisioning : Option ProvisioningHandle
  hooksHandle : Option ProvisioningHandle
deriving DecidableEq

/-- A session's diff pipeline. -/
structure DiffPipeline where
  sessionId : SessionId
  workspace : String
deriving DecidableEq

/-- What the commands share.  The configuration files are those of the machine, not of
    the paths that name them. -/
structure AppState where
  sessions : SessionRegistry
  ptys : String → Option PtyState
  pipelines : String → Option DiffPipeline
  files : Files

/-- The state at application start, over the user's files. -/
def AppState.initial (files : Files) : AppState where
  sessions := .empty
  ptys := fun _ => none
  pipelines := fun _ => none
  files := files

-- ============================================================================
-- spawn_session
-- ============================================================================

/-- The arguments of `spawn_session`. -/
structure SpawnArgs where
  agent : AgentSpec
  workspacePath : String
  title : String

/-- What the outside answers during a spawn. -/
structure SpawnIo where
  now : Timestamp
  isGitTracked : String → Bool
  mcpInject : Files.Faults
  hooksInject : Files.Faults
  openPty : Except String Unit
  spawnThreads : Except String Unit
  ptysPoisoned : Bool
  mcpRetract : Files.Faults
  hooksRetract : Files.Faults

/-- What the first half of a spawn hands to the second. -/
structure SpawnOutcome where
  id : SessionId
  handle : Option ProvisioningHandle
  hooksHandle : Option ProvisioningHandle

section

variable (J : ConfigJson) (host : Host)

/-- The scope of a spawn. -/
def SpawnArgs.scope (args : SpawnArgs) (io : SpawnIo) : ProvisioningScope :=
  resolveScope (some args.workspacePath) (args.workspacePath ++ "/.mcp.json") io.isGitTracked

/-- Inject both provisioners, the managed server first. -/
def injectBoth (scope : ProvisioningScope) (io : SpawnIo) (files : Files) :
    Except String (ProvisioningHandle × ProvisioningHandle) × Files :=
  match (host.mcpProvisioner.inject J scope).interp (host.seam io.mcpInject) files with
  | (.error e, files) => (.error ("mcp provisioning inject failed: " ++ e.message), files)
  | (.ok handle, files) =>
      match (host.hooksProvisioner.inject J scope).interp (host.seam io.hooksInject) files with
      | (.error e, files) => (.error ("hooks provisioning inject failed: " ++ e.message), files)
      | (.ok hooksHandle, files) => (.ok (handle, hooksHandle), files)

/-- Mint an id, find the runner, inject, and register the session. -/
def spawnSessionImplWithHooks (args : SpawnArgs) (io : SpawnIo) (scope : ProvisioningScope)
    (st : AppState) : Except String SpawnOutcome × AppState :=
  let (id, sessions) := st.sessions.mintId
  let session : Session :=
    { id, workspace := args.workspacePath, agent := args.agent, status := .starting,
      title := args.title, createdAt := io.now }
  match requiresProvisioning args.agent.kind with
  | none =>
      (.error ("no runner registered for agent kind: " ++ args.agent.kind), { st with sessions })
  | some false =>
      (.ok { id, handle := none, hooksHandle := none },
        { st with sessions := sessions.insert session })
  | some true =>
      match injectBoth J host scope io st.files with
      | (.error e, files) => (.error e, { st with sessions, files })
      | (.ok (handle, hooksHandle), files) =>
          (.ok { id, handle := some handle, hooksHandle := some hooksHandle },
            { st with sessions := sessions.insert session, files })

/-- Open the terminal, start its threads, register the pipeline and the
    terminal. -/
def spawnPty (outcome : SpawnOutcome) (args : SpawnArgs) (io : SpawnIo) (st : AppState) :
    Except String Unit × AppState :=
  match io.openPty with
  | .error e => (.error e, st)
  | .ok () =>
      match io.spawnThreads with
      | .error e => (.error e, st)
      | .ok () =>
          let pipeline := { sessionId := outcome.id, workspace := args.workspacePath }
          let st := { st with pipelines := Function.update st.pipelines outcome.id (some pipeline) }
          if io.ptysPoisoned then (.error "pty registry mutex poisoned", st)
          else
            let pty := { provisioning := outcome.handle, hooksHandle := outcome.hooksHandle }
            (.ok (), { st with ptys := Function.update st.ptys outcome.id (some pty) })

/-- Retract by a handle, if there is one. -/
def retractHandle (port : ProvisioningPort) (handle : Option ProvisioningHandle)
    (faults : Files.Faults) (files : Files) : Except ProvisioningError Unit × Files :=
  match handle with
  | none => (.ok (), files)
  | some handle => (port.retract handle).interp (host.seam faults) files

/-- Retract what a failed spawn has injected, whether that succeeds or not,
    and remove its session. -/
def cleanupFailedSpawn (outcome : SpawnOutcome) (io : SpawnIo) (st : AppState) : AppState :=
  let files := (retractHandle host (host.mcpProvisioner.port J) outcome.handle io.mcpRetract
    st.files).2
  let files := (retractHandle host (host.hooksProvisioner.port J) outcome.hooksHandle
    io.hooksRetract files).2
  { st with files, sessions := (st.sessions.remove outcome.id).2 }

/-- The second half of a spawn, with its cleanup. -/
def finishSpawnImpl (outcome : SpawnOutcome) (args : SpawnArgs) (io : SpawnIo) (st : AppState) :
    Except String Unit × AppState :=
  match spawnPty outcome args io st with
  | (.ok (), st) => (.ok (), st)
  | (.error e, st) => (.error e, cleanupFailedSpawn J host outcome io st)

/-- Spawn an agent session. -/
def spawnSession (args : SpawnArgs) (io : SpawnIo) (st : AppState) :
    Except String SessionId × AppState :=
  match spawnSessionImplWithHooks J host args io (args.scope io) st with
  | (.error e, st) => (.error e, st)
  | (.ok outcome, st) =>
      -- the runner is found a second time here: the table of runners never changes
      match finishSpawnImpl J host outcome args io st with
      | (.error e, st) => (.error e, st)
      | (.ok (), st) =>
          match st.sessions.get outcome.id with
          | none => (.error "session vanished after insert", st)
          | some _ => (.ok outcome.id, st)

-- ============================================================================
-- close_session, pty_kill, pty_spawn
-- ============================================================================

/-- What the outside answers during a close. -/
structure CloseIo where
  ptysPoisoned : Bool
  mcpRetract : Files.Faults
  hooksRetract : Files.Faults
  deleteState : Except IoError Unit
  deleteStateTmp : Except IoError Unit

/-- The failure of a deletion, unless there was nothing to delete. -/
def deletionError (what : String) : Except IoError Unit → Option String
  | .ok () => none
  | .error e => if e.notFound then none else some ("failed to delete hook " ++ what ++ e.message)

/-- Retract both provisioners, delete the state files, remove the session. -/
def closeSessionImplWithHooks (id : SessionId) (mcpHandle hooksHandle : Option ProvisioningHandle)
    (io : CloseIo) (st : AppState) : Except String Unit × AppState :=
  -- the kill before this only stops the terminal's child and threads, and always succeeds
  match retractHandle host (host.mcpProvisioner.port J) mcpHandle io.mcpRetract st.files with
  | (.error e, files) =>
      (.error ("mcp provisioner retract failed: " ++ e.message), { st with files })
  | (.ok (), files) =>
      match retractHandle host (host.hooksProvisioner.port J) hooksHandle io.hooksRetract
          files with
      | (.error e, files) =>
          (.error ("hooks provisioner retract failed: " ++ e.message), { st with files })
      | (.ok (), files) =>
          match (deletionError "state file: " io.deleteState).or
              (deletionError "state tmp file: " io.deleteStateTmp) with
          | some e => (.error e, { st with files })
          | none => (.ok (), { st with files, sessions := (st.sessions.remove id).2 })

/-- Tear a session down. -/
def closeSession (id : SessionId) (io : CloseIo) (st : AppState) : Except String Unit × AppState :=
  let st := { st with pipelines := Function.update st.pipelines id none }
  if io.ptysPoisoned then (.error "pty registry mutex poisoned", st)
  else
    let ptyState := st.ptys id
    closeSessionImplWithHooks J host id (ptyState.bind (·.provisioning))
      (ptyState.bind (·.hooksHandle)) io { st with ptys := Function.update st.ptys id none }

/-- Terminate a terminal. -/
def ptyKill (id : String) (ptysPoisoned : Bool) (st : AppState) : Except String Unit × AppState :=
  if ptysPoisoned then (.error "pty registry mutex poisoned", st)
  else
    match st.ptys id with
    | none => (.error ("unknown pty id: " ++ id), st)
    | some _ => (.ok (), { st with ptys := Function.update st.ptys id none })

/-- What the outside answers while a terminal without an agent is opened. -/
structure PtySpawnIo where
  openPty : Except String Unit
  spawnThread : Except String Unit
  ptysPoisoned : Bool

/-- Open a terminal without an agent. -/
def ptySpawn (io : PtySpawnIo) (st : AppState) : Except String String × AppState :=
  match io.openPty with
  | .error e => (.error e, st)
  | .ok () =>
      let (id, sessions) := st.sessions.mintId
      let st := { st with sessions }
      match io.spawnThread with
      | .error e => (.error e, st)
      | .ok () =>
          if io.ptysPoisoned then (.error "pty registry mutex poisoned", st)
          else
            let pty := { provisioning := none, hooksHandle := none }
            (.ok id, { st with ptys := Function.update st.ptys id (some pty) })

/-- The commands that start and end sessions and terminals. -/
inductive Command where
  | spawnSession (args : SpawnArgs) (io : SpawnIo)
  | closeSession (id : SessionId) (io : CloseIo)
  | ptyKill (id : String) (ptysPoisoned : Bool)
  | ptySpawn (io : PtySpawnIo)

/-- The state after a command. -/
def Command.exec (st : AppState) : Command → AppState
  | .spawnSession args io => (Commands.spawnSession J host args io st).2
  | .closeSession id io => (Commands.closeSession J host id io st).2
  | .ptyKill id ptysPoisoned => (Commands.ptyKill id ptysPoisoned st).2
  | .ptySpawn io => (Commands.ptySpawn io st).2

end

end Spectty.Commands
