/-
  Spectty.Diff.Announced

  The diff of a session whose agent announces its edits: the trigger documents of the
  sidecar start the passes.

  The loop that polls the documents starts a pass for each that is new, and the passes
  run beside each other.  `announced_law` says that the explanation served, while no pass
  holds the slot, is that of the diff that git answered last; and that this diff is the
  one of the tree once the announcements have gone through, unless a pass was turned away
  by one that had asked git already.  Such a session has no file watcher.
-/

import Spectty.Diff.Passes
import Spectty.Diff.Watched
import Spectty.Lib.JsonText
import Spectty.Mcp.Stdio
import Spectty.Specs.PollBus

namespace Spectty.Diff

open Spectty.Lib
open Spectty.Specs (InStep pollRead)

-- ============================================================================
-- The session
-- ============================================================================

/-- Run an operation of the sidecar.  A write that fails may be there all the same. -/
def storing (answer : Except String Unit) (kept : Bool) : Prog.Handler Sys World := fun o w =>
  match o with
  | .storeUpsert key payload =>
      (answer, if answer.isOk || kept then w.write key payload else w)
  | o => World.handler World.noFaults o w

/-- The passes, the store, and the loop that polls it.  `edited` says whether the tree was
    edited since the trigger document last changed. -/
structure AnnouncedDiff extends Passes where
  sys : World
  bus : SpecBus
  reader : PortPollReader
  edited : Bool

/-- A step: an edit, after which `git diff HEAD` is `tree`; a call of `spectty_diff`; a
    tick of the loop, whose read may fail; or an operation of one of the passes, where
    `git` says whether git answers, if it is asked. -/
inductive AnnouncedStep where
  | edit (tree : String)
  | specttyDiff (env : Mcp.Env) (arguments : Option Json) (answer : Except String Unit)
      (kept : Bool)
  | poll (failed : Option String)
  | pass (k : Nat) (git : Except GitError Unit)

namespace AnnouncedDiff

variable (J : SerdeJson) (contentHash hashDiff : String → Nat) (pipeline : DiffPipeline)

/-- The session starts: what the store has is of earlier runs. -/
def start (sys : World) (tree : String) : AnnouncedDiff where
  toPasses := .start tree
  sys := sys
  bus := .new (Mcp.diffKey pipeline.sessionId)
  reader := .new
  edited := false

/-- The trigger document of the session. -/
def document (self : AnnouncedDiff) : Option String :=
  self.sys.content (Mcp.diffKey pipeline.sessionId)

def next (self : AnnouncedDiff) : AnnouncedStep → AnnouncedDiff
  | .edit tree => { self with toPasses := self.toPasses.edit tree, edited := true }
  | .specttyDiff env arguments answer kept =>
      let (_, sys) :=
        (Mcp.specttyDiffEffect J env arguments).interp (storing answer kept) self.sys
      let after := { self with sys }
      { after with
        edited := self.edited && decide (after.document pipeline = self.document pipeline) }
  | .poll failed =>
      let ((change, bus, reader), sys) := (self.bus.poll contentHash self.reader).interp
        (World.handler { get := failed, upsert := none }) self.sys
      let passes := match change with
        | some _ => self.toPasses.spawn hashDiff pipeline
        | none => self.toPasses
      { self with toPasses := passes, sys, bus, reader }
  | .pass k git => { self with toPasses := self.toPasses.go k git }

end AnnouncedDiff

-- ============================================================================
-- What each step does
-- ============================================================================

/-- The trigger document that a step writes, if it writes one. -/
def AnnouncedStep.announcement (J : SerdeJson) : AnnouncedStep → Option String
  | .specttyDiff env (some arguments) _ _ =>
      match Mcp.stringArgument "spectty_diff" "session_id" arguments with
      | .ok sessionId => some (J.toString (Mcp.diffTrigger env.nonce sessionId arguments))
      | .error _ => none
  | _ => none

namespace AnnouncedDiff

variable {J : SerdeJson} {contentHash hashDiff : String → Nat} {pipeline : DiffPipeline}
  {known : Set String} {self : AnnouncedDiff} {tree : String}

/-- What a call leaves of the store. -/
theorem specttyDiffEffect_interp (env : Mcp.Env) (arguments : Json)
    (answer : Except String Unit) (kept : Bool) (sys : World) :
    ((Mcp.specttyDiffEffect J env (some arguments)).interp (storing answer kept) sys).2 =
      match Mcp.stringArgument "spectty_diff" "session_id" arguments with
      | .error _ => sys
      | .ok sessionId =>
          if answer.isOk || kept then
            sys.write (Mcp.diffKey sessionId)
              (J.toString (Mcp.diffTrigger env.nonce sessionId arguments))
          else sys := by
  have hvalidated : (do
      let arguments ← Mcp.presentArguments (some arguments)
      let sessionId ← Mcp.stringArgument "spectty_diff" "session_id" arguments
      return (arguments, sessionId) : Except Mcp.RpcError (Json × String)) =
      (Mcp.stringArgument "spectty_diff" "session_id" arguments).map fun sessionId =>
        (arguments, sessionId) := by
    cases hid : Mcp.stringArgument "spectty_diff" "session_id" arguments <;>
      simp only [Mcp.presentArguments, bind, Except.bind, hid] <;> rfl
  rw [Mcp.specttyDiffEffect]
  dsimp only
  rw [hvalidated]
  cases Mcp.stringArgument "spectty_diff" "session_id" arguments with
  | error e => rfl
  | ok sessionId => cases answer <;> rfl

/-- A call leaves the document of the session, or writes its own; of the rest, it changes
    only whether there are edits since. -/
theorem next_specttyDiff (env : Mcp.Env) (arguments : Option Json) (answer : Except String Unit)
    (kept : Bool) :
    let c : AnnouncedStep := .specttyDiff env arguments answer kept
    ∃ sys edited, self.next J contentHash hashDiff pipeline c = { self with sys, edited } ∧
      (sys.content (Mcp.diffKey pipeline.sessionId) = self.document pipeline ∧
          edited = self.edited ∨
        ∃ doc, c.announcement J = some doc ∧
          sys.content (Mcp.diffKey pipeline.sessionId) = some doc) := by
  intro c
  refine ⟨_, _, rfl, ?_⟩
  generalize hsys : ((Mcp.specttyDiffEffect J env arguments).interp (storing answer kept)
    self.sys).2 = sys
  have hcases : sys.content (Mcp.diffKey pipeline.sessionId) = self.document pipeline ∨
      ∃ doc, c.announcement J = some doc ∧
        sys.content (Mcp.diffKey pipeline.sessionId) = some doc := by
    subst hsys
    cases arguments with
    | none => exact .inl rfl
    | some arguments =>
        rw [specttyDiffEffect_interp]
        simp only [c, AnnouncedStep.announcement]
        cases Mcp.stringArgument "spectty_diff" "session_id" arguments with
        | error e => exact .inl rfl
        | ok sessionId =>
            dsimp only
            split_ifs with hstored
            · by_cases hkey : storeKey (Mcp.diffKey sessionId) =
                  storeKey (Mcp.diffKey pipeline.sessionId)
              · right
                refine ⟨_, rfl, ?_⟩
                rw [World.content, ← hkey]
                exact World.content_write self.sys (Mcp.diffKey sessionId) _
              · exact .inl (World.content_write_other hkey)
            · exact .inl rfl
  refine hcases.imp_left fun hsame => ⟨hsame, ?_⟩
  show (self.edited && decide (sys.content (Mcp.diffKey pipeline.sessionId) =
    self.document pipeline)) = self.edited
  rw [decide_eq_true hsame, Bool.and_true]

/-- What a tick reads. -/
def polled (pipeline : DiffPipeline) (self : AnnouncedDiff) : Option String → Specs.PortRead
  | some msg => .error msg
  | none => .ok (self.document pipeline)

/-- A tick reads the document, and starts a pass if it is new. -/
theorem next_poll (failed : Option String)
    (htopic : self.bus.topicKey = Mcp.diffKey pipeline.sessionId) :
    self.next J contentHash hashDiff pipeline (.poll failed) =
      let seen := pollRead contentHash self.bus self.reader (self.polled pipeline failed)
      { self with
        toPasses := match seen.1 with
          | some _ => self.toPasses.spawn hashDiff pipeline
          | none => self.toPasses
        bus := seen.2.1
        reader := seen.2.2 } := by
  rw [next, Specs.poll_eq_pollRead, htopic]
  cases failed <;> rfl

-- ============================================================================
-- The way of an announcement
-- ============================================================================

/-- The document has been read. -/
def HasRead (contentHash : String → Nat) (pipeline : DiffPipeline) (self : AnnouncedDiff) :
    Prop :=
  self.reader.lastContentHash = (self.document pipeline).map contentHash

/-- An edit has not been announced, or the announcement not been read. -/
def Announcing (contentHash : String → Nat) (pipeline : DiffPipeline) (self : AnnouncedDiff) :
    Prop :=
  self.edited = true ∨ ¬ self.HasRead contentHash pipeline

/-- The document, and what the loop has read of it, are among the documents so far. -/
structure Polling (contentHash : String → Nat) (pipeline : DiffPipeline) (docs : List String)
    (polls : Nat) (session : AnnouncedDiff) : Prop where
  inStep : ∃ last, InStep contentHash (Mcp.diffKey pipeline.sessionId) last session.bus
    session.reader ∧ ∀ doc ∈ last, doc ∈ docs
  known : ∀ doc ∈ session.document pipeline, doc ∈ docs
  revision : session.reader.revision ≤ polls

/-- A tick: the document that is read was read before, or starts a pass. -/
theorem Polling.tick {docs : List String} {polls : Nat}
    (hinj : Set.InjOn contentHash {doc | doc ∈ docs}) (hpolls : polls + 1 < 2 ^ 64)
    (h : Polling contentHash pipeline docs polls self) (failed : Option String) :
    let after := self.next J contentHash hashDiff pipeline (.poll failed)
    Polling contentHash pipeline docs (polls + 1) after ∧
      (after.reader = self.reader ∧ after.toPasses = self.toPasses ∨
        after.toPasses = self.toPasses.spawn hashDiff pipeline) := by
  obtain ⟨last, hstep, hlast⟩ := h.inStep
  have hafter := @next_poll J contentHash hashDiff pipeline self failed hstep.topic
  intro after
  -- a read that finds nothing new
  have hnothing : pollRead contentHash self.bus self.reader (self.polled pipeline failed) =
        (none, self.bus, self.reader) →
      Polling contentHash pipeline docs (polls + 1) after ∧
        (after.reader = self.reader ∧ after.toPasses = self.toPasses ∨
          after.toPasses = self.toPasses.spawn hashDiff pipeline) := by
    intro hseen
    rw [hseen] at hafter
    rw [show after = _ from hafter]
    exact ⟨⟨h.inStep, h.known, Nat.le_succ_of_le h.revision⟩, .inl ⟨rfl, rfl⟩⟩
  cases failed with
  | some msg => exact hnothing (Specs.pollRead_of_none rfl)
  | none =>
      cases hdoc : self.document pipeline with
      | none => exact hnothing (Specs.pollRead_of_none (by rw [polled, hdoc]; rfl))
      | some doc =>
          rw [polled, hdoc] at hafter hnothing
          by_cases hsame : last = some doc
          · subst hsame
            exact hnothing (Specs.pollRead_of_same hstep)
          · have hin : doc ∈ docs := h.known doc hdoc
            have hne : ∀ c, last = some c → contentHash c ≠ contentHash doc := by
              rintro c hc hhash
              rw [hinj (hlast c hc) hin hhash] at hc
              exact hsame hc
            have hrevision : self.reader.revision + 1 < 2 ^ 64 :=
              lt_of_le_of_lt (Nat.succ_le_succ h.revision) hpolls
            obtain ⟨⟨change, hchange, -⟩, hstep', hcount⟩ :=
              Specs.pollRead_of_ne hstep hne hrevision
            rw [show after = _ from hafter]
            refine ⟨⟨⟨some doc, hstep', ?_⟩, h.known, ?_⟩, .inr ?_⟩
            · rintro c hc
              obtain rfl := Option.some.inj hc
              exact hin
            · rw [hcount]
              exact Nat.succ_le_succ h.revision
            · dsimp only
              rw [hchange]

-- ============================================================================
-- One step
-- ============================================================================

/-- The texts of the tree in a run. -/
def texts (tree : String) (steps : List AnnouncedStep) : Set String :=
  {text | text = "" ∨ text = tree ∨ .edit text ∈ steps}

/-- The trigger documents of a run: the one of an earlier run, if there is one, and those of
    the calls. -/
def documents (J : SerdeJson) (stored : Option String) (steps : List AnnouncedStep) :
    List String :=
  stored.toList ++ steps.filterMap (AnnouncedStep.announcement J)

theorem documents_concat (stored : Option String) (steps : List AnnouncedStep)
    (c : AnnouncedStep) :
    documents J stored (steps ++ [c]) =
      documents J stored steps ++ (c.announcement J).toList := by
  rw [documents, List.filterMap_append, ← List.append_assoc, documents]
  congr 1

/-- The invariant, after some steps. -/
structure Sound (J : SerdeJson) (contentHash hashDiff : String → Nat) (pipeline : DiffPipeline)
    (known : Set String) (tree : String) (stored : Option String) (steps : List AnnouncedStep)
    (session : AnnouncedDiff) : Prop where
  tracked : session.toPasses.Tracked hashDiff pipeline known tree
    (session.Announcing contentHash pipeline)
  polling : Polling contentHash pipeline (documents J stored steps) steps.length session

section

variable {stored : Option String} {steps : List AnnouncedStep}

/-- A step that leaves the loop as it is. -/
theorem Polling.frame
    (h : Polling contentHash pipeline (documents J stored steps) steps.length self)
    {c : AnnouncedStep} {after : AnnouncedDiff} (hbus : after.bus = self.bus)
    (hreader : after.reader = self.reader)
    (hknown : ∀ doc ∈ after.document pipeline, doc ∈ documents J stored (steps ++ [c])) :
    Polling contentHash pipeline (documents J stored (steps ++ [c])) (steps ++ [c]).length
      after := by
  obtain ⟨last, hstep, hlast⟩ := h.inStep
  refine ⟨⟨last, by rw [hbus, hreader]; exact hstep, fun doc hdoc => ?_⟩, hknown, ?_⟩
  · rw [documents_concat]
    exact List.mem_append_left _ (hlast doc hdoc)
  · rw [hreader, List.length_append]
    exact Nat.le_add_right_of_le h.revision

theorem sound_edit (h : Sound J contentHash hashDiff pipeline known tree stored steps self)
    {text : String} (htext : marker text ∈ known) :
    Sound J contentHash hashDiff pipeline known tree stored (steps ++ [.edit text])
      (self.next J contentHash hashDiff pipeline (.edit text)) := by
  refine ⟨h.tracked.edit htext (.inl rfl), h.polling.frame rfl rfl fun doc hdoc => ?_⟩
  rw [documents_concat]
  exact List.mem_append_left _ (h.polling.known doc hdoc)

theorem sound_specttyDiff
    (h : Sound J contentHash hashDiff pipeline known tree stored steps self)
    {env : Mcp.Env} {arguments : Option Json} {answer : Except String Unit} {kept : Bool}
    (hdocs : ((documents J stored (steps ++ [.specttyDiff env arguments answer kept])).map
      contentHash).Nodup) :
    Sound J contentHash hashDiff pipeline known tree stored
      (steps ++ [.specttyDiff env arguments answer kept])
      (self.next J contentHash hashDiff pipeline (.specttyDiff env arguments answer kept)) := by
  obtain ⟨htracked, hpolling⟩ := h
  obtain ⟨sys, edited, hnext, hcases⟩ :=
    @next_specttyDiff J contentHash hashDiff pipeline self env arguments answer kept
  rw [hnext]
  rw [documents_concat] at hdocs
  refine ⟨htracked.mono fun hannouncing => ?_, hpolling.frame rfl rfl fun doc hdoc => ?_⟩
  · rcases hcases with ⟨hsame, rfl⟩ | ⟨written, hwritten, hnew⟩
    · refine hannouncing.imp_right fun hunread hread => hunread ?_
      rw [HasRead, ← hsame]
      exact hread
    · -- no document before had this hash
      obtain ⟨last, hstep, hlast⟩ := hpolling.inStep
      refine .inr fun hread => ?_
      have hread : self.reader.lastContentHash =
        (sys.content (Mcp.diffKey pipeline.sessionId)).map contentHash := hread
      rw [hnew, hstep.hash] at hread
      obtain ⟨doc, hdoc, hhash⟩ := Option.map_eq_some_iff.mp hread
      rw [hwritten, Option.toList_some, List.map_append] at hdocs
      refine (List.nodup_append.mp hdocs).2.2 _ (List.mem_map_of_mem (hlast doc hdoc)) _ ?_ hhash
      exact List.mem_singleton_self _
  · have hdoc : sys.content (Mcp.diffKey pipeline.sessionId) = some doc := hdoc
    rw [documents_concat]
    rcases hcases with ⟨hsame, -⟩ | ⟨written, hwritten, hnew⟩
    · exact List.mem_append_left _ (hpolling.known doc (hsame ▸ hdoc))
    · obtain rfl := Option.some.inj (hnew.symm.trans hdoc)
      rw [hwritten]
      exact List.mem_append_right _ (List.mem_singleton_self _)

theorem sound_poll (h : Sound J contentHash hashDiff pipeline known tree stored steps self)
    {failed : Option String}
    (hdocs : ((documents J stored (steps ++ [.poll failed])).map contentHash).Nodup)
    (hlength : (steps ++ [AnnouncedStep.poll failed]).length < 2 ^ 64) :
    Sound J contentHash hashDiff pipeline known tree stored (steps ++ [.poll failed])
      (self.next J contentHash hashDiff pipeline (.poll failed)) := by
  obtain ⟨htracked, hpolling⟩ := h
  have hsame : documents J stored (steps ++ [.poll failed]) = documents J stored steps := by
    rw [documents_concat]
    exact List.append_nil _
  rw [hsame] at hdocs
  rw [List.length_append] at hlength
  obtain ⟨hpolling', hpassed⟩ := @Polling.tick J contentHash hashDiff pipeline self _ _
    (List.inj_on_of_nodup_map hdocs) hlength hpolling failed
  obtain ⟨last, hstep, -⟩ := hpolling.inStep
  have hedited : (self.next J contentHash hashDiff pipeline (.poll failed)).edited = self.edited ∧
      (self.next J contentHash hashDiff pipeline (.poll failed)).sys = self.sys := by
    rw [next_poll failed hstep.topic]
    exact ⟨rfl, rfl⟩
  generalize self.next J contentHash hashDiff pipeline (.poll failed) = after at *
  refine ⟨?_, by rw [hsame, List.length_append]; exact hpolling'⟩
  rcases hpassed with ⟨hreader, hpasses⟩ | hspawned
  · rw [hpasses]
    refine htracked.mono fun hannouncing => ?_
    unfold Announcing HasRead document
    rw [hreader, hedited.1, hedited.2]
    exact hannouncing
  · rw [hspawned]
    exact htracked.spawn

theorem sound_pass (hinj : Set.InjOn hashDiff known)
    (h : Sound J contentHash hashDiff pipeline known tree stored steps self) {k : Nat}
    {git : Except GitError Unit} :
    Sound J contentHash hashDiff pipeline known tree stored (steps ++ [.pass k git])
      (self.next J contentHash hashDiff pipeline (.pass k git)) := by
  refine ⟨h.tracked.go hinj k git, h.polling.frame rfl rfl fun doc hdoc => ?_⟩
  rw [documents_concat]
  exact List.mem_append_left _ (h.polling.known doc hdoc)

end

-- ============================================================================
-- Any run
-- ============================================================================

theorem sound_start (sys : World) (htree : marker tree ∈ known) :
    Sound J contentHash hashDiff pipeline known tree ((start pipeline sys tree).document pipeline)
      [] (start pipeline sys tree) := by
  refine ⟨Passes.tracked_start htree, ⟨none, Specs.inStep_start none, nofun⟩,
    fun doc hdoc => ?_, le_rfl⟩
  rw [documents, List.filterMap_nil, List.append_nil, hdoc]
  exact List.mem_singleton_self doc

theorem sound_run {sys : World} {steps : List AnnouncedStep}
    (hinj : Set.InjOn hashDiff (texts tree steps))
    (hdocs : ((documents J ((start pipeline sys tree).document pipeline) steps).map
      contentHash).Nodup)
    (hlength : steps.length < 2 ^ 64) {pre : List AnnouncedStep} (hpre : pre <+: steps) :
    Sound J contentHash hashDiff pipeline (texts tree steps) tree
      ((start pipeline sys tree).document pipeline) pre
      (Machine.run (next J contentHash hashDiff pipeline) (start pipeline sys tree) pre) := by
  induction pre using List.reverseRecOn with
  | nil => exact sound_start sys (marker_mem (.inl rfl) (.inr (.inl rfl)))
  | append_singleton pre c ih =>
      have hbefore := ih ((List.prefix_append pre [c]).trans hpre)
      have hsublist : List.Sublist
          (documents J ((start pipeline sys tree).document pipeline) (pre ++ [c]))
          (documents J ((start pipeline sys tree).document pipeline) steps) :=
        (List.Sublist.refl _).append (hpre.sublist.filterMap _)
      have hdocs' := hdocs.sublist (hsublist.map contentHash)
      rw [Machine.run_concat]
      cases c with
      | edit text =>
          have htext : .edit text ∈ steps := hpre.subset (by simp)
          exact sound_edit hbefore (marker_mem (.inl rfl) (.inr (.inr htext)))
      | specttyDiff => exact sound_specttyDiff hbefore hdocs'
      | poll => exact sound_poll hbefore hdocs' (lt_of_le_of_lt hpre.length_le hlength)
      | pass => exact sound_pass hinj hbefore

/-- Every edit has been announced, the loop has read the announcement, and the passes it
    has started have returned. -/
structure Quiet (contentHash : String → Nat) (pipeline : DiffPipeline) (session : AnnouncedDiff) :
    Prop where
  announced : session.edited = false
  hasRead : session.HasRead contentHash pipeline
  returned : session.Rested

/-- While no pass holds the slot, the explanation served is that of the diff that git
    answered last.  Once the announcements of the edits have gone through, git was last asked
    for the tree as it is, unless a pass was turned away by one that had asked before. -/
theorem announced_law (J : SerdeJson) (contentHash hashDiff : String → Nat)
    (pipeline : DiffPipeline) (sys : World) (tree : String) (steps : List AnnouncedStep)
    (hinj : Set.InjOn hashDiff (texts tree steps))
    (hdocs : ((documents J ((start pipeline sys tree).document pipeline) steps).map
      contentHash).Nodup)
    (hlength : steps.length < 2 ^ 64) :
    let after := Machine.run (next J contentHash hashDiff pipeline) (start pipeline sys tree) steps
    (after.world.state.inFlight = false →
      DiffPipeline.currentExplanation after.world = after.lastRead.map buildExplanation) ∧
    (after.Quiet contentHash pipeline → after.dropped = true ∨ after.ShowsTree tree) := by
  intro after
  obtain ⟨htracked, -⟩ := sound_run hinj hdocs hlength (List.prefix_refl steps)
  refine ⟨htracked.served, fun hquiet => htracked.shows hquiet.returned ?_⟩
  rintro (hedited | hunread)
  · rw [hquiet.announced] at hedited
    cases hedited
  · exact hunread hquiet.hasRead

/-- A call for the session of `wsPipeline`. -/
def announceEdit (nonce : Nat) : AnnouncedStep :=
  .specttyDiff { nonce, maxPolls := 0 } (some (.obj [("session_id", .str "0")])) (.ok ()) false

/-- A file is edited and announced, and the pass that this starts is run. -/
def oneEditAnnounced : List AnnouncedStep :=
  [.edit "+x", announceEdit 1, .poll none] ++ List.replicate 7 (.pass 0 (.ok ()))

theorem announced_law_oneEdit :
    (Machine.run (next .compact String.length String.length WatchedDiff.wsPipeline)
      (start WatchedDiff.wsPipeline World.initial "") oneEditAnnounced).ShowsTree "" := by
  have hlaw := announced_law .compact String.length String.length WatchedDiff.wsPipeline
    World.initial "" oneEditAnnounced ?inj (List.nodup_singleton _) (by decide)
  case inj =>
    have htexts : ∀ text ∈ texts "" oneEditAnnounced, text = "" ∨ text = "+x" := by
      rintro text (rfl | rfl | hedit)
      · exact .inl rfl
      · exact .inl rfl
      · simp [oneEditAnnounced, announceEdit] at hedit
        exact .inr hedit
    intro a ha b hb hlength
    rcases htexts a ha with rfl | rfl <;> rcases htexts b hb with rfl | rfl
    · rfl
    · exact absurd hlength (by decide)
    · exact absurd hlength (by decide)
    · rfl
  have hpasses : (Machine.run (next .compact String.length String.length WatchedDiff.wsPipeline)
      (start WatchedDiff.wsPipeline World.initial "") oneEditAnnounced).passes =
      [.ret (.emitted 2)] := rfl
  refine (hlaw.2 ⟨rfl, rfl, fun p hp => ?_⟩).resolve_left nofun
  rw [hpasses] at hp
  rw [List.mem_singleton.mp hp]
  rfl

/-- The second edit is announced while the pass of the first has asked git: its own pass is
    turned away, and the explanation served stays that of the first. -/
example :
    let after := Machine.run (next .compact String.length String.length WatchedDiff.wsPipeline)
      (start WatchedDiff.wsPipeline World.initial "")
      ([.edit "+x", announceEdit 1, .poll none, .pass 0 (.ok ()), .pass 0 (.ok ()), .edit "+xy",
        announceEdit 10, .poll none, .pass 1 (.ok ())] ++ List.replicate 5 (.pass 0 (.ok ())))
    after.dropped = true ∧ after.world.state.inFlight = false ∧ after.lastRead = some "+x" :=
  ⟨rfl, rfl, rfl⟩

end AnnouncedDiff

end Spectty.Diff
