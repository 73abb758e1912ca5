/-
  Spectty.Diff.Watched

  The diff of a session whose agent announces no edits: the file watcher triggers the
  pipeline.

  The batches of the watcher that are more than git's own writing start a pass, which the
  thread of the watcher waits for; the loop that polls the trigger documents may start
  others beside it.  `watched_law` says which explanation is served, and that it is that of
  the tree once the events of the edits have gone through; `churn_law` that git's own
  writing, which every pass causes again, starts no pass.
-/

import Spectty.Adapters.FileWatch
import Spectty.Diff.Passes

namespace Spectty.Diff

open Spectty.Adapters (FileChanged WatchStep Watcher Debouncer)
open Spectty.Lib

-- ============================================================================
-- Which batches trigger
-- ============================================================================

/-- No component of the path is `.git`. -/
def isTriggeringPath (path : String) : Bool :=
  !(path.toList.splitOn '/').contains ".git".toList

/-- The batch has a path besides those of git's own writing. -/
def batchShouldTrigger (paths : List String) : Bool := paths.any isTriggeringPath

example : isTriggeringPath "/ws/.git/index" = false := by decide

example : isTriggeringPath "/ws/.gitignore" = true := by decide

-- ============================================================================
-- The session
-- ============================================================================

/-- The passes, the watcher, and the events it has not been sent yet.  `watched` are the
    passes that the thread of the watcher has started. -/
structure WatchedDiff extends Passes where
  watcher : Watcher String
  unsent : List String
  watched : List Nat

/-- A step: an edit of a file, after which `git diff HEAD` is `tree`; the oldest event
    comes in; the watch goes on; the loop that polls the trigger documents finds one; or an
    operation of one of the passes, where `git` says whether git answers, if it is asked. -/
inductive WatchedStep where
  | edit (path tree : String)
  | deliver
  | thread (s : WatchStep String)
  | trigger
  | pass (k : Nat) (git : Except GitError Unit)

/-- The batches that a step of the thread passes to `on_change`. -/
def handedOut (watcher : Watcher String) (s : WatchStep String) : List (FileChanged String) :=
  (watcher.next s).batches.drop watcher.batches.length

namespace WatchedDiff

def start (tree : String) : WatchedDiff where
  toPasses := .start tree
  watcher := .start
  unsent := []
  watched := []

/-- The thread of the watcher waits for a pass that it has started. -/
def waits (self : WatchedDiff) : Bool :=
  self.watched.any fun k => (self.passes[k]?.map isReturned) == some false

section

variable (hashDiff : String → Nat) (pipeline : DiffPipeline)

/-- The callback of the watcher. -/
def onChange (self : WatchedDiff) (batch : FileChanged String) : WatchedDiff :=
  if batchShouldTrigger batch.paths then
    { self with
      toPasses := self.toPasses.spawn hashDiff pipeline
      watched := self.watched ++ [self.passes.length] }
  else self

/-- One step.  While a pass of its own runs, the thread of the watcher does nothing else;
    the flag that stops it is set from outside. -/
def next (self : WatchedDiff) : WatchedStep → WatchedDiff
  | .edit path tree =>
      { self with toPasses := self.toPasses.edit tree, unsent := self.unsent ++ [path] }
  | .deliver =>
      match self.unsent with
      | [] => self
      | path :: unsent => { self with unsent, watcher := self.watcher.next (.send path) }
  | .thread (.send _) => self
  | .thread .setStop => { self with watcher := self.watcher.next .setStop }
  | .thread s =>
      if self.waits then self
      else
        (handedOut self.watcher s).foldl (onChange hashDiff pipeline)
          { self with watcher := self.watcher.next s }
  | .trigger => { self with toPasses := self.toPasses.spawn hashDiff pipeline }
  | .pass k git => { self with toPasses := self.toPasses.go k git }

end

/-- An event on the path has not been through the watcher. -/
def Outstanding (self : WatchedDiff) (path : String) : Prop :=
  path ∈ self.unsent ∨ path ∈ self.watcher.channel ∨ path ∈ self.watcher.debouncer.pending

/-- A file that is not git's own has changed, and the watcher is still to report it. -/
def Reporting (self : WatchedDiff) : Prop :=
  ∃ path, self.Outstanding path ∧ isTriggeringPath path = true

end WatchedDiff

-- ============================================================================
-- The way of an event
-- ============================================================================

/-- What a step of the thread does: nothing to the events, record the next of them, or
    flush what is pending. -/
theorem thread_cases (watcher : Watcher String) {s : WatchStep String}
    (hsend : ∀ path, s ≠ .send path) :
    ((watcher.next s).channel = watcher.channel ∧
      (watcher.next s).debouncer = watcher.debouncer ∧
      (watcher.next s).batches = watcher.batches) ∨
    (∃ path, watcher.channel = path :: (watcher.next s).channel ∧
      (watcher.next s).debouncer = watcher.debouncer.record path ∧
      (watcher.next s).batches = watcher.batches) ∨
    ((watcher.next s).channel = watcher.channel ∧
      (watcher.next s).debouncer = watcher.debouncer.flush.2 ∧
      (watcher.next s).batches = watcher.batches ++ watcher.debouncer.flush.1.toList) := by
  obtain ⟨channel, stop, phase, debouncer, batches⟩ := watcher
  cases s with
  | send path => exact absurd rfl (hsend path)
  | setStop => exact .inl ⟨rfl, rfl, rfl⟩
  | check =>
      cases phase with
      | checking =>
          cases stop with
          | true => exact .inr (.inr ⟨rfl, rfl, rfl⟩)
          | false => exact .inl ⟨rfl, rfl, rfl⟩
      | receiving => exact .inl ⟨rfl, rfl, rfl⟩
      | exited => exact .inl ⟨rfl, rfl, rfl⟩
  | receive =>
      cases phase with
      | receiving =>
          rcases channel with _ | ⟨path, channel⟩
          · exact .inl ⟨rfl, rfl, rfl⟩
          · exact .inr (.inl ⟨path, rfl, rfl, List.append_nil batches⟩)
      | checking => exact .inl ⟨rfl, rfl, rfl⟩
      | exited => exact .inl ⟨rfl, rfl, rfl⟩
  | timeout | disconnected =>
      cases phase with
      | receiving =>
          rcases channel with _ | ⟨path, channel⟩
          · exact .inr (.inr ⟨rfl, rfl, rfl⟩)
          · exact .inl ⟨rfl, rfl, rfl⟩
      | checking => exact .inl ⟨rfl, rfl, rfl⟩
      | exited => exact .inl ⟨rfl, rfl, rfl⟩

theorem handedOut_of_batches {watcher : Watcher String} {s : WatchStep String}
    {batches : List (FileChanged String)}
    (h : (watcher.next s).batches = watcher.batches ++ batches) :
    handedOut watcher s = batches := by
  rw [handedOut, h, List.drop_left]

/-- An event that the watcher has taken in is in its channel, is pending, or is in a batch
    that it hands out. -/
theorem flow (watcher : Watcher String) {s : WatchStep String} (hsend : ∀ path, s ≠ .send path)
    (path : String) :
    (path ∈ watcher.channel ∨ path ∈ watcher.debouncer.pending) ↔
      (path ∈ (watcher.next s).channel ∨ path ∈ (watcher.next s).debouncer.pending) ∨
        ∃ batch ∈ handedOut watcher s, path ∈ batch.paths := by
  have hidle : (watcher.next s).batches = watcher.batches → handedOut watcher s = [] := by
    intro hsame
    apply handedOut_of_batches
    rw [hsame, List.append_nil]
  rcases thread_cases watcher hsend with ⟨hchannel, hdebouncer, hbatches⟩ |
    ⟨other, hchannel, hdebouncer, hbatches⟩ | ⟨hchannel, hdebouncer, hbatches⟩
  · simp [hchannel, hdebouncer, hidle hbatches]
  · rw [hchannel, hdebouncer, hidle hbatches]
    simp only [List.mem_cons, Debouncer.record, Finset.mem_insert, List.not_mem_nil, false_and,
      exists_false, or_false]
    tauto
  · rw [hchannel, hdebouncer, handedOut_of_batches hbatches, Debouncer.pending_flush]
    have hflush : (∃ batch ∈ watcher.debouncer.flush.1.toList, path ∈ batch.paths) ↔
        path ∈ watcher.debouncer.pending := by
      rw [← Debouncer.mem_flush]
      simp only [Option.mem_toList, Option.mem_def]
    rw [hflush]
    simp

/-- At most one batch is handed out at a time. -/
theorem handedOut_cases (watcher : Watcher String) {s : WatchStep String}
    (hsend : ∀ path, s ≠ .send path) :
    handedOut watcher s = [] ∨ ∃ batch, handedOut watcher s = [batch] := by
  rcases thread_cases watcher hsend with ⟨-, -, hbatches⟩ | ⟨-, -, -, hbatches⟩ | ⟨-, -, hbatches⟩
  · exact .inl (handedOut_of_batches (by rw [hbatches, List.append_nil]))
  · exact .inl (handedOut_of_batches (by rw [hbatches, List.append_nil]))
  · rw [handedOut_of_batches hbatches]
    cases watcher.debouncer.flush.1 with
    | none => exact .inl rfl
    | some batch => exact .inr ⟨batch, rfl⟩

namespace WatchedDiff

variable {hashDiff : String → Nat} {pipeline : DiffPipeline} {self : WatchedDiff}

-- ============================================================================
-- One step
-- ============================================================================

/-- A step of the watch does nothing, while a pass is waited for; or it moves the watcher,
    and starts a pass for the batch it hands out, if that has a path besides git's. -/
theorem next_thread {s : WatchStep String} (hsend : ∀ path, s ≠ .send path) :
    self.next hashDiff pipeline (.thread s) = self ∨
    (self.next hashDiff pipeline (.thread s) = { self with watcher := self.watcher.next s } ∧
      ∀ batch ∈ handedOut self.watcher s, batchShouldTrigger batch.paths = false) ∨
    (self.next hashDiff pipeline (.thread s) =
        { self with
          toPasses := self.toPasses.spawn hashDiff pipeline
          watcher := self.watcher.next s
          watched := self.watched ++ [self.passes.length] } ∧ self.waits = false ∧
      ∃ batch ∈ handedOut self.watcher s, batchShouldTrigger batch.paths = true) := by
  by_cases hstop : s = .setStop
  · subst hstop
    have hnone : handedOut self.watcher .setStop = [] :=
      handedOut_of_batches (List.append_nil _).symm
    exact .inr (.inl ⟨rfl, by simp [hnone]⟩)
  have hnext : self.next hashDiff pipeline (.thread s) =
      if self.waits then self
      else
        (handedOut self.watcher s).foldl (onChange hashDiff pipeline)
          { self with watcher := self.watcher.next s } := by
    cases s with
    | send path => exact absurd rfl (hsend path)
    | setStop => exact absurd rfl hstop
    | _ => rfl
  rw [hnext]
  split_ifs with hwaits
  · exact .inl rfl
  rcases handedOut_cases self.watcher hsend with hnone | ⟨batch, hbatch⟩
  · rw [hnone]
    exact .inr (.inl ⟨rfl, by simp⟩)
  · rw [hbatch, List.foldl_cons, List.foldl_nil, onChange]
    split_ifs with htrigger
    · exact .inr (.inr ⟨rfl, by simpa using hwaits, batch, List.mem_singleton_self batch,
        htrigger⟩)
    · refine .inr (.inl ⟨rfl, fun other hother => ?_⟩)
      rw [List.mem_singleton.mp hother]
      simpa using htrigger

/-- The watcher takes nothing from the events that have not come in, and leaves those that it
    does not hand out. -/
theorem outstanding_moved {s : WatchStep String} (hsend : ∀ path, s ≠ .send path)
    (after : WatchedDiff) (hunsent : after.unsent = self.unsent)
    (hwatcher : after.watcher = self.watcher.next s) (path : String) :
    self.Outstanding path ↔ after.Outstanding path ∨
      ∃ batch ∈ handedOut self.watcher s, path ∈ batch.paths := by
  rw [Outstanding, Outstanding, hunsent, hwatcher, flow self.watcher hsend path]
  simp only [or_assoc]

theorem outstanding_deliver (path : String) :
    (self.next hashDiff pipeline .deliver).Outstanding path ↔ self.Outstanding path := by
  obtain ⟨passes, watcher, unsent, watched⟩ := self
  rcases unsent with _ | ⟨first, unsent⟩
  · rfl
  · show (path ∈ unsent ∨ path ∈ watcher.channel ++ [first] ∨ _) ↔ (path ∈ first :: unsent ∨ _)
    simp only [List.mem_append, List.mem_cons]
    show _ ∨ _ ∨ path ∈ watcher.debouncer.pending ↔ _ ∨ _ ∨ path ∈ watcher.debouncer.pending
    tauto

theorem outstanding_edit (path other tree : String) :
    (self.next hashDiff pipeline (.edit path tree)).Outstanding other ↔
      self.Outstanding other ∨ other = path := by
  show (other ∈ self.unsent ++ [path] ∨ _) ↔ _
  rw [List.mem_append, List.mem_singleton, Outstanding]
  tauto

/-- What the watcher does not hand out it is still to report. -/
theorem reporting_moved {s : WatchStep String} (hsend : ∀ path, s ≠ .send path)
    {after : WatchedDiff} (hunsent : after.unsent = self.unsent)
    (hwatcher : after.watcher = self.watcher.next s)
    (hignored : ∀ batch ∈ handedOut self.watcher s, batchShouldTrigger batch.paths = false)
    (h : self.Reporting) : after.Reporting := by
  obtain ⟨path, hpath, htrigger⟩ := h
  rcases (outstanding_moved hsend after hunsent hwatcher path).mp hpath with hstill |
    ⟨batch, hbatch, hin⟩
  · exact ⟨path, hstill, htrigger⟩
  · have hnone := hignored batch hbatch
    unfold batchShouldTrigger at hnone
    rw [List.any_eq_false] at hnone
    exact absurd htrigger (hnone path hin)

-- ============================================================================
-- The explanation served
-- ============================================================================

/-- The diff changes only with files that git does not keep for itself. -/
def Visible (self : WatchedDiff) : WatchedStep → Prop
  | .edit path tree => isTriggeringPath path = true ∨ tree = self.world.tree
  | _ => True

theorem tracked_next {known : Set String} {tree : String} (hinj : Set.InjOn hashDiff known)
    (h : self.toPasses.Tracked hashDiff pipeline known tree self.Reporting) {c : WatchedStep}
    (hknown : ∀ path text, c = .edit path text → marker text ∈ known)
    (hvisible : self.Visible c) :
    (self.next hashDiff pipeline c).toPasses.Tracked hashDiff pipeline known tree
      (self.next hashDiff pipeline c).Reporting := by
  cases c with
  | edit path text =>
      rcases hvisible with htrigger | rfl
      · exact h.edit (hknown path text rfl)
          ⟨path, (outstanding_edit path path text).mpr (.inr rfl), htrigger⟩
      · refine h.mono fun ⟨other, hother, htrigger⟩ => ⟨other, ?_, htrigger⟩
        exact (outstanding_edit path other self.world.tree).mpr (.inl hother)
  | deliver =>
      have hsame : (self.next hashDiff pipeline .deliver).toPasses = self.toPasses := by
        obtain ⟨passes, watcher, _ | ⟨first, unsent⟩, watched⟩ := self <;> rfl
      rw [hsame]
      exact h.mono fun ⟨path, hpath, htrigger⟩ =>
        ⟨path, (outstanding_deliver path).mpr hpath, htrigger⟩
  | thread s =>
      by_cases hsend : ∃ path, s = .send path
      · obtain ⟨path, rfl⟩ := hsend
        exact h
      push Not at hsend
      rcases next_thread hsend with hnext | ⟨hnext, hignored⟩ | ⟨hnext, -⟩ <;> rw [hnext]
      · exact h
      · exact h.mono (reporting_moved hsend rfl rfl hignored)
      · exact h.spawn
  | trigger => exact h.spawn
  | pass k git => exact h.go hinj k git

-- ============================================================================
-- Without the loop
-- ============================================================================

/-- The passes are those of the watcher, and all but the newest have returned, so that none
    has been turned away. -/
structure Alone (session : WatchedDiff) : Prop where
  watched : session.watched = List.range session.passes.length
  returned : ∀ k p, session.passes[k]? = some p → k + 1 ≠ session.passes.length →
    isReturned p = true
  dropped : session.dropped = false

/-- The thread of the watcher starts a pass when all have returned. -/
theorem Alone.rested (h : self.Alone) (hwaits : self.waits = false) : self.Rested := by
  intro p hp
  obtain ⟨k, hk⟩ := List.mem_iff_getElem?.mp hp
  have hlt : k < self.passes.length := (List.getElem?_eq_some_iff.mp hk).1
  unfold waits at hwaits
  rw [List.any_eq_false, h.watched] at hwaits
  have hreturned := hwaits k (List.mem_range.mpr hlt)
  rw [hk] at hreturned
  simpa using hreturned

theorem alone_next {known : Set String} {tree : String} {onWay : Prop}
    (htracked : self.toPasses.Tracked hashDiff pipeline known tree onWay) (h : self.Alone)
    {c : WatchedStep} (htrigger : c ≠ .trigger) : (self.next hashDiff pipeline c).Alone := by
  cases c with
  | edit path text => exact ⟨h.watched, h.returned, h.dropped⟩
  | deliver =>
      obtain ⟨passes, watcher, _ | ⟨first, unsent⟩, watched⟩ := self <;>
        exact ⟨h.watched, h.returned, h.dropped⟩
  | thread s =>
      by_cases hsend : ∃ path, s = .send path
      · obtain ⟨path, rfl⟩ := hsend
        exact h
      push Not at hsend
      rcases next_thread hsend with hnext | ⟨hnext, -⟩ | ⟨hnext, hwaits, -⟩ <;> rw [hnext]
      · exact h
      · exact ⟨h.watched, h.returned, h.dropped⟩
      · have hrested := h.rested hwaits
        refine ⟨?_, fun k p hk hlast => ?_, h.dropped⟩
        · show self.watched ++ [self.passes.length] = List.range (self.passes ++ [_]).length
          rw [h.watched, List.length_append, List.length_singleton, List.range_succ]
        · have hk : (self.passes ++ [pipeline.runOnce hashDiff])[k]? = some p := hk
          have hlast : k + 1 ≠ (self.passes ++ [pipeline.runOnce hashDiff]).length := hlast
          have hlt := (List.getElem?_eq_some_iff.mp hk).1
          rw [List.length_append, List.length_singleton] at hlast hlt
          rw [List.getElem?_append_left (by omega)] at hk
          exact hrested p (List.mem_of_getElem? hk)
  | trigger => exact absurd rfl htrigger
  | pass k git =>
      rcases Passes.go_cases self.toPasses k git with hgo | ⟨o, rest, r, w, hk, -, hgo⟩
      · show WatchedDiff.Alone { self with toPasses := self.toPasses.go k git }
        rw [hgo]
        exact h
      · have hlt : k < self.passes.length := (List.getElem?_eq_some_iff.mp hk).1
        have hnewest : k + 1 = self.passes.length := by
          by_contra hne
          have hreturned := h.returned k _ hk hne
          cases hreturned
        have hlength : (self.toPasses.go k git).passes.length = self.passes.length := by
          rw [hgo]
          exact List.length_set
        refine ⟨?_, fun j p hj hlast => ?_, ?_⟩
        · show self.watched = List.range (self.toPasses.go k git).passes.length
          rw [hlength]
          exact h.watched
        · have hlast : j + 1 ≠ (self.toPasses.go k git).passes.length := hlast
          have hj : (self.toPasses.go k git).passes[j]? = some p := hj
          rw [hlength] at hlast
          rw [hgo, List.getElem?_set_ne (by omega)] at hj
          exact h.returned j p hj hlast
        · exact htracked.not_dropped h.dropped fun j p hj hne => h.returned j p hj (by omega)

-- ============================================================================
-- Any run
-- ============================================================================

/-- The texts of the tree in a run. -/
def texts (tree : String) (steps : List WatchedStep) : Set String :=
  {text | text = "" ∨ text = tree ∨ ∃ path, .edit path text ∈ steps}

theorem tracked_run {tree : String} {steps : List WatchedStep}
    (hinj : Set.InjOn hashDiff (texts tree steps))
    (hvisible : Machine.Along (next hashDiff pipeline) Visible (start tree) steps)
    {pre : List WatchedStep} (hpre : pre <+: steps) :
    let after := Machine.run (next hashDiff pipeline) (start tree) pre
    after.toPasses.Tracked hashDiff pipeline (texts tree steps) tree after.Reporting := by
  induction pre using List.reverseRecOn with
  | nil => exact Passes.tracked_start (marker_mem (.inl rfl) (.inr (.inl rfl)))
  | append_singleton pre c ih =>
      rw [Machine.run_concat]
      refine tracked_next hinj (ih ((List.prefix_append pre [c]).trans hpre))
        (fun path text hedit => ?_) (Machine.along_concat.mp (hvisible.of_prefix hpre)).2
      subst hedit
      exact marker_mem (.inl rfl) (.inr (.inr ⟨path, hpre.subset (by simp)⟩))

theorem alone_run {tree : String} {steps : List WatchedStep}
    (hinj : Set.InjOn hashDiff (texts tree steps))
    (hvisible : Machine.Along (next hashDiff pipeline) Visible (start tree) steps)
    {pre : List WatchedStep} (hpre : pre <+: steps) (htrigger : .trigger ∉ pre) :
    (Machine.run (next hashDiff pipeline) (start tree) pre).Alone := by
  induction pre using List.reverseRecOn with
  | nil => exact ⟨rfl, nofun, rfl⟩
  | append_singleton pre c ih =>
      have hbefore := (List.prefix_append pre [c]).trans hpre
      rw [Machine.run_concat]
      refine alone_next (tracked_run hinj hvisible hbefore)
        (ih hbefore fun hmem => htrigger (List.mem_append_left _ hmem)) ?_
      rintro rfl
      exact htrigger (List.mem_append_right _ (List.mem_singleton_self _))

/-- Where no two diffs of the run share a hash, and the diff changes only with files that
    git does not keep for itself: while no pass holds the slot, the explanation served is
    that of the diff that git answered last; once the watcher has reported what has changed
    and the passes have returned, git was last asked for the tree as it is, unless a pass was
    turned away since; and without passes of the polling loop none is. -/
theorem watched_law (hashDiff : String → Nat) (pipeline : DiffPipeline) (tree : String)
    (steps : List WatchedStep) (hinj : Set.InjOn hashDiff (texts tree steps))
    (hvisible : Machine.Along (next hashDiff pipeline) Visible (start tree) steps) :
    let after := Machine.run (next hashDiff pipeline) (start tree) steps
    (after.world.state.inFlight = false →
      DiffPipeline.currentExplanation after.world = after.lastRead.map buildExplanation) ∧
    (¬ after.Reporting → after.Rested → after.dropped = true ∨ after.ShowsTree tree) ∧
    (.trigger ∉ steps → after.dropped = false) := by
  intro after
  have htracked := tracked_run hinj hvisible (List.prefix_refl steps)
  exact ⟨htracked.served, fun hreported hrested => htracked.shows hrested hreported,
    fun htrigger => (alone_run hinj hvisible (List.prefix_refl steps) htrigger).dropped⟩

/-- The pipeline of a session in `/ws`. -/
def wsPipeline : DiffPipeline where
  sessionId := "0"
  workspace := "/ws"

/-- A file is edited and reported after the debounce. -/
def oneFileReported : List WatchedStep :=
  [.edit "/ws/a.rs" "+x", .deliver, .thread .check, .thread .receive, .thread .check,
    .thread .timeout]

/-- The watcher has started a pass for it. -/
theorem run_oneFileReported :
    Machine.run (next String.length wsPipeline) (start "") oneFileReported =
      { world := .start "+x"
        passes := [wsPipeline.runOnce String.length]
        asked := []
        dropped := false
        watcher :=
          { channel := [], stop := false, phase := .checking, debouncer := .new,
            batches := [⟨["/ws/a.rs"]⟩] }
        unsent := []
        watched := [0] } := by
  have hflush : (Debouncer.new.record "/ws/a.rs").flush = (some ⟨["/ws/a.rs"]⟩, .new) := by
    simp [Debouncer.flush, Debouncer.record, Debouncer.new]
  have htrigger : batchShouldTrigger ["/ws/a.rs"] = true := by decide
  simp [oneFileReported, next, start, Passes.start, Passes.edit, waits, handedOut, Watcher.start,
    Watcher.next, Watcher.complete, Debouncer.pass, DiffWorld.start, onChange, hflush, htrigger,
    Passes.spawn]

theorem watched_law_edited :
    (Machine.run (next String.length wsPipeline) (start "")
      (oneFileReported ++ List.replicate 7 (.pass 0 (.ok ())))).ShowsTree "" := by
  have hlaw := watched_law String.length wsPipeline ""
    (oneFileReported ++ List.replicate 7 (.pass 0 (.ok ()))) ?inj ?visible
  case inj =>
    have htexts : ∀ text ∈ texts "" (oneFileReported ++ List.replicate 7 (.pass 0 (.ok ()))),
        text = "" ∨ text = "+x" := by
      rintro text (rfl | rfl | ⟨path, hedit⟩)
      · exact .inl rfl
      · exact .inl rfl
      · simp [oneFileReported] at hedit
        exact .inr hedit.2
    intro a ha b hb hlength
    rcases htexts a ha with rfl | rfl <;> rcases htexts b hb with rfl | rfl
    · rfl
    · exact absurd hlength (by decide)
    · exact absurd hlength (by decide)
    · rfl
  case visible =>
    have htrigger : isTriggeringPath "/ws/a.rs" = true := by decide
    simp only [oneFileReported, List.cons_append, List.nil_append, List.replicate,
      Machine.along_cons, Visible, htrigger, true_or, true_and]
    exact Machine.along_nil
  rw [Machine.run_append, run_oneFileReported] at hlaw ⊢
  refine (hlaw.2.1 ?_ ?_).resolve_left nofun
  · rintro ⟨path, hunsent | hchannel | hpending, -⟩
    · cases hunsent
    · cases hchannel
    · exact absurd hpending (Finset.notMem_empty path)
  · intro p hp
    rw [List.mem_singleton.mp hp]
    rfl

-- ============================================================================
-- Git's own writing
-- ============================================================================

/-- One step with nothing but git's own writing. -/
theorem churn_next {c : WatchedStep} (hreported : ¬ self.Reporting)
    (hchurn : ∀ path tree, c = .edit path tree → isTriggeringPath path = false) :
    ¬ (self.next hashDiff pipeline c).Reporting ∧
      (self.next hashDiff pipeline c).watched = self.watched ∧
      (self.Rested → c ≠ .trigger →
        (self.next hashDiff pipeline c).passes = self.passes ∧
        (self.next hashDiff pipeline c).world.state = self.world.state ∧
        (self.next hashDiff pipeline c).world.emitted = self.world.emitted) := by
  cases c with
  | edit path tree =>
      refine ⟨fun ⟨other, hother, htrigger⟩ => ?_, rfl, fun _ _ => ⟨rfl, rfl, rfl⟩⟩
      rcases (outstanding_edit path other tree).mp hother with hbefore | rfl
      · exact hreported ⟨other, hbefore, htrigger⟩
      · rw [hchurn other tree rfl] at htrigger
        cases htrigger
  | deliver =>
      refine ⟨fun ⟨path, hpath, htrigger⟩ => hreported ⟨path, ?_, htrigger⟩, ?_⟩
      · exact (outstanding_deliver path).mp hpath
      · obtain ⟨passes, watcher, _ | ⟨first, unsent⟩, watched⟩ := self <;>
          exact ⟨rfl, fun _ _ => ⟨rfl, rfl, rfl⟩⟩
  | thread s =>
      by_cases hsend : ∃ path, s = .send path
      · obtain ⟨path, rfl⟩ := hsend
        exact ⟨hreported, rfl, fun _ _ => ⟨rfl, rfl, rfl⟩⟩
      push Not at hsend
      rcases next_thread hsend with hnext | ⟨hnext, -⟩ | ⟨-, -, batch, hbatch, htrigger⟩
      · rw [hnext]
        exact ⟨hreported, rfl, fun _ _ => ⟨rfl, rfl, rfl⟩⟩
      · rw [hnext]
        refine ⟨fun ⟨path, hpath, htrigger⟩ => hreported ⟨path, ?_, htrigger⟩, rfl,
          fun _ _ => ⟨rfl, rfl, rfl⟩⟩
        exact (@outstanding_moved self s hsend { self with watcher := self.watcher.next s } rfl rfl
          path).mpr (.inl hpath)
      · -- a batch that starts a pass has a path that was to be reported
        obtain ⟨path, hpath, htrue⟩ := List.any_eq_true.mp htrigger
        refine absurd ⟨path, ?_, htrue⟩ hreported
        exact (@outstanding_moved self s hsend { self with watcher := self.watcher.next s } rfl rfl
          path).mpr (.inr ⟨batch, hbatch, hpath⟩)
  | trigger => exact ⟨hreported, rfl, fun _ hno => absurd rfl hno⟩
  | pass k git =>
      refine ⟨hreported, rfl, fun hrested _ => ?_⟩
      have hsame : self.toPasses.go k git = self.toPasses := by
        rcases Passes.go_cases self.toPasses k git with hgo | ⟨o, rest, r, w, hk, -, -⟩
        · exact hgo
        · cases hrested _ (List.mem_of_getElem? hk)
      show (self.toPasses.go k git).passes = _ ∧ (self.toPasses.go k git).world.state = _ ∧
        (self.toPasses.go k git).world.emitted = _
      rw [hsame]
      exact ⟨rfl, rfl, rfl⟩

/-- When the watcher has nothing but git's own writing to report, then as long as only git
    writes it starts no pass; and if every pass has returned and the polling loop starts
    none, none is run, and nothing is emitted. -/
theorem churn_law (hashDiff : String → Nat) (pipeline : DiffPipeline) (self : WatchedDiff)
    (hreported : ¬ self.Reporting) (steps : List WatchedStep)
    (hchurn : ∀ path tree, .edit path tree ∈ steps → isTriggeringPath path = false) :
    let after := Machine.run (next hashDiff pipeline) self steps
    after.watched = self.watched ∧
      (self.Rested → .trigger ∉ steps →
        after.passes = self.passes ∧ after.world.state = self.world.state ∧
          after.world.emitted = self.world.emitted) := by
  induction steps generalizing self with
  | nil => exact ⟨rfl, fun _ _ => ⟨rfl, rfl, rfl⟩⟩
  | cons c steps ih =>
      obtain ⟨hstill, hwatched, hsame⟩ := @churn_next hashDiff pipeline self c hreported
        fun path tree hc => hchurn path tree (by rw [hc]; exact List.mem_cons_self)
      obtain ⟨hwatched', hsame'⟩ := ih (self.next hashDiff pipeline c) hstill
        fun path tree hc => hchurn path tree (List.mem_cons_of_mem _ hc)
      refine ⟨hwatched'.trans hwatched, fun hrested htrigger => ?_⟩
      obtain ⟨hpasses, hstate, hemitted⟩ := hsame hrested fun hc =>
        htrigger (by rw [hc]; exact List.mem_cons_self)
      have hrested' : (self.next hashDiff pipeline c).Rested := by
        unfold Passes.Rested
        rw [hpasses]
        exact hrested
      obtain ⟨hpasses', hstate', hemitted'⟩ := hsame' hrested' fun hmem =>
        htrigger (List.mem_cons_of_mem _ hmem)
      exact ⟨hpasses'.trans hpasses, hstate'.trans hstate, hemitted'.trans hemitted⟩

theorem churn_law_index :
    (Machine.run (next String.length wsPipeline) (start "+x")
      [.edit "/ws/.git/index" "+x", .deliver, .thread .check, .thread .receive, .thread .check,
        .thread .timeout]).passes = [] := by
  refine ((churn_law String.length wsPipeline (start "+x") ?_ _ ?_).2 ?_ ?_).1
  · simp [Reporting, Outstanding, start, Watcher.start, Debouncer.new]
  · simp
    decide
  · exact fun p hp => absurd hp List.not_mem_nil
  · simp

end WatchedDiff

end Spectty.Diff
