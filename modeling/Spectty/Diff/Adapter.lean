/-
  Spectty.Diff.Adapter

  The adapter that explains a diff and pushes the explanation to a child of its own.

  A child is spawned and greeted when there is none, kept for the next push, and killed
  when a call to it fails.  `children_law` says what the children have been sent, and
  which of them are left, after any explanations and any behaviour of the children:
  each is greeted before the first push, no number of a request is used twice, whichever
  child it goes to, and only a child that can still be asked is kept.

  `explained_law` says what an `explain` returns, and which line of which child it took
  for the answer to its push: the calls to a child take the lines that have an `id` one
  after the other, the handshake the first of them.
-/

import Spectty.Diff.VibeLens

namespace Spectty.Diff

open Spectty.Lib

-- ============================================================================
-- What is sent
-- ============================================================================

/-- A call of `explain`: what it is given, and the explanation that it has built. -/
structure Explain where
  diff : String
  workspace : Workspace
  explanation : DiffExplanation
deriving DecidableEq, Repr

/-- The explanation is built before anything is pushed. -/
def Explain.begin (diff : String) (workspace : Workspace) : Explain where
  diff := diff
  workspace := workspace
  explanation := buildExplanation diff

/-- The explanation is the one built of the diff. -/
def Explain.IsBuilt (explain : Explain) : Prop :=
  explain.explanation = buildExplanation explain.diff

/-- What the adapter writes to a child. -/
inductive Sent where
  | handshake
  | initialized
  | push (id : Nat) (explain : Explain)
deriving DecidableEq, Repr

def protocolVersion : String := "2024-11-05"

/-- The request of the handshake. -/
def initializeRequest : Json :=
  .obj [("jsonrpc", .str "2.0"), ("id", .int 0), ("method", .str "initialize"),
    ("params", .obj [("protocolVersion", .str protocolVersion), ("capabilities", .obj []),
      ("clientInfo", .obj [("name", .str "spectty"), ("version", .str "0.0.0")])])]

def initializedNotification : String :=
  "\x7b\"jsonrpc\":\"2.0\",\"method\":\"notifications/initialized\"\x7d"

namespace Sent

/-- The line that is written. -/
def text (J : SerdeJson) : Sent → String
  | .handshake => J.toString initializeRequest
  | .initialized => initializedNotification
  | .push id explain =>
      J.toString (showDiffRequest id explain.diff explain.workspace explain.explanation)

/-- The number of a push. -/
def pushId : Sent → Option Nat
  | .push id _ => some id
  | _ => none

end Sent

-- ============================================================================
-- The adapter
-- ============================================================================

/-- A child, by its number, and the transport to it. -/
structure Child where
  number : Nat
  io : RealMcpStdio
deriving DecidableEq, Repr

/-- How far the `explain` is that holds the transport. -/
inductive Explaining where
  | initializing (explain : Explain) (child : Child)
  | pushing (explain : Explain) (id : Nat)
deriving DecidableEq, Repr

/-- Why an explanation was not displayed. -/
inductive Degraded where
  | spawn (reason : String)
  | push (error : PushError)

/-- An `explain` that has returned, with what it logged, and the number that its push took
    if there was a transport for one. -/
structure Explained where
  explain : Explain
  id : Option Nat
  result : Except ExplainError DiffExplanation
  degraded : Option Degraded

/-- What happened outside: the number of children spawned, what was written to each and
    read from it, which were killed, and the `explain`s that have returned. -/
structure AdapterLog where
  children : Nat
  written : List (Nat × Sent)
  read : List (Nat × String)
  killed : List Nat
  explained : List Explained

/-- The adapter.  `nextId` is a `u64` in the source, which would overflow at the push of
    that number. -/
structure VibeLensMcpAdapter where
  transport : Option Child
  nextId : Nat
  explaining : Option Explaining
  log : AdapterLog

/-- What becomes of the writes of each kind. -/
structure Writes where
  handshake : Except String Unit
  initialized : Except String Unit
  push : Except String Unit

/-- An `explain` takes the transport, or something happens at the child.  `spawned` and
    `writes` say what becomes of the spawn and of the writes, where the step makes
    them. -/
inductive AdapterStep where
  | explain (diff : String) (workspace : Workspace) (spawned : Except String Unit)
      (writes : Writes)
  | io (s : StdioStep) (writes : Writes)

namespace AdapterLog

/-- A line is written to a child. -/
def send (self : AdapterLog) (child : Nat) (sent : Sent) : AdapterLog :=
  { self with written := self.written ++ [(child, sent)] }

/-- What the reader thread of a child has read, if it is a line. -/
def lineFrom (child : Nat) : ReaderMsg → Option (Nat × String)
  | .line text => some (child, text)
  | .closed _ => none

/-- The reader thread of a child reads on. -/
def hear (self : AdapterLog) (child : Nat) (s : StdioStep) : AdapterLog :=
  { self with read := self.read ++ (RealMcpStdio.reads s).filterMap (lineFrom child) }

/-- A transport goes out of scope, and its child with it. -/
def kill (self : AdapterLog) (child : Nat) : AdapterLog :=
  { self with killed := self.killed ++ [child] }

/-- An `explain` returns, after a push that failed with a warning. -/
def finish (self : AdapterLog) (explain : Explain) (id : Option Nat)
    (degraded : Option Degraded) : AdapterLog :=
  { self with
    explained := self.explained ++
      [{ explain, id, result := .ok explain.explanation, degraded }] }

/-- What was written to a child, in order. -/
def sentTo (self : AdapterLog) (child : Nat) : List Sent :=
  (self.written.filter fun w => w.1 = child).map Prod.snd

/-- The lines with an `id` that were read from a child, in order. -/
def idLinesFrom (J : SerdeJson) (self : AdapterLog) (child : Nat) : List String :=
  ((self.read.filter fun r => r.1 = child).map Prod.snd).filter (hasId J)

/-- The numbers of the pushes, in the order they were written. -/
def pushIds (self : AdapterLog) : List Nat := self.written.filterMap fun w => w.2.pushId

/-- The numbers that the pushes of the `explain`s took, in the order they returned. -/
def explainIds (self : AdapterLog) : List Nat := self.explained.filterMap Explained.id

end AdapterLog

namespace VibeLensMcpAdapter

def start : VibeLensMcpAdapter where
  transport := none
  nextId := 1
  explaining := none
  log := { children := 0, written := [], read := [], killed := [], explained := [] }

/-- The call of a push comes back; the transport is dropped when it failed. -/
def returned (J : SerdeJson) (self : VibeLensMcpAdapter) (explain : Explain) (id : Nat)
    (child : Child) : Except String String → VibeLensMcpAdapter
  | .error reason =>
      { self with
        transport := none
        explaining := none
        log := (self.log.kill child.number).finish explain (some id)
          (some (.push (.transport reason))) }
  | .ok line =>
      let degraded :=
        match parseWriteEnvelope J line with
        | .error e => some (.push e)
        | .ok () => none
      { self with
        transport := some child
        explaining := none
        log := self.log.finish explain (some id) degraded }

/-- Push over a transport. -/
def push (J : SerdeJson) (self : VibeLensMcpAdapter) (explain : Explain) (child : Child)
    (write : Except String Unit) : VibeLensMcpAdapter :=
  let id := self.nextId
  let sent := Sent.push id explain
  let self := { self with nextId := self.nextId + 1 }
  match child.io.step J (.call (sent.text J) write) with
  | (some call, io) => self.returned J explain id { child with io } call.result
  | (none, io) =>
      { self with
        transport := some { child with io }
        explaining := some (.pushing explain id)
        log := self.log.send child.number sent }

/-- The spawn has failed. -/
def spawnFailed (self : VibeLensMcpAdapter) (explain : Explain) (reason : String) :
    VibeLensMcpAdapter :=
  { self with
    explaining := none
    log := self.log.finish explain none (some (.spawn reason)) }

/-- The call of the handshake comes back. -/
def handshaken (J : SerdeJson) (self : VibeLensMcpAdapter) (explain : Explain) (child : Child)
    (result : Except String String) (writes : Writes) : VibeLensMcpAdapter :=
  match result, writes.initialized with
  | .error reason, _ =>
      { self with log := self.log.kill child.number }.spawnFailed explain reason
  | .ok _, .error e =>
      { self with log := self.log.kill child.number }.spawnFailed explain
        ("write to vibelens stdin: " ++ e)
  | .ok _, .ok () =>
      { self with log := self.log.send child.number .initialized }.push J explain child
        writes.push

/-- Spawn a child and begin the handshake. -/
def spawn (J : SerdeJson) (self : VibeLensMcpAdapter) (explain : Explain) (writes : Writes) :
    VibeLensMcpAdapter :=
  let number := self.log.children
  let self := { self with log := { self.log with children := number + 1 } }
  match RealMcpStdio.start.step J (.call (Sent.handshake.text J) writes.handshake) with
  | (some call, io) => self.handshaken J explain { number, io } call.result writes
  | (none, io) =>
      { self with
        explaining := some (.initializing explain { number, io })
        log := self.log.send number .handshake }

/-- Something happens at the child that is left, which may end what waits for it. -/
def happens (J : SerdeJson) (self : VibeLensMcpAdapter) (s : StdioStep) (writes : Writes) :
    VibeLensMcpAdapter :=
  match self.explaining, self.transport with
  | some (.initializing explain child), _ =>
      let self := { self with log := self.log.hear child.number s }
      match child.io.step J s with
      | (some call, io) => self.handshaken J explain { child with io } call.result writes
      | (none, io) => { self with explaining := some (.initializing explain { child with io }) }
  | some (.pushing explain id), some child =>
      let self := { self with log := self.log.hear child.number s }
      match child.io.step J s with
      | (some call, io) => self.returned J explain id { child with io } call.result
      | (none, io) => { self with transport := some { child with io } }
  | none, some child =>
      { self with
        transport := some { child with io := child.io.next J s }
        log := self.log.hear child.number s }
  | _, none => self

/-- One step.  While an `explain` has the transport the others wait for it. -/
def next (J : SerdeJson) (self : VibeLensMcpAdapter) : AdapterStep → VibeLensMcpAdapter
  | .explain diff workspace spawned writes =>
      let explain := Explain.begin diff workspace
      match self.explaining, self.transport, spawned with
      | some _, _, _ => self
      | none, some child, _ => self.push J explain child writes.push
      | none, none, .error e =>
          self.spawnFailed explain ("failed to spawn `npx -y vibelens-mcp`: " ++ e)
      | none, none, .ok () => self.spawn J explain writes
  | .io (.call _ _) _ => self
  | .io s writes => self.happens J s writes

/-- The child there is: the one kept, or the one that is being greeted. -/
def live (self : VibeLensMcpAdapter) : Option Child :=
  match self.explaining with
  | some (.initializing _ child) => some child
  | _ => self.transport

end VibeLensMcpAdapter

-- ============================================================================
-- The transport, seen from the adapter
-- ============================================================================

namespace RealMcpStdio

variable {J : SerdeJson} {self : RealMcpStdio} {s : StdioStep}

/-- A call over a transport that can be asked fails at once, or waits. -/
theorem step_call (hwedged : self.wedged = false) (hwaiting : self.waiting = none)
    (request : String) (write : Except String Unit) :
    (∃ reason, self.step J (.call request write) =
      (some { request, result := .error reason }, self)) ∨
    self.step J (.call request write) = (none, { self with waiting := some request }) := by
  cases write with
  | error e => exact .inl ⟨"write to vibelens stdin: " ++ e, by simp [step, hwedged, hwaiting]⟩
  | ok => exact .inr (by simp [step, hwedged, hwaiting])

/-- What happens at a child leaves the call waiting, answers it with the next line that
    has an `id`, or makes it fail. -/
theorem step_child (hcall : ∀ request write, s ≠ .call request write) :
    ((self.step J s).1 = none ∧ idsOf J self s = [] ∧ (self.next J s).wedged = self.wedged ∧
      (self.next J s).waiting = self.waiting) ∨
    (∃ call line, (self.step J s).1 = some call ∧ call.result = .ok line ∧
      idsOf J self s = [line] ∧ (self.next J s).wedged = self.wedged ∧
      (self.next J s).waiting = none ∧ self.waiting ≠ none) ∨
    ∃ call reason, self.waiting ≠ none ∧ (self.step J s).1 = some call ∧
      call.result = .error reason := by
  obtain ⟨rx, wedged, waiting⟩ := self
  cases s with
  | childLine line =>
      refine .inl ?_
      by_cases h : trimText line.toList = [] <;> simp [next, step, idsOf, takes, h]
  | closed reason => exact .inl ⟨rfl, rfl, rfl, rfl⟩
  | call request write => exact absurd rfl (hcall request write)
  | receive late =>
      rcases waiting with _ | request
      · exact .inl ⟨rfl, rfl, rfl, rfl⟩
      rcases rx with _ | ⟨msg, rx⟩
      · exact .inl ⟨rfl, rfl, rfl, rfl⟩
      cases msg with
      | closed reason => exact .inr (.inr ⟨_, reason, Option.some_ne_none request, rfl, rfl⟩)
      | line text =>
          by_cases h : hasId J text = true
          · refine .inr (.inl ⟨⟨request, .ok text⟩, text, ?_⟩)
            simp [next, step, idsOf, takes, idLine, h]
          · cases late with
            | true =>
                refine .inr (.inr ⟨⟨request, .error timedOut⟩, timedOut,
                  Option.some_ne_none request, ?_, rfl⟩)
                simp [step, fail, h]
            | false => exact .inl (by simp [next, step, idsOf, takes, idLine, h])
  | timeout =>
      rcases waiting with _ | request
      · exact .inl ⟨rfl, rfl, rfl, rfl⟩
      rcases rx with _ | ⟨msg, rx⟩
      · exact .inr (.inr ⟨_, _, Option.some_ne_none request, rfl, rfl⟩)
      · exact .inl ⟨rfl, rfl, rfl, rfl⟩
  | disconnected =>
      rcases waiting with _ | request
      · exact .inl ⟨rfl, rfl, rfl, rfl⟩
      rcases rx with _ | ⟨msg, rx⟩
      · exact .inr (.inr ⟨_, _, Option.some_ne_none request, rfl, rfl⟩)
      · exact .inl ⟨rfl, rfl, rfl, rfl⟩

end RealMcpStdio

-- ============================================================================
-- The invariant
-- ============================================================================

/-- A child that can be pushed to: it was greeted, and sent nothing but pushes since. -/
def Ready (sent : List Sent) : Prop :=
  ∃ pushes, sent = .handshake :: .initialized :: pushes ∧ ∀ s ∈ pushes, s.pushId.isSome

theorem ready_greeted : Ready [.handshake, .initialized] := ⟨[], rfl, by simp⟩

theorem Ready.push {sent : List Sent} (h : Ready sent) (id : Nat) (explain : Explain) :
    Ready (sent ++ [.push id explain]) := by
  obtain ⟨pushes, rfl, hpushes⟩ := h
  refine ⟨pushes ++ [.push id explain], rfl, fun s hs => ?_⟩
  rcases List.mem_append.mp hs with hold | hnew
  · exact hpushes s hold
  · rw [List.mem_singleton.mp hnew]
    rfl

/-- What a child can have been sent. -/
def InOrder (sent : List Sent) : Prop := sent = [] ∨ sent = [.handshake] ∨ Ready sent

/-- The explanation was pushed to a child with this number, and of the lines with an `id`
    that the child wrote, the one that is next after those of the handshake and of the pushes
    before says that it is displayed. -/
def Displayed (J : SerdeJson) (log : AdapterLog) (id : Nat) (explain : Explain) : Prop :=
  ∃ number k line, (log.sentTo number)[k + 2]? = some (.push id explain) ∧
    (log.idLinesFrom J number)[k + 1]? = some line ∧ parseWriteEnvelope J line = .ok ()

/-- The calls to a child have taken so many of the lines with an `id` that were read from
    it, and the rest of them is queued. -/
def Heard (J : SerdeJson) (log : AdapterLog) (child : Child) (answered : Nat) : Prop :=
  ∃ taken, log.idLinesFrom J child.number =
    taken ++ child.io.rx.filterMap (RealMcpStdio.idLine J) ∧ taken.length = answered

/-- What the log says, where `live` is the number of the child that is left. -/
structure Ledger (J : SerdeJson) (nextId : Nat) (live : Option Nat) (log : AdapterLog) :
    Prop where
  ids_pos : 1 ≤ nextId
  ids_lt : ∀ id ∈ log.pushIds, 1 ≤ id ∧ id < nextId
  ids_sorted : log.pushIds.Pairwise (· < ·)
  accounted : log.killed ++ live.toList = List.range log.children
  unspawned : ∀ number ≥ log.children,
    log.sentTo number = [] ∧ log.idLinesFrom J number = []
  in_order : ∀ number, InOrder (log.sentTo number)
  pushed : ∀ number id explain, (number, .push id explain) ∈ log.written → explain.IsBuilt
  explained : ∀ x ∈ log.explained, x.result = .ok (buildExplanation x.explain.diff) ∧
    (x.degraded = none → ∃ id, x.id = some id ∧ Displayed J log id x.explain)
  explainIds_lt : ∀ id ∈ log.explainIds, id < nextId
  explainIds_sorted : log.explainIds.Pairwise (· < ·)

namespace AdapterLog

variable {self : AdapterLog} {child number : Nat} {sent : Sent}

theorem sentTo_send_self : (self.send child sent).sentTo child = self.sentTo child ++ [sent] := by
  simp [send, sentTo]

theorem sentTo_send_other (h : number ≠ child) :
    (self.send child sent).sentTo number = self.sentTo number := by
  simp [send, sentTo, h.symm]

theorem pushIds_send :
    (self.send child sent).pushIds = self.pushIds ++ sent.pushId.toList := by
  cases h : sent.pushId <;> simp [send, pushIds, h]

theorem explainIds_finish (explain : Explain) (id : Option Nat) (degraded : Option Degraded) :
    (self.finish explain id degraded).explainIds = self.explainIds ++ id.toList := by
  cases id <;> simp [finish, explainIds]

/-- What is read from a child adds the lines of it that have an `id`. -/
theorem idLinesFrom_hear_self (J : SerdeJson) (s : StdioStep) :
    (self.hear child s).idLinesFrom J child = self.idLinesFrom J child ++
      (RealMcpStdio.reads s).filterMap (RealMcpStdio.idLine J) := by
  have hnew : ∀ msgs : List ReaderMsg,
      (((msgs.filterMap (lineFrom child)).filter fun r => r.1 = child).map Prod.snd).filter
        (hasId J) = msgs.filterMap (RealMcpStdio.idLine J) := by
    intro msgs
    induction msgs with
    | nil => rfl
    | cons msg msgs ih =>
        cases msg with
        | closed reason =>
            rw [List.filterMap_cons_none rfl, List.filterMap_cons_none rfl]
            exact ih
        | line text =>
            by_cases h : hasId J text = true <;>
              simpa [lineFrom, RealMcpStdio.idLine, h] using ih
  rw [← hnew]
  simp only [hear, idLinesFrom, List.filter_append, List.map_append]

theorem idLinesFrom_hear_other (J : SerdeJson) (s : StdioStep) (h : number ≠ child) :
    (self.hear child s).idLinesFrom J number = self.idLinesFrom J number := by
  have hnone : ((RealMcpStdio.reads s).filterMap (lineFrom child)).filter
      (fun r => r.1 = number) = [] := by
    rw [List.filter_eq_nil_iff]
    intro r hr
    obtain ⟨msg, -, hmsg⟩ := List.mem_filterMap.mp hr
    cases msg with
    | closed reason => cases hmsg
    | line text =>
        obtain rfl := Option.some.inj hmsg
        simpa using h.symm
  simp only [hear, idLinesFrom, List.filter_append, hnone, List.append_nil]

/-- A line stays where it was read. -/
theorem idLinesFrom_hear_getElem (J : SerdeJson) (s : StdioStep) {k : Nat} {line : String}
    (h : (self.idLinesFrom J number)[k]? = some line) :
    ((self.hear child s).idLinesFrom J number)[k]? = some line := by
  by_cases hsame : number = child
  · rw [hsame] at h ⊢
    rw [idLinesFrom_hear_self, List.getElem?_append_left (List.getElem?_eq_some_iff.mp h).1]
    exact h
  · rw [idLinesFrom_hear_other J s hsame]
    exact h

/-- What was sent stays where it was sent. -/
theorem sentTo_send_getElem {k : Nat} {old : Sent} (h : (self.sentTo number)[k]? = some old) :
    ((self.send child sent).sentTo number)[k]? = some old := by
  by_cases hsame : number = child
  · rw [hsame] at h ⊢
    rw [sentTo_send_self, List.getElem?_append_left (List.getElem?_eq_some_iff.mp h).1]
    exact h
  · rw [sentTo_send_other hsame]
    exact h

end AdapterLog

/-- A step at a child takes from its queue what a call is answered with. -/
theorem Heard.hear {J : SerdeJson} {log : AdapterLog} {child : Child} {answered : Nat}
    (h : Heard J log child answered) (s : StdioStep) :
    Heard J (log.hear child.number s) { child with io := child.io.next J s }
        (answered + (RealMcpStdio.idsOf J child.io s).length) ∧
      ∀ line, RealMcpStdio.idsOf J child.io s = [line] →
        ((log.hear child.number s).idLinesFrom J child.number)[answered]? = some line := by
  obtain ⟨taken, hlines, rfl⟩ := h
  have hall : (child.io.rx ++ RealMcpStdio.reads s).filterMap (RealMcpStdio.idLine J) =
      (child.io.takes s ++ (child.io.next J s).rx).filterMap (RealMcpStdio.idLine J) :=
    congrArg _ ((RealMcpStdio.queue J).conserves child.io s)
  rw [List.filterMap_append, List.filterMap_append] at hall
  have hafter : (log.hear child.number s).idLinesFrom J child.number =
      (taken ++ RealMcpStdio.idsOf J child.io s) ++
        (child.io.next J s).rx.filterMap (RealMcpStdio.idLine J) := by
    rw [AdapterLog.idLinesFrom_hear_self, hlines, List.append_assoc, hall, ← List.append_assoc]
    rfl
  refine ⟨⟨_, hafter, List.length_append⟩, fun line hline => ?_⟩
  rw [hafter, hline, List.append_assoc, List.getElem?_append_right (Nat.le_refl _), Nat.sub_self]
  rfl

namespace Ledger

variable {J : SerdeJson} {nextId number : Nat} {live : Option Nat} {log : AdapterLog}
  {sent : Sent} {explain : Explain}

theorem live_lt (h : Ledger J nextId (some number) log) : number < log.children := by
  rw [← List.mem_range, ← h.accounted]
  simp

/-- An `explain` returns. -/
theorem finish (h : Ledger J nextId live log) (hbuilt : explain.IsBuilt) {id : Option Nat}
    {degraded : Option Degraded}
    (hdisplayed : degraded = none → ∃ own, id = some own ∧ Displayed J log own explain)
    (hid : ∀ own ∈ id, own < nextId ∧ ∀ other ∈ log.explainIds, other < own) :
    Ledger J nextId live (log.finish explain id degraded) := by
  refine ⟨h.ids_pos, h.ids_lt, h.ids_sorted, h.accounted, h.unspawned, h.in_order, h.pushed,
    fun x hx => ?_, fun n hn => ?_, ?_⟩
  · rcases List.mem_append.mp hx with hold | hnew
    · exact h.explained x hold
    · obtain rfl := List.mem_singleton.mp hnew
      exact ⟨congrArg Except.ok hbuilt, hdisplayed⟩
  · rw [AdapterLog.explainIds_finish, List.mem_append, Option.mem_toList] at hn
    rcases hn with hold | hnew
    · exact h.explainIds_lt n hold
    · exact (hid n hnew).1
  · rw [AdapterLog.explainIds_finish, List.pairwise_append]
    refine ⟨h.explainIds_sorted, by cases id <;> simp, fun other hother own hown => ?_⟩
    exact (hid own (Option.mem_toList.mp hown)).2 other hother

/-- The child that is left is killed. -/
theorem kill (h : Ledger J nextId (some number) log) :
    Ledger J nextId none (log.kill number) := by
  refine ⟨h.ids_pos, h.ids_lt, h.ids_sorted, ?_, h.unspawned, h.in_order, h.pushed, h.explained,
    h.explainIds_lt, h.explainIds_sorted⟩
  have hall := h.accounted
  simpa [AdapterLog.kill] using hall

/-- Another child is spawned when none is left. -/
theorem spawn (h : Ledger J nextId none log) :
    Ledger J nextId (some log.children) { log with children := log.children + 1 } := by
  refine ⟨h.ids_pos, h.ids_lt, h.ids_sorted, ?_, fun n hn => h.unspawned n ?_,
    h.in_order, h.pushed, h.explained, h.explainIds_lt, h.explainIds_sorted⟩
  · have hall := h.accounted
    simp only [Option.toList_none, List.append_nil] at hall
    simp [hall, List.range_succ]
  · exact Nat.le_of_succ_le hn

/-- The child that is left is written to. -/
theorem send (h : Ledger J nextId (some number) log) {nextId' : Nat} (hle : nextId ≤ nextId')
    (horder : InOrder (log.sentTo number ++ [sent]))
    (hid : ∀ id, sent.pushId = some id → nextId ≤ id ∧ id < nextId')
    (hbuilt : ∀ id explain, sent = .push id explain → explain.IsBuilt) :
    Ledger J nextId' (some number) (log.send number sent) := by
  have hlive := h.live_lt
  refine ⟨Nat.le_trans h.ids_pos hle, ?_, ?_, h.accounted, ?_, ?_, ?_, ?_,
    fun id hmem => Nat.lt_of_lt_of_le (h.explainIds_lt id hmem) hle, h.explainIds_sorted⟩
  · intro id hmem
    rw [AdapterLog.pushIds_send, List.mem_append, Option.mem_toList] at hmem
    rcases hmem with hold | hnew
    · obtain ⟨hpos, hlt⟩ := h.ids_lt id hold
      exact ⟨hpos, Nat.lt_of_lt_of_le hlt hle⟩
    · obtain ⟨hge, hlt⟩ := hid id hnew
      exact ⟨Nat.le_trans h.ids_pos hge, hlt⟩
  · rw [AdapterLog.pushIds_send, List.pairwise_append]
    refine ⟨h.ids_sorted, by cases sent.pushId <;> simp, fun a ha b hb => ?_⟩
    have hlt := (h.ids_lt a ha).2
    have hge := (hid b (Option.mem_toList.mp hb)).1
    omega
  · intro n hn
    have hne : n ≠ number := by
      have hn : log.children ≤ n := hn
      omega
    rw [AdapterLog.sentTo_send_other hne]
    exact h.unspawned n hn
  · intro n
    by_cases hsame : n = number
    · rw [hsame, AdapterLog.sentTo_send_self]
      exact horder
    · rw [AdapterLog.sentTo_send_other hsame]
      exact h.in_order n
  · intro n id explain hwritten
    rcases List.mem_append.mp hwritten with hold | hnew
    · exact h.pushed n id explain hold
    · exact hbuilt id explain (congrArg Prod.snd (List.mem_singleton.mp hnew)).symm
  · intro x hx
    obtain ⟨hresult, hdisplayed⟩ := h.explained x hx
    refine ⟨hresult, fun hnone => ?_⟩
    obtain ⟨id, hid, n, k, line, hsent, hrest⟩ := hdisplayed hnone
    exact ⟨id, hid, n, k, line, AdapterLog.sentTo_send_getElem hsent, hrest⟩

/-- Something happens at the child that is left. -/
theorem hear (h : Ledger J nextId (some number) log) (s : StdioStep) :
    Ledger J nextId (some number) (log.hear number s) := by
  have hlive := h.live_lt
  refine ⟨h.ids_pos, h.ids_lt, h.ids_sorted, h.accounted, ?_, h.in_order, h.pushed, ?_,
    h.explainIds_lt, h.explainIds_sorted⟩
  · intro n hn
    have hne : n ≠ number := by
      have hn : log.children ≤ n := hn
      omega
    rw [AdapterLog.idLinesFrom_hear_other J s hne]
    exact h.unspawned n hn
  · intro x hx
    obtain ⟨hresult, hdisplayed⟩ := h.explained x hx
    refine ⟨hresult, fun hnone => ?_⟩
    obtain ⟨id, hid, n, k, line, hsent, hline, hok⟩ := hdisplayed hnone
    exact ⟨id, hid, n, k, line, hsent, AdapterLog.idLinesFrom_hear_getElem J s hline, hok⟩

end Ledger

namespace VibeLensMcpAdapter

variable {J : SerdeJson} {self : VibeLensMcpAdapter} {child : Child} {explain : Explain}
  {k : Nat}

/-- A child that waits for its next push: it was greeted, and the handshake and each push
    was answered by a line of its own. -/
structure Kept (J : SerdeJson) (log : AdapterLog) (child : Child) (k : Nat) : Prop where
  wedged : child.io.wedged = false
  waiting : child.io.waiting = none
  ready : Ready (log.sentTo child.number)
  heard : Heard J log child (k + 1)
  sent : (log.sentTo child.number).length = k + 2

/-- Where the adapter is, and the child it has then. -/
inductive Sound (J : SerdeJson) (adapter : VibeLensMcpAdapter) : Prop where
  | empty (hexplaining : adapter.explaining = none) (htransport : adapter.transport = none)
      (hledger : Ledger J adapter.nextId none adapter.log)
  | kept (child : Child) (k : Nat) (hexplaining : adapter.explaining = none)
      (htransport : adapter.transport = some child)
      (hledger : Ledger J adapter.nextId (some child.number) adapter.log)
      (hkept : Kept J adapter.log child k)
  | greeting (explain : Explain) (child : Child)
      (hexplaining : adapter.explaining = some (.initializing explain child))
      (htransport : adapter.transport = none)
      (hledger : Ledger J adapter.nextId (some child.number) adapter.log)
      (hbuilt : explain.IsBuilt) (hwedged : child.io.wedged = false)
      (hsent : adapter.log.sentTo child.number = [.handshake])
      (hheard : Heard J adapter.log child 0)
  | pushing (explain : Explain) (child : Child) (k id : Nat)
      (hexplaining : adapter.explaining = some (.pushing explain id))
      (htransport : adapter.transport = some child)
      (hledger : Ledger J adapter.nextId (some child.number) adapter.log)
      (hbuilt : explain.IsBuilt) (hwedged : child.io.wedged = false)
      (hready : Ready (adapter.log.sentTo child.number))
      (hheard : Heard J adapter.log child (k + 1))
      (hsent : (adapter.log.sentTo child.number).length = k + 3)
      (hpushed : (adapter.log.sentTo child.number)[k + 2]? = some (.push id explain))
      (hid : id < adapter.nextId ∧ ∀ other ∈ adapter.log.explainIds, other < id)

theorem sound_start (J : SerdeJson) : Sound J start := by
  refine .empty rfl rfl ⟨Nat.le_refl 1, ?_, .nil, rfl, ?_, fun _ => .inl rfl, ?_, ?_, ?_, .nil⟩
  all_goals
    simp [start, AdapterLog.pushIds, AdapterLog.explainIds, AdapterLog.sentTo,
      AdapterLog.idLinesFrom]

/-- The call of a push fails. -/
theorem sound_returned_error (self : VibeLensMcpAdapter) (child : Child) {id : Nat}
    (h : Ledger J self.nextId (some child.number) self.log) (hbuilt : explain.IsBuilt)
    (hid : id < self.nextId ∧ ∀ other ∈ self.log.explainIds, other < id) (reason : String) :
    Sound J (self.returned J explain id child (.error reason)) := by
  refine .empty rfl rfl (h.kill.finish hbuilt (fun hnone => nomatch hnone) fun own hown => ?_)
  obtain rfl := Option.some.inj hown
  exact hid

/-- The call of a push answers a line. -/
theorem sound_returned_ok (self : VibeLensMcpAdapter) (child : Child) {line : String} {id : Nat}
    (h : Ledger J self.nextId (some child.number) self.log) (hbuilt : explain.IsBuilt)
    (hkept : Kept J self.log child (k + 1))
    (hpushed : (self.log.sentTo child.number)[k + 2]? = some (.push id explain))
    (hid : id < self.nextId ∧ ∀ other ∈ self.log.explainIds, other < id)
    (hline : (self.log.idLinesFrom J child.number)[k + 1]? = some line) :
    Sound J (self.returned J explain id child (.ok line)) := by
  refine .kept child (k + 1) rfl rfl (h.finish hbuilt (fun hnone => ?_) fun own hown => ?_)
    ⟨hkept.wedged, hkept.waiting, hkept.ready, hkept.heard, hkept.sent⟩
  · refine ⟨id, rfl, child.number, k, line, hpushed, hline, ?_⟩
    cases hverdict : parseWriteEnvelope J line with
    | error e => simp [hverdict] at hnone
    | ok => rfl
  · obtain rfl := Option.some.inj hown
    exact hid

/-- A push over a child that was greeted takes the next number. -/
theorem sound_push (self : VibeLensMcpAdapter)
    (h : Ledger J self.nextId (some child.number) self.log) (hbuilt : explain.IsBuilt)
    (hkept : Kept J self.log child k) (write : Except String Unit) :
    Sound J (self.push J explain child write) := by
  have hlater : Ledger J (self.nextId + 1) (some child.number) self.log :=
    ⟨Nat.le_succ_of_le h.ids_pos, fun id hid => ⟨(h.ids_lt id hid).1, Nat.lt_succ_of_lt
      (h.ids_lt id hid).2⟩, h.ids_sorted, h.accounted, h.unspawned, h.in_order, h.pushed,
      h.explained, fun id hid => Nat.lt_succ_of_lt (h.explainIds_lt id hid),
      h.explainIds_sorted⟩
  unfold push
  dsimp only
  rcases RealMcpStdio.step_call hkept.wedged hkept.waiting
    ((Sent.push self.nextId explain).text J) write with ⟨reason, hstep⟩ | hstep
  · rw [hstep]
    exact sound_returned_error { self with nextId := self.nextId + 1 } child hlater hbuilt
      ⟨Nat.lt_succ_self _, h.explainIds_lt⟩ reason
  · rw [hstep]
    have hready : Ready (self.log.sentTo child.number ++ [.push self.nextId explain]) :=
      hkept.ready.push self.nextId explain
    have hsent : Ledger J (self.nextId + 1) (some child.number)
        (self.log.send child.number (.push self.nextId explain)) := by
      refine h.send (Nat.le_succ self.nextId) (.inr (.inr hready)) (fun id hid => ?_) ?_
      · obtain rfl : self.nextId = id := Option.some.inj hid
        omega
      · rintro id built ⟨rfl, rfl⟩
        exact hbuilt
    have hafter : (self.log.send child.number (.push self.nextId explain)).sentTo child.number =
        self.log.sentTo child.number ++ [.push self.nextId explain] := AdapterLog.sentTo_send_self
    refine .pushing explain _ k self.nextId rfl rfl hsent hbuilt hkept.wedged ?_ hkept.heard ?_ ?_
      ⟨Nat.lt_succ_self _, h.explainIds_lt⟩
    · rw [hafter]
      exact hready
    · rw [hafter, List.length_append, hkept.sent]
      rfl
    · rw [hafter, List.getElem?_append_right hkept.sent.le, hkept.sent, Nat.sub_self]
      rfl

/-- There is no child to push to. -/
theorem sound_spawnFailed (self : VibeLensMcpAdapter) (htransport : self.transport = none)
    (h : Ledger J self.nextId none self.log) (hbuilt : explain.IsBuilt) (reason : String) :
    Sound J (self.spawnFailed explain reason) := by
  refine .empty rfl htransport ?_
  exact h.finish hbuilt (fun hnone => nomatch hnone) fun own hown => nomatch hown

/-- The call of a handshake comes back. -/
theorem sound_handshaken (self : VibeLensMcpAdapter) (child : Child)
    {result : Except String String}
    (htransport : self.transport = none)
    (h : Ledger J self.nextId (some child.number) self.log) (hbuilt : explain.IsBuilt)
    (hok : ∀ line, result = .ok line → child.io.wedged = false ∧ child.io.waiting = none ∧
      self.log.sentTo child.number = [.handshake] ∧ Heard J self.log child 1)
    (writes : Writes) : Sound J (self.handshaken J explain child result writes) := by
  cases result with
  | error reason =>
      exact sound_spawnFailed { self with log := self.log.kill child.number } htransport h.kill
        hbuilt reason
  | ok line =>
      obtain ⟨hwedged, hwaiting, hsent, hheard⟩ := hok line rfl
      unfold handshaken
      cases writes.initialized with
      | error e =>
          exact sound_spawnFailed { self with log := self.log.kill child.number } htransport
            h.kill hbuilt _
      | ok =>
          have hgreeted : (self.log.send child.number .initialized).sentTo child.number =
              [.handshake, .initialized] := by
            rw [AdapterLog.sentTo_send_self, hsent]
            rfl
          have hledger : Ledger J self.nextId (some child.number)
              (self.log.send child.number .initialized) := by
            refine h.send (Nat.le_refl _) ?_ (fun id hid => nomatch hid)
              fun id explain hpush => nomatch hpush
            rw [hsent]
            exact .inr (.inr ready_greeted)
          refine sound_push { self with log := self.log.send child.number .initialized } hledger
            hbuilt (k := 0) ⟨hwedged, hwaiting, ?_, hheard, ?_⟩ writes.push
          · rw [hgreeted]
            exact ready_greeted
          · rw [hgreeted]
            rfl

/-- A new child is greeted. -/
theorem sound_spawn (htransport : self.transport = none)
    (h : Ledger J self.nextId none self.log) (hbuilt : explain.IsBuilt) (writes : Writes) :
    Sound J (self.spawn J explain writes) := by
  have hspawned := h.spawn
  obtain ⟨hunsent, hunheard⟩ := h.unspawned _ (Nat.le_refl _)
  have hstart := @RealMcpStdio.step_call J .start rfl rfl (Sent.handshake.text J)
    writes.handshake
  unfold spawn
  dsimp only
  rcases hstart with ⟨reason, hstep⟩ | hstep
  · rw [hstep]
    refine sound_handshaken { self with
      log := { self.log with children := self.log.children + 1 } }
      { number := self.log.children, io := .start } htransport hspawned hbuilt ?_ writes
    exact fun line hline => by cases hline
  · rw [hstep]
    have hfirst : InOrder ((({ self.log with children := self.log.children + 1 } :
        AdapterLog).sentTo self.log.children) ++ [.handshake]) := by
      show InOrder (self.log.sentTo self.log.children ++ [.handshake])
      rw [hunsent]
      exact .inr (.inl rfl)
    have hnone : ∀ id, Sent.handshake.pushId = some id → self.nextId ≤ id ∧ id < self.nextId :=
      by simp [Sent.pushId]
    have hsent := hspawned.send (Nat.le_refl _) hfirst hnone fun id explain hpush =>
      nomatch hpush
    refine .greeting explain _ rfl htransport hsent hbuilt rfl ?_ ⟨[], hunheard, rfl⟩
    show (AdapterLog.send _ self.log.children .handshake).sentTo self.log.children = _
    rw [AdapterLog.sentTo_send_self]
    show self.log.sentTo self.log.children ++ [.handshake] = [.handshake]
    rw [hunsent]
    rfl

/-- Something happens at the child. -/
theorem sound_happens (h : Sound J self) {s : StdioStep}
    (hcall : ∀ request write, s ≠ .call request write) (writes : Writes) :
    Sound J (self.happens J s writes) := by
  obtain ⟨transport, nextId, explaining, log⟩ := self
  unfold happens
  rcases h with ⟨hexplaining, htransport, hledger⟩ |
    ⟨child, k, hexplaining, htransport, hledger, hkept⟩ |
    ⟨explain, child, hexplaining, htransport, hledger, hbuilt, hwedged, hsent, hheard⟩ |
    ⟨explain, child, k, id, hexplaining, htransport, hledger, hbuilt, hwedged, hready, hheard,
      hsent, hpushed, hid⟩
  all_goals
    obtain rfl := (hexplaining : explaining = _)
    obtain rfl := (htransport : transport = _)
    dsimp only
  · exact .empty rfl rfl hledger
  · -- no call waits: the lines are queued for the next push
    obtain ⟨hwedged, hwaiting, hready, hheard, hsent⟩ := hkept
    have hlines := (hheard.hear s).1
    rcases RealMcpStdio.step_child hcall with ⟨-, hids, hsame, hstill⟩ |
      ⟨_, _, -, -, -, -, -, hno⟩ | ⟨_, _, hno, -⟩
    · rw [hids] at hlines
      exact .kept _ k rfl rfl (hledger.hear s)
        ⟨hsame.trans hwedged, hstill.trans hwaiting, hready, hlines, hsent⟩
    · exact absurd hwaiting hno
    · exact absurd hwaiting hno
  · have hlater := hledger.hear s
    have hlines := (hheard.hear s).1
    have hcases := @RealMcpStdio.step_child J child.io s hcall
    unfold RealMcpStdio.next at hlines hcases
    generalize child.io.step J s = result at hlines hcases ⊢
    obtain ⟨_ | call, io⟩ := result
    · rcases hcases with ⟨-, hids, hsame, -⟩ | ⟨_, _, hno, -⟩ | ⟨_, _, -, hno, -⟩
      · rw [hids] at hlines
        exact .greeting explain { child with io } rfl rfl hlater hbuilt (hsame.trans hwedged)
          hsent hlines
      · cases hno
      · cases hno
    · refine sound_handshaken _ { child with io } rfl hlater hbuilt ?_ writes
      intro line hline
      rcases hcases with ⟨hno, -⟩ | ⟨_, _, hcall, -, hids, hsame, hafter, -⟩ |
        ⟨_, _, -, hcall, herr⟩
      · cases hno
      · rw [hids] at hlines
        exact ⟨hsame.trans hwedged, hafter, hsent, hlines⟩
      · obtain rfl := Option.some.inj hcall
        rw [herr] at hline
        cases hline
  · have hlater := hledger.hear s
    obtain ⟨hlines, hnext⟩ := hheard.hear s
    have hcases := @RealMcpStdio.step_child J child.io s hcall
    unfold RealMcpStdio.next at hlines hcases
    generalize child.io.step J s = result at hlines hcases ⊢
    obtain ⟨_ | call, io⟩ := result
    · rcases hcases with ⟨-, hids, hsame, -⟩ | ⟨_, _, hno, -⟩ | ⟨_, _, -, hno, -⟩
      · rw [hids] at hlines
        exact .pushing explain { child with io } k id rfl rfl hlater hbuilt (hsame.trans hwedged)
          hready hlines hsent hpushed hid
      · cases hno
      · cases hno
    · rcases hcases with ⟨hno, -⟩ | ⟨_, line, hcall, hline, hids, hsame, hafter, -⟩ |
        ⟨_, reason, -, hcall, herr⟩
      · cases hno
      · obtain rfl := Option.some.inj hcall
        dsimp only
        rw [hline]
        rw [hids] at hlines
        exact sound_returned_ok _ { child with io } hlater hbuilt
          ⟨hsame.trans hwedged, hafter, hready, hlines, hsent⟩ hpushed hid (hnext line hids)
      · obtain rfl := Option.some.inj hcall
        dsimp only
        rw [herr]
        refine sound_returned_error _ { child with io } hlater hbuilt ?_ reason
        exact hid

theorem next_io {s : StdioStep} (hcall : ∀ request write, s ≠ .call request write)
    (writes : Writes) : self.next J (.io s writes) = self.happens J s writes := by
  cases s with
  | call request write => exact absurd rfl (hcall request write)
  | _ => rfl

theorem sound_next (h : Sound J self) (s : AdapterStep) : Sound J (self.next J s) := by
  cases s with
  | io s writes =>
      by_cases hcall : ∃ request write, s = .call request write
      · obtain ⟨request, write, rfl⟩ := hcall
        exact h
      · push Not at hcall
        rw [next_io hcall]
        exact sound_happens h hcall writes
  | explain diff workspace spawned writes =>
      have hbuilt : (Explain.begin diff workspace).IsBuilt := rfl
      have hsound := h
      show Sound J (match self.explaining, self.transport, spawned with
        | some _, _, _ => self
        | none, some child, _ => self.push J (.begin diff workspace) child writes.push
        | none, none, .error e =>
            self.spawnFailed (.begin diff workspace)
              ("failed to spawn `npx -y vibelens-mcp`: " ++ e)
        | none, none, .ok () => self.spawn J (.begin diff workspace) writes)
      rcases h with ⟨hexplaining, htransport, hledger⟩ |
        ⟨child, k, hexplaining, htransport, hledger, hkept⟩ | ⟨_, _, hexplaining, -⟩ |
        ⟨_, _, _, _, hexplaining, -⟩
      · rw [hexplaining, htransport]
        cases spawned with
        | error e => exact sound_spawnFailed self htransport hledger hbuilt _
        | ok => exact sound_spawn htransport hledger hbuilt writes
      · rw [hexplaining, htransport]
        exact sound_push self hledger hbuilt hkept writes.push
      · rw [hexplaining]
        exact hsound
      · rw [hexplaining]
        exact hsound

theorem sound_run (J : SerdeJson) (steps : List AdapterStep) :
    Sound J (Machine.run (next J) start steps) := by
  induction steps using List.reverseRecOn with
  | nil => exact sound_start J
  | append_singleton steps s ih =>
      rw [Machine.run_concat]
      exact sound_next ih s

theorem Sound.ledger (h : Sound J self) :
    Ledger J self.nextId (self.live.map Child.number) self.log := by
  unfold live
  rcases h with ⟨hexplaining, htransport, hledger⟩ | ⟨_, _, hexplaining, htransport, hledger, -⟩ |
    ⟨_, _, hexplaining, htransport, hledger, -⟩ |
    ⟨_, _, _, _, hexplaining, htransport, hledger, -⟩
  · rw [hexplaining, htransport]
    exact hledger
  · rw [hexplaining, htransport]
    exact hledger
  · rw [hexplaining]
    exact hledger
  · rw [hexplaining, htransport]
    exact hledger

-- ============================================================================
-- Any run
-- ============================================================================

/-- Whatever is explained and whatever the children do: each child is sent the handshake
    before its first push, and nothing but pushes after it; the numbers of the pushes
    increase over all the children together, so a response to an old child is a response
    to no later push; every child that was spawned is killed once, but for the one that is
    left; and one that is kept between two pushes was greeted and can be asked. -/
theorem children_law (J : SerdeJson) (steps : List AdapterStep) :
    let self := Machine.run (next J) start steps
    (∀ number, InOrder (self.log.sentTo number)) ∧
    self.log.pushIds.Pairwise (· < ·) ∧ (∀ id ∈ self.log.pushIds, id ≠ 0) ∧
    self.log.killed ++ (self.live.map Child.number).toList = List.range self.log.children ∧
    (self.explaining = none → ∀ child ∈ self.transport,
      child.io.wedged = false ∧ child.io.waiting = none ∧
        Ready (self.log.sentTo child.number)) := by
  intro self
  have hsound : Sound J self := sound_run J steps
  have hledger := hsound.ledger
  refine ⟨hledger.in_order, hledger.ids_sorted, fun id hid => ?_, hledger.accounted,
    fun hidle child hchild => ?_⟩
  · have hpos := (hledger.ids_lt id hid).1
    omega
  · rcases hsound with ⟨-, htransport, -⟩ | ⟨kept, _, -, htransport, -, hkept⟩ |
      ⟨_, _, hexplaining, -⟩ | ⟨_, _, _, _, hexplaining, -⟩
    · rw [htransport] at hchild
      cases hchild
    · obtain rfl : kept = child := Option.some.inj (htransport.symm.trans hchild)
      exact ⟨hkept.wedged, hkept.waiting, hkept.ready⟩
    · rw [hidle] at hexplaining
      cases hexplaining
    · rw [hidle] at hexplaining
      cases hexplaining

/-- Every `explain` returns what is built of its diff, whatever became of the push, and
    this is what is pushed.  One that logs nothing was pushed to a child, with a number that
    no other `explain` has; there the lines with an `id` are taken in order, the first by the
    handshake and one by each push, and the line that is its own by this count says that it
    is displayed. -/
theorem explained_law (J : SerdeJson) (steps : List AdapterStep) :
    let self := Machine.run (next J) start steps
    (∀ x ∈ self.log.explained, x.result = .ok (buildExplanation x.explain.diff) ∧
      (x.degraded = none → ∃ id, x.id = some id ∧ Displayed J self.log id x.explain)) ∧
    self.log.explainIds.Pairwise (· < ·) ∧
    ∀ number id explain, (number, .push id explain) ∈ self.log.written →
      explain.explanation = buildExplanation explain.diff := by
  intro self
  have hledger := (sound_run J steps).ledger
  exact ⟨hledger.explained, hledger.explainIds_sorted, hledger.pushed⟩

end VibeLensMcpAdapter

end Spectty.Diff
