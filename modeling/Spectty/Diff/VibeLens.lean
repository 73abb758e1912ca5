/-
  Spectty.Diff.VibeLens

  The transport to the VibeLens child, and what a push makes of its response.

  The reader thread queues the lines of the child, and a call returns the first of
  them that has an `id`, whichever `id` that is: the calls that return a line are the
  requests written, each with the next such line (`okCalls_returned`).
  `correlated_iff` says when these are their responses.
-/

import Spectty.Diff.Explanation
import Spectty.Lib.Fifo
import Spectty.Lib.JsonText

namespace Spectty.Diff

open Spectty.Lib
open Spectty.Lib.Text

-- ============================================================================
-- The push
-- ============================================================================

/-- A workspace: its path as text, and the last component of the path. -/
structure Workspace where
  path : String
  fileName : Option String
deriving DecidableEq, Repr

def showDiffTool : String := "show_diff_explanation"

/-- The request of a push. -/
def showDiffRequest (id : Nat) (diff : String) (workspace : Workspace)
    (explanation : DiffExplanation) : Json :=
  let annotations := explanation.files.map fun f =>
    Json.obj [("file", .str f.path), ("explanation", .str f.rationale)]
  let title := (workspace.fileName.map ("Spectty diff — " ++ ·)).getD "Spectty diff"
  .obj [("jsonrpc", .str "2.0"), ("id", .int id), ("method", .str "tools/call"),
    ("params", .obj [("name", .str showDiffTool),
      ("arguments", .obj [("title", .str title), ("diff", .str diff),
        ("summary", .str explanation.summary), ("annotations", .arr annotations),
        ("workspacePath", .str workspace.path)])])]

/-- Why a push degraded. -/
inductive PushError where
  | transport (reason : String)
  | unparseableResponse
  | jsonRpcError (error : Json)
  | missingText
  | unparseableEnvelope
  | notOk (envelope : Json)

/-- The text of the first content of a result. -/
def contentText (response : Json) : Option String := do
  let result ← response.get "result"
  match ← result.get "content" with
  | .arr (first :: _) => (← first.get "text").asStr
  | _ => none

/-- What the response to a push says. -/
def parseWriteEnvelope (J : SerdeJson) (response : String) : Except PushError Unit :=
  match J.toValue response with
  | none => .error .unparseableResponse
  | some value =>
      match value.get "error" with
      | some err => .error (.jsonRpcError err)
      | none =>
          match contentText value with
          | none => .error .missingText
          | some text =>
              match J.toValue text with
              | none => .error .unparseableEnvelope
              | some envelope =>
                  match envelope.get "ok" with
                  | some (.bool true) => .ok ()
                  | _ => .error (.notOk envelope)

/-- What a push makes of its call. -/
def pushVerdict (J : SerdeJson) : Except String String → Except PushError Unit
  | .error reason => .error (.transport reason)
  | .ok line => parseWriteEnvelope J line

-- ============================================================================
-- The transport
-- ============================================================================

/-- What the reader thread forwards. -/
inductive ReaderMsg where
  | line (text : String)
  | closed (reason : String)
deriving DecidableEq, Repr

/-- The transport: what is queued for its calls, and the request of the call that is
    waiting. -/
structure RealMcpStdio where
  rx : List ReaderMsg
  wedged : Bool
  waiting : Option String
deriving DecidableEq, Repr

/-- A step: the reader thread reads a line or the end of the child's output, a call
    begins, with what becomes of its write, or the call that is waiting comes back
    from a receive; `late` says that its deadline has passed by then. -/
inductive StdioStep where
  | childLine (line : String)
  | closed (reason : String)
  | call (request : String) (write : Except String Unit)
  | receive (late : Bool)
  | timeout
  | disconnected

/-- A call that has returned. -/
structure CallReturn where
  request : String
  result : Except String String

/-- The line is a document with an `id`. -/
def hasId (J : SerdeJson) (line : String) : Bool :=
  ((J.toValue line).bind (·.get "id")).isSome

namespace RealMcpStdio

def start : RealMcpStdio where
  rx := []
  wedged := false
  waiting := none

def timedOut : String := "vibelens response timed out"

/-- The call that is waiting fails, and the transport is wedged. -/
def fail (self : RealMcpStdio) (request reason : String) : Option CallReturn × RealMcpStdio :=
  (some { request, result := .error reason }, { self with wedged := true, waiting := none })

/-- One step, with the call that it makes return.  A receive times out, or finds the
    reader gone, only when nothing is queued. -/
def step (J : SerdeJson) (self : RealMcpStdio) : StdioStep → Option CallReturn × RealMcpStdio
  | .childLine line =>
      let trimmed := trimText line.toList
      if trimmed = [] then (none, self)
      else (none, { self with rx := self.rx ++ [.line (.ofList trimmed)] })
  | .closed reason => (none, { self with rx := self.rx ++ [.closed reason] })
  | .call request write =>
      match self.waiting with
      | some _ => (none, self)
      | none =>
          if self.wedged then
            let reason := "vibelens transport is wedged (prior timeout/EOF)"
            (some { request, result := .error reason }, self)
          else
            match write with
            | .error e =>
                (some { request, result := .error ("write to vibelens stdin: " ++ e) }, self)
            | .ok () => (none, { self with waiting := some request })
  | .receive late =>
      match self.waiting, self.rx with
      | some request, .line line :: rx =>
          if hasId J line then
            (some { request, result := .ok line }, { self with rx, waiting := none })
          else if late then { self with rx }.fail request timedOut
          else (none, { self with rx })
      | some request, .closed reason :: rx => { self with rx }.fail request reason
      | _, _ => (none, self)
  | .timeout =>
      match self.waiting, self.rx with
      | some request, [] => self.fail request timedOut
      | _, _ => (none, self)
  | .disconnected =>
      match self.waiting, self.rx with
      | some request, [] => self.fail request "vibelens reader thread gone"
      | _, _ => (none, self)

def next (J : SerdeJson) (self : RealMcpStdio) (s : StdioStep) : RealMcpStdio :=
  (self.step J s).2

/-- The calls that return along some steps. -/
def returned (J : SerdeJson) : RealMcpStdio → List StdioStep → List CallReturn
  | _, [] => []
  | self, s :: steps => (self.step J s).1.toList ++ returned J (self.next J s) steps

/-- The request that a step writes. -/
def writes (self : RealMcpStdio) : StdioStep → List String
  | .call request (.ok ()) =>
      if self.waiting = none ∧ self.wedged = false then [request] else []
  | _ => []

/-- The requests written along some steps. -/
def written (J : SerdeJson) : RealMcpStdio → List StdioStep → List String
  | _, [] => []
  | self, s :: steps => self.writes s ++ written J (self.next J s) steps

/-- What a step takes from the queue. -/
def takes (self : RealMcpStdio) : StdioStep → List ReaderMsg
  | .receive _ =>
      match self.waiting, self.rx with
      | some _, msg :: _ => [msg]
      | _, _ => []
  | _ => []

/-- What a step puts into the queue. -/
def reads : StdioStep → List ReaderMsg
  | .childLine line =>
      let trimmed := trimText line.toList
      if trimmed = [] then [] else [.line (.ofList trimmed)]
  | .closed reason => [.closed reason]
  | _ => []

/-- The queue between the reader thread and the calls. -/
def queue (J : SerdeJson) : Fifo RealMcpStdio StdioStep ReaderMsg where
  step := next J
  held := rx
  input := reads
  output := takes
  conserves self s := by
    obtain ⟨rx, wedged, waiting⟩ := self
    cases s with
    | childLine line =>
        by_cases h : trimText line.toList = [] <;> simp [reads, takes, next, step, h]
    | closed reason => simp [reads, takes, next, step]
    | call request write =>
        cases waiting <;> cases wedged <;> cases write <;> simp [reads, takes, next, step]
    | receive late =>
        cases waiting with
        | none => simp [reads, takes, next, step]
        | some request =>
            cases rx with
            | nil => simp [reads, takes, next, step]
            | cons msg rx =>
                cases msg with
                | line text =>
                    by_cases h : hasId J text = true <;> cases late <;>
                      simp [reads, takes, next, step, fail, h]
                | closed reason => simp [reads, takes, next, step, fail]
    | timeout => cases waiting <;> cases rx <;> simp [reads, takes, next, step, fail]
    | disconnected => cases waiting <;> cases rx <;> simp [reads, takes, next, step, fail]

/-- The line of a message, if it has an `id`. -/
def idLine (J : SerdeJson) : ReaderMsg → Option String
  | .line text => if hasId J text then some text else none
  | .closed _ => none

/-- The lines with an `id` that the child writes. -/
def idLines (J : SerdeJson) (steps : List StdioStep) : List String :=
  ((queue J).inputs steps).filterMap (idLine J)

/-- The lines with an `id` that calls have taken from the queue. -/
def idLinesTaken (J : SerdeJson) (self : RealMcpStdio) (steps : List StdioStep) : List String :=
  ((queue J).outputs self steps).filterMap (idLine J)

/-- The request and the line of a call that has returned one. -/
def okCall (call : CallReturn) : Option (String × String) :=
  match call.result with
  | .ok line => some (call.request, line)
  | .error _ => none

variable {J : SerdeJson} {self : RealMcpStdio} {steps : List StdioStep} {s : StdioStep}

theorem idLinesTaken_cons (self : RealMcpStdio) (s : StdioStep) (steps : List StdioStep) :
    idLinesTaken J self (s :: steps) =
      (self.takes s).filterMap (idLine J) ++ idLinesTaken J (self.next J s) steps :=
  List.filterMap_append

theorem idLinesTaken_prefix (J : SerdeJson) (steps : List StdioStep) :
    idLinesTaken J start steps <+: idLines J steps :=
  (Fifo.outputs_isPrefix (B := queue J) rfl steps).filterMap _

/-- A wedged transport takes nothing more. -/
theorem idLinesTaken_wedged (hwedged : self.wedged = true) (hwaiting : self.waiting = none) :
    idLinesTaken J self steps = [] := by
  induction steps generalizing self with
  | nil => rfl
  | cons s steps ih =>
      have hkeeps : (self.next J s).wedged = true ∧ (self.next J s).waiting = none := by
        obtain ⟨rx, wedged, waiting⟩ := self
        obtain rfl : wedged = true := hwedged
        obtain rfl : waiting = none := hwaiting
        cases s with
        | childLine line => by_cases h : trimText line.toList = [] <;> simp [next, step, h]
        | _ => exact ⟨rfl, rfl⟩
      have htakes : self.takes s = [] := by
        cases s <;> simp [takes, hwaiting]
      rw [idLinesTaken_cons, htakes, ih hkeeps.1 hkeeps.2]
      rfl

/-- The lines with an `id` that a step takes from the queue. -/
def idsOf (J : SerdeJson) (self : RealMcpStdio) (s : StdioStep) : List String :=
  (self.takes s).filterMap (idLine J)

/-- The calls that a step makes return a line. -/
def okOf (J : SerdeJson) (self : RealMcpStdio) (s : StdioStep) : List (String × String) :=
  (self.step J s).1.toList.filterMap okCall

/-- What a step can do: nothing that matters to the calls in order, write a request,
    return the line of an answer, or fail and wedge the transport. -/
inductive Effect (J : SerdeJson) (self : RealMcpStdio) (s : StdioStep) : Prop where
  | quiet : okOf J self s = [] → idsOf J self s = [] → self.writes s = [] →
      (self.next J s).waiting = self.waiting → (self.next J s).wedged = self.wedged →
      Effect J self s
  | written (request : String) : self.waiting = none → self.wedged = false →
      okOf J self s = [] → idsOf J self s = [] → self.writes s = [request] →
      (self.next J s).waiting = some request → (self.next J s).wedged = false → Effect J self s
  | answered (request line : String) : self.waiting = some request →
      okOf J self s = [(request, line)] → idsOf J self s = [line] → self.writes s = [] →
      (self.next J s).waiting = none → Effect J self s
  | failed : okOf J self s = [] → idsOf J self s = [] → self.writes s = [] →
      (self.next J s).waiting = none → (self.next J s).wedged = true → Effect J self s

theorem effect (J : SerdeJson) (self : RealMcpStdio) (s : StdioStep) : Effect J self s := by
  obtain ⟨rx, wedged, waiting⟩ := self
  cases s with
  | childLine line =>
      refine .quiet ?_ rfl rfl ?_ ?_ <;>
        by_cases h : trimText line.toList = [] <;> simp [okOf, next, step, h]
  | closed reason => exact .quiet rfl rfl rfl rfl rfl
  | call request write =>
      cases waiting with
      | some other => exact .quiet rfl rfl (by cases write <;> simp [writes]) rfl rfl
      | none =>
          cases wedged with
          | true => exact .quiet rfl rfl (by cases write <;> simp [writes]) rfl rfl
          | false =>
              cases write with
              | error e => exact .quiet rfl rfl rfl rfl rfl
              | ok _ => exact .written request rfl rfl rfl rfl rfl rfl rfl
  | receive late =>
      cases waiting with
      | none => exact .quiet rfl rfl rfl rfl rfl
      | some request =>
          cases rx with
          | nil => exact .quiet rfl rfl rfl rfl rfl
          | cons msg rx =>
              cases msg with
              | closed reason => exact .failed rfl rfl rfl rfl rfl
              | line text =>
                  by_cases h : hasId J text = true
                  · refine .answered request text rfl ?_ ?_ rfl ?_ <;>
                      simp [okOf, okCall, idsOf, takes, idLine, next, step, h]
                  · cases late with
                    | true =>
                        refine .failed ?_ ?_ rfl ?_ ?_ <;>
                          simp [okOf, okCall, idsOf, takes, idLine, next, step, fail, h]
                    | false =>
                        refine .quiet ?_ ?_ rfl ?_ ?_ <;>
                          simp [okOf, idsOf, takes, idLine, next, step, h]
  | timeout =>
      cases waiting with
      | none => exact .quiet rfl rfl rfl rfl rfl
      | some request =>
          cases rx with
          | nil => exact .failed rfl rfl rfl rfl rfl
          | cons msg rx => exact .quiet rfl rfl rfl rfl rfl
  | disconnected =>
      cases waiting with
      | none => exact .quiet rfl rfl rfl rfl rfl
      | some request =>
          cases rx with
          | nil => exact .failed rfl rfl rfl rfl rfl
          | cons msg rx => exact .quiet rfl rfl rfl rfl rfl

/-- The calls that return a line are the requests written, each with the next line
    that has an `id`. -/
theorem okCalls_returned (h : self.wedged = true → self.waiting = none) :
    (returned J self steps).filterMap okCall =
      (self.waiting.toList ++ written J self steps).zip (idLinesTaken J self steps) := by
  induction steps generalizing self with
  | nil => simp [returned, idLinesTaken, Fifo.outputs]
  | cons s steps ih =>
      rw [returned, List.filterMap_append, written, idLinesTaken_cons]
      show okOf J self s ++ _ = List.zip _ (idsOf J self s ++ _)
      cases effect J self s with
      | quiet hok hids hwrites hwaiting hwedged =>
          rw [hok, hids, hwrites, ih (by rwa [hwaiting, hwedged]), hwaiting]
          rfl
      | written request hidle _ hok hids hwrites hwaiting hwedged =>
          rw [hok, hids, hwrites, ih (by simp [hwedged]), hwaiting, hidle]
          rfl
      | answered request line hidle hok hids hwrites hwaiting =>
          rw [hok, hids, hwrites, ih (fun _ => hwaiting), hwaiting, hidle]
          rfl
      | failed hok hids hwrites hwaiting hwedged =>
          rw [hok, hids, hwrites, ih (fun _ => hwaiting), idLinesTaken_wedged hwedged hwaiting]
          simp

/-- The line is a response, with a result or an error, to the request. -/
def Answers (J : SerdeJson) (request line : String) : Prop :=
  ∀ id, (J.toValue request).bind (·.get "id") = some id →
    ∃ response, J.toValue line = some response ∧ response.get "id" = some id ∧
      ((response.get "result").isSome ∨ (response.get "error").isSome)

/-- Every call that returns a line returns the response to its request just when, of the
    lines with an `id` that the child writes, as far as calls take them, each is the
    response to the request that was written with the same number. -/
theorem correlated_iff (J : SerdeJson) (steps : List StdioStep) :
    (∀ call ∈ returned J start steps, ∀ line, call.result = .ok line →
      Answers J call.request line) ↔
      ∀ k < (idLinesTaken J start steps).length, ∀ request line,
        (written J start steps)[k]? = some request → (idLines J steps)[k]? = some line →
        Answers J request line := by
  have hcalls : (returned J start steps).filterMap okCall =
      (written J start steps).zip (idLinesTaken J start steps) :=
    okCalls_returned (fun _ => rfl : start.wedged = true → start.waiting = none)
  have hreturned : ∀ request line,
      (∃ call ∈ returned J start steps, call.request = request ∧ call.result = .ok line) ↔
        (request, line) ∈ (written J start steps).zip (idLinesTaken J start steps) := by
    intro request line
    rw [← hcalls, List.mem_filterMap]
    refine exists_congr fun call => and_congr_right fun _ => ?_
    unfold okCall
    cases call.result <;> simp
  obtain ⟨rest, hrest⟩ := idLinesTaken_prefix J steps
  constructor
  · intro h k hk request line hrequest hline
    rw [← hrest, List.getElem?_append_left hk] at hline
    have hmem : (request, line) ∈ (written J start steps).zip (idLinesTaken J start steps) :=
      List.mem_of_getElem? (List.getElem?_zip_eq_some.mpr ⟨hrequest, hline⟩)
    obtain ⟨call, hcall, rfl, hok⟩ := (hreturned request line).mpr hmem
    exact h call hcall line hok
  · intro h call hcall line hok
    obtain ⟨k, hk⟩ := List.mem_iff_getElem?.mp
      ((hreturned call.request line).mp ⟨call, hcall, rfl, hok⟩)
    obtain ⟨hrequest, hline⟩ := List.getElem?_zip_eq_some.mp hk
    obtain ⟨hlt, -⟩ := List.getElem?_eq_some_iff.mp hline
    refine h k hlt call.request line hrequest ?_
    rw [← hrest, List.getElem?_append_left hlt]
    exact hline

/-- The `id` of the request of a push. -/
theorem id_showDiffRequest (J : SerdeJson) (id : Nat) (diff : String) (workspace : Workspace)
    (explanation : DiffExplanation) :
    (J.toValue (J.toString (showDiffRequest id diff workspace explanation))).bind (·.get "id") =
      some (.int id) := by
  rw [SerdeJson.toValue_toString, Option.bind_some, showDiffRequest, Json.get_toValue_obj]
  show some (Json.int id).toValue = _
  rw [Json.toValue] <;> simp

/-- A push that succeeds on the answer to its request does so by a response of its own. -/
theorem response_of_pushVerdict {id : Nat} {diff : String} {workspace : Workspace}
    {explanation : DiffExplanation} {result : Except String String}
    (hanswers : ∀ line, result = .ok line →
      Answers J (J.toString (showDiffRequest id diff workspace explanation)) line)
    (h : pushVerdict J result = .ok ()) :
    ∃ line response, result = .ok line ∧ J.toValue line = some response ∧
      response.get "id" = some (.int id) ∧ response.get "error" = none := by
  cases result with
  | error reason => cases h
  | ok line =>
      obtain ⟨response, hresponse, hid, -⟩ := hanswers line rfl _ (id_showDiffRequest J _ _ _ _)
      refine ⟨line, response, rfl, hresponse, hid, ?_⟩
      rw [pushVerdict, parseWriteEnvelope, hresponse] at h
      cases herror : response.get "error" with
      | none => rfl
      | some err => simp [herror] at h

/-- A request of the child, in the compact text. -/
def pingLine : String :=
  SerdeJson.compact.toString (.obj [("id", .int 7), ("method", .str "ping")])

theorem toValue_pingLine : SerdeJson.compact.toValue pingLine =
    some (.obj [("id", .int 7), ("method", .str "ping")]) :=
  SerdeJson.toValue_toString_value _ (by
    simp [Json.IsValue, Json.MembersAreValues, IndexMap.keys])

/-- The child asks something before it answers: the push takes that for its response. -/
theorem ping_returned :
    let push := SerdeJson.compact.toString (showDiffRequest 1 "" ⟨"/ws", some "ws"⟩ .empty)
    let steps : List StdioStep := [.call push (.ok ()), .childLine pingLine, .receive false]
    ¬ ∀ call ∈ returned .compact start steps, ∀ line, call.result = .ok line →
      Answers .compact call.request line := by
  intro push steps h
  have htrim : trimText pingLine.toList = pingLine.toList := by
    show trimText (String.ofList (JsonText.put _ [])).toList = (String.ofList _).toList
    rw [String.toList_ofList]
    rfl
  have hid : hasId .compact pingLine = true := by rw [hasId, toValue_pingLine]; rfl
  have hline : pingLine.toList ≠ [] := by
    show (String.ofList (JsonText.put _ [])).toList ≠ []
    rw [String.toList_ofList]
    exact List.cons_ne_nil _ _
  have hreturned : returned .compact start steps = [⟨push, .ok pingLine⟩] := by
    simp [steps, returned, step, next, start, htrim, hline, hid]
  obtain ⟨response, hresponse, hanswer, -⟩ := h ⟨push, .ok pingLine⟩ (by simp [hreturned])
    pingLine rfl _ (id_showDiffRequest _ _ _ _ _)
  obtain rfl := Option.some.inj (toValue_pingLine.symm.trans hresponse)
  exact absurd (Json.int.inj (Option.some.inj hanswer)) (by decide)

end RealMcpStdio

end Spectty.Diff
