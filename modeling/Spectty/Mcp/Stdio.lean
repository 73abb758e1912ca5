/-
  Spectty.Mcp.Stdio

  The sidecar's loop over its input: one JSON-RPC message a line, and at most
  one line of answer for each.

  `served_main` is the law of the loop.  It holds for every behaviour of the
  observation store, since an answer's shape depends on the message alone, and
  an effect runs on validated arguments only (`handleToolsCall_error`).
-/

import Spectty.Adapters.AgentRunner
import Spectty.Mcp.Tools
import Spectty.Lib.JsonText

namespace Spectty.Mcp

open Spectty.Adapters (isWhitespace)
open Spectty.Lib

/-- The protocol version this server speaks. -/
def protocolVersion : String := "2025-06-18"

def serverName : String := "spectty-mcp"

/-- The version of the package. -/
def serverVersion : String := "0.0.0"

def parseErrorCode : Int := -32700

-- ============================================================================
-- The advertised tools
-- ============================================================================

/-- The schema of a primitive type. -/
def typeSchema (name : String) : Json := .obj [("type", .str name)]

def enumSchema (values : List String) : Json := .obj [("enum", .arr (values.map .str))]

def arraySchema (items : Json) : Json := .obj [("type", .str "array"), ("items", items)]

/-- The schema of an object that requires nothing. -/
def openSchema (properties : List (String × Json)) : Json :=
  .obj [("type", .str "object"), ("properties", .obj properties)]

def objectSchema (required : List String) (properties : List (String × Json)) : Json :=
  .obj [("type", .str "object"), ("required", .arr (required.map .str)),
    ("properties", .obj properties)]

/-- What `tools/list` says of one tool. -/
def toolSchema (name description : String) (inputSchema : Json) : Json :=
  .obj [("name", .str name), ("description", .str description), ("inputSchema", inputSchema)]

/-- The five tools. -/
def toolSchemas : List Json :=
  [toolSchema "spectty_spec"
      ("Push plan progress to the Spectty Spec pane. " ++
        "M2 stub: acknowledged with no effect; effects land in M3.")
      (objectSchema ["session_id", "spec"]
        [("session_id", typeSchema "string"),
          ("spec", openSchema
            [("proposal", typeSchema "string"),
              ("tasks", arraySchema (objectSchema ["id", "title", "status"]
                [("id", typeSchema "string"), ("title", typeSchema "string"),
                  ("status", enumSchema ["pending", "in_progress", "done", "skipped"]),
                  ("notes", typeSchema "string")]))])]),
    toolSchema "spectty_diff"
      ("Trigger the VibeLens diff pipeline for the current session's " ++
        "worktree and return immediately; the explanation is delivered " ++
        "asynchronously to the VibeLens pane.")
      (objectSchema ["session_id"]
        [("session_id", typeSchema "string"), ("hint", typeSchema "string")]),
    toolSchema "spectty_approval"
      ("Request user approval before a risky action. Registers a pending " ++
        "approval and BLOCKS until the user resolves it (approve/reject/adjust) " ++
        "or the call times out.")
      (objectSchema ["session_id", "action_id", "description"]
        [("session_id", typeSchema "string"), ("action_id", typeSchema "string"),
          ("description", typeSchema "string"),
          ("risk_level", enumSchema ["low", "medium", "high"]),
          ("options", arraySchema (typeSchema "string"))]),
    toolSchema "spectty_status"
      ("Push a transient status message to the session badge and status bar. " ++
        "Currently a stub: the call is acknowledged but the message is not yet " ++
        "surfaced.")
      (objectSchema ["session_id", "message"]
        [("session_id", typeSchema "string"), ("message", typeSchema "string"),
          ("phase", typeSchema "string")]),
    toolSchema "spectty_cost"
      ("Push accumulated token/cost metrics for this session. " ++
        "M2 stub: acknowledged with no effect; effects land in M3.")
      (objectSchema ["session_id", "delta"]
        [("session_id", typeSchema "string"),
          ("delta", openSchema
            [("input_tokens", typeSchema "integer"), ("output_tokens", typeSchema "integer"),
              ("cache_read_tokens", typeSchema "integer"),
              ("estimated_usd", typeSchema "number")]),
          ("model", typeSchema "string")])]

-- ============================================================================
-- One message
-- ============================================================================

def handleInitialize : Json :=
  .obj [("protocolVersion", .str protocolVersion),
    ("capabilities", .obj [("tools", .obj [])]),
    ("serverInfo", .obj [("name", .str serverName), ("version", .str serverVersion)])]

def handleToolsList : Json := .obj [("tools", .arr toolSchemas)]

/-- Route a method to its handler. -/
def dispatch (J : SerdeJson) (env : Env) (method : String) (params : Option Json) :
    Prog Sys (Except RpcError Json) :=
  if method = "initialize" then return .ok handleInitialize
  else if method = "tools/list" then return .ok handleToolsList
  else if method = "tools/call" then handleToolsCall J env params
  else return .error { code := methodNotFound, message := "Method not found: " ++ method }

def successResponse (id result : Json) : Json :=
  .obj [("jsonrpc", .str "2.0"), ("id", id), ("result", result)]

def errorResponse (id : Json) (code : Int) (message : String) : Json :=
  .obj [("jsonrpc", .str "2.0"), ("id", id),
    ("error", .obj [("code", .int code), ("message", .str message)])]

/-- The answer to a request that came to `result`. -/
def response (id : Json) : Except RpcError Json → Json
  | .ok result => successResponse id result
  | .error rpc => errorResponse id rpc.code rpc.message

/-- Answer one message: nothing if it is a notification. -/
def handleMessageWith (J : SerdeJson) (env : Env) (requestJson : String) :
    Prog Sys (Option String) :=
  match J.toValue requestJson with
  | none => return some (J.toString (errorResponse .null parseErrorCode "Parse error"))
  | some value => do
      let method := ((value.get "method").bind Json.asStr).getD ""
      let result ← dispatch J env method (value.get "params")
      return (value.get "id").map fun id => J.toString (response id result)

/-- Only whitespace: `trim` leaves nothing. -/
def isBlank (line : String) : Bool := line.toList.all isWhitespace

/-- The loop: the answers to the lines of the input, each with what its message
    finds in the process. -/
def main (J : SerdeJson) : List (Env × String) → Prog Sys (List String)
  | [] => return []
  | (env, line) :: rest =>
      if isBlank line then main J rest
      else do
        let answer ← handleMessageWith J env line
        let out ← main J rest
        return answer.toList ++ out

-- ============================================================================
-- An error answers a message without effect
-- ============================================================================

section

variable {J : SerdeJson} {σ : Type} {H : Prog.Semantics Sys σ} {w w' : σ} {es : List (Event Sys)}
  {env : Env} {e : RpcError}

/-- Validated arguments come to no error. -/
theorem withArguments_error {α : Type} {validated : Except RpcError α} {effect : α → Prog Sys Json}
    (h : Prog.Exec H w (withArguments validated effect) es w' (.error e)) : es = [] ∧ w' = w := by
  cases validated with
  | error e' =>
      cases h
      exact ⟨rfl, rfl⟩
  | ok a =>
      obtain ⟨es₁, es₂, t, v, rfl, -, h₂⟩ := Prog.exec_bind h
      cases h₂

theorem handleToolsCall_error {params : Option Json}
    (h : Prog.Exec H w (handleToolsCall J env params) es w' (.error e)) : es = [] ∧ w' = w := by
  unfold handleToolsCall at h
  split at h
  · cases h
    exact ⟨rfl, rfl⟩
  · split at h
    · cases h
      exact ⟨rfl, rfl⟩
    · dsimp only at h
      split_ifs at h
      · exact withArguments_error h
      · exact withArguments_error h
      · exact withArguments_error h
      · cases h

theorem dispatch_error {method : String} {params : Option Json}
    (h : Prog.Exec H w (dispatch J env method params) es w' (.error e)) : es = [] ∧ w' = w := by
  unfold dispatch at h
  split_ifs at h
  · cases h
  · cases h
  · exact handleToolsCall_error h
  · cases h
    exact ⟨rfl, rfl⟩

end

-- ============================================================================
-- The law of the loop
-- ============================================================================

/-- An answer to a request: it echoes the id, and carries one of `result` and
    `error`. -/
structure Echoes (answer id : Json) : Prop where
  id : answer.get "id" = some id
  one : (answer.get "result").isSome = !(answer.get "error").isSome

theorem echoes_response (id : Json) (result : Except RpcError Json) :
    Echoes (response id result) id := by
  cases result with
  | ok result => exact ⟨rfl, rfl⟩
  | error rpc => exact ⟨rfl, rfl⟩

/-- The server answered one line of its input with the lines `out`, and performed
    the operations `es` for it. -/
structure LineLaw {σ : Type} (J : SerdeJson) (line : String) (w : σ) (es : List (Event Sys))
    (w' : σ) (out : List String) : Prop where
  blank : isBlank line = true → out = []
  malformed : isBlank line = false → J.toValue line = none →
    out = [J.toString (errorResponse .null parseErrorCode "Parse error")]
  request : isBlank line = false → ∀ value id, J.toValue line = some value →
    value.get "id" = some id → ∃ answer, out = [J.toString answer] ∧ Echoes answer id
  notification : isBlank line = false → ∀ value, J.toValue line = some value →
    value.get "id" = none → out = []
  refused : ∀ answer, out = [J.toString answer] → (answer.get "error").isSome = true →
    es = [] ∧ w' = w
  one_line : ∀ text ∈ out, '\n' ∉ text.toList

/-- The server went through its input, line by line. -/
inductive Served {σ : Type} (J : SerdeJson) :
    List String → σ → List (Event Sys) → σ → List String → Prop where
  | nil {w : σ} : Served J [] w [] w []
  | cons {line : String} {lines : List String} {w w₁ w₂ : σ} {es es' : List (Event Sys)}
      {answer out : List String} : LineLaw J line w es w₁ answer → Served J lines w₁ es' w₂ out →
      Served J (line :: lines) w (es ++ es') w₂ (answer ++ out)

section

variable {J : SerdeJson} {σ : Type} {H : Prog.Semantics Sys σ} {w w' : σ} {es : List (Event Sys)}
  {env : Env} {line : String}

theorem toString_injective {a b : Json} (h : J.toString a = J.toString b) : a = b := by
  have hread := J.fromStr_toString a
  rw [h, J.fromStr_toString b] at hread
  exact (Option.some.inj hread).symm

theorem lineLaw_blank (h : isBlank line = true) : LineLaw J line w [] w [] where
  blank _ := rfl
  malformed hline := by simp [h] at hline
  request hline := by simp [h] at hline
  notification _ _ _ _ := rfl
  refused _ _ _ := ⟨rfl, rfl⟩
  one_line := by simp

/-- A line that is not JSON is answered with a parse error. -/
theorem lineLaw_malformed (hJ : J.OneLine) (hline : isBlank line = false)
    (hvalue : J.toValue line = none) :
    LineLaw J line w [] w
      [J.toString (errorResponse .null parseErrorCode "Parse error")] where
  blank hblank := by simp [hline] at hblank
  malformed _ _ := rfl
  request _ value id hsome := by simp [hvalue] at hsome
  notification _ value hsome := by simp [hvalue] at hsome
  refused _ _ _ := ⟨rfl, rfl⟩
  one_line := by simpa using hJ _

/-- A message without an id is not answered. -/
theorem lineLaw_notification {value : Json} (hvalue : J.toValue line = some value)
    (hid : value.get "id" = none) : LineLaw J line w es w' [] where
  blank _ := rfl
  malformed _ hnone := by simp [hvalue] at hnone
  request _ value' id hsome hid' := by
    obtain rfl := Option.some.inj (hvalue.symm.trans hsome)
    simp [hid] at hid'
  notification _ _ _ _ := rfl
  refused _ hout := by simp at hout
  one_line := by simp

/-- A request is answered once, and one that is refused has done nothing. -/
theorem lineLaw_request (hJ : J.OneLine) (hline : isBlank line = false) {value id : Json}
    (hvalue : J.toValue line = some value) (hid : value.get "id" = some id)
    {result : Except RpcError Json} (hrefused : ∀ e, result = .error e → es = [] ∧ w' = w) :
    LineLaw J line w es w' [J.toString (response id result)] where
  blank hblank := by simp [hline] at hblank
  malformed _ hnone := by simp [hvalue] at hnone
  request _ value' id' hsome hid' := by
    obtain rfl := Option.some.inj (hvalue.symm.trans hsome)
    obtain rfl := Option.some.inj (hid.symm.trans hid')
    exact ⟨response id result, rfl, echoes_response id result⟩
  notification _ value' hsome hid' := by
    obtain rfl := Option.some.inj (hvalue.symm.trans hsome)
    simp [hid] at hid'
  refused answer hout herror := by
    have heq : response id result = answer := toString_injective (List.singleton_inj.mp hout)
    cases result with
    | ok result =>
        rw [← heq] at herror
        cases herror
    | error e => exact hrefused e rfl
  one_line := by simpa using hJ _

theorem lineLaw_message (hJ : J.OneLine) (hline : isBlank line = false) {answer : Option String}
    (h : Prog.Exec H w (handleMessageWith J env line) es w' answer) :
    LineLaw J line w es w' answer.toList := by
  unfold handleMessageWith at h
  cases hvalue : J.toValue line with
  | none =>
      rw [hvalue] at h
      cases h
      exact lineLaw_malformed hJ hline hvalue
  | some value =>
      rw [hvalue] at h
      obtain ⟨es₁, es₂, t, result, rfl, hdispatch, hret⟩ := Prog.exec_bind h
      cases hret
      rw [List.append_nil]
      cases hid : value.get "id" with
      | none => exact lineLaw_notification hvalue hid
      | some id =>
          refine lineLaw_request hJ hline hvalue hid fun e he => ?_
          subst he
          exact dispatch_error hdispatch

/-- Whatever the store does, the server answers line by line, once for each
    request and each line it cannot read; and a request that it answers with an error
    does nothing to the store. -/
theorem served_main (J : SerdeJson) (hJ : J.OneLine) {σ : Type} (H : Prog.Semantics Sys σ)
    (input : List (Env × String)) (w w' : σ) (es : List (Event Sys)) (out : List String)
    (hrun : Prog.Exec H w (main J input) es w' out) :
    Served J (input.map Prod.snd) w es w' out := by
  induction input generalizing w es out with
  | nil =>
      cases hrun
      exact .nil
  | cons head rest ih =>
      obtain ⟨env, line⟩ := head
      rw [main] at hrun
      split at hrun
      case isTrue hblank => exact Served.cons (lineLaw_blank hblank) (ih w es out hrun)
      case isFalse hblank =>
        obtain ⟨es₁, es₂, t, answer, rfl, hmessage, hrest⟩ := Prog.exec_bind hrun
        obtain ⟨es₃, es₄, t', out', rfl, htail, hret⟩ := Prog.exec_bind hrest
        cases hret
        rw [List.append_nil]
        exact .cons (lineLaw_message hJ (by simpa using hblank) hmessage) (ih t es₃ out' htail)

end

theorem isBlank_ping : isBlank (SerdeJson.compact.toString (.obj [("id", .int 1)])) = false := by
  show ((String.ofList (JsonText.put (.obj [("id", .int 1)]) [])).toList.all _) = false
  rw [String.toList_ofList]
  rfl

/-- A blank line and a request without a method: one answer, and the store has seen
    nothing. -/
theorem served_unknown_method :
    let ping := SerdeJson.compact.toString (.obj [("id", .int 1)])
    Served SerdeJson.compact ["", ping] World.initial [] World.initial
      [SerdeJson.compact.toString
        (errorResponse (.int 1) methodNotFound "Method not found: ")] := by
  intro ping
  have hread : SerdeJson.compact.toValue ping = some (.obj [("id", .int 1)]) :=
    SerdeJson.toValue_toString _ _
  have hrun : Prog.Exec World.step World.initial
      (main .compact [(⟨0, 0⟩, ""), (⟨0, 0⟩, ping)]) [] World.initial
      [SerdeJson.compact.toString
        (errorResponse (.int 1) methodNotFound "Method not found: ")] := by
    have hmain : main .compact [(⟨0, 0⟩, ""), (⟨0, 0⟩, ping)] = .ret
        [SerdeJson.compact.toString
          (errorResponse (.int 1) methodNotFound "Method not found: ")] := by
      have hblank : isBlank "" = true := by decide
      have hping : isBlank ping = false := isBlank_ping
      simp only [main, hblank, hping, if_true, handleMessageWith, hread]
      rfl
    rw [hmain]
    exact .ret
  exact served_main .compact SerdeJson.oneLine_compact World.step
    [(⟨0, 0⟩, ""), (⟨0, 0⟩, ping)] _ _ _ _ hrun

end Spectty.Mcp
