/-
  Spectty.Mcp.Tools

  The sidecar's `tools/call` effects.  A known tool is dispatched by name;
  `spectty_spec` stores the pushed contract, `spectty_diff` a trigger, and
  `spectty_approval` registers a pending request and polls for its resolution.

  What the sidecar takes from its process (the clock's nonce, the poll budget)
  is in `Env`.
-/

import Spectty.Commands.Spec

namespace Spectty.Mcp

open Spectty.Adapters
open Spectty.Commands (topicKey specKey approvalKey)
open Spectty.Lib

/-- A JSON-RPC error outcome. -/
structure RpcError where
  code : Int
  message : String
deriving DecidableEq, Repr

def methodNotFound : Int := -32601

def invalidParams : Int := -32602

/-- The protocol's tools. -/
def toolNames : List String :=
  ["spectty_spec", "spectty_diff", "spectty_approval", "spectty_status", "spectty_cost"]

/-- What an effect reads from the process. -/
structure Env where
  nonce : Nat
  maxPolls : Nat

/-- A text result. -/
def textResult (text : String) (isError : Bool) : Json :=
  .obj [("content", .arr [.obj [("type", .str "text"), ("text", .str text)]]),
    ("isError", .bool isError)]

/-- A non-empty string argument, or an invalid-params error. -/
def stringArgument (tool name : String) (arguments : Json) : Except RpcError String :=
  match ((arguments.get name).bind Json.asStr).filter (· ≠ "") with
  | some s => .ok s
  | none => .error { code := invalidParams, message := tool ++ ": missing " ++ name }

theorem stringArgument_eq_ok {tool name s : String} {arguments : Json} :
    stringArgument tool name arguments = .ok s ↔ arguments.get name = some (.str s) ∧ s ≠ "" := by
  unfold stringArgument
  cases hget : arguments.get name with
  | none => simp
  | some v =>
      cases hstr : v.asStr with
      | none =>
          simp only [Option.bind_some, hstr, Option.filter_none, reduceCtorEq, false_iff, not_and]
          rintro h -
          obtain rfl := Option.some.inj h
          cases hstr
      | some s' =>
          obtain rfl := Json.asStr_eq_some.mp hstr
          by_cases hs : s' = ""
          · subst hs
            simp [Option.filter]
          · simp only [Option.bind_some, hstr, Option.filter, hs, ne_eq, not_false_eq_true,
              decide_true, if_true, Except.ok.injEq, Option.some.injEq, Json.str.injEq]
            constructor
            · rintro rfl
              exact ⟨rfl, hs⟩
            · exact fun h => h.1

/-- The arguments object, or an invalid-params error. -/
def presentArguments (arguments : Option Json) : Except RpcError Json :=
  match arguments with
  | some j => .ok j
  | none => .error { code := invalidParams, message := "Missing arguments" }

/-- Run the effect on validated arguments, or answer the error. -/
def withArguments {α : Type} (validated : Except RpcError α) (effect : α → Prog Sys Json) :
    Prog Sys (Except RpcError Json) :=
  match validated with
  | .error e => return .error e
  | .ok a => return .ok (← effect a)

/-- An effect that answers no error ran on validated arguments. -/
theorem exec_withArguments {α : Type} {validated : Except RpcError α}
    {effect : α → Prog Sys Json} {H : Prog.Semantics Sys World} {w w' : World}
    {es : List (Event Sys)} {v : Json}
    (h : Prog.Exec H w (withArguments validated effect) es w' (.ok v)) :
    ∃ a, validated = .ok a ∧ Prog.Exec H w (effect a) es w' v := by
  cases validated with
  | error e => cases h
  | ok a =>
      obtain ⟨es₁, es₂, t, v', rfl, h₁, h₂⟩ := Prog.exec_bind h
      cases h₂
      rw [List.append_nil]
      exact ⟨a, rfl, h₁⟩

theorem allOps_withArguments {α : Type} {validated : Except RpcError α}
    {effect : α → Prog Sys Json} {P : Op → Prop}
    (h : ∀ a, validated = .ok a → Prog.AllOps P (effect a)) :
    Prog.AllOps P (withArguments validated effect) := by
  cases validated with
  | error e => trivial
  | ok a => exact (h a rfl).bind fun _ => trivial

-- ============================================================================
-- spectty_diff
-- ============================================================================

/-- The key of a session's diff trigger. -/
def diffKey (sessionId : String) : String := topicKey sessionId "diff"

/-- The trigger document. -/
def diffTrigger (nonce : Nat) (sessionId : String) (arguments : Json) : Json :=
  .obj [("session_id", .str sessionId),
    ("hint", ((arguments.get "hint").bind Json.asStr).elim .null .str),
    ("nonce", .str (toString nonce))]

def specttyDiffEffect (J : SerdeJson) (env : Env) (arguments : Option Json) :
    Prog Sys (Except RpcError Json) :=
  let validated := do
    let arguments ← presentArguments arguments
    let sessionId ← stringArgument "spectty_diff" "session_id" arguments
    return (arguments, sessionId)
  withArguments validated fun (arguments, sessionId) => do
    let key := diffKey sessionId
    match ← ReqwestEngramClient.upsert key
        (J.toString (diffTrigger env.nonce sessionId arguments)) with
    | .ok () => return textResult ("spectty_diff: triggered diff pipeline via " ++ key) false
    | .error (.transport msg) =>
        return textResult ("spectty_diff: engram unavailable (" ++ msg ++ "); diff not triggered")
          true

-- ============================================================================
-- spectty_spec
-- ============================================================================

/-- The pushed contract: present and an object. -/
def specArgument (arguments : Json) : Except RpcError Json :=
  match (arguments.get "spec").filter Json.isObject with
  | some spec => .ok spec
  | none =>
      .error { code := invalidParams, message := "spectty_spec: missing or non-object spec" }

/-- The session and the contract of a push. -/
def specArguments (arguments : Option Json) : Except RpcError (String × Json) := do
  let arguments ← presentArguments arguments
  let sessionId ← stringArgument "spectty_spec" "session_id" arguments
  let spec ← specArgument arguments
  return (sessionId, spec)

/-- A push is accepted when it names a session and carries an object. -/
theorem specArguments_eq_ok {arguments spec : Json} {sessionId : String} :
    specArguments (some arguments) = .ok (sessionId, spec) ↔
      arguments.get "session_id" = some (.str sessionId) ∧ sessionId ≠ "" ∧
        arguments.get "spec" = some spec ∧ spec.isObject = true := by
  have hspec : specArgument arguments = .ok spec ↔
      arguments.get "spec" = some spec ∧ spec.isObject = true := by
    unfold specArgument
    cases harg : (arguments.get "spec").filter Json.isObject with
    | none =>
        refine iff_of_false (by simp) fun h => ?_
        rw [h.1, Option.filter_some, if_pos h.2] at harg
        cases harg
    | some spec' =>
        rw [Option.filter_eq_some_iff] at harg
        constructor
        · intro h
          obtain rfl := Except.ok.inj h
          exact harg
        · rintro ⟨h, -⟩
          rw [harg.1] at h
          rw [Option.some.inj h]
  have hsession : stringArgument "spectty_spec" "session_id" arguments = .ok sessionId ↔
      arguments.get "session_id" = some (.str sessionId) ∧ sessionId ≠ "" := stringArgument_eq_ok
  rw [← and_assoc, ← hsession, ← hspec]
  simp only [specArguments, presentArguments, bind, Except.bind, pure, Except.pure]
  cases stringArgument "spectty_spec" "session_id" arguments with
  | error e => simp
  | ok sid =>
      cases specArgument arguments with
      | error e => simp
      | ok j => simp

def specttySpecEffect (J : SerdeJson) (arguments : Option Json) :
    Prog Sys (Except RpcError Json) :=
  withArguments (specArguments arguments) fun (sessionId, spec) => do
    let key := specKey sessionId
    match ← ReqwestEngramClient.upsert key (J.toString spec) with
    | .ok () => return textResult ("spectty_spec: upserted contract to " ++ key) false
    | .error (.transport msg) =>
        return textResult ("spectty_spec: engram unavailable (" ++ msg ++ "); spec not persisted")
          true

-- ============================================================================
-- spectty_approval
-- ============================================================================

/-- The session and the action of an approval request. -/
structure ApprovalCall where
  sessionId : String
  actionId : String
  arguments : Json

def approvalArguments (arguments : Option Json) : Except RpcError ApprovalCall := do
  let arguments ← presentArguments arguments
  let sessionId ← stringArgument "spectty_approval" "session_id" arguments
  let actionId ← stringArgument "spectty_approval" "action_id" arguments
  return { sessionId, actionId, arguments }

/-- An approval request is accepted when it names a session and an action. -/
theorem approvalArguments_eq_ok {arguments : Option Json} {call : ApprovalCall} :
    approvalArguments arguments = .ok call ↔
      arguments = some call.arguments ∧
        call.arguments.get "session_id" = some (.str call.sessionId) ∧ call.sessionId ≠ "" ∧
        call.arguments.get "action_id" = some (.str call.actionId) ∧ call.actionId ≠ "" := by
  cases arguments with
  | none => simp [approvalArguments, presentArguments, bind, Except.bind]
  | some j =>
      simp only [approvalArguments, presentArguments, bind, Except.bind, pure, Except.pure]
      constructor
      · intro h
        split at h
        · cases h
        · rename_i sessionId hsession
          split at h
          · cases h
          · rename_i actionId haction
            obtain rfl := Except.ok.inj h
            obtain ⟨h1, h2⟩ := stringArgument_eq_ok.mp hsession
            obtain ⟨h3, h4⟩ := stringArgument_eq_ok.mp haction
            exact ⟨rfl, h1, h2, h3, h4⟩
      · rintro ⟨hj, h1, h2, h3, h4⟩
        obtain rfl := Option.some.inj hj
        simp only [stringArgument_eq_ok.mpr ⟨h1, h2⟩, stringArgument_eq_ok.mpr ⟨h3, h4⟩]

namespace ApprovalCall

/-- The description argument, empty unless a string. -/
def description (self : ApprovalCall) : String :=
  ((self.arguments.get "description").bind Json.asStr).getD ""

/-- The risk-level argument, absent unless a string. -/
def riskLevel (self : ApprovalCall) : Option String :=
  (self.arguments.get "risk_level").bind Json.asStr

/-- The options argument, as the agent sent it. -/
def options (self : ApprovalCall) : Json := (self.arguments.get "options").getD (.arr [])

/-- The pending document. -/
def pending (self : ApprovalCall) : Json :=
  .obj [("action_id", .str self.actionId), ("description", .str self.description),
    ("risk_level", self.riskLevel.elim .null .str), ("options", self.options),
    ("resolution", .null)]

end ApprovalCall

/-- The decision a stored document carries for an action. -/
def resolutionOf (J : SerdeJson) (content actionId : String) : Option String := do
  let doc ← J.toValue content
  if (doc.get "action_id").bind Json.asStr ≠ some actionId then none
  else
    let resolution ← doc.get "resolution"
    if resolution.isNull then none else resolution.asStr

/-- Consecutive failures that end a poll. -/
def approvalMaxConsecutiveGetFailures : Nat := 3

/-- Poll until a decision, the end of the budget (the first number), or too
    many failures in a row (the second number counts them). -/
def pollForResolution (J : SerdeJson) (key actionId : String) :
    Nat → Nat → Prog Sys (Except EngramClientError (Option String))
  | 0, _ => return .ok none
  | polls + 1, failures => do
      match ← ReqwestEngramClient.get key with
      | .ok content =>
          match content.bind (resolutionOf J · actionId) with
          | some decision => return .ok (some decision)
          | none => pollForResolution J key actionId polls 0
      | .error err =>
          if failures + 1 ≥ approvalMaxConsecutiveGetFailures then return .error err
          else pollForResolution J key actionId polls (failures + 1)

/-- One read of the poll. -/
theorem pollForResolution_succ (J : SerdeJson) (key actionId : String) (polls failures : Nat) :
    pollForResolution J key actionId (polls + 1) failures =
      .op (.storeGet key) fun r =>
        match r with
        | .ok content =>
            match content.bind (resolutionOf J · actionId) with
            | some decision => .ret (.ok (some decision))
            | none => pollForResolution J key actionId polls 0
        | .error msg =>
            if failures + 1 ≥ approvalMaxConsecutiveGetFailures then
              .ret (.error (.transport msg))
            else pollForResolution J key actionId polls (failures + 1) := by
  rw [pollForResolution, ReqwestEngramClient.get]
  simp only [Prog.op_bind, Prog.ret_bind, Prog.pure_eq]
  congr 1
  funext r
  cases r with
  | ok content => rfl
  | error msg => rfl

/-- A poll only reads its topic. -/
theorem allOps_pollForResolution (J : SerdeJson) (key actionId : String) (polls failures : Nat) :
    Prog.AllOps (· = Op.storeGet key) (pollForResolution J key actionId polls failures) := by
  induction polls generalizing failures with
  | zero => trivial
  | succ polls ih =>
      rw [pollForResolution_succ]
      refine ⟨rfl, fun r => ?_⟩
      cases r with
      | ok content =>
          simp only
          split
          · trivial
          · exact ih 0
      | error msg =>
          simp only
          split
          · trivial
          · exact ih (failures + 1)

/-- What a resolved call answers. -/
def resolvedResult (decision : String) : Json :=
  textResult ("spectty_approval: resolved as " ++ decision) false

/-- Register, then poll. -/
def ApprovalCall.run (J : SerdeJson) (env : Env) (self : ApprovalCall) : Prog Sys Json := do
  let key := approvalKey self.sessionId
  match ← ReqwestEngramClient.upsert key (J.toString self.pending) with
  | .error (.transport msg) =>
      return textResult
        ("spectty_approval: engram unavailable (" ++ msg ++ "); approval not registered") true
  | .ok () =>
      match ← pollForResolution J key self.actionId env.maxPolls 0 with
      | .ok (some decision) => return resolvedResult decision
      | .ok none =>
          return textResult "spectty_approval: still pending (approval long-poll timed out)" false
      | .error (.transport msg) =>
          return textResult
            ("spectty_approval: engram unavailable (" ++ msg ++ "); cannot await resolution") true

/-- What a call answers when its poll ends. -/
def pollResult : Except EngramClientError (Option String) → Json
  | .ok (some decision) => resolvedResult decision
  | .ok none => textResult "spectty_approval: still pending (approval long-poll timed out)" false
  | .error (.transport msg) =>
      textResult
        ("spectty_approval: engram unavailable (" ++ msg ++ "); cannot await resolution") true

/-- One registration, then the poll if it was acknowledged. -/
theorem ApprovalCall.run_eq (J : SerdeJson) (env : Env) (self : ApprovalCall) :
    self.run J env =
      .op (.storeUpsert (approvalKey self.sessionId) (J.toString self.pending)) fun r =>
        match r with
        | .error msg =>
            .ret (textResult ("spectty_approval: engram unavailable (" ++ msg ++
              "); approval not registered") true)
        | .ok () => do
            let r ← pollForResolution J (approvalKey self.sessionId) self.actionId env.maxPolls 0
            return pollResult r := by
  unfold run ReqwestEngramClient.upsert
  simp only [Prog.op_bind, Prog.ret_bind, Prog.pure_eq]
  congr 1
  funext r
  cases r with
  | error msg => rfl
  | ok u =>
      simp only [Except.mapError]
      congr 1
      funext r
      rcases r with ⟨msg⟩ | (_ | decision) <;> rfl

def specttyApprovalEffect (J : SerdeJson) (env : Env) (arguments : Option Json) :
    Prog Sys (Except RpcError Json) :=
  withArguments (approvalArguments arguments) fun call => call.run J env

-- ============================================================================
-- Dispatch
-- ============================================================================

/-- The acknowledgement of a tool without an effect. -/
def stubAck (name : String) : Json :=
  textResult ("spectty-mcp: '" ++ name ++ "' acknowledged. Tool effect is not yet implemented; " ++
    "no side effect was performed.") false

/-- The tool a call names. -/
def toolName (params : Json) : Except RpcError String :=
  match (params.get "name").bind Json.asStr with
  | none => .error { code := invalidParams, message := "Missing tool name" }
  | some name =>
      if name ∈ toolNames then .ok name
      else .error { code := methodNotFound, message := "Unknown tool: " ++ name }

def handleToolsCall (J : SerdeJson) (env : Env) (params : Option Json) :
    Prog Sys (Except RpcError Json) :=
  match params with
  | none => return .error { code := invalidParams, message := "Missing params" }
  | some params =>
      match toolName params with
      | .error e => return .error e
      | .ok name =>
          let arguments := params.get "arguments"
          if name = "spectty_spec" then specttySpecEffect J arguments
          else if name = "spectty_approval" then specttyApprovalEffect J env arguments
          else if name = "spectty_diff" then specttyDiffEffect J env arguments
          else return .ok (stubAck name)

/-- What a diff call is validated to. -/
theorem diffArguments_eq_ok {arguments : Option Json} {a : Json} {sessionId : String}
    (h : (do
      let arguments ← presentArguments arguments
      let sessionId ← stringArgument "spectty_diff" "session_id" arguments
      return (arguments, sessionId) : Except RpcError (Json × String)) = .ok (a, sessionId)) :
    arguments = some a ∧ stringArgument "spectty_diff" "session_id" a = .ok sessionId := by
  cases arguments with
  | none => cases h
  | some j =>
      simp only [presentArguments, bind, Except.bind, pure, Except.pure] at h
      split at h
      · cases h
      · obtain ⟨rfl, rfl⟩ := Prod.mk.inj (Except.ok.inj h)
        exact ⟨rfl, ‹_›⟩

/-- What a tool call does to the store: a push writes the contract it carries, an
    approval call its request and then reads the answer, a diff call its
    trigger. -/
theorem allOps_handleToolsCall {J : SerdeJson} {env : Env} {params : Json} {P : Op → Prop}
    (hspec : ∀ sessionId spec, toolName params = .ok "spectty_spec" →
      specArguments (params.get "arguments") = .ok (sessionId, spec) →
      P (.storeUpsert (specKey sessionId) (J.toString spec)))
    (happroval : ∀ call, approvalArguments (params.get "arguments") = .ok call →
      P (.storeGet (approvalKey call.sessionId)) ∧
        ∀ payload, P (.storeUpsert (approvalKey call.sessionId) payload))
    (hdiff : ∀ arguments sessionId, params.get "arguments" = some arguments →
      stringArgument "spectty_diff" "session_id" arguments = .ok sessionId →
      ∀ payload, P (.storeUpsert (diffKey sessionId) payload)) :
    (handleToolsCall J env (some params)).AllOps P := by
  unfold handleToolsCall
  simp only
  cases hname : toolName params with
  | error e => trivial
  | ok name =>
      simp only
      split_ifs with h
      · subst h
        refine allOps_withArguments fun ⟨sessionId, spec⟩ hargs => ?_
        refine ⟨hspec sessionId spec hname hargs, fun r => ?_⟩
        cases r <;> trivial
      · refine allOps_withArguments fun call hargs => ?_
        obtain ⟨hread, hwrite⟩ := happroval call hargs
        rw [ApprovalCall.run_eq]
        refine ⟨hwrite _, fun r => ?_⟩
        cases r with
        | error msg => trivial
        | ok _ =>
            refine Prog.AllOps.bind ?_ fun _ => trivial
            refine (allOps_pollForResolution J _ _ _ _).mono ?_
            rintro o rfl
            exact hread
      · refine allOps_withArguments fun ⟨arguments, sessionId⟩ hargs => ?_
        obtain ⟨harguments, hsession⟩ := diffArguments_eq_ok hargs
        refine ⟨hdiff arguments sessionId harguments hsession _, fun r => ?_⟩
        cases r <;> trivial
      · trivial

end Spectty.Mcp
