/-
  Spectty.Mcp.SpecSchema

  The contract of a session in three descriptions: the input schema the
  sidecar advertises for `spectty_spec`, the document it stores as it came,
  and the struct the application reads it as.

  The schema leaves `tasks` optional and does not mention the fields of the
  struct besides `proposal` and `tasks`; the struct requires `tasks` and
  reads each of the others at its type.  `pushed_spec_shown` says exactly
  which pushes the pane can show.
-/

import Spectty.Gate
import Spectty.Lib.JsonSchema

namespace Spectty.Mcp

open Spectty.Core
open Spectty.Commands
open Spectty.Lib
open Spectty.Lib.Serde

/-- The advertised schema of a task. -/
def specTaskSchema : JsonSchema :=
  .object ["id", "title", "status"]
    [("id", .string), ("title", .string),
      ("status", .enum ["pending", "in_progress", "done", "skipped"]), ("notes", .string)]

/-- The advertised schema of a contract. -/
def specSchema : JsonSchema :=
  .object [] [("proposal", .string), ("tasks", .array specTaskSchema)]

/-- The input schema `tools/list` advertises for `spectty_spec`. -/
def specttySpecInputSchema : JsonSchema :=
  .object ["session_id", "spec"] [("session_id", .string), ("spec", specSchema)]

-- ============================================================================
-- What a contract carries over from a document
-- ============================================================================

/-- The task of the contract is the task of the document. -/
structure CarriesTask (item : Json) (task : SpecTask) : Prop where
  id : item.get "id" = some (.str task.id)
  title : item.get "title" = some (.str task.title)
  status : (item.get "status").bind TaskState.decode = some task.state
  notes : task.notes = (item.get "notes").bind Json.asStr

/-- The tasks of a document. -/
def taskItems (spec : Json) : List Json :=
  match spec.get "tasks" with
  | some (.arr items) => items
  | _ => []

/-- The contract has the document's proposal and its tasks, in order. -/
structure Carries (spec : Json) (c : SpecContract) : Prop where
  proposal : c.proposal = (spec.get "proposal").bind Json.asStr
  tasks : List.Forall₂ CarriesTask (taskItems spec) c.tasks

/-- A member reads at its type, if it is there. -/
def ReadsAs {α : Type} (d : Decode α) (spec : Json) (name : String) : Prop :=
  ∀ v, spec.get name = some v → d v ≠ none

/-- What the struct asks of a document beyond the schema. -/
structure ContractFields (spec : Json) : Prop where
  tasks : spec.get "tasks" ≠ none
  intent : ReadsAs string spec "intent"
  progress : ReadsAs (vec TaskProgress.decode) spec "progress"
  approval : ReadsAs ApprovalState.decode spec "approval"
  steeringNotes : ReadsAs (vec string) spec "steering_notes"
  devOverride : ReadsAs bool spec "dev_override"

-- ============================================================================
-- Reading a valid document
-- ============================================================================

/-- A member of string type reads as an optional string. -/
theorem defaulted_option_string {fields : List (String × Json)} {name : String}
    (h : ∀ v, fields.lookup name = some v → JsonSchema.valid .string v = true) :
    defaulted fields name none (option string) = some ((fields.lookup name).bind Json.asStr) := by
  unfold defaulted
  cases hv : fields.lookup name with
  | none => rfl
  | some v =>
      obtain ⟨s, rfl⟩ := JsonSchema.valid_string.mp (h v hv)
      rfl

/-- The names of a task's states are the advertised ones. -/
theorem decode_taskState {status : String}
    (h : status ∈ ["pending", "in_progress", "done", "skipped"]) :
    ∃ state, TaskState.decode (.str status) = some state := by
  simp only [List.mem_cons, List.not_mem_nil, or_false] at h
  rcases h with rfl | rfl | rfl | rfl
  · exact ⟨.pending, rfl⟩
  · exact ⟨.inProgress, rfl⟩
  · exact ⟨.done, rfl⟩
  · exact ⟨.skipped, rfl⟩

/-- What the schema says of a task. -/
theorem valid_specTask {item : Json} (h : specTaskSchema.valid item = true) :
    ∃ members id title status state, item = .obj members ∧
      members.lookup "id" = some (.str id) ∧ members.lookup "title" = some (.str title) ∧
      members.lookup "status" = some (.str status) ∧
      TaskState.decode (.str status) = some state ∧
      ∀ v, members.lookup "notes" = some v → JsonSchema.valid .string v = true := by
  obtain ⟨⟨members, rfl⟩, hrequired, hproperties⟩ := JsonSchema.valid_object.mp h
  simp only [List.forall_mem_cons] at hproperties
  obtain ⟨hid, htitle, hstatus, hnotes, -⟩ := hproperties
  obtain ⟨id', hid'⟩ := hrequired "id" (by simp)
  obtain ⟨title', htitle'⟩ := hrequired "title" (by simp)
  obtain ⟨status', hstatus'⟩ := hrequired "status" (by simp)
  obtain ⟨id, rfl⟩ := JsonSchema.valid_string.mp (hid id' hid')
  obtain ⟨title, rfl⟩ := JsonSchema.valid_string.mp (htitle title' htitle')
  obtain ⟨status, hmem, rfl⟩ := JsonSchema.valid_enum.mp (hstatus status' hstatus')
  obtain ⟨state, hstate⟩ := decode_taskState hmem
  exact ⟨members, id, title, status, state, rfl, hid', htitle', hstatus', hstate, hnotes⟩

/-- A valid task reads, as the task it is. -/
theorem decode_specTask {item : Json} (hvalue : item.IsValue)
    (hvalid : specTaskSchema.valid item = true) :
    ∃ task, SpecTask.decode item = some task ∧ CarriesTask item task := by
  obtain ⟨members, id, title, status, state, rfl, hid, htitle, hstatus, hstate, hnotes⟩ :=
    valid_specTask hvalid
  obtain ⟨fields, hfields, hlookup⟩ :=
    readFields_value ["id", "title", "status", "notes"] hvalue.nodup
  have hid' : required fields "id" string = some id := by
    rw [required, hlookup "id" (by simp), hid, Option.bind_some, string_str]
  have htitle' : required fields "title" string = some title := by
    rw [required, hlookup "title" (by simp), htitle, Option.bind_some, string_str]
  have hstate' : required fields "status" TaskState.decode = some state := by
    rw [required, hlookup "status" (by simp), hstatus, Option.bind_some, hstate]
  have hnotes' : defaulted fields "notes" none (option string) =
      some ((members.lookup "notes").bind Json.asStr) := by
    rw [← hlookup "notes" (by simp)] at hnotes ⊢
    exact defaulted_option_string hnotes
  refine ⟨⟨id, title, state, (members.lookup "notes").bind Json.asStr⟩, ?_, hid, htitle, ?_, rfl⟩
  · simp only [SpecTask.decode, hfields, hid', htitle', hstate', hnotes', Option.bind_eq_bind,
      Option.bind_some, Option.pure_def]
  · rw [Json.get_obj, hstatus, Option.bind_some, hstate]

/-- Valid tasks read, in order. -/
theorem decode_specTasks {items : List Json} (hvalue : ∀ j ∈ items, j.IsValue)
    (hvalid : ∀ j ∈ items, JsonSchema.valid specTaskSchema j = true) :
    ∃ tasks, vec SpecTask.decode (.arr items) = some tasks ∧
      List.Forall₂ CarriesTask items tasks := by
  induction items with
  | nil => exact ⟨[], rfl, .nil⟩
  | cons item items ih =>
      rw [List.forall_mem_cons] at hvalue hvalid
      obtain ⟨task, htask, hcarries⟩ := decode_specTask hvalue.1 hvalid.1
      obtain ⟨tasks, htasks, hall⟩ := ih hvalue.2 hvalid.2
      refine ⟨task :: tasks, ?_, .cons hcarries hall⟩
      have hrest : items.mapM SpecTask.decode = some tasks := htasks
      show (item :: items).mapM SpecTask.decode = _
      rw [List.mapM_cons, htask, hrest]
      rfl

/-- What the schema says of a contract. -/
theorem valid_spec {spec : Json} (h : specSchema.valid spec = true) :
    ∃ members, spec = .obj members ∧
      (∀ v, members.lookup "proposal" = some v → JsonSchema.valid .string v = true) ∧
      ∀ v, members.lookup "tasks" = some v →
        ∃ items, v = .arr items ∧ ∀ x ∈ items, specTaskSchema.valid x = true := by
  obtain ⟨⟨members, rfl⟩, -, hproperties⟩ := JsonSchema.valid_object.mp h
  simp only [List.forall_mem_cons] at hproperties
  obtain ⟨hproposal, htasks, -⟩ := hproperties
  exact ⟨members, rfl, hproposal, fun v hv => JsonSchema.valid_array.mp (htasks v hv)⟩

/-- A valid document reads as a contract exactly if it has the fields the
    struct asks for, and then the contract carries it. -/
theorem decode_spec {spec : Json} (hvalue : spec.IsValue) (hvalid : specSchema.valid spec = true) :
    (∃ c, SpecContract.decode spec = some c ∧ Carries spec c) ↔ ContractFields spec := by
  obtain ⟨members, rfl, hproposal, htasks⟩ := valid_spec hvalid
  obtain ⟨fields, hfields, hlookup⟩ :=
    readFields_value ["intent", "proposal", "tasks", "progress", "approval", "steering_notes",
      "dev_override"] hvalue.nodup
  have hreads : ∀ {α : Type} (name : String) (default : α) (d : Decode α),
      name ∈ ["intent", "proposal", "tasks", "progress", "approval", "steering_notes",
        "dev_override"] →
      (defaulted fields name default d ≠ none ↔ ReadsAs d (.obj members) name) := by
    intro α name default d hname
    rw [defaulted_ne_none, hlookup name hname]
    rfl
  have hproposal' : defaulted fields "proposal" none (option string) =
      some ((members.lookup "proposal").bind Json.asStr) := by
    rw [← hlookup "proposal" (by simp)] at hproposal ⊢
    exact defaulted_option_string hproposal
  constructor
  · rintro ⟨c, hc, -⟩
    simp only [SpecContract.decode, hfields, hproposal', Option.bind_eq_bind, Option.bind_some,
      Option.bind_eq_some_iff, Option.pure_def] at hc
    obtain ⟨intent, hintent, tasks, htasks', progress, hprogress, approval, happroval, notes,
      hnotes, override, hoverride, -⟩ := hc
    refine ⟨fun hnone => ?_, ?_, ?_, ?_, ?_, ?_⟩
    · rw [required, hlookup "tasks" (by simp)] at htasks'
      rw [Json.get_obj] at hnone
      rw [hnone] at htasks'
      cases htasks'
    · exact (hreads "intent" "" _ (by simp)).mp (by simp [hintent])
    · exact (hreads "progress" [] _ (by simp)).mp (by simp [hprogress])
    · exact (hreads "approval" .default _ (by simp)).mp (by simp [happroval])
    · exact (hreads "steering_notes" [] _ (by simp)).mp (by simp [hnotes])
    · exact (hreads "dev_override" false _ (by simp)).mp (by simp [hoverride])
  · intro h
    obtain ⟨v, hv⟩ := Option.ne_none_iff_exists'.mp h.tasks
    obtain ⟨items, rfl, hitems⟩ := htasks v hv
    obtain ⟨tasks, hdecode, hall⟩ :=
      decode_specTasks (Json.isValue_arr.mp (hvalue.get hv)) hitems
    obtain ⟨intent, hintent⟩ :=
      Option.ne_none_iff_exists'.mp ((hreads "intent" "" _ (by simp)).mpr h.intent)
    obtain ⟨progress, hprogress⟩ :=
      Option.ne_none_iff_exists'.mp ((hreads "progress" [] _ (by simp)).mpr h.progress)
    obtain ⟨approval, happroval⟩ :=
      Option.ne_none_iff_exists'.mp ((hreads "approval" .default _ (by simp)).mpr h.approval)
    obtain ⟨notes, hnotes⟩ :=
      Option.ne_none_iff_exists'.mp ((hreads "steering_notes" [] _ (by simp)).mpr h.steeringNotes)
    obtain ⟨override, hoverride⟩ :=
      Option.ne_none_iff_exists'.mp ((hreads "dev_override" false _ (by simp)).mpr h.devOverride)
    have htasks' : required fields "tasks" (vec SpecTask.decode) = some tasks := by
      rw [required, hlookup "tasks" (by simp), show members.lookup "tasks" = _ from hv,
        Option.bind_some, hdecode]
    refine ⟨⟨intent, (members.lookup "proposal").bind Json.asStr, tasks, progress, approval, notes,
      override⟩, ?_, rfl, ?_⟩
    · simp only [SpecContract.decode, hfields, hintent, hproposal', htasks', hprogress, happroval,
        hnotes, hoverride, Option.bind_eq_bind, Option.bind_some, Option.pure_def]
    · rw [taskItems, hv]
      exact hall

-- ============================================================================
-- What the application makes of a push
-- ============================================================================

variable {J : SerdeJson} {arguments spec v : Json} {sessionId : String} {w w' : World}
  {es : List (Event Sys)}

/-- An acknowledged push stored its document as it came. -/
theorem exec_specttySpecEffect
    (hx : Prog.Exec World.step w (specttySpecEffect J (some arguments)) es w' (.ok v))
    (hack : v.get "isError" = some (.bool false)) :
    ∃ sessionId spec, specArguments (some arguments) = .ok (sessionId, spec) ∧
      w'.content (specKey sessionId) = some (J.toString spec) := by
  obtain ⟨⟨sessionId, spec⟩, hargs, heffect⟩ := exec_withArguments hx
  refine ⟨sessionId, spec, hargs, ?_⟩
  simp only [Adapters.ReqwestEngramClient.upsert, Prog.op_bind, Prog.ret_bind, Prog.pure_eq]
    at heffect
  cases heffect with
  | @op _ _ _ _ _ r _ _ hstep hrest =>
      cases r with
      | error msg =>
          cases hrest
          simp [textResult, List.lookup_cons] at hack
      | ok u =>
          cases hrest
          rcases World.step_upsert_content hstep with hstored | ⟨-, msg, hmsg⟩
          · exact hstored
          · cases hmsg

/-- The pane can show the session's document as the contract `c`: `get_spec`
    answers it, its change is announced with it, and it carries the
    document's proposal and tasks. -/
structure Shown (J : SerdeJson) (sessionId : String) (spec : Json) (w : World) (c : SpecContract) :
    Prop where
  reads : ReadsSpec J sessionId w c
  announced : ∃ content, w.content (specKey sessionId) = some content ∧
    ∀ updatedAt, specUpdatedFromChange J ⟨specKey sessionId, content, updatedAt⟩ =
      some ⟨sessionId, c⟩
  carries : Carries spec c

/-- A stored document is shown exactly if it decodes to a contract that
    carries it and the session's key names the session. -/
theorem shown_iff (hsession : sessionId ≠ "")
    (hstored : w.content (specKey sessionId) = some (J.toString spec)) :
    (∃ c, Shown J sessionId spec w c) ↔
      '/' ∉ sessionId.toList ∧ ∃ c, SpecContract.decode spec = some c ∧ Carries spec c := by
  have hkind : '/' ∉ "spec".toList := by decide
  have hid : sessionIdFromSpecKey (specKey sessionId) =
      if '/' ∈ sessionId.toList then none else some sessionId :=
    sessionIdFromKey_topicKey hsession hkind
  have hof : specOf J (J.toString spec) = SpecContract.decode spec := by
    rw [specOf, SerdeJson.fromStr_toString, Option.bind_some]
  constructor
  · rintro ⟨c, hreads, ⟨content, hcontent, hannounced⟩, hcarries⟩
    rw [readsSpec_iff, hstored, Option.bind_some, hof] at hreads
    refine ⟨fun hslash => ?_, c, hreads, hcarries⟩
    have hnone := hannounced ""
    simp [specUpdatedFromChange, hid, hslash] at hnone
  · rintro ⟨hslash, c, hdecode, hcarries⟩
    refine ⟨c, ?_, ⟨_, hstored, fun updatedAt => ?_⟩, hcarries⟩
    · rw [readsSpec_iff, hstored, Option.bind_some, hof, hdecode]
    · simp [specUpdatedFromChange, hid, hslash, hof, hdecode]

/-- A push of valid arguments that is acknowledged as stored is shown exactly
    if its document has the fields of the struct and its session id has no
    slash. -/
theorem pushed_spec_shown (hvalue : arguments.IsValue)
    (hvalid : specttySpecInputSchema.valid arguments = true)
    (hsession : arguments.get "session_id" = some (.str sessionId))
    (hspec : arguments.get "spec" = some spec)
    (hx : Prog.Exec World.step w (specttySpecEffect J (some arguments)) es w' (.ok v))
    (hack : v.get "isError" = some (.bool false)) :
    (∃ c, Shown J sessionId spec w' c) ↔ '/' ∉ sessionId.toList ∧ ContractFields spec := by
  obtain ⟨sid, j, hargs, hstored⟩ := exec_specttySpecEffect hx hack
  obtain ⟨hsid, hne, hj, -⟩ := specArguments_eq_ok.mp hargs
  obtain rfl : sid = sessionId := by
    rw [hsession] at hsid
    exact (Json.str.inj (Option.some.inj hsid)).symm
  obtain rfl : j = spec := by
    rw [hspec] at hj
    exact (Option.some.inj hj).symm
  have hspecValid : specSchema.valid j = true :=
    (JsonSchema.valid_object.mp hvalid).2.2 ("spec", specSchema) (by simp) j hspec
  rw [shown_iff hne hstored, decode_spec (hvalue.get hspec) hspecValid]

/-- The arguments of a push for session 1. -/
def pushOf (spec : Json) : Json := .obj [("session_id", .str "1"), ("spec", spec)]

/-- A push whose write succeeds is acknowledged. -/
theorem exec_pushOf (J : SerdeJson) (members : List (String × Json)) (w : World) :
    ∃ es v, Prog.Exec World.step w (specttySpecEffect J (some (pushOf (.obj members)))) es
        (w.write (specKey "1") (J.toString (.obj members))) (.ok v) ∧
      v.get "isError" = some (.bool false) := by
  have hargs : specArguments (some (pushOf (.obj members))) = .ok ("1", .obj members) :=
    specArguments_eq_ok.mpr ⟨rfl, by decide, rfl, rfl⟩
  unfold specttySpecEffect
  rw [hargs]
  exact ⟨_, _, .op (World.step_write _ _ _) .ret, rfl⟩

/-- A push of an empty task list is shown. -/
theorem pushed_spec_shown_example :
    ∃ w c, Shown .compact "1" (.obj [("tasks", .arr [])]) w c := by
  obtain ⟨es, v, hx, hack⟩ := exec_pushOf .compact [("tasks", .arr [])] .initial
  have hvalue : (pushOf (.obj [("tasks", .arr [])])).IsValue := by
    simp [pushOf, Json.isValue_obj, Json.isValue_arr]
  refine ⟨_, (pushed_spec_shown hvalue (by decide) rfl rfl hx hack).mpr ⟨by decide, ?_⟩⟩
  refine ⟨by simp, ?_, ?_, ?_, ?_, ?_⟩ <;>
    · intro v hv
      simp [List.lookup_cons] at hv

/-- The empty contract is valid, acknowledged, and not shown. -/
theorem pushed_spec_not_shown :
    (pushOf (.obj [])).IsValue ∧ specttySpecInputSchema.valid (pushOf (.obj [])) = true ∧
      ∃ es w v, Prog.Exec World.step .initial
          (specttySpecEffect .compact (some (pushOf (.obj [])))) es w (.ok v) ∧
        v.get "isError" = some (.bool false) ∧
        w.content (specKey "1") = some "{}" ∧ ¬ ∃ c, ReadsSpec .compact "1" w c := by
  obtain ⟨es, v, hx, hack⟩ := exec_pushOf .compact [] .initial
  refine ⟨by simp [pushOf, Json.isValue_obj], by decide, es, _, v, hx, hack, ?_, ?_⟩
  · rw [World.content_write]
    rfl
  · rintro ⟨c, hc⟩
    rw [readsSpec_iff, World.content_write, Option.bind_some, specOf, SerdeJson.fromStr_toString,
      Option.bind_some] at hc
    cases hc

end Spectty.Mcp
