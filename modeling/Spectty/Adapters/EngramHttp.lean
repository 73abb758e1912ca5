/-
  Spectty.Adapters.EngramHttp

  The writes over HTTP of the two clients of the observation store: the
  application's (`postObservationAsync`) and the sidecar's (`upsert`).  Each derives
  a session from the topic key, has the store make that session's row, and posts
  the observation with it.

  `sessionIdOf_eq_iff` says which session a key is filed under, and
  `engramSessionId_eq` that the application derives the same one, in a debug build
  too: the assertion there never fails.
-/

import Spectty.Adapters.Engram
import Spectty.Lib.Json
import Spectty.Lib.Text

namespace Spectty.Adapters.EngramHttp

open Spectty.Lib
open Spectty.Lib.Text

-- ============================================================================
-- The session of a key
-- ============================================================================

/-- The key is `spectty/{session_id}/{spec|progress|cost}`. -/
def isCanonicalD5Key (topicKey : String) : Bool :=
  match topicKey.toList.splitOn '/' with
  | [root, sid, kind] =>
      root = "spectty".toList ∧ sid ≠ [] ∧
        (kind = "spec".toList ∨ kind = "progress".toList ∨ kind = "cost".toList)
  | _ => false

/-- The session that the application derives from a key.  With debug assertions it
    panics rather than file a canonical key under the fallback. -/
def engramSessionId (debugAssertions : Bool) (topicKey : String) : Except String String :=
  let sid :=
    match topicKey.toList.splitOn '/' with
    | root :: sid :: _ =>
        if root = "spectty".toList ∧ sid ≠ [] then some (String.ofList sid) else none
    | _ => none
  if debugAssertions ∧ sid = none ∧ isCanonicalD5Key topicKey then
    .error ("canonical D5 key `" ++ topicKey ++ "` must NOT hit the `spectty` fallback")
  else .ok (sid.getD "spectty")

/-- The session that the sidecar derives from a key. -/
def sessionIdOf (topicKey : String) : String :=
  match topicKey.toList.splitOn '/' with
  | root :: sid :: _ =>
      if root = "spectty".toList ∧ sid ≠ [] then String.ofList sid else "spectty"
  | _ => "spectty"

/-- The key is in the namespace of a session: `spectty/{id}`, alone or before another
    slash. -/
structure InNamespace (topicKey id : String) : Prop where
  ne_empty : id ≠ ""
  slashFree : '/' ∉ id.toList
  root : topicKey = "spectty/" ++ id ∨ ("spectty/" ++ id ++ "/").toList <+: topicKey.toList

variable {topicKey id : String}

/-- The first two segments of the keys in a namespace. -/
theorem inNamespace_iff : InNamespace topicKey id ↔
    id ≠ "" ∧ ∃ rest, topicKey.toList.splitOn '/' = "spectty".toList :: id.toList :: rest := by
  have hroot : '/' ∉ "spectty".toList := by decide
  have hkey : "spectty/".toList = "spectty".toList ++ ['/'] := by decide
  constructor
  · rintro ⟨hne, hslash, rfl | ⟨tail, htail⟩⟩
    · refine ⟨hne, [], splitOn_eq_cons_cons_iff.mpr ⟨hroot, id.toList, ?_, ?_⟩⟩
      · rw [String.toList_append, hkey, List.append_assoc, List.singleton_append]
      · exact splitOn_eq_singleton_iff.mpr ⟨hslash, rfl⟩
    · refine ⟨hne, tail.splitOn '/', splitOn_eq_cons_cons_iff.mpr
        ⟨hroot, id.toList ++ '/' :: tail, ?_, ?_⟩⟩
      · rw [← htail, String.toList_append, String.toList_append, hkey]
        simp
      · exact splitOn_eq_cons_iff.mpr ⟨hslash, .inr ⟨tail, rfl, rfl⟩⟩
  · rintro ⟨hne, rest, hsplit⟩
    obtain ⟨-, tail, htail, hrest⟩ := splitOn_eq_cons_cons_iff.mp hsplit
    obtain ⟨hslash, ⟨-, rfl⟩ | ⟨behind, rfl, -⟩⟩ := splitOn_eq_cons_iff.mp hrest
    · refine ⟨hne, hslash, .inl (String.toList_injective ?_)⟩
      rw [htail, String.toList_append, hkey, List.append_assoc, List.singleton_append]
    · refine ⟨hne, hslash, .inr ⟨behind, ?_⟩⟩
      rw [htail, String.toList_append, String.toList_append, hkey]
      simp

theorem sessionIdOf_of_inNamespace (h : InNamespace topicKey id) : sessionIdOf topicKey = id := by
  obtain ⟨hne, rest, hsplit⟩ := inNamespace_iff.mp h
  have hid : id.toList ≠ [] := mt String.toList_eq_nil_iff.mp hne
  unfold sessionIdOf
  rw [hsplit]
  show (if _ then String.ofList id.toList else "spectty") = id
  rw [if_pos ⟨rfl, hid⟩, String.ofList_toList]

theorem sessionIdOf_of_forall_not (h : ∀ id, ¬ InNamespace topicKey id) :
    sessionIdOf topicKey = "spectty" := by
  unfold sessionIdOf
  split
  · rename_i root sid rest hsplit
    refine if_neg fun hseg => h (String.ofList sid) (inNamespace_iff.mpr ⟨?_, rest, ?_⟩)
    · rw [Ne, ← String.toList_eq_nil_iff, String.toList_ofList]
      exact hseg.2
    · rw [hsplit, hseg.1, show (String.ofList sid).toList = sid from String.toList_ofList]
  · rfl

/-- A key is filed under the session in whose namespace it is, and under the fallback when
    there is none. -/
theorem sessionIdOf_eq_iff : sessionIdOf topicKey = id ↔
    InNamespace topicKey id ∨ id = "spectty" ∧ ∀ other, ¬ InNamespace topicKey other := by
  constructor
  · rintro rfl
    by_cases h : ∃ other, InNamespace topicKey other
    · obtain ⟨other, hother⟩ := h
      exact .inl ((sessionIdOf_of_inNamespace hother).symm ▸ hother)
    · have hnone := not_exists.mp h
      exact .inr ⟨sessionIdOf_of_forall_not hnone, hnone⟩
  · rintro (h | ⟨rfl, h⟩)
    · exact sessionIdOf_of_inNamespace h
    · exact sessionIdOf_of_forall_not h

/-- The application derives the session that the sidecar does, and its assertion holds: a
    key without a session segment is not canonical. -/
theorem engramSessionId_eq (debugAssertions : Bool) (topicKey : String) :
    engramSessionId debugAssertions topicKey = .ok (sessionIdOf topicKey) := by
  unfold engramSessionId sessionIdOf isCanonicalD5Key
  generalize topicKey.toList.splitOn '/' = segments
  rcases segments with - | ⟨root, - | ⟨sid, rest⟩⟩
  · simp
  · simp
  · by_cases hseg : root = "spectty".toList ∧ sid ≠ []
    · simp [-String.reduceToList, hseg]
    · have hnot : ∀ p : Prop, ¬ (root = "spectty".toList ∧ sid ≠ [] ∧ p) :=
        fun p h => hseg ⟨h.1, h.2.1⟩
      rcases rest with - | ⟨kind, - | ⟨_, _⟩⟩ <;> simp [-String.reduceToList, hseg, hnot]

-- ============================================================================
-- The writes
-- ============================================================================

/-- The status of a response: its code, and the text it is shown with. -/
structure Status where
  code : Nat
  text : String
deriving DecidableEq, Repr

def Status.isSuccess (status : Status) : Bool := 200 ≤ status.code ∧ status.code < 300

/-- A request that posts a JSON body. -/
structure Post where
  url : String
  body : Json

/-- The transport answers a request with the status of its response, or fails. -/
abbrev Http : Sig where
  Op := Post
  Reply _ := Except String Status

def post (url : String) (body : Json) : Prog Http (Except String Status) := .op ⟨url, body⟩ .ret

@[simp] theorem post_bind {β : Type} (url : String) (body : Json)
    (f : Except String Status → Prog Http β) : (post url body >>= f) = .op ⟨url, body⟩ f := rfl

/-- How a write of the application fails. -/
inductive WriteError where
  | transport (msg : String)
  | panic (msg : String)
deriving DecidableEq, Repr

/-- A failure of the sidecar's client, as the application has it. -/
def WriteError.ofClient : EngramClientError → WriteError
  | .transport msg => .transport msg

/-- Have the store make the row of a session. -/
def ensureSession (baseUrl project sessionId : String) : Prog Http (Except WriteError Unit) := do
  match ← post (baseUrl ++ "/sessions")
      (.obj [("id", .str sessionId), ("project", .str project)]) with
  | .error e => return .error (.transport e)
  | .ok status =>
      if status.isSuccess then return .ok ()
      else return .error (.transport ("POST /sessions returned " ++ status.text))

/-- The application's write. -/
def postObservationAsync (debugAssertions : Bool) (baseUrl project topicKey content : String) :
    Prog Http (Except WriteError Unit) := do
  match engramSessionId debugAssertions topicKey with
  | .error msg => return .error (.panic msg)
  | .ok sessionId =>
      match ← ensureSession baseUrl project sessionId with
      | .error e => return .error e
      | .ok () =>
          match ← post (baseUrl ++ "/observations")
              (.obj [("session_id", .str sessionId), ("topic_key", .str topicKey),
                ("project", .str project), ("scope", .str "project"), ("content", .str content),
                ("type", .str "architecture"), ("title", .str topicKey)]) with
          | .error e => return .error (.transport e)
          | .ok status =>
              if status.isSuccess then return .ok ()
              else return .error (.transport ("POST /observations returned " ++ status.text))

/-- The sidecar's write. -/
def upsert (baseUrl project topicKey content : String) :
    Prog Http (Except EngramClientError Unit) := do
  let sessionId := sessionIdOf topicKey
  match ← post (baseUrl ++ "/sessions")
      (.obj [("id", .str sessionId), ("project", .str project)]) with
  | .error e => return .error (.transport e)
  | .ok status =>
      if status.isSuccess then
        match ← post (baseUrl ++ "/observations")
            (.obj [("session_id", .str sessionId), ("topic_key", .str topicKey),
              ("project", .str project), ("scope", .str "project"), ("content", .str content),
              ("type", .str "architecture"), ("title", .str topicKey)]) with
        | .error e => return .error (.transport e)
        | .ok status =>
            if status.isSuccess then return .ok ()
            else return .error (.transport ("POST /observations returned " ++ status.text))
      else return .error (.transport ("POST /sessions returned " ++ status.text))

/-- The session that a request names. -/
def Post.session (request : Post) : Option Json :=
  (request.body.get "id").or (request.body.get "session_id")

/-- The two clients write alike: the same requests, and on the same responses the same
    result. -/
theorem postObservationAsync_eq (debugAssertions : Bool)
    (baseUrl project topicKey content : String) :
    postObservationAsync debugAssertions baseUrl project topicKey content =
      Except.mapError WriteError.ofClient <$> upsert baseUrl project topicKey content := by
  unfold postObservationAsync ensureSession upsert
  rw [engramSessionId_eq]
  simp only [post_bind, map_eq_pure_bind, Prog.op_bind]
  refine congrArg (Prog.op _) (funext fun made => ?_)
  rcases made with e | status
  · rfl
  · cases hmade : status.isSuccess with
    | false => simp [hmade, Except.mapError, WriteError.ofClient]
    | true =>
        simp only [hmade, if_true, Prog.pure_eq, Prog.ret_bind, Prog.op_bind]
        refine congrArg (Prog.op _) (funext fun posted => ?_)
        rcases posted with e | status
        · rfl
        · cases hposted : status.isSuccess <;>
            simp [hposted, Except.mapError, WriteError.ofClient]

/-- Every request of a write names the session of its key. -/
theorem allOps_upsert (baseUrl project topicKey content : String) :
    (upsert baseUrl project topicKey content).AllOps fun request : Post =>
      request.session = some (.str (sessionIdOf topicKey)) := by
  refine Prog.AllOps.bind ⟨rfl, fun _ => trivial⟩ fun made => ?_
  split
  · trivial
  · split_ifs
    · refine Prog.AllOps.bind ⟨rfl, fun _ => trivial⟩ fun posted => ?_
      split
      · trivial
      · split_ifs <;> trivial
    · trivial

theorem allOps_postObservationAsync (debugAssertions : Bool)
    (baseUrl project topicKey content : String) :
    (postObservationAsync debugAssertions baseUrl project topicKey content).AllOps
      fun request : Post => request.session = some (.str (sessionIdOf topicKey)) := by
  rw [postObservationAsync_eq, map_eq_pure_bind]
  exact (allOps_upsert baseUrl project topicKey content).bind fun _ => trivial

end Spectty.Adapters.EngramHttp
