/-
  Spectty.Adapters.EngramStore

  The observation store behind HTTP.

  Elsewhere a read of the store, and a write, is one step.  Here each is the requests
  that its client makes of a daemon: a write first has the session's row made, a read
  lists all rows and picks the latest of its topic.  `store_over_http` says that threads
  of both clients, in any interleaving of their requests, do what they may do over the
  store in one step each.
-/

import Spectty.Adapters.EngramHttp
import Spectty.Adapters.Observations
import Spectty.Lib.Atomic

namespace Spectty.Adapters.EngramHttp

open Spectty.Lib
open Spectty.Lib.Serde
open Spectty.Adapters.Observations (RawObs latest)

-- ============================================================================
-- Requests
-- ============================================================================

/-- The response of a `GET`: its body, or the error of reading it as JSON. -/
structure Response where
  status : Status
  body : Except String Json

inductive Request where
  | post (request : Post)
  | get (url : String)

abbrev Request.Reply : Request → Type
  | .post _ => Except String Status
  | .get _ => Except String Response

/-- A request, or an operation that is not one of the store. -/
inductive NetOp where
  | http (request : Request)
  | other (o : Op)

abbrev NetOp.Reply : NetOp → Type
  | .http request => request.Reply
  | .other o => o.Reply

abbrev Net : Sig where
  Op := NetOp
  Reply := NetOp.Reply

/-- The posts of a client, among the other requests. -/
def send {α : Type} (p : Prog Http α) : Prog Net α :=
  p.implement fun request => .op (.http (.post request)) .ret

-- ============================================================================
-- The clients
-- ============================================================================

def WriteError.text : WriteError → String
  | .transport msg => msg
  | .panic msg => msg

def clientErrorText : EngramClientError → String
  | .transport msg => msg

/-- The two clients. -/
inductive Client where
  | app (debugAssertions : Bool)
  | sidecar

/-- What a client's requests depend on: the address, the project, and the text of the
    error for a body that is not the list of rows. -/
structure ClientConfig where
  baseUrl : String
  project : String
  decodeError : Json → String

namespace Client

section

variable (config : ClientConfig)

/-- A write, with the text of its error. -/
def post (topicKey content : String) : Client → Prog Net (Except String Unit)
  | .app debugAssertions => do
      let r ← send (postObservationAsync debugAssertions config.baseUrl config.project topicKey
        content)
      return r.mapError WriteError.text
  | .sidecar => do
      let r ← send (upsert config.baseUrl config.project topicKey content)
      return r.mapError clientErrorText

/-- What a client reads in a body. -/
def read (topicKey : String) (body : Json) : Client → Option (Option String)
  | .app _ => Observations.contentOf (Observations.getObservationAsync body topicKey)
  | .sidecar => Observations.get body topicKey

/-- A read. -/
def get (topicKey : String) (client : Client) : Prog Net (Except String (Option String)) :=
  .op (.http (.get (config.baseUrl ++ "/observations"))) fun r => .ret <|
    match r with
    | .error e => .error e
    | .ok response =>
        if response.status.isSuccess then
          match response.body with
          | .error e => .error e
          | .ok body =>
              match client.read topicKey body with
              | none => .error (config.decodeError body)
              | some content => .ok content
        else .error ("GET /observations returned " ++ response.status.text)

/-- The accesses of the store by requests, the other operations as they are. -/
def impl (client : Client) : (o : Op) → Prog Net o.Reply
  | .storeGet topicKey => client.get config topicKey
  | .storeUpsert topicKey payload => client.post config topicKey payload
  | .applyObserved source id observed => .op (.other (.applyObserved source id observed)) .ret
  | .getSession id => .op (.other (.getSession id)) .ret
  | .removeSession id => .op (.other (.removeSession id)) .ret
  | .emit event => .op (.other (.emit event)) .ret

end

end Client

-- ============================================================================
-- The daemon
-- ============================================================================

/-- The readers take the row as one of the topic. -/
def ofTopic (topicKey : String) (r : RawObs) : Bool :=
  (r.topicKey.map (Observations.eqIgnoreAsciiCase · (storeKey topicKey))).getD false

/-- The rows of a topic. -/
def rowsOf (topicKey : String) (rows : List RawObs) : List RawObs :=
  rows.filter (ofTopic topicKey)

/-- The rows after an observation was created or updated: those of the other topics as they
    were, and of its own topic a row with the content that no earlier row is dated after,
    and that every later row is dated before. -/
structure Stored (topicKey content : String) (rows rows' : List RawObs) : Prop where
  others : ∀ other, storeKey other ≠ storeKey topicKey → rowsOf other rows' = rowsOf other rows
  latest : ∃ before row after, rowsOf topicKey rows' = before ++ row :: after ∧
    row.content = content ∧ (∀ r ∈ before, ¬ row.updatedAt < r.updatedAt) ∧
    ∀ r ∈ after, r.updatedAt < row.updatedAt

/-- A daemon: the rows that it lists, and how a post moves it, with the status of its
    response or, where that is lost, without. -/
structure Engram (baseUrl : String) where
  State : Type
  rows : State → List RawObs
  body : State → Json
  step : State → Post → Option Status → State → Prop
  /-- The list has the fields of a row. -/
  lists : ∀ s, vec RawObs.decodeApp (body s) = some (rows s)
  /-- The row of a session is not an observation. -/
  sessions : ∀ s post r s', step s post r s' → post.url = baseUrl ++ "/sessions" →
    rows s' = rows s
  /-- A post that succeeds creates or updates the observation, one that does not succeed
      does so or does nothing. -/
  observations : ∀ s post r s' topicKey content, step s post r s' →
    post.url = baseUrl ++ "/observations" →
    post.body.get "topic_key" = some (.str topicKey) →
    post.body.get "content" = some (.str content) →
      Stored topicKey content (rows s) (rows s') ∨
        rows s' = rows s ∧ ∀ status, r = some status → status.isSuccess = false

namespace Engram

variable {baseUrl : String}

/-- How the requests move the daemon, and the other operations the rest.  A post without
    a response may not have arrived. -/
def netStep (E : Engram baseUrl) : Prog.Semantics Net (E.State × World) := fun s e s' =>
  match e with
  | ⟨.http (.post request), r⟩ =>
      s'.2 = s.2 ∧
        match r with
        | .ok status => E.step s.1 request (some status) s'.1
        | .error _ => s'.1 = s.1 ∨ E.step s.1 request none s'.1
  | ⟨.http (.get _), r⟩ =>
      s' = s ∧ ∀ response body, r = .ok response → response.status.isSuccess = true →
        response.body = .ok body → body = E.body s.1
  | ⟨.other o, r⟩ => s'.1 = s.1 ∧ World.step s.2 ⟨o, r⟩ s'.2

/-- The store holds under each key the latest of the rows; the rest is the same. -/
structure Abstracts (E : Engram baseUrl) (s : E.State × World) (w : World) : Prop where
  store : ∀ topicKey, w.content topicKey = (latest topicKey (E.rows s.1)).map (·.content)
  sessions : w.sessions = s.2.sessions
  emitted : w.emitted = s.2.emitted

end Engram

-- ============================================================================
-- What the clients send
-- ============================================================================

section

variable {config : ClientConfig} {topicKey content : String}

/-- The post that makes the row of a session. -/
def sessionPost (config : ClientConfig) (topicKey : String) : Post where
  url := config.baseUrl ++ "/sessions"
  body := .obj [("id", .str (sessionIdOf topicKey)), ("project", .str config.project)]

/-- The post of an observation. -/
def observationPost (config : ClientConfig) (topicKey content : String) : Post where
  url := config.baseUrl ++ "/observations"
  body := .obj [("session_id", .str (sessionIdOf topicKey)), ("topic_key", .str topicKey),
    ("project", .str config.project), ("scope", .str "project"), ("content", .str content),
    ("type", .str "architecture"), ("title", .str topicKey)]

/-- What a write returns when its last post was answered. -/
def posted : Except String Status → Except String Unit
  | .error e => .error e
  | .ok status =>
      if status.isSuccess then .ok ()
      else .error ("POST /observations returned " ++ status.text)

/-- A write goes on from the first response. -/
def afterSession (config : ClientConfig) (topicKey content : String) :
    Except String Status → Prog Net (Except String Unit)
  | .error e => .ret (.error e)
  | .ok status =>
      if status.isSuccess then
        .op (.http (.post (observationPost config topicKey content))) fun r => .ret (posted r)
      else .ret (.error ("POST /sessions returned " ++ status.text))

/-- A write is two posts. -/
theorem post_sidecar :
    Client.sidecar.post config topicKey content =
      .op (.http (.post (sessionPost config topicKey)))
        (afterSession config topicKey content) := by
  unfold Client.post send upsert
  simp only [post_bind]
  show Prog.op (S := Net) (.http (.post (sessionPost config topicKey))) _ = _
  refine congrArg (Prog.op (S := Net) _) (funext fun made => ?_)
  rcases made with e | status
  · rfl
  · cases hmade : status.isSuccess with
    | false => simp [afterSession, hmade, Prog.bind, Prog.implement, Except.mapError,
        clientErrorText]
    | true =>
        simp only [afterSession, hmade, if_true, Prog.bind, Prog.implement]
        refine congrArg (Prog.op (S := Net) _) (funext fun r => ?_)
        rcases r with e | status
        · rfl
        · cases hposted : status.isSuccess with
          | false =>
              simp only [posted, hposted, Bool.false_eq_true, if_false]
              rfl
          | true =>
              simp only [posted, hposted, if_true]
              rfl

/-- The application's write is the sidecar's. -/
theorem post_app (debugAssertions : Bool) :
    (Client.app debugAssertions).post config topicKey content =
      Client.sidecar.post config topicKey content := by
  have htext : ∀ r : Except EngramClientError Unit,
      (r.mapError WriteError.ofClient).mapError WriteError.text =
        r.mapError clientErrorText := by
    rintro (⟨msg⟩ | ⟨⟩)
    · rfl
    · rfl
  unfold Client.post
  simp only
  rw [postObservationAsync_eq, map_eq_pure_bind, send, Prog.implement_bind, bind_assoc]
  refine congrArg (send _ >>= ·) (funext fun r => ?_)
  show Prog.ret _ = Prog.ret _
  rw [htext]

theorem post_eq (client : Client) :
    client.post config topicKey content =
      .op (.http (.post (sessionPost config topicKey)))
        (afterSession config topicKey content) := by
  cases client with
  | app debugAssertions => rw [post_app, post_sidecar]
  | sidecar => exact post_sidecar

-- ============================================================================
-- What they read
-- ============================================================================

theorem latest_eq (topicKey : String) (rows : List RawObs) :
    latest topicKey rows =
      Observations.maxBy (fun a b => decide (b.updatedAt < a.updatedAt))
        (rowsOf topicKey rows) := rfl

/-- The greatest element is one that none before it is greater than, and that is greater
    than all behind it. -/
theorem maxBy_append_cons {α : Type} {gt : α → α → Bool} {before after : List α} {a : α}
    (hbefore : ∀ b ∈ before, gt b a = false) (hafter : ∀ b ∈ after, gt a b = true) :
    Observations.maxBy gt (before ++ a :: after) = some a := by
  have hkeep : ∀ after : List α, (∀ b ∈ after, gt a b = true) →
      after.foldl (fun x y => if gt x y then x else y) a = a := by
    intro after hafter
    induction after with
    | nil => rfl
    | cons b after ih =>
        rw [List.foldl_cons, if_pos (hafter b (by simp))]
        exact ih fun c hc => hafter c (by simp [hc])
  have hfind : ∀ (front : List α) (x : α), gt x a = false → (∀ b ∈ front, gt b a = false) →
      (front ++ a :: after).foldl (fun x y => if gt x y then x else y) x = a := by
    intro front
    induction front with
    | nil =>
        intro x hx _
        rw [List.nil_append, List.foldl_cons, hx]
        exact hkeep after hafter
    | cons b front ih =>
        intro x hx hfront
        rw [List.cons_append, List.foldl_cons]
        apply ih
        · split
          · exact hx
          · exact hfront b (by simp)
        · exact fun c hc => hfront c (by simp [hc])
  cases before with
  | nil => exact congrArg some (hkeep after hafter)
  | cons b before =>
      exact congrArg some (hfind before b (hbefore b (by simp)) fun c hc =>
        hbefore c (by simp [hc]))

/-- After a write the latest row of the topic has its content. -/
theorem latest_of_stored {rows rows' : List RawObs} (h : Stored topicKey content rows rows')
    (key : String) :
    (latest key rows').map (·.content) =
      if storeKey key = storeKey topicKey then some content
      else (latest key rows).map (·.content) := by
  split
  case isFalse hne => rw [latest_eq, latest_eq, h.others key hne]
  case isTrue heq =>
      obtain ⟨before, row, after, hrows, rfl, hbefore, hafter⟩ := h.latest
      rw [Observations.latest_storeKey heq, latest_eq, hrows, maxBy_append_cons]
      · rfl
      · exact fun r hr => decide_eq_false (hbefore r hr)
      · exact fun r hr => decide_eq_true (hafter r hr)

/-- Both clients find the latest row in the daemon's list. -/
theorem read_body {body : Json} {rows : List RawObs} (h : vec RawObs.decodeApp body = some rows)
    (client : Client) :
    client.read topicKey body = some ((latest topicKey rows).map (·.content)) := by
  cases client with
  | app debugAssertions =>
      show Observations.contentOf _ = _
      rw [Observations.contentOf_getObservationAsync, h]
      rfl
  | sidecar =>
      have hsame : vec RawObs.decodeSidecar body = vec RawObs.decodeApp body := by
        cases body with
        | arr items =>
            -- the application has read each of them
            have hdated : ∀ item ∈ items, ¬ Observations.Undated item := by
              intro item hitem hundated
              have hnone : items.mapM RawObs.decodeApp = none :=
                Observations.mapM_eq_none.mpr
                  ⟨item, hitem, Observations.decodeApp_undated hundated⟩
              rw [show items.mapM RawObs.decodeApp = some rows from h] at hnone
              cases hnone
            exact Observations.mapM_congr fun item hitem =>
              (Observations.decodeApp_eq (hdated item hitem)).symm
        | _ => rfl
      show Observations.get body topicKey = _
      rw [Observations.get_eq, hsame, h]
      rfl

end

-- ============================================================================
-- Each operation is atomic
-- ============================================================================

section

variable {config : ClientConfig} {E : Engram config.baseUrl}

theorem get_url {r : Except String Response} {s s' : E.State × World}
    (h : E.netStep s ⟨.http (.get (config.baseUrl ++ "/observations")), r⟩ s') :
    s' = s ∧ ∀ response body, r = .ok response → response.status.isSuccess = true →
      response.body = .ok body → body = E.body s.1 := h

/-- A read returns what the store holds under the key, or an error. -/
theorem atomic_get (topicKey : String) (client : Client) :
    Prog.Atomic World.step E.netStep E.Abstracts (.storeGet topicKey)
      (client.get config topicKey) := by
  apply Prog.atomic_access
  rintro r s s' w hR hstep
  obtain ⟨rfl, hbody⟩ := get_url hstep
  refine ⟨w, ⟨?_, rfl⟩, hR⟩
  intro v hv
  rcases r with e | response
  · cases hv
  cases hsuccess : response.status.isSuccess with
  | false => simp [hsuccess] at hv
  | true =>
      rcases hread : response.body with e | body
      · simp [hsuccess, hread] at hv
      · have hlist : body = E.body s'.1 := hbody response body rfl hsuccess hread
        have hcontent : client.read topicKey (E.body s'.1) =
            some ((latest topicKey (E.rows s'.1)).map (·.content)) :=
          read_body (E.lists s'.1) client
        rw [← hlist] at hcontent
        simp only [hsuccess, hread, hcontent, if_true] at hv
        rw [← Except.ok.inj hv]
        exact (hR.store topicKey).symm

/-- Making the row of a session is nothing to the store. -/
theorem abstracts_session {topicKey : String} {r : Except String Status}
    {s s' : E.State × World} {w : World} (hR : E.Abstracts s w)
    (h : E.netStep s ⟨.http (.post (sessionPost config topicKey)), r⟩ s') :
    E.Abstracts s' w := by
  obtain ⟨hrest, hpost⟩ := h
  have hrows : E.rows s'.1 = E.rows s.1 := by
    rcases r with e | status
    · rcases hpost with heq | hpost
      · rw [heq]
      · exact E.sessions _ _ _ _ hpost rfl
    · exact E.sessions _ _ _ _ hpost rfl
  refine ⟨fun key => ?_, ?_, ?_⟩
  · rw [hrows]
    exact hR.store key
  · rw [hrest]
    exact hR.sessions
  · rw [hrest]
    exact hR.emitted

/-- The post of an observation writes the store, or is refused. -/
theorem abstracts_observation {topicKey content : String} {r : Except String Status}
    {s s' : E.State × World} {w : World} (hR : E.Abstracts s w)
    (h : E.netStep s ⟨.http (.post (observationPost config topicKey content)), r⟩ s') :
    ∃ w', World.step w ⟨.storeUpsert topicKey content, posted r⟩ w' ∧ E.Abstracts s' w' := by
  obtain ⟨hrest, hpost⟩ := h
  have hcases : Stored topicKey content (E.rows s.1) (E.rows s'.1) ∨
      E.rows s'.1 = E.rows s.1 ∧ ∃ e, posted r = .error e := by
    rcases r with e | status
    · rcases hpost with heq | hpost
      · exact Or.inr ⟨by rw [heq], e, rfl⟩
      · rcases E.observations _ _ _ _ topicKey content hpost rfl rfl rfl with hstored | ⟨heq, -⟩
        · exact Or.inl hstored
        · exact Or.inr ⟨heq, e, rfl⟩
    · rcases E.observations _ _ _ _ topicKey content hpost rfl rfl rfl with
        hstored | ⟨heq, hstatus⟩
      · exact Or.inl hstored
      · refine Or.inr ⟨heq, "POST /observations returned " ++ status.text, ?_⟩
        show (if status.isSuccess then _ else _) = _
        rw [if_neg (by rw [hstatus status rfl]; exact Bool.false_ne_true)]
  rcases hcases with hstored | ⟨hrows, e, he⟩
  · refine ⟨w.write topicKey content, ⟨_, Kv.put_stored _, rfl⟩, fun key => ?_, ?_, ?_⟩
    · rw [latest_of_stored hstored key]
      by_cases hkey : storeKey key = storeKey topicKey
      · rw [if_pos hkey, World.content, hkey]
        exact World.content_write w topicKey content
      · rw [if_neg hkey, World.content_write_other (Ne.symm hkey)]
        exact hR.store key
    · rw [hrest]
      exact hR.sessions
    · rw [hrest]
      exact hR.emitted
  · refine ⟨w, ⟨w.store, ?_, rfl⟩, fun key => ?_, ?_, ?_⟩
    · rw [he]
      exact Kv.put_refused e
    · rw [hrows]
      exact hR.store key
    · rw [hrest]
      exact hR.sessions
    · rw [hrest]
      exact hR.emitted

theorem atomic_post (topicKey content : String) (client : Client) :
    Prog.Atomic World.step E.netStep E.Abstracts (.storeUpsert topicKey content)
      (client.post config topicKey content) := by
  rw [post_eq]
  intro made s s' w hR hmade
  have hR' : E.Abstracts s' w := abstracts_session hR hmade
  -- without the session's row nothing is written
  have hfailed : ∀ e, ∃ v w', Prog.ret (.error e) = Prog.ret (S := Net) v ∧
      World.step w ⟨.storeUpsert topicKey content, v⟩ w' ∧ E.Abstracts s' w' := fun e =>
    ⟨.error e, w, rfl, ⟨w.store, Kv.put_refused e, rfl⟩, hR'⟩
  rcases made with e | status
  · exact Or.inr (hfailed e)
  · cases hsuccess : status.isSuccess with
    | false =>
        right
        have hafter : afterSession config topicKey content (.ok status) =
            .ret (.error ("POST /sessions returned " ++ status.text)) := by
          simp [afterSession, hsuccess]
        rw [hafter]
        exact hfailed _
    | true =>
        left
        refine ⟨hR', ?_⟩
        have hafter : afterSession config topicKey content (.ok status) =
            .op (.http (.post (observationPost config topicKey content)))
              fun r => .ret (posted r) := by
          simp [afterSession, hsuccess]
        rw [hafter]
        exact Prog.atomic_access fun r s s' w hR hstep => abstracts_observation hR hstep

/-- An operation that is not one of the store does not depend on what it holds. -/
theorem step_beside {o : Op} {r : o.Reply} {w₁ w₁' w₂ : World}
    (hop : (∀ k, o ≠ .storeGet k) ∧ ∀ k v, o ≠ .storeUpsert k v)
    (hsessions : w₂.sessions = w₁.sessions) (hemitted : w₂.emitted = w₁.emitted)
    (h : World.step w₁ ⟨o, r⟩ w₁') :
    World.step w₂ ⟨o, r⟩ { w₁' with store := w₂.store } := by
  obtain ⟨store, sessions, emitted⟩ := w₂
  obtain rfl : sessions = w₁.sessions := hsessions
  obtain rfl : emitted = w₁.emitted := hemitted
  cases o with
  | storeGet k => exact absurd rfl (hop.1 k)
  | storeUpsert k v => exact absurd rfl (hop.2 k v)
  | applyObserved source id observed =>
      obtain ⟨hr, rfl⟩ := h
      exact ⟨hr, rfl⟩
  | getSession id =>
      obtain ⟨hr, rfl⟩ := h
      exact ⟨hr, rfl⟩
  | removeSession id =>
      obtain ⟨hr, rfl⟩ := h
      exact ⟨hr, rfl⟩
  | emit event =>
      obtain rfl : w₁' = { w₁ with emitted := w₁.emitted ++ [event] } := h
      exact rfl

theorem abstracts_other {o : Op} {r : o.Reply} {s s' : E.State × World} {w : World}
    (hop : (∀ k, o ≠ .storeGet k) ∧ ∀ k v, o ≠ .storeUpsert k v) (hR : E.Abstracts s w)
    (h : E.netStep s ⟨.other o, r⟩ s') :
    ∃ w', World.step w ⟨o, r⟩ w' ∧ E.Abstracts s' w' := by
  obtain ⟨hdaemon, hstep⟩ := h
  refine ⟨_, step_beside hop hR.sessions hR.emitted hstep, fun key => ?_, rfl, rfl⟩
  rw [hdaemon]
  exact hR.store key

/-- The requests of an operation are atomic. -/
theorem atomic_impl (client : Client) (o : Op) :
    Prog.Atomic World.step E.netStep E.Abstracts o (client.impl config o) := by
  cases o with
  | storeGet topicKey => exact atomic_get topicKey client
  | storeUpsert topicKey content => exact atomic_post topicKey content client
  | applyObserved source id observed =>
      apply Prog.atomic_access
      exact fun r s s' w hR h => abstracts_other ⟨nofun, nofun⟩ hR h
  | getSession id =>
      apply Prog.atomic_access
      exact fun r s s' w hR h => abstracts_other ⟨nofun, nofun⟩ hR h
  | removeSession id =>
      apply Prog.atomic_access
      exact fun r s s' w hR h => abstracts_other ⟨nofun, nofun⟩ hR h
  | emit event =>
      apply Prog.atomic_access
      exact fun r s s' w hR h => abstracts_other ⟨nofun, nofun⟩ hR h

end

-- ============================================================================
-- A daemon with one row for each topic
-- ============================================================================

theorem toLower_toLower (c : Char) : c.toLower.toLower = c.toLower := by
  unfold Char.toLower
  split
  case isTrue h =>
    have hlow : 65 ≤ c.val.toNat := h.1
    have hhigh : c.val.toNat ≤ 90 := h.2
    have hsum : (c.val + ('a'.val - 'A'.val)).toNat = (c.val.toNat + 32) % 2 ^ 32 :=
      UInt32.toNat_add ..
    have habove : ¬ (c.val + ('a'.val - 'A'.val)).toNat ≤ 90 := by omega
    exact dif_neg fun h' => habove h'.2
  case isFalse h => rfl

/-- The server's lowercasing leaves a key in the form the readers compare by. -/
theorem storeKey_storeKey (topicKey : String) :
    storeKey (storeKey topicKey) = storeKey topicKey := by
  have htwice : Char.toLower ∘ Char.toLower = Char.toLower := funext toLower_toLower
  unfold storeKey
  rw [String.toList_ofList, List.map_map, htwice]

theorem ofTopic_iff {topicKey : String} {r : RawObs} :
    ofTopic topicKey r = true ↔ ∃ k, r.topicKey = some k ∧ storeKey k = storeKey topicKey := by
  unfold ofTopic Observations.eqIgnoreAsciiCase
  cases r.topicKey with
  | none => simp
  | some k => simp [storeKey_storeKey]

namespace Revised

def rowJson (r : RawObs) : Json :=
  .obj [("topic_key", (r.topicKey.map Json.str).getD .null), ("content", .str r.content),
    ("updated_at", .str r.updatedAt)]

/-- The server lowercases the key. -/
def rowOf (topicKey content : String) : RawObs where
  topicKey := some (storeKey topicKey)
  content := content
  updatedAt := "2026-06-11 03:07:16"

/-- The row of the topic is replaced. -/
def upsert (topicKey content : String) (rows : List RawObs) : List RawObs :=
  rows.filter (fun r => !ofTopic topicKey r) ++ [rowOf topicKey content]

def created : Status := ⟨201, "201 Created"⟩

def badRequest : Status := ⟨400, "400 Bad Request"⟩

/-- What a post does. -/
def serve (request : Post) (rows : List RawObs) : Status × List RawObs :=
  if request.url = "http://localhost:7437/observations" then
    match request.body.get "topic_key", request.body.get "content" with
    | some (.str topicKey), some (.str content) => (created, upsert topicKey content rows)
    | _, _ => (badRequest, rows)
  else (created, rows)

theorem decodeApp_rowJson (r : RawObs) : RawObs.decodeApp (rowJson r) = some r := by
  rcases r with ⟨_ | k, content, updatedAt⟩
  · rfl
  · rfl

theorem stored_upsert (topicKey content : String) (rows : List RawObs) :
    Stored topicKey content rows (upsert topicKey content rows) := by
  have hown : ofTopic topicKey (rowOf topicKey content) = true :=
    ofTopic_iff.mpr ⟨_, rfl, storeKey_storeKey topicKey⟩
  constructor
  · intro other hother
    have hnew : ofTopic other (rowOf topicKey content) ≠ true := by
      intro h
      obtain ⟨k, hk, hsame⟩ := ofTopic_iff.mp h
      rw [← Option.some.inj hk, storeKey_storeKey] at hsame
      exact hother hsame.symm
    have hkept : ∀ r, ofTopic other r = true → ofTopic topicKey r = false := by
      intro r h
      obtain ⟨k, hk, hsame⟩ := ofTopic_iff.mp h
      refine Bool.eq_false_iff.mpr fun h' => ?_
      obtain ⟨k', hk', hsame'⟩ := ofTopic_iff.mp h'
      rw [hk, Option.some.injEq] at hk'
      rw [← hsame, ← hsame', hk'] at hother
      exact hother rfl
    unfold rowsOf upsert
    rw [List.filter_append, List.filter_filter, List.filter_cons_of_neg hnew, List.filter_nil,
      List.append_nil]
    refine List.filter_congr fun r _ => ?_
    cases h : ofTopic other r with
    | false => rfl
    | true => rw [hkept r h]; rfl
  · refine ⟨[], rowOf topicKey content, [], ?_, rfl, by simp, by simp⟩
    unfold rowsOf upsert
    rw [List.filter_append, List.filter_filter, List.filter_cons_of_pos hown]
    simp

/-- It keeps one row for each topic. -/
def engram : Engram "http://localhost:7437" where
  State := List RawObs
  rows := id
  body rows := .arr (rows.map rowJson)
  step rows request r rows' :=
    rows' = (serve request rows).2 ∧ ∀ status, r = some status → status = (serve request rows).1
  lists rows := by
    show (rows.map rowJson).mapM RawObs.decodeApp = some rows
    rw [List.mapM_map]
    induction rows with
    | nil => rfl
    | cons r rows ih =>
        rw [List.mapM_cons, Function.comp_apply, decodeApp_rowJson, ih]
        rfl
  sessions := by
    rintro rows request r rows' ⟨hrows, -⟩ hurl
    have hne : request.url ≠ "http://localhost:7437/observations" := by
      rw [hurl]
      decide
    rw [hrows, serve, if_neg hne]
  observations := by
    rintro rows request r rows' topicKey content ⟨hrows, -⟩ hurl hkey hcontent
    left
    have hposted : request.url = "http://localhost:7437/observations" := hurl
    have hserve : serve request rows = (created, upsert topicKey content rows) := by
      rw [serve, if_pos hposted, hkey, hcontent]
    rw [hrows, hserve]
    exact stored_upsert topicKey content rows

end Revised

-- ============================================================================
-- Any interleaving of the requests
-- ============================================================================

/-- Whatever the threads of both clients do by requests, in any interleaving of them, they
    may do over the store with one step for each access: with the same results, on a store
    that holds the latest of the daemon's rows, and with the steps in an order in which
    their threads made requests. -/
theorem store_over_http {ι α : Type} [DecidableEq ι] (config : ClientConfig)
    (clients : ι → Client) (threads : ι → Prog Sys α) {E : Engram config.baseUrl}
    {s : E.State × World} {w : World} (hR : E.Abstracts s w)
    {tr : List (Moment ι (E.State × World) Net)} {P : Pool ι (E.State × World) Net α}
    (hr : Pool.Run E.netStep ⟨s, fun i => (threads i).implement ((clients i).impl config)⟩ tr
      P) :
    ∃ (tr' : List (Moment ι World Sys)) (Q : Pool ι World Sys α),
      Pool.Run World.step ⟨w, threads⟩ tr' Q ∧ E.Abstracts P.shared Q.shared ∧
        (∀ i a, P.threads i = .ret a → Q.threads i = .ret a) ∧
        (tr'.map (·.thread)).Sublist (tr.map (·.thread)) := by
  have himpl : ∀ i o, Prog.Atomic World.step E.netStep E.Abstracts o ((clients i).impl config o) :=
    fun i o => atomic_impl (clients i) o
  obtain ⟨tr', Q, hrun, hrefines, hsub⟩ :=
    Pool.Run.refines himpl (Pool.Refines.implement himpl hR threads) hr
  refine ⟨tr', Q, hrun, hrefines.shared, fun i a hret => ?_, hsub⟩
  have hthread := hrefines.threads i
  rw [hret] at hthread
  exact hthread.eq_ret

namespace Revised

def config : ClientConfig := ⟨"http://localhost:7437", "spectty", fun _ => ""⟩

/-- The sidecar writes a topic that the application reads. -/
def threads (application : Bool) : Prog Sys (Option String) :=
  if application then do
    match ← Sys.storeGet "spectty/0/spec" with
    | .ok content => return content
    | .error _ => return none
  else do
    let _ ← Sys.storeUpsert "spectty/0/spec" "\x7b\x7d"
    return none

def clients (application : Bool) : Client := if application then .app true else .sidecar

/-- The read falls between the two posts of the write, and finds nothing yet. -/
theorem store_over_http_read_within_write :
    ∃ tr P, Pool.Run engram.netStep
        ⟨(([] : List RawObs), World.initial),
          fun i => (threads i).implement ((clients i).impl config)⟩ tr P ∧
      tr.map (·.thread) = [false, true, false] ∧
      ∃ (tr' : List (Moment Bool World Sys)) (Q : Pool Bool World Sys (Option String)),
        Pool.Run World.step ⟨World.initial, threads⟩ tr' Q ∧
          engram.Abstracts P.shared Q.shared ∧
          (∀ i a, P.threads i = .ret a → Q.threads i = .ret a) ∧
          (tr'.map (·.thread)).Sublist [false, true, false] := by
  have hstart : engram.Abstracts (([] : List RawObs), World.initial) World.initial :=
    ⟨fun _ => rfl, rfl, rfl⟩
  have hsession : engram.netStep (([] : List RawObs), World.initial)
      ⟨.http (.post (sessionPost config "spectty/0/spec")), .ok created⟩
      (([] : List RawObs), World.initial) :=
    ⟨rfl, by decide, fun status h => (Option.some.inj h).symm⟩
  have hread : engram.netStep (([] : List RawObs), World.initial)
      ⟨.http (.get (config.baseUrl ++ "/observations")), .ok ⟨⟨200, "200 OK"⟩, .ok (.arr [])⟩⟩
      (([] : List RawObs), World.initial) := by
    refine ⟨rfl, fun response body hr _ hbody => ?_⟩
    obtain rfl := Except.ok.inj hr
    exact (Except.ok.inj hbody).symm
  have hposted : engram.netStep (([] : List RawObs), World.initial)
      ⟨.http (.post (observationPost config "spectty/0/spec" "\x7b\x7d")), .ok created⟩
      ([rowOf "spectty/0/spec" "\x7b\x7d"], World.initial) :=
    ⟨rfl, rfl, fun status h => (Option.some.inj h).symm⟩
  have hnil : Pool.Run engram.netStep
      ⟨(([] : List RawObs), World.initial),
        fun i => (threads i).implement ((clients i).impl config)⟩ []
      ⟨(([] : List RawObs), World.initial),
        fun i => (threads i).implement ((clients i).impl config)⟩ := .nil
  have hmade := hnil.next false rfl hsession rfl
  have hmissed := hmade.next true rfl hread rfl
  have hrun := hmissed.next false rfl hposted rfl
  exact ⟨_, _, hrun, rfl, store_over_http config clients threads hstart hrun⟩

end Revised

end Spectty.Adapters.EngramHttp
