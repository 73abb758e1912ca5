/-
  Spectty.Specs.Restarts

  The documents of sessions over a history of application runs.

  Every run mints its session ids from the start again, over the store that
  the runs before it left, and no document is ever deleted: the first session of
  a run reads what the first session of an earlier one has written
  (`old_plan_read`).  `own_documents` says in which histories every document that
  a session reads is its own.
-/

import Spectty.Specs.Attach
import Spectty.Gate

namespace Spectty.Specs

open Spectty.Core
open Spectty.Adapters
open Spectty.Commands
open Spectty.Mcp
open Spectty.Lib

-- ============================================================================
-- The ids of a run
-- ============================================================================

/-- The id that a run mints after `n` others. -/
def mintedId (n : ℕ) : SessionId :=
  ((fun registry : SessionRegistry => registry.mintId.2)^[n] .empty).mintId.1

theorem mintedId_eq (n : ℕ) : mintedId n = toString n := by
  have hnext : ((fun registry : SessionRegistry => registry.mintId.2)^[n] .empty).nextId = n := by
    induction n with
    | zero => rfl
    | succ n ih =>
        rw [Function.iterate_succ_apply', SessionRegistry.mintId]
        exact congrArg (· + 1) ih
  rw [mintedId, SessionRegistry.mintId, hnext]

theorem toList_mintedId (n : ℕ) : (mintedId n).toList = Nat.toDigits 10 n := by
  rw [mintedId_eq]
  exact Nat.toList_repr

theorem toLower_of_isDigit {c : Char} (h : c.isDigit = true) : c.toLower = c := by
  rw [Char.isDigit_iff_toNat] at h
  have hnine : '9'.toNat = 57 := rfl
  have hA : 'A'.toNat = 65 := rfl
  unfold Char.toLower
  split
  case isFalse => rfl
  case isTrue hupper =>
    have hlow : 'A'.toNat ≤ c.toNat := UInt32.le_iff_toNat_le.mp hupper.1
    omega

/-- Sessions of a run do not share a document. -/
theorem storeKey_topicKey_inj {a b : ℕ} {kind : String}
    (h : storeKey (topicKey (mintedId a) kind) = storeKey (topicKey (mintedId b) kind)) :
    a = b := by
  have hdigits : ∀ n, (mintedId n).toList.map Char.toLower = Nat.toDigits 10 n := by
    intro n
    rw [toList_mintedId]
    refine (List.map_congr_left fun c hc => ?_).trans (List.map_id _)
    exact toLower_of_isDigit (Nat.isDigit_of_mem_toDigits (by decide) (by decide) hc)
  have hkeys := congrArg String.toList h
  rw [storeKey, storeKey, String.toList_ofList, String.toList_ofList, toList_topicKey,
    toList_topicKey] at hkeys
  simp only [List.map_append, List.map_cons, hdigits] at hkeys
  have hids := List.append_cancel_right (List.cons.inj (List.append_cancel_left hkeys)).2
  calc
    a = Nat.ofDigitChars 10 (Nat.toDigits 10 a) 0 := Nat.ofDigitChars_ten_toDigits.symm
    _ = Nat.ofDigitChars 10 (Nat.toDigits 10 b) 0 := by rw [hids]
    _ = b := Nat.ofDigitChars_ten_toDigits

-- ============================================================================
-- The threads of a run
-- ============================================================================

/-- The key of the spec or the approval document of the session. -/
def IsDocument (n : ℕ) (key : String) : Prop :=
  key = specKey (mintedId n) ∨ key = approvalKey (mintedId n)

/-- The session that a tool call names. -/
def namedSession (call : ToolCall) : Option String := do
  let params ← call.params
  let arguments ← params.get "arguments"
  (arguments.get "session_id").bind Json.asStr

/-- What a thread does, and for which of the sessions of its run: `attach` and
    `approvalPoll` are the poll loops that start at a spawn, a tool call is one of
    the session's agent, a prompt is approved by the user.  No other thread
    writes to the store. -/
inductive Activity where
  | attach (n ticks : ℕ)
  | approvalPoll (n ticks : ℕ)
  | getSpec (n : ℕ)
  | getApproval (n : ℕ)
  | toolCall (n : ℕ) (call : ToolCall)
  | approvePrompt (n : ℕ) (actionId : String) (decision : ApprovalDecision)
  | other (p : Prog Sys Unit)
      (quiet : p.AllOps fun o : Op => ∀ key payload, o ≠ .storeUpsert key payload)

namespace Activity

/-- The session a thread works for. -/
def session : Activity → Option ℕ
  | attach n _ | approvalPoll n _ | getSpec n | getApproval n | toolCall n _
  | approvePrompt n _ _ => some n
  | other _ _ => none

/-- The session a thread writes for, as its agent or its user. -/
def author : Activity → Option ℕ
  | toolCall n _ | approvePrompt n _ _ => some n
  | _ => none

/-- A tool call names the session of the agent that makes it. -/
def NamesOwn : Activity → Prop
  | toolCall n call => ∀ id, namedSession call = some id → id = mintedId n
  | _ => True

/-- The thread's program. -/
def run (J : SerdeJson) (contentHash : String → Nat) : Activity → Prog UiSig Unit
  | attach n ticks => Specs.attach J contentHash (mintedId n) ticks
  | approvalPoll n ticks => lift (approvalPollLoop J contentHash (mintedId n) ticks)
  | getSpec n => lift (getSpecImpl J (mintedId n) >>= fun _ => .ret ())
  | getApproval n => lift (getApprovalImpl J (mintedId n) >>= fun _ => .ret ())
  | toolCall _ call => lift (handleToolsCall J call.env call.params >>= fun _ => .ret ())
  | approvePrompt n actionId decision =>
      lift (Commands.approvePrompt J (mintedId n) actionId decision >>= fun _ => .ret ())
  | other p _ => lift p

/-- A thread reads documents of its session, and writes some if it is an author. -/
def MayPerform (a : Activity) : UiOp → Prop
  | .sys (.storeGet key) => ∀ n, a.session = some n → IsDocument n key
  | .sys (.storeUpsert key _) =>
      ∃ n, a.author = some n ∧ (IsDocument n key ∨ key = diffKey (mintedId n))
  | _ => True

end Activity

-- ============================================================================
-- Threads keep to the documents of their session
-- ============================================================================

theorem allOps_lift {α : Type} {N : UiOp → Prop} {p : Prog Sys α}
    (h : p.AllOps fun o => N (.sys o)) : (lift p).AllOps N := by
  induction p with
  | ret a => trivial
  | op o k ih =>
      rw [lift_op]
      exact ⟨h.1, fun r => ih r (h.2 r)⟩

section

variable {J : SerdeJson} {contentHash : String → Nat} {N : UiOp → Prop}

theorem allOps_emitSpec (h : ∀ event, N (.emitSpec event)) (event : Option SpecUpdated) :
    (emitSpec event).AllOps N := by
  cases event with
  | none => trivial
  | some event => exact ⟨h event, fun _ => trivial⟩

theorem allOps_specPollLoop (h : ∀ event, N (.emitSpec event)) {bus : SpecBus}
    (hread : N (.sys (.storeGet bus.topicKey))) (ticks : ℕ) (reader : PortPollReader) :
    (specPollLoop J contentHash ticks bus reader).AllOps N := by
  induction ticks generalizing bus reader with
  | zero => trivial
  | succ ticks ih =>
      rw [specPollLoop_succ]
      refine ⟨hread, fun r => (allOps_emitSpec h _).bind fun _ => ih ?_ _⟩
      rwa [pollRead, SpecBus.decide_topicKey]

theorem allOps_attach (h : ∀ event, N (.emitSpec event)) {id : SessionId}
    (hread : N (.sys (.storeGet (specKey id)))) (ticks : ℕ) :
    (attach J contentHash id ticks).AllOps N := by
  rw [attach_eq]
  refine ⟨hread, fun seed => ⟨hread, fun r => (allOps_emitSpec h _).bind fun _ => ?_⟩⟩
  refine allOps_specPollLoop h ?_ ticks _
  rwa [(inStep_start _).topic]

/-- A tool call reads and writes documents of the session it names. -/
theorem allOps_toolCall {M : Op → Prop} {call : ToolCall}
    (hread : ∀ id, namedSession call = some id → M (.storeGet (approvalKey id)))
    (hwrite : ∀ id, namedSession call = some id → ∀ key payload,
      key = specKey id ∨ key = approvalKey id ∨ key = diffKey id → M (.storeUpsert key payload)) :
    (handleToolsCall J call.env call.params).AllOps M := by
  obtain ⟨env, _ | params⟩ := call
  · trivial
  have hnamed : ∀ {arguments : Json} {id : String}, params.get "arguments" = some arguments →
      arguments.get "session_id" = some (.str id) →
      namedSession ⟨env, some params⟩ = some id := by
    intro arguments id harguments hid
    simp [namedSession, harguments, hid, Json.asStr]
  refine allOps_handleToolsCall (fun id spec _ hargs => ?_) (fun approval hargs => ?_)
    fun arguments id harguments hargs payload => ?_
  · cases harguments : params.get "arguments" with
    | none => simp [harguments, specArguments, presentArguments, bind, Except.bind] at hargs
    | some arguments =>
        rw [harguments, specArguments_eq_ok] at hargs
        exact hwrite id (hnamed harguments hargs.1) _ _ (.inl rfl)
  · obtain ⟨harguments, hsession, -⟩ := approvalArguments_eq_ok.mp hargs
    have hid := hnamed harguments hsession
    exact ⟨hread _ hid, fun payload => hwrite _ hid _ _ (.inr (.inl rfl))⟩
  · have hid := hnamed harguments (stringArgument_eq_ok.mp hargs).1
    exact hwrite id hid _ _ (.inr (.inr rfl))

/-- A thread whose tool call names its own session keeps to its documents. -/
theorem Activity.allOps {a : Activity} (h : a.NamesOwn) :
    (a.run J contentHash).AllOps a.MayPerform := by
  have hspec : ∀ n, IsDocument n (specKey (mintedId n)) := fun _ => .inl rfl
  have happroval : ∀ n, IsDocument n (approvalKey (mintedId n)) := fun _ => .inr rfl
  cases a with
  | attach n ticks =>
      refine allOps_attach (fun _ => trivial) (fun n' hn' => ?_) ticks
      exact Option.some.inj hn' ▸ hspec n
  | approvalPoll n ticks =>
      refine allOps_lift (allOps_approvalPollLoop (fun n' hn' => ?_) (fun _ _ => trivial) ticks)
      exact Option.some.inj hn' ▸ happroval n
  | getSpec n =>
      refine allOps_lift (Prog.AllOps.bind ?_ fun _ => trivial)
      rw [getSpecImpl_eq]
      exact ⟨fun n' hn' => Option.some.inj hn' ▸ hspec n, fun _ => trivial⟩
  | getApproval n =>
      refine allOps_lift (Prog.AllOps.bind ⟨fun n' hn' => ?_, fun r => ?_⟩ fun _ => trivial)
      · exact Option.some.inj hn' ▸ happroval n
      · rcases r with e | (_ | content) <;> trivial
  | toolCall n call =>
      refine allOps_lift (Prog.AllOps.bind (allOps_toolCall ?_ ?_) fun _ => trivial)
      · intro id hid n' hn'
        rw [h id hid, ← Option.some.inj hn']
        exact happroval n
      · intro id hid key payload hkey
        rw [h id hid] at hkey
        refine ⟨n, rfl, ?_⟩
        rcases hkey with rfl | rfl | rfl
        · exact .inl (hspec n)
        · exact .inl (happroval n)
        · exact .inr rfl
  | approvePrompt n actionId decision =>
      refine allOps_lift
        (Prog.AllOps.bind (allOps_approvePrompt ?_ ?_ actionId decision) fun _ => trivial)
      · exact fun n' hn' => Option.some.inj hn' ▸ happroval n
      · exact fun _ => ⟨n, rfl, .inl (happroval n)⟩
  | other p quiet =>
      refine allOps_lift (quiet.mono fun o ho => ?_)
      cases o with
      | storeGet key => exact fun n hn => nomatch hn
      | storeUpsert key payload => exact absurd rfl (ho key payload)
      | _ => trivial

end

-- ============================================================================
-- Histories
-- ============================================================================

/-- A run of the application: the store it starts over, its threads, and what
    they have done. -/
structure AppRun where
  store : Kv.Store String String
  activities : ℕ → Activity
  trace : List (Moment ℕ Ui UiSig)

namespace AppRun

/-- In these steps the agent or the user of the session has written the content. -/
def Wrote (activities : ℕ → Activity) (n : ℕ) (key content : String)
    (tr : List (Moment ℕ Ui UiSig)) : Prop :=
  ∃ m ∈ tr, m.event.op = UiOp.sys (.storeUpsert key content) ∧
    (activities m.thread).author = some n

/-- A content that a thread of a session reads was written before in the same
    run, by the session's agent or by the user for it. -/
def OwnRead (activities : ℕ → Activity) (before : List (Moment ℕ Ui UiSig))
    (m : Moment ℕ Ui UiSig) : Prop :=
  ∀ n key content, (activities m.thread).session = some n →
    m.event = ⟨UiOp.sys (.storeGet key), .ok (some content)⟩ → Wrote activities n key content before

/-- Every document that a session reads is its own. -/
def OwnReads (self : AppRun) : Prop := Pool.Steps (OwnRead self.activities) self.trace

/-- The tool calls name their own session, and no document of a session is stored
    before it starts. -/
structure Fresh (run : AppRun) : Prop where
  namesOwn : ∀ i, (run.activities i).NamesOwn
  clear : ∀ i n, (run.activities i).session = some n → ∀ key, IsDocument n key →
    run.store (storeKey key) = none

end AppRun

section

variable (J : SerdeJson) (contentHash : String → Nat)

/-- The threads of a run over the store that it finds. -/
def appPool (store : Kv.Store String String) (activities : ℕ → Activity) :
    Pool ℕ Ui UiSig Unit where
  shared := { world := { World.initial with store }, received := [] }
  threads i := (activities i).run J contentHash

/-- Runs one after another, each over the store that the one before it left, and
    the store that the last one left. -/
inductive History : List AppRun → Kv.Store String String → Prop where
  | start : History [] fun _ => none
  | next {runs : List AppRun} {store : Kv.Store String String} {activities : ℕ → Activity}
      {tr : List (Moment ℕ Ui UiSig)} {P : Pool ℕ Ui UiSig Unit} :
      History runs store → Pool.Run Ui.step (appPool J contentHash store activities) tr P →
      History (runs ++ [⟨store, activities, tr⟩]) P.shared.world.store

end

section

variable {J : SerdeJson} {contentHash : String → Nat} {store : Kv.Store String String}
  {activities : ℕ → Activity} {tr : List (Moment ℕ Ui UiSig)} {P : Pool ℕ Ui UiSig Unit}

/-- What is stored under a session's documents was written in the run, for it. -/
def Documented (activities : ℕ → Activity) (tr : List (Moment ℕ Ui UiSig)) (w : World) : Prop :=
  ∀ i n key content, (activities i).session = some n → IsDocument n key →
    w.content key = some content → AppRun.Wrote activities n key content tr

/-- A write that a thread may perform reaches a session's document only as the
    session's own, under its key. -/
theorem own_of_storeKey_eq {n n' : ℕ} {key key' : String} (hkey : IsDocument n key)
    (hkey' : IsDocument n' key' ∨ key' = diffKey (mintedId n'))
    (h : storeKey key' = storeKey key) : n' = n ∧ key' = key := by
  rcases hkey with rfl | rfl <;> rcases hkey' with (rfl | rfl) | rfl
  · obtain rfl := storeKey_topicKey_inj h
    exact ⟨rfl, rfl⟩
  · exact absurd h (storeKey_topicKey_ne (by decide) _ _)
  · exact absurd h (storeKey_topicKey_ne (by decide) _ _)
  · exact absurd h (storeKey_topicKey_ne (by decide) _ _)
  · obtain rfl := storeKey_topicKey_inj h
    exact ⟨rfl, rfl⟩
  · exact absurd h (storeKey_topicKey_ne (by decide) _ _)

theorem Documented.step {m : Moment ℕ Ui UiSig} (h : Documented activities tr m.before.world)
    (hop : (activities m.thread).MayPerform m.event.op)
    (hstep : Ui.step m.before m.event m.after) :
    Documented activities (tr ++ [m]) m.after.world := by
  intro i n key content hi hkey hcontent
  by_cases hsame : m.after.world.content key = m.before.world.content key
  · rw [hsame] at hcontent
    obtain ⟨m', hm', hwrite⟩ := h i n key content hi hkey hcontent
    exact ⟨m', List.mem_append_left _ hm', hwrite⟩
  · obtain ⟨j, ⟨o, r⟩, u, u'⟩ := m
    simp only at hop hstep hcontent hsame
    cases o with
    | emitSpec event =>
        obtain rfl := hstep
        exact absurd rfl hsame
    | sys o =>
        obtain ⟨hworld, -⟩ := hstep
        obtain ⟨key', payload, hkeys, rfl⟩ : ∃ key' payload,
            storeKey key' = storeKey key ∧ o = .storeUpsert key' payload := by
          by_contra hno
          exact hsame (World.step_content hworld fun k payload hk hne => hno ⟨k, payload, hne, hk⟩)
        obtain ⟨n', hauthor, hkey'⟩ := hop
        obtain ⟨rfl, rfl⟩ := own_of_storeKey_eq hkey hkey' hkeys
        refine ⟨_, List.mem_append_right _ (List.mem_singleton_self _), ?_, hauthor⟩
        rcases World.step_upsert_content hworld with hstored | ⟨hkept, -⟩
        · rw [hstored] at hcontent
          rw [Option.some.inj hcontent]
        · exact absurd hkept hsame

/-- A thread of a session reads what is stored under its documents. -/
theorem Documented.ownRead {m : Moment ℕ Ui UiSig} (h : Documented activities tr m.before.world)
    (hop : (activities m.thread).MayPerform m.event.op)
    (hstep : Ui.step m.before m.event m.after) : AppRun.OwnRead activities tr m := by
  intro n key content hn hevent
  rw [hevent] at hop hstep
  exact h m.thread n key content hn (hop n hn) (World.step_get_content hstep.1).symm

/-- In a run that is fresh, the documents of the sessions are their own, and so is
    all that they read. -/
theorem documented_run (hfresh : AppRun.Fresh ⟨store, activities, tr⟩)
    (hr : Pool.Run Ui.step (appPool J contentHash store activities) tr P) :
    Documented activities tr P.shared.world ∧ AppRun.OwnReads ⟨store, activities, tr⟩ := by
  have hops := (hr.allOps fun i => Activity.allOps (hfresh.namesOwn i)).2
  have hclear : ∀ i n, (activities i).session = some n → ∀ key, IsDocument n key →
      store (storeKey key) = none := hfresh.clear
  clear hfresh
  simp only [AppRun.OwnReads]
  induction hr with
  | nil =>
      refine ⟨fun i n key content hi hkey hcontent => ?_, Pool.steps_nil _⟩
      rw [World.content] at hcontent
      exact absurd (hcontent.symm.trans (hclear i n hi key hkey)) (by simp)
  | @snoc tr P P' m hr hs ih =>
      obtain ⟨hdocumented, hreads⟩ := ih fun m' hm' => hops m' (List.mem_append_left _ hm')
      have hop := hops m (List.mem_append_right _ (List.mem_singleton_self m))
      rw [← hs.before_eq] at hdocumented
      rw [← hs.after_eq]
      exact ⟨hdocumented.step hop hs.semantics,
        Pool.steps_concat.mpr ⟨hreads, hdocumented.ownRead hop hs.semantics⟩⟩

/-- In a history whose runs are fresh, every document that a session reads was
    written in the same run, by its agent or by the user for it. -/
theorem own_documents {runs : List AppRun} (hist : History J contentHash runs store)
    (hfresh : ∀ run ∈ runs, run.Fresh) : ∀ run ∈ runs, run.OwnReads := by
  induction hist with
  | start => simp
  | next _ hr ih =>
      intro run hrun
      rcases List.mem_append.mp hrun with hmem | hmem
      · exact ih (fun run' hrun' => hfresh run' (List.mem_append_left _ hrun')) run hmem
      · obtain rfl := List.mem_singleton.mp hmem
        exact (documented_run (hfresh _ hrun) hr).2

end

-- ============================================================================
-- A run after another
-- ============================================================================

/-- The agent of the session pushes the plan. -/
def pushPlan (n : ℕ) : ToolCall where
  env := { nonce := 0, maxPolls := 0 }
  params := some (.obj [("name", .str "spectty_spec"),
    ("arguments", .obj [("session_id", .str (mintedId n)), ("spec", .obj [("tasks", .arr [])])])])

theorem pushes_pushPlan (n : ℕ) :
    (pushPlan n).pushes = some (mintedId n, .obj [("tasks", .arr [])]) := by
  have hid : mintedId n ≠ "" := by
    intro hempty
    have hdigits := toList_mintedId n
    rw [hempty] at hdigits
    exact Nat.toDigits_ne_nil hdigits.symm
  exact congrArg Except.toOption (specArguments_eq_ok.mpr ⟨rfl, hid, rfl, rfl⟩)

/-- The push, and the session that attaches. -/
def planActivities (n : ℕ) : ℕ → Activity
  | 0 => .toolCall n (pushPlan n)
  | _ => .attach n 0

theorem namesOwn_planActivities (n i : ℕ) : (planActivities n i).NamesOwn := by
  cases i with
  | zero =>
      intro id hid
      exact (Option.some.inj hid).symm
  | succ i => trivial

theorem session_planActivities (n i : ℕ) : (planActivities n i).session = some n := by
  cases i <;> rfl

/-- The pool of a run that does either. -/
abbrev planPool (n : ℕ) (store : Kv.Store String String) : Pool ℕ Ui UiSig Unit :=
  appPool .compact String.length store (planActivities n)

/-- The push is one write. -/
theorem planPool_push (n : ℕ) (store : Kv.Store String String) :
    ∃ k, (planPool n store).threads 0 =
      .op (.sys (.storeUpsert (specKey (mintedId n)) planText)) k := by
  obtain ⟨k, hk⟩ := ToolCall.push (pushes_pushPlan n) .compact
  refine ⟨fun r => lift (k r >>= fun _ => .ret ()), ?_⟩
  show lift (handleToolsCall .compact (pushPlan n).env (pushPlan n).params >>= _) = _
  rw [hk]
  rfl

/-- The session that attaches reads. -/
theorem planPool_attach (n : ℕ) (store : Kv.Store String String) :
    ∃ k, (planPool n store).threads 1 = .op (.sys (.storeGet (specKey (mintedId n)))) k :=
  ⟨_, attach_eq (mintedId n) 0⟩

/-- What the session reads once the plan is stored. -/
def planRead (n : ℕ) : Event UiSig :=
  ⟨.sys (.storeGet (specKey (mintedId n))), .ok (some planText)⟩

/-- The world of a run over this store in which the plan has been pushed. -/
def pushed (n : ℕ) (store : Kv.Store String String) : World :=
  World.write { World.initial with store } (specKey (mintedId n)) planText

theorem get_pushed (n : ℕ) (store : Kv.Store String String) :
    Ui.step ⟨pushed n store, []⟩ (planRead n) ⟨pushed n store, []⟩ :=
  ⟨World.step_read (World.content_write _ _ _), rfl⟩

/-- The agent pushes the plan, and then its session reads it. -/
theorem plan_run (n : ℕ) (store : Kv.Store String String) :
    ∃ tr P, Pool.Run Ui.step (planPool n store) tr P ∧
      tr.getLast?.map Moment.event = some (planRead n) ∧
      P.shared.world = pushed n store := by
  obtain ⟨push, hpush⟩ := planPool_push n store
  obtain ⟨read, hread⟩ := planPool_attach n store
  have h0 : Pool.Run Ui.step (planPool n store) []
      ⟨(planPool n store).shared, (planPool n store).threads⟩ := .nil
  have hwrite : Ui.step (planPool n store).shared
      ⟨.sys (.storeUpsert (specKey (mintedId n)) planText), .ok ()⟩ ⟨pushed n store, []⟩ :=
    ⟨World.step_write _ _ _, rfl⟩
  have h1 := h0.next 0 hpush hwrite rfl
  have h2 := h1.next 1 ((Function.update_of_ne (by decide) ..).trans hread) (get_pushed n store) rfl
  exact ⟨_, _, h2, rfl, rfl⟩

/-- In the first run the agent of the second session pushes a plan, in the second run the
    agent of the first; each session reads its own. -/
theorem own_documents_plan :
    ∃ first second store, History .compact String.length [first, second] store ∧
      first.trace.getLast?.map Moment.event = some (planRead 1) ∧
      second.trace.getLast?.map Moment.event = some (planRead 0) ∧
      first.OwnReads ∧ second.OwnReads := by
  obtain ⟨tr, P, hr, hread, hstore⟩ := plan_run 1 fun _ => none
  obtain ⟨tr', P', hr', hread', -⟩ := plan_run 0 P.shared.world.store
  have hist := History.next (.next .start hr) hr'
  have hown := own_documents hist fun run hrun => ?_
  · exact ⟨_, _, _, hist, hread, hread', hown _ (by simp), hown _ (by simp)⟩
  simp only [List.nil_append, List.cons_append, List.mem_cons, List.not_mem_nil, or_false] at hrun
  rcases hrun with rfl | rfl
  · exact ⟨namesOwn_planActivities 1, fun _ _ _ _ _ => rfl⟩
  · refine ⟨namesOwn_planActivities 0, fun i n hn key hkey => ?_⟩
    -- the first run has stored a document of another session
    obtain rfl := Option.some.inj ((session_planActivities 0 i).symm.trans hn)
    show P.shared.world.content key = none
    rw [hstore, pushed, World.content_write_other]
    · rfl
    · intro hsame
      have hother := own_of_storeKey_eq hkey (.inl (.inl rfl)) hsame
      exact absurd hother.1 (by decide)

/-- The agent of the first run's session pushes the plan, and in the second run the
    session that attaches reads it before its own agent has done anything. -/
theorem old_plan_read :
    ∃ first second store, History .compact String.length [first, second] store ∧
      (∀ run ∈ [first, second], ∀ i, (run.activities i).NamesOwn) ∧
      second.trace.map Moment.event = [planRead 0] ∧ ¬ second.OwnReads := by
  obtain ⟨tr, P, hr, -, hstore⟩ := plan_run 0 fun _ => none
  obtain ⟨read, hread⟩ := planPool_attach 0 P.shared.world.store
  rw [hstore] at hread
  have h0 : Pool.Run Ui.step (planPool 0 (pushed 0 fun _ => none).store) []
      ⟨⟨pushed 0 fun _ => none, []⟩, (planPool 0 (pushed 0 fun _ => none).store).threads⟩ := .nil
  have h1 := h0.next 1 hread (get_pushed 0 fun _ => none) rfl
  rw [← hstore] at h1
  refine ⟨_, _, _, .next (.next .start hr) h1, fun run hrun => ?_, rfl, fun howned => ?_⟩
  · simp only [List.nil_append, List.mem_cons, List.not_mem_nil, or_false] at hrun
    rcases hrun with rfl | rfl <;> exact namesOwn_planActivities 0
  · -- nothing was done in the second run before it read
    obtain ⟨m, hm, -⟩ := howned [] _ [] rfl 0 _ _ rfl rfl
    exact absurd hm List.not_mem_nil

end Spectty.Specs
