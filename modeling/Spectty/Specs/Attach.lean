/-
  Spectty.Specs.Attach

  Attaching to a session: the spec is read once to seed the poll loop, read
  again to be handed to the UI at once, and then polled.

  The two reads can differ, and only the first decides whether the first
  tick emits: a content that is written between them is handed over twice
  (`handed_twice`), one whose second read fails not at all.  `attach_iff` says when
  the UI receives it exactly once.
-/

import Spectty.Commands.Spec
import Spectty.Specs.PollBus
import Spectty.Lib.JsonText

namespace Spectty.Specs

open Spectty.Core
open Spectty.Adapters
open Spectty.Commands
open Spectty.Lib

-- ============================================================================
-- Effects with spec events
-- ============================================================================

/-- The effects of the application, and the emission of a spec event. -/
inductive UiOp where
  | sys (o : Op)
  | emitSpec (event : SpecUpdated)

abbrev UiOp.Reply : UiOp → Type
  | .sys o => Op.Reply o
  | .emitSpec _ => Unit

abbrev UiSig : Sig where
  Op := UiOp
  Reply := UiOp.Reply

/-- The world, and the spec events that the UI has received. -/
structure Ui where
  world : World
  received : List SpecUpdated

/-- What an operation may do. -/
def Ui.step : Prog.Semantics UiSig Ui := fun u e u' =>
  match e with
  | ⟨.sys o, r⟩ => World.step u.world ⟨o, r⟩ u'.world ∧ u'.received = u.received
  | ⟨.emitSpec event, _⟩ => u' = { u with received := u.received ++ [event] }

/-- A program without spec events. -/
def lift {α : Type} (p : Prog Sys α) : Prog UiSig α := p.implement fun o => .op (.sys o) .ret

theorem lift_ret {α : Type} (a : α) : lift (.ret a) = .ret a := rfl

theorem lift_op {α : Type} (o : Op) (k : Op.Reply o → Prog Sys α) :
    lift (.op o k) = .op (.sys o) fun r => lift (k r) := rfl

/-- What such a program performs is an operation of the system. -/
theorem lift_eq_op {α : Type} {p : Prog Sys α} {o : UiOp} {k : UiOp.Reply o → Prog UiSig α}
    (h : lift p = .op o k) : ∃ o', o = .sys o' ∧ ∀ r, ∃ p', k r = lift p' := by
  cases p with
  | ret a => cases h
  | op o' k' =>
      rw [lift_op] at h
      cases h
      exact ⟨o', rfl, fun r => ⟨k' r, rfl⟩⟩

/-- Emit a spec event, if there is one. -/
def emitSpec : Option SpecUpdated → Prog UiSig Unit
  | some event => .op (.emitSpec event) .ret
  | none => .ret ()

-- ============================================================================
-- Attaching
-- ============================================================================

section

variable (J : SerdeJson) (contentHash : String → Nat)

/-- Read the current contract for the UI; absent, corrupt or failed is none. -/
def hydrateSpec (id : SessionId) : Prog Sys (Option SpecUpdated) := do
  match ← getSpecImpl J id with
  | .ok (some spec) => return some { sessionId := id, spec }
  | _ => return none

/-- The poll loop of a session's spec, for `ticks` rounds. -/
def specPollLoop : Nat → SpecBus → PortPollReader → Prog UiSig Unit
  | 0, _, _ => return ()
  | ticks + 1, bus, reader => do
      let (change, bus, reader) ← lift (bus.poll contentHash reader)
      emitSpec (change.bind (specUpdatedFromChange J))
      specPollLoop ticks bus reader

/-- The attach sequence of a spawn: the seed, the event for the UI, the poll
    loop, seeded if there was a content. -/
def attach (id : SessionId) (ticks : Nat) : Prog UiSig Unit := do
  let hydratedContent ← lift (EngramAdapter.get (specKey id))
  let initial ← lift (hydrateSpec J id)
  emitSpec initial
  let (bus, reader) := start contentHash (specKey id) hydratedContent.toOption.join
  specPollLoop J contentHash ticks bus reader

end

-- ============================================================================
-- What the attach sequence performs
-- ============================================================================

/-- The reply of a read of the store. -/
def readOf : Event UiSig → Option PortRead
  | ⟨.sys (.storeGet _), r⟩ => some r
  | _ => none

/-- The event handed to the UI. -/
def emissionOf : Event UiSig → Option SpecUpdated
  | ⟨.emitSpec event, _⟩ => some event
  | _ => none

theorem readOf_storeGet (topicKey : String) (r : PortRead) :
    readOf ⟨.sys (.storeGet topicKey), r⟩ = some r := rfl

theorem emissionOf_sys (o : Op) (r : Op.Reply o) : emissionOf ⟨.sys o, r⟩ = none := rfl

section

variable {J : SerdeJson} {contentHash : String → Nat}

/-- The spec event of what a poll emits. -/
def eventOf (J : SerdeJson) (change : Option Change) : Option SpecUpdated :=
  change.bind (specUpdatedFromChange J)

/-- One round: a read, the event if there is one, and the next rounds. -/
theorem specPollLoop_succ (ticks : Nat) (bus : SpecBus) (reader : PortPollReader) :
    specPollLoop J contentHash (ticks + 1) bus reader =
      .op (.sys (.storeGet bus.topicKey)) fun r =>
        emitSpec (eventOf J (pollRead contentHash bus reader r).1) >>= fun _ =>
          specPollLoop J contentHash ticks (pollRead contentHash bus reader r).2.1
            (pollRead contentHash bus reader r).2.2 := by
  rw [specPollLoop, poll_eq_pollRead]
  rfl

/-- The event of a hydrate, given what its read replied. -/
def hydrated (J : SerdeJson) (id : SessionId) (r : PortRead) : Option SpecUpdated :=
  ((contentOf r).bind (specOf J)).map fun spec => { sessionId := id, spec }

/-- A hydrate is one read. -/
theorem hydrateSpec_eq (id : SessionId) :
    hydrateSpec J id = .op (.storeGet (specKey id)) fun r => .ret (hydrated J id r) := by
  unfold hydrateSpec getSpecImpl EngramAdapter.get
  simp only [Prog.op_bind, Prog.ret_bind, Prog.pure_eq]
  congr 1
  funext r
  rcases r with msg | (_ | content)
  · rfl
  · rfl
  · simp only [Except.mapError, Prog.ret_bind, hydrated, contentOf, Option.bind_some]
    cases specOf J content <;> rfl

/-- Two reads, the event of the second, and a loop that starts at the content
    of the first. -/
theorem attach_eq (id : SessionId) (ticks : Nat) :
    attach J contentHash id ticks =
      .op (.sys (.storeGet (specKey id))) fun seed =>
        .op (.sys (.storeGet (specKey id))) fun r =>
          emitSpec (hydrated J id r) >>= fun _ =>
            specPollLoop J contentHash ticks
              (start contentHash (specKey id) (contentOf seed)).1
              (start contentHash (specKey id) (contentOf seed)).2 := by
  unfold attach EngramAdapter.get
  simp only [hydrateSpec_eq, lift_op, lift_ret, Prog.op_bind, Prog.ret_bind, Prog.pure_eq]
  congr 1
  funext seed
  rcases seed with msg | (_ | content) <;> rfl

/-- A program that starts with an event has emitted it once it has a loop left. -/
theorem performs_emitSpec {event : Option SpecUpdated} {p q : Prog UiSig Unit}
    {es : List (Event UiSig)} (hp : Prog.Performs (emitSpec event >>= fun _ => p) es q)
    (hq : ∀ event k, q ≠ .op (.emitSpec event) k) :
    ∃ es', Prog.Performs p es' q ∧ es.filterMap readOf = es'.filterMap readOf ∧
      es.filterMap emissionOf = event.toList ++ es'.filterMap emissionOf := by
  cases event with
  | none => exact ⟨es, hp, rfl, rfl⟩
  | some event =>
      cases hp with
      | refl => exact absurd rfl (hq event _)
      | op hrest => exact ⟨_, hrest, rfl, rfl⟩

/-- A loop is not about to hand over an event. -/
theorem specPollLoop_ne_emitSpec (ticks : Nat) (bus : SpecBus) (reader : PortPollReader)
    (event : SpecUpdated) (k : Unit → Prog UiSig Unit) :
    specPollLoop J contentHash ticks bus reader ≠ .op (.emitSpec event) k := by
  cases ticks with
  | zero =>
      intro h
      cases h
  | succ ticks =>
      rw [specPollLoop_succ]
      intro h
      injection h with hop
      cases hop

/-- Between rounds, a loop has handed over the events of the contents it read. -/
theorem performs_specPollLoop {ticks left : Nat} {bus bus' : SpecBus}
    {reader reader' : PortPollReader} {es : List (Event UiSig)}
    (hp : Prog.Performs (specPollLoop J contentHash ticks bus reader) es
      (specPollLoop J contentHash left bus' reader')) :
    es.filterMap emissionOf =
      (pollReads contentHash bus reader (es.filterMap readOf)).filterMap (eventOf J) := by
  generalize hq : specPollLoop J contentHash left bus' reader' = q at hp
  induction ticks generalizing bus reader es with
  | zero =>
      cases hp with
      | refl => rfl
  | succ ticks ih =>
      rw [specPollLoop_succ] at hp
      cases hp with
      | refl => rfl
      | @op _ _ r es _ hrest =>
          subst hq
          obtain ⟨es', hloop, hreads, hemitted⟩ :=
            performs_emitSpec hrest (specPollLoop_ne_emitSpec left bus' reader')
          rw [List.filterMap_cons_some (readOf_storeGet _ _),
            List.filterMap_cons_none (emissionOf_sys _ _), hemitted, hreads, ih hloop, pollReads]
          cases hevent : eventOf J (pollRead contentHash bus reader r).1 with
          | none => rw [List.filterMap_cons_none hevent]; rfl
          | some event => rw [List.filterMap_cons_some hevent]; rfl

/-- Between rounds, an attach sequence has handed over the event of its second
    read and those of its loop. -/
theorem performs_attach {id : SessionId} {ticks left : Nat} {bus : SpecBus}
    {reader : PortPollReader} {es : List (Event UiSig)} {seed r : PortRead} {reads : List PortRead}
    (hp : Prog.Performs (attach J contentHash id ticks) es
      (specPollLoop J contentHash left bus reader))
    (hreads : es.filterMap readOf = seed :: r :: reads) :
    es.filterMap emissionOf =
      (hydrated J id r).toList ++
        (pollReads contentHash (start contentHash (specKey id) (contentOf seed)).1
          (start contentHash (specKey id) (contentOf seed)).2 reads).filterMap (eventOf J) := by
  rw [attach_eq] at hp
  generalize hq : specPollLoop J contentHash left bus reader = q at hp
  cases hp with
  | refl => cases hreads
  | @op _ _ r₁ es _ hp =>
      cases hp with
      | refl => cases hreads
      | @op _ _ r₂ es _ hp =>
          subst hq
          obtain ⟨es', hloop, hrest, hemitted⟩ :=
            performs_emitSpec hp (specPollLoop_ne_emitSpec left bus reader)
          rw [List.filterMap_cons_some (readOf_storeGet _ _),
            List.filterMap_cons_some (readOf_storeGet _ _), hrest] at hreads
          obtain ⟨rfl, htail⟩ := List.cons.inj hreads
          obtain ⟨rfl, rfl⟩ := List.cons.inj htail
          rw [List.filterMap_cons_none (emissionOf_sys _ _),
            List.filterMap_cons_none (emissionOf_sys _ _), hemitted, performs_specPollLoop hloop]

/-- Reads without a content are polls without an event. -/
theorem pollReads_failed {bus : SpecBus} {reader : PortPollReader} {failed reads : List PortRead}
    (hfailed : ∀ r ∈ failed, contentOf r = none) :
    (pollReads contentHash bus reader (failed ++ reads)).filterMap (eventOf J) =
      (pollReads contentHash bus reader reads).filterMap (eventOf J) := by
  induction failed with
  | nil => rfl
  | cons r failed ih =>
      have hnone : pollRead contentHash bus reader r = (none, bus, reader) :=
        pollRead_of_none (hfailed r List.mem_cons_self)
      rw [List.cons_append, pollReads, hnone, List.filterMap_cons_none rfl]
      exact ih fun r' hr' => hfailed r' (List.mem_cons_of_mem r hr')

/-- The first content that a loop reads is handed over, unless the loop starts
    at it. -/
theorem eventOf_pollRead_start {id : SessionId} {seed : Option String} {x : String}
    {spec : SpecContract} (hid : sessionIdFromSpecKey (specKey id) = some id)
    (hspec : specOf J x = some spec)
    (hinj : ∀ c, seed = some c → contentHash c = contentHash x → c = x) :
    eventOf J (pollRead contentHash (start contentHash (specKey id) seed).1
        (start contentHash (specKey id) seed).2 (.ok (some x))).1 =
      if seed = some x then none else some { sessionId := id, spec } := by
  have hstart : InStep contentHash (specKey id) seed (start contentHash (specKey id) seed).1
      (start contentHash (specKey id) seed).2 := inStep_start seed
  by_cases hseed : seed = some x
  · subst hseed
    rw [if_pos rfl, pollRead_of_same hstart]
    rfl
  · have hne : ∀ c, seed = some c → contentHash c ≠ contentHash x := by
      intro c hc hhash
      rw [hinj c hc hhash] at hc
      exact hseed hc
    have hle : (start contentHash (specKey id) seed).2.revision ≤ 1 := revision_start_le seed
    obtain ⟨⟨change, hchange, hkey, hcontent⟩, -, -⟩ := pollRead_of_ne hstart hne (by omega)
    rw [if_neg hseed, hchange, eventOf, Option.bind_some, specUpdatedFromChange, hkey, hcontent,
      hid, hspec]
    rfl

end

-- ============================================================================
-- Runs
-- ============================================================================

section

variable {κ : Type} [DecidableEq κ] {J : SerdeJson} {contentHash : String → Nat}
  {id : SessionId} {ticks : Nat} {others : κ → Prog Sys Unit} {world : World}
  {tr : List (Moment (Option κ) Ui UiSig)} {P : Pool (Option κ) Ui UiSig Unit}
  {seed hydrate : PortRead} {x : String} {spec : SpecContract}

/-- A session that attaches, and whatever else uses the store. -/
def attaching (J : SerdeJson) (contentHash : String → Nat) (id : SessionId) (ticks : Nat)
    (others : κ → Prog Sys Unit) (world : World) : Pool (Option κ) Ui UiSig Unit where
  shared := { world, received := [] }
  threads
    | none => attach J contentHash id ticks
    | some i => lift (others i)

/-- The UI has received what the attach sequence handed over. -/
theorem received_run (hr : Pool.Run Ui.step (attaching J contentHash id ticks others world) tr P) :
    P.shared.received = (Pool.eventsOf none tr).filterMap emissionOf ∧
      ∀ i, ∃ p, P.threads (some i) = lift p := by
  induction hr with
  | nil => exact ⟨rfl, fun i => ⟨others i, rfl⟩⟩
  | @snoc tr P P' m hr hs ih =>
      obtain ⟨hreceived, hlift⟩ := ih
      obtain ⟨o, k, r, hop, hevent, hnext⟩ := hs.inv
      have hstep := hs.semantics
      rw [hs.before_eq, hs.after_eq, hevent] at hstep
      cases hthread : m.thread with
      | none =>
          refine ⟨?_, fun i => ?_⟩
          · rw [← hthread, Pool.eventsOf_concat_self, List.filterMap_append, hthread,
              ← hreceived, hevent]
            cases o with
            | sys o =>
                rw [List.filterMap_cons_none (emissionOf_sys o r)]
                simpa using hstep.2
            | emitSpec event => simp [show P'.shared = _ from hstep, emissionOf]
          · rw [hs.frame (by simp [hthread])]
            exact hlift i
      | some j =>
          rw [hthread] at hop hnext
          obtain ⟨p, hp⟩ := hlift j
          obtain ⟨o', rfl, hk⟩ := lift_eq_op (hp.symm.trans hop)
          refine ⟨?_, fun i => ?_⟩
          · rw [Pool.eventsOf_concat_of_ne (by simp [hthread]), ← hreceived]
            exact hstep.2
          · by_cases hij : i = j
            · subst hij
              obtain ⟨p', hp'⟩ := hk r
              exact ⟨p', hnext.trans hp'⟩
            · rw [hs.frame (by simpa [hthread] using hij)]
              exact hlift i

-- ============================================================================
-- Exactly once
-- ============================================================================

/-- The first tick that reads a content is over: the attach sequence read `seed`
    and `hydrate`, its loop read `x` at last and no content before. -/
structure FirstTick (J : SerdeJson) (contentHash : String → Nat) (seed hydrate : PortRead)
    (x : String) (tr : List (Moment (Option κ) Ui UiSig)) (P : Pool (Option κ) Ui UiSig Unit) :
    Prop where
  reads : ∃ failed, (Pool.eventsOf none tr).filterMap readOf =
    seed :: hydrate :: (failed ++ [.ok (some x)]) ∧ ∀ r ∈ failed, contentOf r = none
  ended : ∃ left bus reader, P.threads none = specPollLoop J contentHash left bus reader

/-- What the UI has received by then. -/
theorem received_firstTick
    (hr : Pool.Run Ui.step (attaching J contentHash id ticks others world) tr P)
    (htick : FirstTick J contentHash seed hydrate x tr P)
    (hid : sessionIdFromSpecKey (specKey id) = some id) (hspec : specOf J x = some spec)
    (hinj : ∀ c, contentOf seed = some c → contentHash c = contentHash x → c = x) :
    P.shared.received = (hydrated J id hydrate).toList ++
      if contentOf seed = some x then [] else [{ sessionId := id, spec }] := by
  obtain ⟨failed, hreads, hfailed⟩ := htick.reads
  obtain ⟨left, bus, reader, hended⟩ := htick.ended
  have hperforms := hr.performs none
  rw [hended] at hperforms
  rw [(received_run hr).1, performs_attach hperforms hreads, pollReads_failed hfailed, pollReads,
    pollReads, List.filterMap_cons, eventOf_pollRead_start hid hspec hinj]
  split_ifs <;> rfl

/-- The digits of a minted id read back from its key. -/
theorem sessionIdFromSpecKey_mintId (registry : SessionRegistry) :
    sessionIdFromSpecKey (specKey registry.mintId.1) = some registry.mintId.1 := by
  have hdigits : (toString registry.nextId).toList = Nat.toDigits 10 registry.nextId :=
    Nat.toList_repr
  have hne : toString registry.nextId ≠ "" := by
    intro h
    rw [h] at hdigits
    exact Nat.toDigits_ne_nil hdigits.symm
  have hslash : '/' ∉ (toString registry.nextId).toList := by
    rw [hdigits]
    intro h
    exact absurd (Nat.isDigit_of_mem_toDigits (by decide) (by decide) h) (by decide)
  show sessionIdFromKey "spec" (topicKey (toString registry.nextId) "spec") = _
  rw [sessionIdFromKey_topicKey hne (by decide), if_neg hslash]
  rfl

/-- The UI has received the contract exactly once by the end of the first tick
    that reads it, whatever the other threads do, exactly if the two reads
    agree on it: the seed is the tick's content just when the hydrate handed
    its contract over. -/
theorem attach_iff {registry : SessionRegistry}
    (hr : Pool.Run Ui.step (attaching J contentHash registry.mintId.1 ticks others world) tr P)
    (htick : FirstTick J contentHash seed hydrate x tr P) (hspec : specOf J x = some spec)
    (hinj : ∀ c, contentOf seed = some c → contentHash c = contentHash x → c = x) :
    P.shared.received.count { sessionId := registry.mintId.1, spec } = 1 ↔
      (contentOf seed = some x ↔ (contentOf hydrate).bind (specOf J) = some spec) := by
  rw [received_firstTick hr htick (sessionIdFromSpecKey_mintId registry) hspec hinj,
    List.count_append]
  have hhydrated : (hydrated J registry.mintId.1 hydrate).toList.count
      { sessionId := registry.mintId.1, spec } =
      if (contentOf hydrate).bind (specOf J) = some spec then 1 else 0 := by
    unfold hydrated
    cases (contentOf hydrate).bind (specOf J) with
    | none => rfl
    | some spec' => simp [List.count_singleton]
  rw [hhydrated]
  split_ifs with hread hseed hseed <;> simp [hread, hseed]

end

-- ============================================================================
-- Two runs
-- ============================================================================

/-- A stored contract: no task, not approved. -/
def planText : String := SerdeJson.compact.toString (.obj [("tasks", .arr [])])

/-- What it reads as. -/
def plan : SpecContract where
  intent := ""
  proposal := none
  tasks := []
  progress := []
  approval := .pending
  steeringNotes := []
  devOverride := false

theorem specOf_planText : specOf .compact planText = some plan := by
  rw [specOf, planText, SerdeJson.fromStr_toString, Option.bind_some]
  rfl

/-- The first session of the application. -/
def firstId : SessionId := SessionRegistry.empty.mintId.1

/-- The upsert of the contract. -/
def upsertPlan (_ : Unit) : Prog Sys Unit := do
  let _ ← Sys.storeUpsert (specKey firstId) planText
  return ()

/-- The session attaches to an empty store while the contract is upserted. -/
abbrev firstAttach : Pool (Option Unit) Ui UiSig Unit :=
  attaching .compact String.length firstId 1 upsertPlan World.initial

/-- The world once the contract is stored. -/
def planned : World := World.initial.write (specKey firstId) planText

theorem sessionIdFromSpecKey_firstId : sessionIdFromSpecKey (specKey firstId) = some firstId :=
  sessionIdFromSpecKey_mintId .empty

/-- The poll loop of one round that starts at no content. -/
abbrev freshLoop : Prog UiSig Unit :=
  specPollLoop .compact String.length 1 (start String.length (specKey firstId) none).1
    (start String.length (specKey firstId) none).2

/-- The loop after a round that read the contract. -/
abbrev plannedLoop : Prog UiSig Unit :=
  specPollLoop .compact String.length 0
    (pollRead String.length (start String.length (specKey firstId) none).1
      (start String.length (specKey firstId) none).2 (.ok (some planText))).2.1
    (pollRead String.length (start String.length (specKey firstId) none).1
      (start String.length (specKey firstId) none).2 (.ok (some planText))).2.2

/-- A hydrate that reads the contract hands it over. -/
theorem emitSpec_hydrated :
    (emitSpec (hydrated .compact firstId (.ok (some planText))) >>= fun _ => freshLoop) =
      .op (.emitSpec ⟨firstId, plan⟩) fun _ => freshLoop := by
  rw [hydrated, contentOf, Option.bind_some, specOf_planText]
  rfl

/-- The first tick of a fresh loop hands it over. -/
theorem emitSpec_fresh :
    (emitSpec (eventOf .compact (pollRead String.length
        (start String.length (specKey firstId) none).1
        (start String.length (specKey firstId) none).2 (.ok (some planText))).1) >>=
          fun _ => plannedLoop) =
      .op (.emitSpec ⟨firstId, plan⟩) fun _ => plannedLoop := by
  have hinj : ∀ c, (none : Option String) = some c → c.length = planText.length → c = planText :=
    fun _ h => nomatch h
  rw [eventOf_pollRead_start sessionIdFromSpecKey_firstId specOf_planText hinj]
  rfl

theorem get_initial (received : List SpecUpdated) :
    Ui.step ⟨World.initial, received⟩ ⟨.sys (.storeGet (specKey firstId)), .ok none⟩
      ⟨World.initial, received⟩ :=
  ⟨World.step_read rfl, rfl⟩

theorem upsert_initial (received : List SpecUpdated) :
    Ui.step ⟨World.initial, received⟩ ⟨.sys (.storeUpsert (specKey firstId) planText), .ok ()⟩
      ⟨planned, received⟩ :=
  ⟨World.step_write _ _ _, rfl⟩

theorem get_planned (received : List SpecUpdated) :
    Ui.step ⟨planned, received⟩ ⟨.sys (.storeGet (specKey firstId)), .ok (some planText)⟩
      ⟨planned, received⟩ :=
  ⟨World.step_read (World.content_write _ _ _), rfl⟩

theorem emit_planned (received : List SpecUpdated) :
    Ui.step ⟨planned, received⟩ ⟨.emitSpec ⟨firstId, plan⟩, ()⟩
      ⟨planned, received ++ [⟨firstId, plan⟩]⟩ := rfl

/-- The contract is upserted between the two reads: the hydrate hands it over, the
    loop starts fresh, and its first tick hands it over again. -/
theorem handed_twice :
    ∃ tr P, Pool.Run Ui.step firstAttach tr P ∧
      tr.map (fun m => (m.thread, m.event)) =
        [(none, ⟨.sys (.storeGet (specKey firstId)), .ok none⟩),
          (some (), ⟨.sys (.storeUpsert (specKey firstId) planText), .ok ()⟩),
          (none, ⟨.sys (.storeGet (specKey firstId)), .ok (some planText)⟩),
          (none, ⟨.emitSpec ⟨firstId, plan⟩, ()⟩),
          (none, ⟨.sys (.storeGet (specKey firstId)), .ok (some planText)⟩),
          (none, ⟨.emitSpec ⟨firstId, plan⟩, ()⟩)] ∧
      FirstTick .compact String.length (.ok none) (.ok (some planText)) planText tr P ∧
      P.shared.received.count ⟨firstId, plan⟩ = 2 := by
  have h0 : Pool.Run Ui.step firstAttach [] ⟨⟨World.initial, []⟩, firstAttach.threads⟩ := .nil
  have h1 := h0.next none (attach_eq firstId 1) (get_initial []) rfl
  have h2 := h1.next (some ()) rfl (upsert_initial []) rfl
  have h3 := h2.next none rfl (get_planned []) emitSpec_hydrated
  have h4 := h3.next none rfl (emit_planned []) rfl
  have h5 := h4.next none (specPollLoop_succ 0 _ _) (get_planned _) emitSpec_fresh
  have h6 := h5.next none rfl (emit_planned _) rfl
  exact ⟨_, _, h6, rfl, ⟨⟨[], rfl, by simp⟩, ⟨_, _, _, rfl⟩⟩, by simp⟩

/-- The contract is upserted after both reads: the first tick alone hands it over. -/
theorem handed_once :
    ∃ tr P, Pool.Run Ui.step firstAttach tr P ∧
      FirstTick .compact String.length (.ok none) (.ok none) planText tr P ∧
      P.shared.received.count { sessionId := firstId, spec := plan } = 1 := by
  have h0 : Pool.Run Ui.step firstAttach [] ⟨⟨World.initial, []⟩, firstAttach.threads⟩ := .nil
  have h1 := h0.next none (attach_eq firstId 1) (get_initial []) rfl
  have h2 := h1.next none rfl (get_initial []) rfl
  have h3 := h2.next (some ()) rfl (upsert_initial []) rfl
  have h4 := h3.next none (specPollLoop_succ 0 _ _) (get_planned _) emitSpec_fresh
  have h5 := h4.next none rfl (emit_planned []) rfl
  suffices htick : FirstTick .compact String.length (.ok none) (.ok none) planText _ _ from
    ⟨_, _, h5, htick,
      (attach_iff h5 htick specOf_planText (fun _ h => nomatch h)).mpr (by simp [contentOf])⟩
  exact ⟨⟨[], rfl, by simp⟩, ⟨_, _, _, rfl⟩⟩

end Spectty.Specs
