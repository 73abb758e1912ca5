/-
  Spectty.Diff.Dedup

  The dedup law of the diff pipeline.

  What a pass did is read off its own events in the trace: the diff git answered,
  the explainer's reply, the events it emitted.  `dedup_law` relates these,
  over every interleaving, to the passes that were granted the slot before.
-/

import Spectty.Diff.Slot

namespace Spectty.Diff

open Spectty.Lib

-- ============================================================================
-- What a pass did
-- ============================================================================

/-- What git replied. -/
def gitReply : Event DiffSig → Option (Except GitError String)
  | ⟨.diffHead _, r⟩ => some r
  | _ => none

/-- What the explainer replied. -/
def explainReply : Event DiffSig → Option (Except ExplainError DiffExplanation)
  | ⟨.explain _ _, r⟩ => some r
  | _ => none

/-- The event emitted. -/
def emission : Event DiffSig → Option DiffUpdated
  | ⟨.emit event, _⟩ => some event
  | _ => none

/-- The step writes hash and explanation. -/
def caches : Event DiffSig → Bool
  | ⟨.cacheEmpty _, _⟩ | ⟨.cacheExplanation _ _, _⟩ => true
  | _ => false

/-- The step gives the slot back. -/
def releases : Event DiffSig → Bool
  | ⟨.releaseSlot, _⟩ => true
  | _ => false

namespace Phase

/-- What git has replied to the pass, a failure as `none`. -/
def asked : Phase → List (Option String)
  | idle | edited | dropped | claimed => []
  | q => [q.diff]

/-- What the explainer replied to the pass. -/
def reply : Phase → Option (Except ExplainError DiffExplanation)
  | explained _ explanation | cached _ explanation => some (.ok explanation)
  | finished result | released result =>
      match result with
      | .explainFailed _ error => some (.error error)
      | .emitted _ explanation => some (.ok explanation)
      | _ => none
  | _ => none

/-- What the pass has emitted. -/
def emissions (self : DiffPipeline) : Phase → List DiffUpdated
  | finished (.emitted _ explanation) | released (.emitted _ explanation) =>
      [{ sessionId := self.sessionId, explanation }]
  | _ => []

/-- The pass has given the slot back. -/
def isReleased : Phase → Bool
  | released _ => true
  | _ => false

theorem holds_iff {q : Phase} : q.holds = true ↔ q.granted = true ∧ q.isReleased = false := by
  cases q <;> simp [holds, granted, isReleased]

end Phase

/-- A phase knows what the events before it did. -/
structure Records (pipeline : DiffPipeline) (es : List (Event DiffSig)) (q : Phase) : Prop where
  diff : es.findSome? diffRead = q.diff
  asked : (es.filterMap gitReply).map Except.toOption = q.asked
  reply : es.findSome? explainReply = q.reply
  emitted : es.filterMap emission = q.emissions pipeline
  cached : es.any caches = q.settlement.isSome
  released : es.any releases = q.isReleased

section

variable {hashDiff : String → Nat} {self : DiffPipeline} {es : List (Event DiffSig)} {q : Phase}

theorem records_nil : Records self [] .idle := ⟨rfl, rfl, rfl, rfl, rfl, rfl⟩

/-- What a further event adds to each record. -/
theorem Records.concat {q' : Phase} {e : Event DiffSig} (h : Records self es q)
    (hdiff : q.diff.or (diffRead e) = q'.diff)
    (hasked : q.asked ++ ((gitReply e).map Except.toOption).toList = q'.asked)
    (hreply : q.reply.or (explainReply e) = q'.reply)
    (hemitted : q.emissions self ++ (emission e).toList = q'.emissions self)
    (hcached : (q.settlement.isSome || caches e) = q'.settlement.isSome)
    (hreleased : (q.isReleased || releases e) = q'.isReleased) :
    Records self (es ++ [e]) q' := by
  constructor
  case diff => rw [List.findSome?_append, h.diff, ← hdiff]; simp
  case asked =>
    rw [List.filterMap_append, List.map_append, h.asked, ← hasked]
    cases he : gitReply e <;> simp [he]
  case reply => rw [List.findSome?_append, h.reply, ← hreply]; simp
  case emitted =>
    rw [List.filterMap_append, h.emitted, ← hemitted]
    cases he : emission e <;> simp [he]
  case cached => rw [List.any_append, h.cached, ← hcached]; simp
  case released => rw [List.any_append, h.released, ← hreleased]; simp

/-- Each step is recorded. -/
theorem records_step {q' : Phase} {e : Event DiffSig} (h : Records self es q)
    (hmoves : Moves hashDiff self q e q') : Records self (es ++ [e]) q' := by
  cases hmoves with
  | drop hwait | claim hwait =>
      cases q with
      | idle | edited => exact h.concat rfl rfl rfl rfl rfl rfl
      | _ => cases hwait
  | @release result => cases result <;> exact h.concat rfl rfl rfl rfl rfl rfl
  | _ => exact h.concat rfl rfl rfl rfl rfl rfl

theorem records_of_run (h : (protocol hashDiff self).run .idle es = some q) :
    Records self es q := by
  induction es using List.reverseRecOn generalizing q with
  | nil =>
      obtain rfl := Option.some.inj h
      exact records_nil
  | append_singleton es e ih =>
      rw [Prog.Protocol.run_concat] at h
      obtain ⟨p, hp, hstep⟩ := Option.bind_eq_some_iff.mp h
      exact records_step (ih hp) (moves_of_protocol hstep)

end

-- ============================================================================
-- The law
-- ============================================================================

section

variable {ι : Type} [DecidableEq ι]

/-- The diff that a pass read. -/
def passDiff (tr : List (Moment ι DiffWorld DiffSig)) (i : ι) : Option String :=
  (Pool.eventsOf i tr).findSome? diffRead

/-- What git replied to a pass, each time that the pass asked it. -/
def passAsked (tr : List (Moment ι DiffWorld DiffSig)) (i : ι) : List (Except GitError String) :=
  (Pool.eventsOf i tr).filterMap gitReply

/-- What the explainer replied to a pass, if it was asked. -/
def passReply (tr : List (Moment ι DiffWorld DiffSig)) (i : ι) :
    Option (Except ExplainError DiffExplanation) :=
  (Pool.eventsOf i tr).findSome? explainReply

/-- The events that a pass emitted. -/
def passEmitted (tr : List (Moment ι DiffWorld DiffSig)) (i : ι) : List DiffUpdated :=
  (Pool.eventsOf i tr).filterMap emission

/-- The pass was granted the slot and has not given it back. -/
def Holds (tr : List (Moment ι DiffWorld DiffSig)) (i : ι) : Prop :=
  i ∈ granted tr ∧ (Pool.eventsOf i tr).any releases = false

/-- The diff of a pass that emitted or found a blank diff. -/
def announced (tr : List (Moment ι DiffWorld DiffSig)) (i : ι) : Option String :=
  (passDiff tr i).filter fun diff => isBlank diff || !(passEmitted tr i).isEmpty

/-- The diff of the last such pass. -/
def lastAnnounced (tr : List (Moment ι DiffWorld DiffSig)) (passes : List ι) : Option String :=
  (passes.filterMap (announced tr)).getLast?

/-- A pass after the passes `before` has a diff to explain: it is not blank and not
    the one of the last pass that emitted or found a blank diff. -/
def Fresh (tr : List (Moment ι DiffWorld DiffSig)) (before : List ι) (i : ι) : Prop :=
  ∃ diff, passDiff tr i = some diff ∧ isBlank diff = false ∧ lastAnnounced tr before ≠ some diff

/-- The law.  `granted tr` is the sequence of the passes that held the slot. -/
structure DedupLaw (hashDiff : String → Nat) (pipeline : DiffPipeline)
    (tr : List (Moment ι DiffWorld DiffSig)) (P : Pool ι DiffWorld DiffSig RunOutcome) :
    Prop where
  exclusive : ∀ i j, Holds tr i → Holds tr j → i = j
  slot : P.shared.state.inFlight = true ↔ ∃ i, Holds tr i
  freed : ∀ i outcome, P.threads i = .ret outcome → ¬ Holds tr i
  reads : ∀ i ∈ granted tr, ∀ outcome, P.threads i = .ret outcome →
    ∃ reply, passAsked tr i = [reply] ∧ passDiff tr i = reply.toOption
  asks : ∀ before i after outcome, granted tr = before ++ i :: after →
    P.threads i = .ret outcome → ((passReply tr i).isSome = true ↔ Fresh tr before i)
  emits : ∀ before i after outcome explanation, granted tr = before ++ i :: after →
    P.threads i = .ret outcome → Fresh tr before i → passReply tr i = some (.ok explanation) →
      passEmitted tr i = [{ sessionId := pipeline.sessionId, explanation }]
  silent : ∀ before i after outcome, granted tr = before ++ i :: after →
    P.threads i = .ret outcome →
    ¬ (Fresh tr before i ∧ ∃ explanation, passReply tr i = some (.ok explanation)) →
      passEmitted tr i = []
  bails : ∀ i, i ∉ granted tr → passEmitted tr i = []
  untouched : ∀ m ∈ tr, ∀ outcome, P.threads m.thread = .ret outcome →
    outcome = .degraded ∨ outcome = .skippedUnchanged →
      m.after.state.lastHash = m.before.state.lastHash ∧
      m.after.state.lastExplanation = m.before.state.lastExplanation
  samePass : P.shared.state.lastHash = none ∧ P.shared.state.lastExplanation = none ∨
    ∃ i ∈ granted tr, ∃ diff, passDiff tr i = some diff ∧
      (isBlank diff = true ∧ P.shared.state.lastHash = some (hashDiff "") ∧
          P.shared.state.lastExplanation = some .empty ∨
        isBlank diff = false ∧ P.shared.state.lastHash = some (hashDiff diff) ∧
          ∃ explanation, passReply tr i = some (.ok explanation) ∧
            P.shared.state.lastExplanation = some explanation)

variable {hashDiff : String → Nat} {self : DiffPipeline} {known : Set String} {q : ι → Phase}
  {tr : List (Moment ι DiffWorld DiffSig)} {w : DiffWorld} {before after : List ι} {i : ι}

theorem holds_iff (hI : Inv hashDiff known q tr w)
    (hrec : Records self (Pool.eventsOf i tr) (q i)) : Holds tr i ↔ (q i).holds = true := by
  rw [Holds, hI.mem, hrec.released, Phase.holds_iff]

omit [DecidableEq ι] in
/-- A pass before another one has given the slot back. -/
theorem not_holds_of_before (hI : Inv hashDiff known q tr w)
    (hgranted : granted tr = before ++ i :: after) {j : ι} (hj : j ∈ before) :
    (q j).holds = false := by
  by_contra hne
  have hlast := hI.last j (by simpa using hne)
  rw [hgranted, List.getLast?_append] at hlast
  have hmem : j ∈ i :: after := by
    cases h : (i :: after).getLast? with
    | none => simp at h
    | some k =>
        rw [h] at hlast
        obtain rfl := Option.some.inj hlast
        exact List.mem_of_getLast? h
  have hnodup := hI.nodup
  rw [hgranted] at hnodup
  exact (List.nodup_append.mp hnodup).2.2 j hj j hmem rfl

/-- What a pass that gave the slot back has announced, it has cached. -/
theorem announced_eq (hrec : Records self (Pool.eventsOf i tr) (q i)) {last : Option String}
    (hlawful : (q i).Lawful last) (hgranted : (q i).granted = true)
    (hheld : (q i).holds = false) : announced tr i = (q i).settlement.map (·.1) := by
  rw [announced, passDiff, passEmitted, hrec.diff, hrec.emitted]
  cases hq : q i with
  | released result =>
      rw [hq] at hlawful
      cases result with
      | gitFailed => rfl
      | empty diff => simp [Phase.diff, Phase.settlement, show isBlank diff = true from hlawful]
      | unchanged diff | explainFailed diff error =>
          simp [Phase.diff, Phase.settlement, Phase.emissions, hlawful.1]
      | emitted diff explanation => simp [Phase.diff, Phase.settlement, Phase.emissions]
  | idle | edited | dropped => rw [hq] at hgranted; cases hgranted
  | _ => rw [hq] at hheld; cases hheld

/-- The diff announced last is the diff cached last. -/
theorem lastAnnounced_eq (hI : Inv hashDiff known q tr w)
    (hrec : ∀ i, Records self (Pool.eventsOf i tr) (q i))
    (hgranted : granted tr = before ++ i :: after) :
    lastAnnounced tr before = (settled q before).map (·.1) := by
  have hpass : ∀ j ∈ before, announced tr j = (q j).settlement.map (·.1) := by
    intro j hj
    obtain ⟨front, back, rfl⟩ := List.append_of_mem hj
    have hposition : granted tr = front ++ j :: (back ++ i :: after) := by
      rw [hgranted, List.append_assoc, List.cons_append]
    refine announced_eq (hrec j) (hI.lawful front j _ hposition) ?_
      (not_holds_of_before hI hgranted hj)
    exact (hI.mem j).mp (by simp [hgranted])
  rw [lastAnnounced, settled, List.filterMap_congr hpass, ← List.getLast?_map,
    List.map_filterMap]

/-- A step that does not cache leaves hash and explanation as they are. -/
theorem step_untouched {ports : Ports} {w w' : DiffWorld} {e : Event DiffSig}
    (hs : step ports w e w') (he : caches e = false) :
    w'.state.lastHash = w.state.lastHash ∧
      w'.state.lastExplanation = w.state.lastExplanation := by
  obtain ⟨o, r⟩ := e
  cases o with
  | claimSlot | diffHead | lastHash | explain =>
      obtain ⟨-, rfl⟩ := hs
      exact ⟨rfl, rfl⟩
  | emit | releaseSlot | edit =>
      obtain rfl : w' = _ := hs
      exact ⟨rfl, rfl⟩
  | cacheEmpty | cacheExplanation => cases he

omit [DecidableEq ι] in
/-- A returned pass that was granted the slot came to a result and gave it back. -/
theorem released_of_returned {outcome : RunOutcome} (h : Returned hashDiff outcome (q i))
    (hgranted : (q i).granted = true) :
    ∃ result, q i = .released result ∧ outcome = result.outcome hashDiff := by
  rcases h with ⟨hdropped, -⟩ | hreleased
  · rw [hdropped] at hgranted
    cases hgranted
  · exact hreleased

/-- What the explainer was asked, and what was emitted, by a result. -/
theorem result_law (pipeline : DiffPipeline) {result : Result} {last : Option String}
    (h : result.Lawful last) :
    ((Phase.released result).reply.isSome = true ↔ ∃ diff,
        (Phase.released result).diff = some diff ∧ isBlank diff = false ∧ last ≠ some diff) ∧
      (∀ explanation, (Phase.released result).reply = some (.ok explanation) →
        (Phase.released result).emissions pipeline =
          [{ sessionId := pipeline.sessionId, explanation }]) ∧
      ((¬ ∃ explanation, (Phase.released result).reply = some (.ok explanation)) →
        (Phase.released result).emissions pipeline = []) := by
  cases result with
  | gitFailed => simp [Phase.reply, Phase.diff, Phase.emissions]
  | empty diff =>
      have hblank : isBlank diff = true := h
      simp [Phase.reply, Phase.diff, Phase.emissions, hblank]
  | unchanged diff =>
      obtain ⟨hblank, hlast⟩ := h
      simp [Phase.reply, Phase.diff, Phase.emissions, hblank, hlast]
  | explainFailed diff error =>
      obtain ⟨hblank, hlast⟩ := h
      simp [Phase.reply, Phase.diff, Phase.emissions, hblank, hlast]
  | emitted diff explanation =>
      obtain ⟨hblank, hlast⟩ := h
      simp [Phase.reply, Phase.diff, Phase.emissions, hblank, hlast]

/-- What a pass cached is empty for a blank diff, and else what the explainer
    replied. -/
theorem cached_law {p : Phase} {last : Option String} {diff : String}
    {explanation : DiffExplanation} (h : p.Lawful last)
    (hcached : p.settlement = some (diff, explanation)) :
    isBlank diff = true ∧ explanation = .empty ∨
      isBlank diff = false ∧ p.reply = some (.ok explanation) := by
  cases p with
  | cached d e =>
      cases hcached
      exact Or.inr ⟨h.1, rfl⟩
  | finished result | released result =>
      cases result with
      | empty d =>
          cases hcached
          exact Or.inl ⟨h, rfl⟩
      | emitted d e =>
          cases hcached
          exact Or.inr ⟨h.1, rfl⟩
      | _ => cases hcached
  | _ => cases hcached

/-- A pass that returns such an outcome has cached nothing. -/
theorem settlement_of_outcome {outcome : RunOutcome} {p : Phase}
    (h : Returned hashDiff outcome p)
    (houtcome : outcome = .degraded ∨ outcome = .skippedUnchanged) : p.settlement = none := by
  rcases h with ⟨rfl, -⟩ | ⟨result, rfl, rfl⟩
  · rfl
  · cases result with
    | empty diff => simp [Result.outcome] at houtcome
    | emitted diff explanation => simp [Result.outcome] at houtcome
    | _ => rfl

/-- Hash and explanation are those of one pass, if there are any. -/
theorem same_pass (hI : Inv hashDiff known q tr w)
    (hrec : ∀ i, Records self (Pool.eventsOf i tr) (q i)) :
    w.state.lastHash = none ∧ w.state.lastExplanation = none ∨
      ∃ i ∈ granted tr, ∃ diff, passDiff tr i = some diff ∧
        (isBlank diff = true ∧ w.state.lastHash = some (hashDiff "") ∧
            w.state.lastExplanation = some .empty ∨
          isBlank diff = false ∧ w.state.lastHash = some (hashDiff diff) ∧
            ∃ explanation, passReply tr i = some (.ok explanation) ∧
              w.state.lastExplanation = some explanation) := by
  obtain ⟨hhash, hexplanation⟩ := hI.shows
  cases hlast : settled q (granted tr) with
  | none =>
      rw [hlast] at hhash hexplanation
      exact Or.inl ⟨hhash, hexplanation⟩
  | some p =>
      obtain ⟨diff, explanation⟩ := p
      rw [hlast] at hhash hexplanation
      obtain ⟨i, hi, hsettle⟩ := exists_of_settled hlast
      obtain ⟨before, after, hgranted⟩ := List.append_of_mem hi
      have hdiff : passDiff tr i = some diff := by
        rw [passDiff, (hrec i).diff, Phase.diff_of_settlement hsettle]
      refine Or.inr ⟨i, hi, diff, hdiff, ?_⟩
      rcases cached_law (hI.lawful before i after hgranted) hsettle with
        ⟨hblank, rfl⟩ | ⟨hblank, hreply⟩
      · refine Or.inl ⟨hblank, ?_, hexplanation⟩
        rw [hhash, Option.map_some, marker_blank hblank]
      · refine Or.inr ⟨hblank, ?_, explanation, ?_, hexplanation⟩
        · rw [hhash, Option.map_some, marker_of_not_blank hblank]
        · rw [passReply, (hrec i).reply, hreply]

/-- The dedup law holds of every interleaving, if no two of the diffs it reads
    collide. -/
theorem dedup_law {ports : Ports} {edits : ι → Option String} {tree : String}
    {P : Pool ι DiffWorld DiffSig RunOutcome}
    (hr : Pool.Run (step ports) (self.pool hashDiff edits tree) tr P)
    (hinj : Set.InjOn hashDiff {text | text ∈ readTexts tr}) : DedupLaw hashDiff self tr P := by
  obtain ⟨q, hphase, hfollows, hI⟩ := inv_run hr hinj
  have hrec : ∀ i, Records self (Pool.eventsOf i tr) (q i) := fun i => records_of_run (hphase i)
  have hreturned : ∀ i outcome, P.threads i = .ret outcome → Returned hashDiff outcome (q i) :=
    fun i _ hret => returned_of_follows (hfollows i) hret
  -- a returned pass of the sequence, with the law of its result
  have hpass : ∀ before i after outcome, granted tr = before ++ i :: after →
      P.threads i = .ret outcome →
      ∃ result, q i = .released result ∧ result.Lawful (lastAnnounced tr before) := by
    intro before i after outcome hgranted hret
    have hmem : (q i).granted = true := (hI.mem i).mp (by simp [hgranted])
    obtain ⟨result, hq, -⟩ := released_of_returned (hreturned i outcome hret) hmem
    have hlawful := hI.lawful before i after hgranted
    rw [hq, ← lastAnnounced_eq hI hrec hgranted] at hlawful
    exact ⟨result, hq, hlawful⟩
  constructor
  case exclusive =>
    intro i j hi hj
    have hlast := hI.last i ((holds_iff hI (hrec i)).mp hi)
    rw [hI.last j ((holds_iff hI (hrec j)).mp hj)] at hlast
    exact (Option.some.inj hlast).symm
  case slot =>
    rw [hI.slot]
    exact exists_congr fun i => (holds_iff hI (hrec i)).symm
  case freed =>
    intro i outcome hret hheld
    have hholds := (holds_iff hI (hrec i)).mp hheld
    rcases hreturned i outcome hret with ⟨hq, -⟩ | ⟨result, hq, -⟩ <;>
      rw [hq] at hholds <;> cases hholds
  case reads =>
    intro i hi outcome hret
    obtain ⟨result, hq, -⟩ := released_of_returned (hreturned i outcome hret) ((hI.mem i).mp hi)
    have hasked := (hrec i).asked
    rw [hq] at hasked
    obtain ⟨reply, hreplies, hreply⟩ := List.map_eq_singleton_iff.mp hasked
    exact ⟨reply, hreplies, by rw [passDiff, (hrec i).diff, hq, hreply]⟩
  case asks =>
    intro before i after outcome hgranted hret
    obtain ⟨result, hq, hlawful⟩ := hpass before i after outcome hgranted hret
    rw [Fresh, passReply, passDiff, (hrec i).reply, (hrec i).diff, hq]
    exact (result_law self hlawful).1
  case emits =>
    intro before i after outcome explanation hgranted hret _ hreply
    obtain ⟨result, hq, hlawful⟩ := hpass before i after outcome hgranted hret
    rw [passReply, (hrec i).reply, hq] at hreply
    rw [passEmitted, (hrec i).emitted, hq]
    exact (result_law self hlawful).2.1 explanation hreply
  case silent =>
    intro before i after outcome hgranted hret hnot
    obtain ⟨result, hq, hlawful⟩ := hpass before i after outcome hgranted hret
    rw [Fresh, passReply, passDiff, (hrec i).reply, (hrec i).diff, hq,
      ← (result_law self hlawful).1] at hnot
    rw [passEmitted, (hrec i).emitted, hq]
    refine (result_law self hlawful).2.2 fun ⟨explanation, hreply⟩ => ?_
    exact hnot ⟨by rw [hreply]; rfl, explanation, hreply⟩
  case bails =>
    intro i hi
    rw [passEmitted, (hrec i).emitted]
    rw [hI.mem] at hi
    cases hq : q i <;> first | rfl | exact absurd (by rw [hq]; rfl) hi
  case untouched =>
    intro m hm outcome hret houtcome
    obtain ⟨pre, post, htr⟩ := List.append_of_mem hm
    obtain ⟨P₁, P₂, -, hs, -⟩ := hr.split htr
    have hcached := (hrec m.thread).cached
    rw [settlement_of_outcome (hreturned m.thread outcome hret) houtcome] at hcached
    have hmem : m.event ∈ Pool.eventsOf m.thread tr :=
      List.mem_map.mpr ⟨m, List.mem_filter.mpr ⟨hm, by simp⟩, rfl⟩
    exact step_untouched hs.semantics (Bool.eq_false_iff.mpr (List.any_eq_false.mp hcached _ hmem))
  case samePass => exact same_pass hI hrec

end

/-- Ports that may reply anything. -/
def Ports.any : Ports where
  git _ _ := True
  explainer _ _ := True

/-- A pipeline. -/
def somePipeline : DiffPipeline where
  sessionId := "0"
  workspace := "/w"

/-- One trigger over a changed file. -/
abbrev onePass : Pool Unit DiffWorld DiffSig RunOutcome :=
  somePipeline.pool String.length (fun _ => none) "+x"

/-- It runs to its end, and the law holds. -/
theorem dedup_law_pass :
    ∃ tr P, Pool.Run (step .any) onePass tr P ∧ P.threads () = .ret (.emitted 2) ∧
      DedupLaw String.length somePipeline tr P := by
  have h0 : Pool.Run (step .any) onePass [] ⟨.start "+x", onePass.threads⟩ := .nil
  have hclaim : step .any (.start "+x") ⟨.claimSlot, false⟩ ⟨⟨none, none, true⟩, "+x", []⟩ :=
    ⟨rfl, rfl⟩
  have h1 := h0.next () rfl hclaim rfl
  have h2 := h1.next (r := Except.ok "+x") () rfl ⟨trivial, rfl⟩ rfl
  have h3 := h2.next (r := none) () rfl ⟨rfl, rfl⟩ rfl
  have h4 := h3.next (r := Except.ok DiffExplanation.empty) () rfl ⟨trivial, rfl⟩ rfl
  have h5 := h4.next (r := ()) () rfl rfl rfl
  have h6 := h5.next (r := ()) () rfl rfl rfl
  have h7 := h6.next (r := ()) () rfl rfl rfl
  refine ⟨_, _, h7, rfl, dedup_law h7 ?_⟩
  intro a ha b hb _
  rw [List.mem_singleton.mp ha, List.mem_singleton.mp hb]

end Spectty.Diff
