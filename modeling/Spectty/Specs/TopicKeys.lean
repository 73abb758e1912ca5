/-
  Spectty.Specs.TopicKeys

  The session that a topic key belongs to, for the four decoders: the two of the
  application's poll loops, which drop a key that is not canonical, and the two of
  the clients of the store, which file it under a fallback.

  `topic_key_codec` says that they agree.  So an event names the session under
  which the document that it reports is filed (`sessionIdOf_of_specUpdated`,
  `sessionIdOf_of_approvalStatus`), and the documents of a minted id are filed under
  that id (`allOps_write_mintId`).
-/

import Spectty.Adapters.EngramHttp
import Spectty.Specs.Attach

namespace Spectty.Specs

open Spectty.Adapters.EngramHttp
open Spectty.Commands
open Spectty.Core
open Spectty.Lib
open Spectty.Lib.Text

-- ============================================================================
-- The keys
-- ============================================================================

variable {topicKey kind id : String}

/-- A decoder accepts the keys of its kind, of ids that are one segment. -/
theorem sessionIdFromKey_eq_some_iff (hkind : '/' ∉ kind.toList) :
    sessionIdFromKey kind topicKey = some id ↔
      topicKey = Commands.topicKey id kind ∧ id ≠ "" ∧ '/' ∉ id.toList := by
  constructor
  · intro h
    unfold sessionIdFromKey at h
    split at h
    · rename_i root sid last hsplit
      split_ifs at h with hsegments
      obtain ⟨rfl, rfl, hne⟩ := hsegments
      obtain rfl := Option.some.inj h
      obtain ⟨-, tail, hroot, htail⟩ := splitOn_eq_cons_cons_iff.mp hsplit
      obtain ⟨hslash, behind, rfl, hbehind⟩ := splitOn_eq_cons_cons_iff.mp htail
      obtain ⟨-, rfl⟩ := splitOn_eq_singleton_iff.mp hbehind
      have hid : (String.ofList sid).toList = sid := String.toList_ofList
      refine ⟨String.toList_injective ?_, ?_, ?_⟩
      · rw [hroot, toList_topicKey, hid]
      · rwa [Ne, ← String.toList_eq_nil_iff, hid]
      · rwa [hid]
    · cases h
  · rintro ⟨rfl, hne, hslash⟩
    rw [sessionIdFromKey_topicKey hne hkind, if_neg hslash]

theorem sessionIdFromSpecKey_eq_some_iff : sessionIdFromSpecKey topicKey = some id ↔
    topicKey = specKey id ∧ id ≠ "" ∧ '/' ∉ id.toList :=
  sessionIdFromKey_eq_some_iff (by decide)

theorem sessionIdFromApprovalKey_eq_some_iff : sessionIdFromApprovalKey topicKey = some id ↔
    topicKey = approvalKey id ∧ id ≠ "" ∧ '/' ∉ id.toList :=
  sessionIdFromKey_eq_some_iff (by decide)

/-- A session's documents are in its namespace, whatever their kind. -/
theorem inNamespace_topicKey (hne : id ≠ "") (hslash : '/' ∉ id.toList) (kind : String) :
    InNamespace (Commands.topicKey id kind) id := by
  exact ⟨hne, hslash, .inr ⟨kind.toList, String.toList_append.symm⟩⟩

theorem sessionIdOf_topicKey (hne : id ≠ "") (hslash : '/' ∉ id.toList) (kind : String) :
    sessionIdOf (Commands.topicKey id kind) = id :=
  sessionIdOf_of_inNamespace (inNamespace_topicKey hne hslash kind)

theorem sessionIdOf_of_decoded
    (h : sessionIdFromSpecKey topicKey = some id ∨ sessionIdFromApprovalKey topicKey = some id) :
    sessionIdOf topicKey = id := by
  rcases h with h | h
  · obtain ⟨rfl, hne, hslash⟩ := sessionIdFromSpecKey_eq_some_iff.mp h
    exact sessionIdOf_topicKey hne hslash "spec"
  · obtain ⟨rfl, hne, hslash⟩ := sessionIdFromApprovalKey_eq_some_iff.mp h
    exact sessionIdOf_topicKey hne hslash "approval"

/-- No key is of both kinds. -/
theorem not_decoded_twice {other : String} (hspec : sessionIdFromSpecKey topicKey = some id) :
    sessionIdFromApprovalKey topicKey ≠ some other := by
  intro happroval
  obtain ⟨rfl, -, -⟩ := sessionIdFromSpecKey_eq_some_iff.mp hspec
  obtain ⟨hkey, -, -⟩ := sessionIdFromApprovalKey_eq_some_iff.mp happroval
  exact storeKey_topicKey_ne (by decide) id other (congrArg storeKey hkey)

/-- The decoders of the poll loops accept exactly the canonical keys of ids that are one
    segment; the two clients file every key alike, and a key that is accepted under the id
    that is read from it. -/
theorem topic_key_codec :
    (∀ key id, sessionIdFromSpecKey key = some id ↔
      key = specKey id ∧ id ≠ "" ∧ '/' ∉ id.toList) ∧
    (∀ key id, sessionIdFromApprovalKey key = some id ↔
      key = approvalKey id ∧ id ≠ "" ∧ '/' ∉ id.toList) ∧
    (∀ debugAssertions key, engramSessionId debugAssertions key = .ok (sessionIdOf key)) ∧
    (∀ key id, sessionIdFromSpecKey key = some id ∨ sessionIdFromApprovalKey key = some id →
      sessionIdOf key = id) ∧
    ∀ id, id ≠ "" → '/' ∉ id.toList →
      sessionIdFromSpecKey (specKey id) = some id ∧
      sessionIdFromApprovalKey (approvalKey id) = some id ∧
      ∀ key ∈ [specKey id, approvalKey id], sessionIdOf key = id ∧
        ∀ debugAssertions, engramSessionId debugAssertions key = .ok id := by
  refine ⟨fun _ _ => sessionIdFromSpecKey_eq_some_iff,
    fun _ _ => sessionIdFromApprovalKey_eq_some_iff, engramSessionId_eq,
    fun _ _ => sessionIdOf_of_decoded, fun id hne hslash => ?_⟩
  have hspec := sessionIdFromSpecKey_eq_some_iff.mpr ⟨rfl, hne, hslash⟩
  have happroval := sessionIdFromApprovalKey_eq_some_iff.mpr ⟨rfl, hne, hslash⟩
  refine ⟨hspec, happroval, fun key hkey => ?_⟩
  have hfiled : sessionIdOf key = id := by
    simp only [List.mem_cons, List.not_mem_nil, or_false] at hkey
    rcases hkey with rfl | rfl
    · exact sessionIdOf_of_decoded (.inl hspec)
    · exact sessionIdOf_of_decoded (.inr happroval)
  exact ⟨hfiled, fun debugAssertions => by rw [engramSessionId_eq, hfiled]⟩

-- ============================================================================
-- The documents
-- ============================================================================

/-- A change of a contract is announced for the session it is filed under. -/
theorem sessionIdOf_of_specUpdated {J : SerdeJson} {change : Change} {event : SpecUpdated}
    (h : specUpdatedFromChange J change = some event) :
    sessionIdOf change.topicKey = event.sessionId := by
  simp only [specUpdatedFromChange, Option.bind_eq_bind, Option.bind_eq_some_iff] at h
  obtain ⟨id, hid, spec, -, hevent⟩ := h
  obtain rfl := Option.some.inj hevent
  exact sessionIdOf_of_decoded (.inl hid)

/-- A pending request is announced for the session it is filed under. -/
theorem sessionIdOf_of_approvalStatus {J : SerdeJson} {change : Change} {event : StatusChanged}
    (h : approvalStatusFromChange J change = some event) :
    sessionIdOf change.topicKey = event.sessionId := by
  simp only [approvalStatusFromChange, Option.bind_eq_bind, Option.bind_eq_some_iff] at h
  obtain ⟨id, hid, request, -, hevent⟩ := h
  split_ifs at hevent
  obtain rfl := Option.some.inj hevent
  exact sessionIdOf_of_decoded (.inr hid)

/-- Whichever side writes a document of a minted id, every request of the write names that
    id. -/
theorem allOps_write_mintId (registry : SessionRegistry) (kind baseUrl project content : String) :
    (upsert baseUrl project (Commands.topicKey registry.mintId.1 kind) content).AllOps
      (fun request : Post => request.session = some (.str registry.mintId.1)) ∧
    ∀ debugAssertions, (postObservationAsync debugAssertions baseUrl project
        (Commands.topicKey registry.mintId.1 kind) content).AllOps
      (fun request : Post => request.session = some (.str registry.mintId.1)) := by
  obtain ⟨-, hne, hslash⟩ :=
    sessionIdFromSpecKey_eq_some_iff.mp (sessionIdFromSpecKey_mintId registry)
  have hfiled := sessionIdOf_topicKey hne hslash kind
  refine ⟨?_, fun debugAssertions => ?_⟩
  · have hops := allOps_upsert baseUrl project (Commands.topicKey registry.mintId.1 kind) content
    rwa [hfiled] at hops
  · have hops := allOps_postObservationAsync debugAssertions baseUrl project
      (Commands.topicKey registry.mintId.1 kind) content
    rwa [hfiled] at hops

end Spectty.Specs
