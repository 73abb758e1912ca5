/-
  Spectty.Provision.Serializable

  Any number of provisioner calls, and of replacements of a configuration file
  by other programs, interleaved at every read and at every complete write.

  A call writes back what it made of an earlier content: a replacement in
  between is lost (`replacement_lost`).  The theorem `serializable` says on
  which runs nothing is: those where each call's write meets the content that
  the call has read.
-/

import Spectty.Provision.Operation
import Spectty.Lib.Serial

namespace Spectty.Provision

open Spectty.Core
open Spectty.Lib
open Spectty.Lib.Pool (Serialized eventsOf Quiet Commits)

/-- What a thread does: a provisioner's call, or the replacement of a file by
    another program. -/
inductive Activity where
  | operation (op : Operation)
  | replacement (path contents : String)

def Activity.run (J : ConfigJson) : Activity → Prog ConfigSig (Except ProvisioningError Unit)
  | operation op => op.run J
  | replacement path contents => .op (.writeAtomic path contents) fun r => .ret (r.mapError .io)

variable {J : ConfigJson} {act : Activity} {es : List (Event ConfigSig)} {files files' : Files}

-- ============================================================================
-- Where an activity stands
-- ============================================================================

/-- Where an activity stands after its events: at its start, between a read
    and the write of what the editor made of it, or at its end. -/
inductive Standing (J : ConfigJson) (act : Activity) : List (Event ConfigSig) →
    Prog ConfigSig (Except ProvisioningError Unit) → Prop where
  | start {p} : p = act.run J → Standing J act [] p
  | holding {op : Operation} {current : Option String} {next : String} :
      act = .operation op → op.edit J current = some (.ok next) →
      Standing J act [⟨.read op.path, .ok current⟩]
        (.op (.writeAtomic op.path next) fun r => .ret (r.mapError .io))
  | done {events : List (Event ConfigSig)} (a : Except ProvisioningError Unit) :
      Standing J act events (.ret a)

/-- What follows a read. -/
theorem standing_writeEdited {op : Operation} (hact : act = .operation op)
    (current : Option String) :
    Standing J act [⟨.read op.path, .ok current⟩] (writeEdited op.path (op.edit J current)) := by
  cases hedit : op.edit J current with
  | none => exact .done _
  | some edited =>
      cases edited with
      | error e => exact .done _
      | ok next => exact .holding hact hedit

theorem Standing.step {o : ConfigOp} {k : ConfigSig.Reply o → Prog ConfigSig _}
    (h : Standing J act es (.op o k)) (r : ConfigSig.Reply o) :
    Standing J act (es ++ [⟨o, r⟩]) (k r) := by
  cases h with
  | start hrun =>
      cases act with
      | replacement path contents =>
          cases hrun
          exact .done _
      | operation op =>
          rw [Activity.run, op.run_eq] at hrun
          cases hrun
          cases r with
          | error e => exact .done _
          | ok current => exact standing_writeEdited rfl current
  | holding _ _ => exact .done _

/-- A step of an activity leaves the files, or it is the last one and does
    what the whole activity would, if its write meets what it has read. -/
theorem Standing.effect {o : ConfigOp} {k : ConfigSig.Reply o → Prog ConfigSig _}
    {r : ConfigSig.Reply o} (h : Standing J act es (.op o k))
    (hstep : Files.step files ⟨o, r⟩ files')
    (hmeets : ∀ op contents, act = .operation op →
      (⟨o, r⟩ : Event ConfigSig) = ⟨.writeAtomic op.path contents, .ok ()⟩ →
        ⟨.read op.path, .ok (files op.path)⟩ ∈ es) :
    (files' = files ∧ ∀ a, k r ≠ .ret a) ∨
      ∃ a es', k r = .ret a ∧ Prog.Exec Files.step files (act.run J) es' files' a := by
  cases h with
  | start hrun =>
      cases act with
      | replacement path contents =>
          cases hrun
          exact Or.inr ⟨_, _, rfl, .op hstep .ret⟩
      | operation op =>
          rw [Activity.run, op.run_eq] at hrun ⊢
          cases hrun
          cases r with
          | error msg =>
              obtain ⟨-, rfl⟩ := hstep
              exact Or.inr ⟨_, _, rfl, exec_read_failed msg⟩
          | ok current =>
              rcases writeEdited_cases op.path (op.edit J current) with ⟨next, hedit⟩ | ⟨a, hret⟩
              · obtain ⟨-, rfl⟩ := hstep
                refine Or.inl ⟨rfl, fun a ha => ?_⟩
                simp only [hedit] at ha
                cases ha
              · exact Or.inr ⟨a, _, hret, exec_unwritten hstep hret⟩
  | @holding op current next hact hedit =>
      subst hact
      rw [Activity.run, op.run_eq]
      right
      rcases hstep with ⟨rfl, rfl⟩ | ⟨⟨msg, rfl⟩, rfl⟩
      · -- the content it has read is the content it writes over
        have hread := hmeets op next rfl rfl
        rw [List.mem_singleton] at hread
        cases hread
        exact ⟨_, _, rfl, exec_written hedit⟩
      · -- a write that failed is as a read that failed
        exact ⟨_, _, rfl, exec_read_failed msg⟩

-- ============================================================================
-- Interleaved activities
-- ============================================================================

variable {ι : Type} [DecidableEq ι]

section

variable (J : ConfigJson) (acts : ι → Activity)

/-- The activities as threads over the files. -/
def activityPool (files : Files) : Pool ι Files ConfigSig (Except ProvisioningError Unit) where
  shared := files
  threads := fun i => (acts i).run J

/-- The write of a call meets the content that the call has read. -/
def WritesOverRead (tr : List (Moment ι Files ConfigSig)) (m : Moment ι Files ConfigSig) : Prop :=
  ∀ op contents, acts m.thread = .operation op → m.event = ⟨.writeAtomic op.path contents, .ok ()⟩ →
    ⟨.read op.path, .ok (m.before op.path)⟩ ∈ eventsOf m.thread tr

end

variable {acts : ι → Activity} {tr : List (Moment ι Files ConfigSig)}
  {P : Pool ι Files ConfigSig (Except ProvisioningError Unit)}

theorem run_ne_ret (J : ConfigJson) (act : Activity) (a : Except ProvisioningError Unit) :
    act.run J ≠ .ret a := by
  cases act with
  | operation op =>
      rw [Activity.run, op.run_eq]
      exact fun h => by cases h
  | replacement path contents => exact fun h => by cases h

/-- Each activity of a run stands somewhere. -/
theorem standing_of_run (hr : Pool.Run Files.step (activityPool J acts files) tr P) (i : ι) :
    Standing J (acts i) (eventsOf i tr) (P.threads i) := by
  induction hr with
  | nil => exact .start rfl
  | @snoc tr P P' m _ hs ih =>
      by_cases hi : i = m.thread
      · subst hi
        obtain ⟨o, k, r, hop, hev, hop'⟩ := hs.inv
        rw [Pool.eventsOf_concat_self, hop', hev]
        rw [hop] at ih
        exact ih.step r
      · rw [Pool.eventsOf_concat_of_ne (Ne.symm hi), hs.frame hi]
        exact ih

/-- In every run in which each call's write meets the content that the call
    has read, the activities that are through have done what they would do one
    after the other. -/
theorem serializable (hr : Pool.Run Files.step (activityPool J acts files) tr P)
    (hmeets : Pool.Steps (WritesOverRead acts) tr) :
    ∃ order, Serialized Files.step (activityPool J acts files) tr P order := by
  refine hr.serialized (fun i a => run_ne_ret J (acts i) a) fun pre m post P₁ P₂ hsplit hr₁ hs => ?_
  have hstanding := standing_of_run hr₁ m.thread
  obtain ⟨o, k, r, hop, hev, hop'⟩ := hs.inv
  have hstep := hs.semantics
  rw [hop] at hstanding
  rw [hev] at hstep
  have heffect := hstanding.effect hstep fun op contents hact hwrite =>
    hmeets pre m post hsplit op contents hact (hev.trans hwrite)
  rw [← hop'] at heffect
  rcases heffect with hquiet | ⟨a, es', hret, hx⟩
  · exact Or.inl hquiet
  · exact Or.inr ⟨a, es', hret, hx⟩

-- ============================================================================
-- An injection and another program
-- ============================================================================

/-- The settings another program writes. -/
def otherSettings : Members := [("theme", .str "dark")]

theorem toValue_otherSettings :
    ConfigJson.compact.toValue (serializePretty .compact otherSettings) =
      some (.obj otherSettings) := by
  refine toValue_serializePretty ?_
  simp [otherSettings, Json.isValue_obj]

/-- An injection, and another program that replaces the file. -/
def injectionAndOther : Bool → Activity
  | false => .operation injection
  | true => .replacement injection.path (serializePretty .compact otherSettings)

/-- The start of a run with the injection's read of the absent file. -/
theorem run_injection_read {doc : String} (hdoc : injection.edit .compact none = some (.ok doc)) :
    Pool.Run Files.step (activityPool .compact injectionAndOther fun _ => none)
      [⟨false, ⟨.read injection.path, .ok none⟩, fun _ => none, fun _ => none⟩]
      ⟨fun _ => none, Function.update (fun i => (injectionAndOther i).run .compact) false
        (.op (.writeAtomic injection.path doc) fun r => .ret (r.mapError .io))⟩ :=
  Pool.Run.next (.nil : Pool.Run Files.step (activityPool .compact injectionAndOther _) [] _) false
    (injection.run_eq .compact) ⟨Kv.get_latest, rfl⟩ (by simp only [hdoc]; rfl)

/-- The other program replaces the file after the injection is through. -/
theorem serializable_in_turn :
    ∃ tr P order, Pool.Run Files.step (activityPool .compact injectionAndOther fun _ => none) tr P ∧
      (∀ i, P.threads i = .ret (.ok ())) ∧
      Serialized Files.step (activityPool .compact injectionAndOther fun _ => none) tr P order := by
  obtain ⟨doc, hdoc⟩ := edit_injection
  have h1 := run_injection_read hdoc
  have h2 := h1.next false (Function.update_self ..) (Or.inl ⟨rfl, rfl⟩) rfl
  have h3 := h2.next true rfl (Or.inl ⟨rfl, rfl⟩) rfl
  obtain ⟨order, hserial⟩ := serializable h3 (by
    have hread : Pool.Steps (WritesOverRead injectionAndOther)
        [⟨false, ⟨.read injection.path, .ok none⟩, fun _ => none, fun _ => none⟩] := by
      rw [← List.nil_append [_], Pool.steps_concat]
      refine ⟨Pool.steps_nil _, fun op contents _ hwrite => ?_⟩
      cases hwrite
    rw [Pool.steps_concat, Pool.steps_concat]
    refine ⟨⟨hread, fun op contents hact _ => ?_⟩, fun op contents hact _ => ?_⟩
    · obtain rfl := Activity.operation.inj hact
      simp [eventsOf]
    · cases hact)
  refine ⟨_, _, order, h3, fun i => ?_, hserial⟩
  cases i <;> rfl

/-- A replacement that succeeds, run alone. -/
theorem exec_replacement {path contents : String}
    (hx : Prog.Exec Files.step files ((Activity.replacement path contents).run J) es files'
      (.ok ())) :
    files' = Kv.write files path contents := by
  cases hx with
  | @op _ _ _ _ _ r _ _ hstep hret =>
      rcases hstep with ⟨rfl, rfl⟩ | ⟨⟨msg, rfl⟩, -⟩
      · cases hret
        rfl
      · cases hret

/-- In either order, what the other program writes is still there. -/
theorem serialRun_injectionAndOther {order : List (Bool × Except ProvisioningError Unit)}
    (h : Pool.SerialRun Files.step (fun i => (injectionAndOther i).run .compact) (fun _ => none)
      order files)
    (hnodup : (order.map Prod.fst).Nodup) (hok : ∀ i a, (i, a) ∈ order → a = .ok ())
    (hother : (true, .ok ()) ∈ order) :
    ∃ text root, files injection.path = some text ∧
      ConfigJson.compact.toValue text = some (.obj root) ∧ root.lookup "theme" ≠ none := by
  have hwritten : ∀ {files₁ files₂ : Files} {es}, Prog.Exec Files.step files₁
      ((injectionAndOther true).run .compact) es files₂ (.ok ()) →
        files₂ injection.path = some (serializePretty .compact otherSettings) := by
    intro files₁ files₂ es hx
    rw [exec_replacement hx, Kv.write_same]
  induction order using List.reverseRecOn generalizing files with
  | nil => cases hother
  | append_singleton order last _ =>
      obtain ⟨i, a⟩ := last
      obtain ⟨files₁, es, hrest, hx⟩ := Pool.serialRun_concat h
      obtain rfl := hok i a (by simp)
      cases i with
      | true => exact ⟨_, _, hwritten hx, toValue_otherSettings, by simp [otherSettings]⟩
      | false =>
          -- before the injection, the other program alone has run
          obtain ⟨order, rfl⟩ : ∃ order', order = order' ++ [(true, .ok ())] := by
            rcases List.eq_nil_or_concat order with rfl | ⟨order', ⟨j, b⟩, rfl⟩
            · cases List.mem_singleton.mp hother
            · obtain rfl := hok j b (by simp)
              cases j with
              | true => exact ⟨order', List.concat_eq_append⟩
              | false => simp [List.nodup_append] at hnodup
          obtain ⟨files₀, es₀, -, hx₀⟩ := Pool.serialRun_concat hrest
          have hread := hwritten hx₀
          rw [show (injectionAndOther false).run .compact = readEditWrite injection.path
            (injection.edit .compact) from injection.run_eq .compact] at hx
          rcases exec_readEditWrite_ok hx with ⟨hedit, -⟩ | ⟨next, hedit, rfl⟩
          · cases hedit
          · rw [hread] at hedit
            obtain ⟨root, hroot, hlookup⟩ :=
              injection_lookup hedit toValue_otherSettings (show "theme" ≠ "mcpServers" by decide)
            refine ⟨next, root, Kv.write_same, hroot, ?_⟩
            rw [hlookup]
            simp [otherSettings]

/-- The other program replaces the file between the injection's read and its
    write. -/
theorem run_replacement_between {doc : String}
    (hdoc : injection.edit .compact none = some (.ok doc)) :
    ∃ tr P, Pool.Run Files.step (activityPool .compact injectionAndOther fun _ => none) tr P ∧
      (∀ i, P.threads i = .ret (.ok ())) ∧ P.shared injection.path = some doc := by
  have h1 := run_injection_read hdoc
  have h2 := h1.next true rfl (Or.inl ⟨rfl, rfl⟩) rfl
  have h3 := h2.next false rfl (Or.inl ⟨rfl, rfl⟩) rfl
  refine ⟨_, _, h3, fun i => ?_, ?_⟩
  · cases i <;> rfl
  · simp only [Kv.write_same]

/-- No serial order leaves what the injection writes then. -/
theorem replacement_lost :
    ∃ tr P, Pool.Run Files.step (activityPool .compact injectionAndOther fun _ => none) tr P ∧
      (∀ i, P.threads i = .ret (.ok ())) ∧
      ¬ ∃ order, Serialized Files.step (activityPool .compact injectionAndOther fun _ => none)
        tr P order := by
  obtain ⟨doc, hdoc⟩ := edit_injection
  obtain ⟨tr, P, hr, hall, hfinal⟩ := run_replacement_between hdoc
  refine ⟨tr, P, hr, hall, ?_⟩
  rintro ⟨order, h⟩
  have hok : ∀ i a, (i, a) ∈ order → a = .ok () := by
    intro i a hmem
    have hret := (h.returned i a).mp hmem
    rw [hall i] at hret
    exact (Prog.ret.inj hret).symm
  obtain ⟨text, root, htext, hroot, htheme⟩ := serialRun_injectionAndOther h.serial h.nodup hok
    ((h.returned true (.ok ())).mpr (hall true))
  rw [hfinal] at htext
  obtain rfl := Option.some.inj htext
  obtain ⟨root', hroot', hlookup⟩ :=
    injection_lookup hdoc rfl (show "theme" ≠ "mcpServers" by decide)
  rw [hroot] at hroot'
  obtain rfl := Json.obj.inj (Option.some.inj hroot')
  exact htheme hlookup

end Spectty.Provision
