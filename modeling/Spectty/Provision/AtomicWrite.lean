/-
  Spectty.Provision.AtomicWrite

  Any number of provisioner calls on one configuration file, interleaved at
  every file operation.

  All of them write the same temporary file, so a call that creates it again
  truncates what another has written and is about to rename: the
  configuration is then seen half-written (`half_written`).  The theorem
  `never_half_written` says on which runs it is not: those where the temporary
  file is created only while no other call is between its own creation of it
  and its rename.
-/

import Spectty.Provision.FileIo
import Spectty.Lib.Pool

namespace Spectty.Provision

open Spectty.Core
open Spectty.Lib

-- ============================================================================
-- The stages of a call
-- ============================================================================

/-- Where a call stands: before its read, in `write_atomic` of a document, with
    the temporary file open, with the document in it, after its rename. -/
inductive Stage where
  | reading
  | calling (doc : String)
  | opened (doc : String) (file : Nat)
  | written (doc : String) (file : Nat)
  | done
deriving DecidableEq

namespace Stage

/-- Between the creation of the temporary file and its rename. -/
def inFlight : Stage → Bool
  | opened _ _ | written _ _ => true
  | _ => false

/-- The document passed to `write_atomic`. -/
def doc : Stage → Option String
  | calling doc | opened doc _ | written doc _ => some doc
  | _ => none

/-- What follows a read: a call of `write_atomic`, or nothing. -/
def afterEdit : Option (Except ProvisioningError String) → Stage
  | some (.ok doc) => calling doc
  | _ => done

/-- The stages a call of `op` goes through. -/
def protocol (J : ConfigJson) (op : Operation) : Prog.Protocol FsSig Stage := fun q e =>
  match q, e with
  | reading, ⟨.readToString path, r⟩ =>
      if path = op.path then
        match r with
        | .ok current => some (afterEdit (op.edit J (some current)))
        | .error e => some (if e.notFound then afterEdit (op.edit J none) else done)
      else none
  | calling doc, ⟨.createParentDir _, _⟩ => some (calling doc)
  | calling doc, ⟨.pathExists _, _⟩ => some (calling doc)
  | calling doc, ⟨.readToString _, _⟩ => some (calling doc)
  | calling doc, ⟨.write path _, _⟩ =>
      if path = backupPath op.path then some (calling doc) else none
  | calling doc, ⟨.create path, r⟩ =>
      if path = tmpPath op.path then
        match r with
        | .ok file => some (opened doc file)
        | .error _ => some done
      else none
  | opened doc file, ⟨.writeAll file' bytes, r⟩ =>
      if file' = file ∧ bytes = utf8 doc then
        match r with
        | .ok () => some (written doc file)
        | .error _ => some done
      else none
  | written doc file, ⟨.syncAll _, r⟩ =>
      match r with
      | .ok () => some (written doc file)
      | .error _ => some done
  | written _ _, ⟨.rename source target, _⟩ =>
      if source = tmpPath op.path ∧ target = op.path then some done else none
  | _, _ => none

end Stage

variable {J : ConfigJson} {op : Operation} {doc : String}

-- ============================================================================
-- Calls keep to their stages
-- ============================================================================

/-- The copy of the first content is made in `write_atomic`. -/
theorem follows_backUp :
    Prog.Follows (Stage.protocol J op) (.calling doc) (RealConfigFile.backUp op.path)
      fun _ q => q = .calling doc := by
  intro present
  refine ⟨_, rfl, ?_⟩
  cases present with
  | true => rfl
  | false =>
      intro r
      refine ⟨_, rfl, ?_⟩
      rcases r with e | original
      · simp only
        cases e.notFound <;> rfl
      · exact fun r => ⟨_, if_pos rfl, rfl⟩

theorem follows_replace :
    Prog.Follows (Stage.protocol J op) (.calling doc) (RealConfigFile.replace op.path doc)
      fun _ _ => True := by
  intro r
  cases r with
  | error e => exact ⟨_, if_pos rfl, trivial⟩
  | ok file =>
      refine ⟨_, if_pos rfl, fun r => ?_⟩
      cases r with
      | error e => exact ⟨_, if_pos ⟨rfl, rfl⟩, trivial⟩
      | ok _ =>
          refine ⟨_, if_pos ⟨rfl, rfl⟩, fun r => ?_⟩
          cases r with
          | error e => exact ⟨_, rfl, trivial⟩
          | ok _ => exact ⟨_, rfl, fun r => ⟨_, if_pos ⟨rfl, rfl⟩, trivial⟩⟩

theorem follows_writeAtomic :
    Prog.Follows (Stage.protocol J op) (.calling doc) (RealConfigFile.writeAtomic op.path doc)
      fun _ _ => True := by
  intro r
  refine ⟨_, rfl, ?_⟩
  cases r with
  | error e => trivial
  | ok _ =>
      refine follows_backUp.bind fun r q hq => ?_
      subst hq
      cases r with
      | error e => trivial
      | ok _ => exact follows_replace

/-- A call goes through its stages. -/
theorem follows_operation (J : ConfigJson) (op : Operation) :
    Prog.Follows (Stage.protocol J op) .reading ((op.run J).implement RealConfigFile.perform)
      fun _ _ => True := by
  have hedit : ∀ current, Prog.Follows (Stage.protocol J op) (Stage.afterEdit (op.edit J current))
      ((writeEdited op.path (op.edit J current)).implement RealConfigFile.perform)
      fun _ _ => True := by
    intro current
    rcases op.edit J current with _ | (e | next)
    · trivial
    · trivial
    · exact follows_writeAtomic.bind fun _ _ _ => trivial
  rw [op.run_eq]
  intro r
  cases r with
  | ok current => exact ⟨_, if_pos rfl, hedit (some current)⟩
  | error e =>
      refine ⟨_, if_pos rfl, ?_⟩
      cases hfound : e.notFound with
      | true =>
          simp only [hfound, if_true]
          exact hedit none
      | false =>
          simp only [hfound, Bool.false_eq_true, if_false]
          trivial

/-- What one event can do to the stage of a call of `op`. -/
inductive Stage.Move (J : ConfigJson) (op : Operation) : Stage → Event FsSig → Stage → Prop where
  | read {r} (q' : Stage) :
      (∀ text, q'.doc = some text →
        q' = .calling text ∧ ∃ current, op.edit J current = some (.ok text)) →
      Move J op .reading ⟨.readToString op.path, r⟩ q'
  | look {text o r} : (∀ fs fs', Disk.step fs ⟨o, r⟩ fs' → fs' = fs) →
      Move J op (.calling text) ⟨o, r⟩ (.calling text)
  | backUp {text contents r} :
      Move J op (.calling text) ⟨.write (backupPath op.path) contents, r⟩ (.calling text)
  | create {text} (file : Nat) :
      Move J op (.calling text) ⟨.create (tmpPath op.path), .ok file⟩ (.opened text file)
  | createFailed {text e} :
      Move J op (.calling text) ⟨.create (tmpPath op.path), .error e⟩ .done
  | write {text file} :
      Move J op (.opened text file) ⟨.writeAll file (utf8 text), .ok ()⟩ (.written text file)
  | writeFailed {text file e} :
      Move J op (.opened text file) ⟨.writeAll file (utf8 text), .error e⟩ .done
  | sync {text file file' r} (q' : Stage) : q' = .written text file ∨ q' = .done →
      Move J op (.written text file) ⟨.syncAll file', r⟩ q'
  | rename {text file r} :
      Move J op (.written text file) ⟨.rename (tmpPath op.path) op.path, r⟩ .done

/-- A document to write is what the editor gave. -/
theorem Stage.doc_afterEdit {edited : Option (Except ProvisioningError String)}
    (h : (Stage.afterEdit edited).doc = some doc) :
    Stage.afterEdit edited = .calling doc ∧ edited = some (.ok doc) := by
  rcases edited with _ | (e | next)
  · cases h
  · cases h
  · obtain rfl := Option.some.inj h
    exact ⟨rfl, rfl⟩

theorem Stage.move_of_protocol {q q' : Stage} {e : Event FsSig}
    (h : Stage.protocol J op q e = some q') : Stage.Move J op q e q' := by
  unfold Stage.protocol at h
  split at h
  case h_1 path r =>
    split at h
    case isFalse => cases h
    case isTrue hpath =>
      subst hpath
      refine .read q' fun doc hdoc => ?_
      cases r with
      | ok current =>
          obtain rfl := Option.some.inj h
          exact ⟨(Stage.doc_afterEdit hdoc).1, _, (Stage.doc_afterEdit hdoc).2⟩
      | error e =>
          obtain rfl := Option.some.inj h
          split at hdoc
          · rename_i hfound
            rw [if_pos hfound]
            exact ⟨(Stage.doc_afterEdit hdoc).1, _, (Stage.doc_afterEdit hdoc).2⟩
          · cases hdoc
  case h_2 | h_3 | h_4 =>
    obtain rfl := Option.some.inj h
    refine .look fun fs fs' hstep => ?_
    first | exact hstep | exact hstep.2 | exact hstep.2.2
  case h_5 doc path contents r =>
    split at h
    case isFalse => cases h
    case isTrue hpath =>
      subst hpath
      obtain rfl := Option.some.inj h
      exact .backUp
  case h_6 doc path r =>
    split at h
    case isFalse => cases h
    case isTrue hpath =>
      subst hpath
      cases r with
      | ok file => obtain rfl := Option.some.inj h; exact .create file
      | error e => obtain rfl := Option.some.inj h; exact .createFailed
  case h_7 doc file file' bytes r =>
    split at h
    case isFalse => cases h
    case isTrue hargs =>
      obtain ⟨rfl, rfl⟩ := hargs
      cases r with
      | ok _ => obtain rfl := Option.some.inj h; exact .write
      | error e => obtain rfl := Option.some.inj h; exact .writeFailed
  case h_8 doc file file' r =>
    cases r with
    | ok _ => obtain rfl := Option.some.inj h; exact .sync _ (Or.inl rfl)
    | error e => obtain rfl := Option.some.inj h; exact .sync _ (Or.inr rfl)
  case h_9 doc file source target r =>
    split at h
    case isFalse => cases h
    case isTrue hargs =>
      obtain ⟨rfl, rfl⟩ := hargs
      obtain rfl := Option.some.inj h
      exact .rename
  case h_10 => cases h

-- ============================================================================
-- Interleaved calls
-- ============================================================================

variable {ι : Type} [DecidableEq ι]

section

variable (J : ConfigJson) (ops : ι → Operation)

/-- The calls as threads over a disk. -/
def operationPool (fs : Disk) : Pool ι Disk FsSig (Except ProvisioningError Unit) where
  shared := fs
  threads := fun i => ((ops i).run J).implement RealConfigFile.perform

/-- Where call `i` stands after a trace. -/
def stageOf (tr : List (Moment ι Disk FsSig)) (i : ι) : Option Stage :=
  Pool.phase (fun i => Stage.protocol J (ops i)) (fun _ => .reading) i tr

/-- Some `write_atomic` was called with the document. -/
def Passed (tr : List (Moment ι Disk FsSig)) (doc : String) : Prop :=
  ∃ i pre post, tr = pre ++ post ∧ stageOf J ops pre i = some (.calling doc)

/-- The file holds its original content, or one whole document passed to some
    `write_atomic`. -/
def Whole (path : String) (fs₀ : Disk) (tr : List (Moment ι Disk FsSig)) (fs : Disk) : Prop :=
  fs.content path = fs₀.content path ∨
    ∃ doc, Passed J ops tr doc ∧ fs.content path = some (utf8 doc)

/-- The temporary file is created only while no other call is between its own
    creation of it and its rename. -/
def ClearCreation (path : String) (tr : List (Moment ι Disk FsSig)) (m : Moment ι Disk FsSig) :
    Prop :=
  m.event.op = .create (tmpPath path) →
    ∀ j, j ≠ m.thread → ∀ q, stageOf J ops tr j = some q → q.inFlight = false

/-- What holds between the stages of the calls, the trace and the disk. -/
structure DiskInv (path : String) (fs₀ : Disk) (q : ι → Stage) (tr : List (Moment ι Disk FsSig))
    (fs : Disk) : Prop where
  /-- At most one call is between the creation and the rename. -/
  alone : ∀ i j, (q i).inFlight = true → (q j).inFlight = true → i = j
  /-- What a call writes was passed to it. -/
  passed : ∀ i doc, (q i).doc = some doc → Passed J ops tr doc
  /-- An opened temporary file is empty, and has its name. -/
  opened : ∀ i doc file, q i = .opened doc file →
    fs.inode (tmpPath path) = some file ∧ fs.content (tmpPath path) = some []
  /-- A written one holds the document. -/
  written : ∀ i doc file, q i = .written doc file →
    fs.content (tmpPath path) = some (utf8 doc)
  /-- The file is whole. -/
  whole : Whole J ops path fs₀ tr fs

end

variable {ops : ι → Operation} {path : String} {fs₀ fs fs' : Disk} {q : ι → Stage}
  {tr : List (Moment ι Disk FsSig)} {m : Moment ι Disk FsSig} {i : ι}
  {P : Pool ι Disk FsSig (Except ProvisioningError Unit)}

theorem Passed.concat (h : Passed J ops tr doc) : Passed J ops (tr ++ [m]) doc := by
  obtain ⟨i, pre, post, rfl, hcalling⟩ := h
  exact ⟨i, pre, post ++ [m], by rw [List.append_assoc], hcalling⟩

/-- A step that does not change the file keeps it whole. -/
theorem Whole.concat (h : Whole J ops path fs₀ tr fs) (hsame : fs'.content path = fs.content path) :
    Whole J ops path fs₀ (tr ++ [m]) fs' := by
  rcases h with h | ⟨doc, hpassed, hcontent⟩
  · exact Or.inl (hsame.trans h)
  · exact Or.inr ⟨doc, hpassed.concat, hsame.trans hcontent⟩

-- ============================================================================
-- One step
-- ============================================================================

/-- A step outside the flight of a temporary file. -/
theorem DiskInv.quiet (h : DiskInv J ops path fs₀ q tr fs) {q' : Stage}
    (hq' : q'.inFlight = false) (hdoc : ∀ doc, q'.doc = some doc → Passed J ops (tr ++ [m]) doc)
    (hinode : fs'.inode (tmpPath path) = fs.inode (tmpPath path))
    (htmp : fs'.content (tmpPath path) = fs.content (tmpPath path))
    (hfile : fs'.content path = fs.content path) :
    DiskInv J ops path fs₀ (Function.update q i q') (tr ++ [m]) fs' := by
  have hflight : ∀ j, (Function.update q i q' j).inFlight = true →
      Function.update q i q' j = q j := by
    intro j hj
    by_cases hji : j = i
    · rw [hji, Function.update_self, hq'] at hj
      cases hj
    · exact Function.update_of_ne hji _ _
  constructor
  case alone =>
    intro j j' hj hj'
    refine h.alone j j' ?_ ?_
    · rwa [hflight j hj] at hj
    · rwa [hflight j' hj'] at hj'
  case passed =>
    intro j doc hj
    by_cases hji : j = i
    · rw [hji, Function.update_self] at hj
      exact hdoc doc hj
    · rw [Function.update_of_ne hji] at hj
      exact (h.passed j doc hj).concat
  case opened =>
    intro j doc file hj
    rw [hinode, htmp]
    exact h.opened j doc file ((hflight j (by rw [hj]; rfl)).symm.trans hj)
  case written =>
    intro j doc file hj
    rw [htmp]
    exact h.written j doc file ((hflight j (by rw [hj]; rfl)).symm.trans hj)
  case whole => exact h.whole.concat hfile

/-- A step of the only call that may be in flight. -/
theorem DiskInv.sole (h : DiskInv J ops path fs₀ q tr fs) {q' : Stage}
    (hothers : ∀ j, j ≠ i → (q j).inFlight = false)
    (hdoc : ∀ doc, q'.doc = some doc → (q i).doc = some doc)
    (hopened : ∀ doc file, q' = .opened doc file →
      fs'.inode (tmpPath path) = some file ∧ fs'.content (tmpPath path) = some [])
    (hwritten : ∀ doc file, q' = .written doc file →
      fs'.content (tmpPath path) = some (utf8 doc))
    (hwhole : Whole J ops path fs₀ (tr ++ [m]) fs') :
    DiskInv J ops path fs₀ (Function.update q i q') (tr ++ [m]) fs' := by
  have hsole : ∀ j, (Function.update q i q' j).inFlight = true → j = i := by
    intro j hj
    by_contra hji
    rw [Function.update_of_ne hji, hothers j hji] at hj
    cases hj
  constructor
  case alone =>
    intro j j' hj hj'
    rw [hsole j hj, hsole j' hj']
  case passed =>
    intro j doc hj
    by_cases hji : j = i
    · rw [hji, Function.update_self] at hj
      exact (h.passed i doc (hdoc doc hj)).concat
    · rw [Function.update_of_ne hji] at hj
      exact (h.passed j doc hj).concat
  case opened =>
    intro j doc file hj
    obtain rfl := hsole j (by rw [hj]; rfl)
    rw [Function.update_self] at hj
    exact hopened doc file hj
  case written =>
    intro j doc file hj
    obtain rfl := hsole j (by rw [hj]; rfl)
    rw [Function.update_self] at hj
    exact hwritten doc file hj
  case whole => exact hwhole

/-- Writing to the temporary file leaves the file alone. -/
theorem content_write_tmp {file : Nat} (hinode : fs.inode (tmpPath path) = some file)
    (bytes : List UInt8) : (fs.write file bytes).content path = fs.content path := by
  refine FileSystem.content_write_other (fun hpath => ?_) bytes
  exact tmpPath_ne path (fs.inode_inj hinode hpath)

/-- A call in flight is the only one. -/
theorem DiskInv.others (h : DiskInv J ops path fs₀ q tr fs) (hi : (q i).inFlight = true) :
    ∀ j, j ≠ i → (q j).inFlight = false := by
  intro j hji
  by_contra hj
  exact hji (h.alone j i (by simpa using hj) hi)

/-- The temporary file is created, and no other call is in flight. -/
theorem DiskInv.create (h : DiskInv J ops path fs₀ q tr fs) {text : String} {file : Nat}
    (hqi : q i = .calling text)
    (hstep : Disk.step fs ⟨.create (tmpPath path), .ok file⟩ fs')
    (hothers : ∀ j, j ≠ i → (q j).inFlight = false) :
    DiskInv J ops path fs₀ (Function.update q i (.opened text file)) (tr ++ [m]) fs' := by
  rcases hstep with ⟨hfile, rfl⟩ | ⟨⟨e, he⟩, -⟩
  · obtain rfl := Except.ok.inj hfile
    refine h.sole hothers (fun doc hdoc => by rw [hqi]; exact hdoc) ?_ ?_ ?_
    · intro doc file hopened
      obtain ⟨rfl, rfl⟩ := Stage.opened.inj hopened
      refine ⟨FileSystem.inode_create_self, ?_⟩
      rw [FileSystem.content_eq_some_of_inode FileSystem.inode_create_self,
        FileSystem.data_create]
    · intro doc file hwritten
      cases hwritten
    · exact h.whole.concat (FileSystem.content_create_other (tmpPath_ne _).symm)
  · cases he

/-- The whole document is written to the opened temporary file. -/
theorem DiskInv.write (h : DiskInv J ops path fs₀ q tr fs) {text : String} {file : Nat}
    (hqi : q i = .opened text file)
    (hstep : Disk.step fs ⟨.writeAll file (utf8 text), .ok ()⟩ fs') :
    DiskInv J ops path fs₀ (Function.update q i (.written text file)) (tr ++ [m]) fs' := by
  obtain ⟨hinode, hempty⟩ := h.opened i text file hqi
  rw [FileSystem.content_eq_some_of_inode hinode] at hempty
  rcases hstep with ⟨-, rfl⟩ | ⟨⟨e, he⟩, -⟩
  · refine h.sole (h.others (by rw [hqi]; rfl)) (fun doc hdoc => by rw [hqi]; exact hdoc)
      ?_ ?_ ?_
    · intro doc file hopened
      cases hopened
    · intro doc file hwritten
      obtain ⟨rfl, rfl⟩ := Stage.written.inj hwritten
      rw [FileSystem.content_write hinode, Option.some.inj hempty, List.drop_nil,
        List.append_nil]
    · exact h.whole.concat (content_write_tmp hinode _)
  · cases he

/-- The write fails, and part of the document is in the temporary file. -/
theorem DiskInv.writeFailed (h : DiskInv J ops path fs₀ q tr fs) {text : String} {file : Nat}
    {e : IoError} (hqi : q i = .opened text file)
    (hstep : Disk.step fs ⟨.writeAll file (utf8 text), .error e⟩ fs') :
    DiskInv J ops path fs₀ (Function.update q i .done) (tr ++ [m]) fs' := by
  obtain ⟨hinode, -⟩ := h.opened i text file hqi
  rcases hstep with ⟨hok, -⟩ | ⟨-, k, rfl⟩
  · cases hok
  · refine h.sole (h.others (by rw [hqi]; rfl)) (fun doc hdoc => by cases hdoc) ?_ ?_ ?_
    · intro doc file hopened
      cases hopened
    · intro doc file hwritten
      cases hwritten
    · exact h.whole.concat (content_write_tmp hinode _)

/-- The written temporary file is synced, or the call gives up. -/
theorem DiskInv.sync (h : DiskInv J ops path fs₀ q tr fs) {text : String} {file : Nat}
    {q' : Stage} (hqi : q i = .written text file) (hq' : q' = .written text file ∨ q' = .done) :
    DiskInv J ops path fs₀ (Function.update q i q') (tr ++ [m]) fs := by
  refine h.sole (h.others (by rw [hqi]; rfl)) (fun doc hdoc => ?_) ?_ ?_ (h.whole.concat rfl)
  · rw [hqi]
    rcases hq' with rfl | rfl
    · exact hdoc
    · cases hdoc
  · intro doc file hopened
    rcases hq' with rfl | rfl <;> cases hopened
  · intro doc file hwritten
    rcases hq' with rfl | rfl
    · exact h.written i doc file (hqi.trans hwritten)
    · cases hwritten

/-- The written temporary file takes the place of the file. -/
theorem DiskInv.rename (h : DiskInv J ops path fs₀ q tr fs) {text : String} {file : Nat}
    {r : Except IoError Unit} (hqi : q i = .written text file)
    (hstep : Disk.step fs ⟨.rename (tmpPath path) path, r⟩ fs') :
    DiskInv J ops path fs₀ (Function.update q i .done) (tr ++ [m]) fs' := by
  have htmp := h.written i text file hqi
  refine h.sole (h.others (by rw [hqi]; rfl)) (fun doc hdoc => by cases hdoc) ?_ ?_ ?_
  · intro doc file hopened
    cases hopened
  · intro doc file hwritten
    cases hwritten
  · rcases hstep with ⟨-, -, rfl⟩ | ⟨-, rfl⟩
    · refine Or.inr ⟨text, (h.passed i text (by rw [hqi]; rfl)).concat, ?_⟩
      rw [FileSystem.content_rename_target (by simp [htmp]), htmp]
    · exact h.whole.concat rfl

/-- Each event that a call's stage allows keeps the invariant, if the
    temporary file is created only while no other call is in flight. -/
theorem DiskInv.step (h : DiskInv J ops path fs₀ q tr fs) {e : Event FsSig} {q' : Stage}
    (hpath : (ops i).path = path) (hmove : Stage.Move J (ops i) (q i) e q')
    (hstep : Disk.step fs e fs')
    (hclear : e.op = .create (tmpPath path) → ∀ j, j ≠ i → (q j).inFlight = false)
    (hcall : ∀ doc, q' = .calling doc → Passed J ops (tr ++ [m]) doc) :
    DiskInv J ops path fs₀ (Function.update q i q') (tr ++ [m]) fs' := by
  subst hpath
  generalize hqi : q i = qi at hmove
  cases hmove with
  | read q' hq' =>
      obtain ⟨-, -, rfl⟩ := hstep
      refine h.quiet ?_ (fun doc hdoc => hcall doc (hq' doc hdoc).1) rfl rfl rfl
      cases q' with
      | opened doc file => cases (hq' doc rfl).1
      | written doc file => cases (hq' doc rfl).1
      | _ => rfl
  | look hlook =>
      obtain rfl := hlook _ _ hstep
      exact h.quiet rfl (fun doc hdoc => (h.passed i doc (by rw [hqi]; exact hdoc)).concat)
        rfl rfl rfl
  | backUp =>
      have htmp := step_write_other hstep (backupPath_ne_tmpPath (ops i).path).symm
      have hfile := step_write_other hstep (backupPath_ne (ops i).path).symm
      exact h.quiet rfl (fun doc hdoc => (h.passed i doc (by rw [hqi]; exact hdoc)).concat)
        htmp.1 htmp.2 hfile.2
  | create file => exact h.create hqi hstep (hclear rfl)
  | createFailed =>
      rcases hstep with ⟨hok, -⟩ | ⟨-, rfl⟩
      · cases hok
      · exact h.quiet rfl (fun doc hdoc => by cases hdoc) rfl rfl rfl
  | write => exact h.write hqi hstep
  | writeFailed => exact h.writeFailed hqi hstep
  | sync q' hq' =>
      obtain rfl := hstep
      exact h.sync hqi hq'
  | rename => exact h.rename hqi hstep

-- ============================================================================
-- Every run
-- ============================================================================

/-- In every run that creates the temporary file only while no other call is
    between its creation of it and its rename, the file is never seen
    half-written. -/
theorem never_half_written (hpath : ∀ i, (ops i).path = path)
    (hr : Pool.Run Disk.step (operationPool J ops fs₀) tr P)
    (hclear : Pool.Steps (ClearCreation J ops path) tr) : Whole J ops path fs₀ tr P.shared := by
  have hinit : DiskInv J ops path fs₀ (fun _ => .reading) [] fs₀ := by
    refine ⟨?_, ?_, ?_, ?_, Or.inl rfl⟩ <;> intro i
    · intro _ hi
      cases hi
    · intro doc hi
      cases hi
    · intro doc file hi
      cases hi
    · intro doc file hi
      cases hi
  obtain ⟨q, -, -, hinv⟩ :=
    hr.coupled (I := fun q tr fs => DiskInv J ops path fs₀ q tr fs)
      (fun i => follows_operation J (ops i)) hinit
      (fun q tr m q' hq h hC hprot hstep =>
        h.step (hpath m.thread) (Stage.move_of_protocol hprot) hstep
          (fun hcreate j hj => hC hcreate j hj (q j) (hq j))
          fun doc hdoc => by
            refine ⟨m.thread, tr ++ [m], [], (List.append_nil _).symm, ?_⟩
            have hphase := Pool.phase_concat hq hprot m.thread
            rw [Function.update_self, hdoc] at hphase
            exact hphase) hclear
  exact hinv.whole

/-- A document passed to `write_atomic` is what an editor gave. -/
theorem Passed.edited (h : Passed J ops tr doc) :
    ∃ i current, (ops i).edit J current = some (.ok doc) := by
  obtain ⟨i, pre, -, -, hcalling⟩ := h
  have hrun : ∀ es q, (Stage.protocol J (ops i)).run .reading es = some q →
      ∀ doc, q.doc = some doc → ∃ current, (ops i).edit J current = some (.ok doc) := by
    intro es
    induction es using List.reverseRecOn with
    | nil =>
        intro q hq doc hdoc
        obtain rfl := Option.some.inj hq
        cases hdoc
    | append_singleton es e ih =>
        intro q hq doc hdoc
        rw [Prog.Protocol.run_concat, Option.bind_eq_some_iff] at hq
        obtain ⟨q₀, hq₀, hmove⟩ := hq
        have hkept : q₀.doc = some doc → ∃ current, (ops i).edit J current = some (.ok doc) :=
          ih q₀ hq₀ doc
        cases Stage.move_of_protocol hmove with
        | read _ hread => exact (hread doc hdoc).2
        | sync _ hq =>
            rcases hq with rfl | rfl
            · exact hkept hdoc
            · cases hdoc
        | look | backUp | create | write => exact hkept hdoc
        | createFailed | writeFailed | rename => cases hdoc
  exact ⟨i, hrun _ _ hcalling doc rfl⟩

-- ============================================================================
-- Two injections
-- ============================================================================

/-- The two sessions' calls. -/
def injections : Bool → Operation := fun _ => injection

/-- The document that an injection makes of nothing is not empty. -/
theorem edit_injection_ne_empty {current : Option String}
    (h : injection.edit .compact current = some (.ok doc)) : doc ≠ "" := by
  intro hempty
  obtain ⟨root, root', htext, hinject, hdoc⟩ := injectSpecttyMcp_eq_ok.mp (Option.some.inj h)
  have hvalue := isValue_injectServer (SerdeJson.isValue_of_toValue htext) hinject
  have hread := toValue_serializePretty (J := .compact) hvalue
  rw [← hdoc, hempty] at hread
  have hnone : ConfigJson.compact.toValue "" = none := rfl
  rw [hnone] at hread
  cases hread

/-- An injection with its document, about to create the temporary file. -/
def replacing (doc : String) : Prog FsSig (Except ProvisioningError Unit) :=
  (RealConfigFile.replace injection.path doc).bind fun r => .ret (r.mapError .io)

/-- An injection into an absent file gets there, without touching a file. -/
theorem run_replacing {P₀ : Pool ι Disk FsSig (Except ProvisioningError Unit)}
    {t : ι → Prog FsSig (Except ProvisioningError Unit)}
    (hr : Pool.Run Disk.step P₀ tr ⟨fs, t⟩) (i : ι)
    (hi : t i = (injection.run .compact).implement RealConfigFile.perform)
    (habsent : fs.content injection.path = none)
    (hdoc : injection.edit .compact none = some (.ok doc)) :
    ∃ tr', Pool.Run Disk.step P₀ (tr ++ tr') ⟨fs, Function.update t i (replacing doc)⟩ ∧
      ∀ m ∈ tr', m.thread = i ∧ ∀ p, m.event.op ≠ .create p := by
  have h1 := hr.next i
    (p := (writeEdited injection.path (some (.ok doc))).implement RealConfigFile.perform)
    (by rw [hi, Operation.run_eq]; rfl) (Disk.step_absent habsent) (by rw [← hdoc]; rfl)
  have h2 := h1.next i (Function.update_self ..) Disk.step_createParentDir rfl
  have h3 := h2.next i (Function.update_self ..) Disk.step_pathExists rfl
  have h4 := h3.next i (p := replacing doc) (Function.update_self ..) (Disk.step_absent habsent) rfl
  simp only [Function.update_idem, List.append_assoc] at h4
  refine ⟨_, h4, ?_⟩
  simp

/-- A call that has created no file is not in flight. -/
theorem not_inFlight_of_quiet {es : List (Event FsSig)} {q : Stage}
    (h : (Stage.protocol J op).run .reading es = some q) (hes : ∀ e ∈ es, ∀ p, e.op ≠ .create p) :
    q.inFlight = false := by
  induction es using List.reverseRecOn generalizing q with
  | nil =>
      obtain rfl := Option.some.inj h
      rfl
  | append_singleton es e ih =>
      rw [Prog.Protocol.run_concat, Option.bind_eq_some_iff] at h
      obtain ⟨q₀, hq₀, hmove⟩ := h
      have hbefore := ih hq₀ fun e' he' => hes e' (List.mem_append_left _ he')
      cases Stage.move_of_protocol hmove with
      | create => exact absurd rfl (hes _ (List.mem_append_right _ (List.mem_singleton_self _)) _)
      | read _ hread =>
          cases q with
          | opened doc file | written doc file => cases (hread doc rfl).1
          | _ => rfl
      | write | sync => cases hbefore
      | _ => rfl

/-- A call that has renamed is not in flight. -/
theorem not_inFlight_of_rename {q : Stage} {source target : String} {r : Except IoError Unit}
    (hm : m.event = ⟨.rename source target, r⟩)
    (hq : stageOf J ops (tr ++ [m]) m.thread = some q) : q.inFlight = false := by
  rw [stageOf, Pool.phase, Pool.eventsOf_concat_self, hm, Prog.Protocol.run_concat,
    Option.bind_eq_some_iff] at hq
  obtain ⟨q₀, -, hmove⟩ := hq
  generalize hevent : (⟨.rename source target, r⟩ : Event FsSig) = e at hmove
  cases Stage.move_of_protocol hmove with
  | rename | look => rfl
  | _ => cases hevent

/-- Both injections find no file; the second one creates the temporary file once the first
    has renamed it. -/
theorem never_half_written_overlapping :
    ∃ tr P, Pool.Run Disk.step (operationPool .compact injections .empty) tr P ∧
      (∀ i, P.threads i = .ret (.ok ())) ∧ P.shared.content injection.path ≠ none ∧
      Whole .compact injections injection.path .empty tr P.shared := by
  obtain ⟨doc, hdoc⟩ := edit_injection
  obtain ⟨tr₁, hfirst, hquiet₁⟩ := run_replacing
    (.nil : Pool.Run Disk.step (operationPool .compact injections .empty) [] _) false rfl rfl hdoc
  obtain ⟨tr₂, h0, hquiet₂⟩ := run_replacing hfirst true rfl rfl hdoc
  have htmp := fun fs : Disk => fs.content_create_write (p := tmpPath injection.path) (utf8 doc)
  have h1 := h0.next false rfl Disk.step_create rfl
  have h2 := h1.next false (Function.update_self ..) Disk.step_writeAll rfl
  have h3 := h2.next false (Function.update_self ..) Disk.step_syncAll rfl
  have h4 := h3.next false (Function.update_self ..) (Disk.step_rename (by simp [htmp])) rfl
  have h5 := h4.next true rfl Disk.step_create rfl
  have h6 := h5.next true (Function.update_self ..) Disk.step_writeAll rfl
  have h7 := h6.next true (Function.update_self ..) Disk.step_syncAll rfl
  have h8 := h7.next true (Function.update_self ..) (Disk.step_rename (by simp [htmp])) rfl
  refine ⟨_, _, h8, fun i => by cases i <;> rfl, ?_, never_half_written (fun _ => rfl) h8 ?_⟩
  · rw [FileSystem.content_rename_target (by simp [htmp]), htmp]
    simp
  have hquiet : ∀ m ∈ [] ++ tr₁ ++ tr₂, ∀ p, m.event.op ≠ .create p := by
    intro m hm
    rcases List.mem_append.mp hm with hm | hm
    · exact (hquiet₁ m (by simpa using hm)).2
    · exact (hquiet₂ m hm).2
  simp only [Pool.steps_concat]
  refine ⟨⟨⟨⟨⟨⟨⟨⟨?start, ?first⟩, ?_⟩, ?_⟩, ?_⟩, ?second⟩, ?_⟩, ?_⟩, ?_⟩
  case start =>
    intro pre m post hsplit hcreate
    exact absurd hcreate (hquiet m (by rw [hsplit]; simp) _)
  case first =>
    intro _ j _ q hq
    refine not_inFlight_of_quiet hq fun e he => ?_
    obtain ⟨m, hm, rfl⟩ := List.mem_map.mp he
    exact hquiet m (List.mem_of_mem_filter hm)
  case second =>
    intro _ j hj q hq
    obtain rfl : j = false := by simpa using hj
    exact not_inFlight_of_rename rfl hq
  all_goals
    intro hcreate
    cases hcreate

/-- The second injection truncates the temporary file before the first renames
    it: the file is empty. -/
theorem half_written :
    ∃ tr P, Pool.Run Disk.step (operationPool .compact injections .empty) tr P ∧
      ¬ Whole .compact injections injection.path .empty tr P.shared := by
  obtain ⟨doc, hdoc⟩ := edit_injection
  obtain ⟨tr₁, h0, -⟩ := run_replacing
    (.nil : Pool.Run Disk.step (operationPool .compact injections .empty) [] _) false rfl rfl hdoc
  have h1 := h0.next false (Function.update_self ..) Disk.step_create rfl
  have h2 := h1.next false (Function.update_self ..) Disk.step_writeAll rfl
  have h3 := h2.next false (Function.update_self ..) Disk.step_syncAll rfl
  obtain ⟨tr₂, h4, -⟩ := run_replacing h3 true rfl
    (FileSystem.content_create_write_other (tmpPath_ne _).symm _) hdoc
  have h5 := h4.next true (Function.update_self ..) Disk.step_create rfl
  have htmp : ∀ fs : Disk, (fs.create (tmpPath injection.path)).content (tmpPath injection.path) =
      some [] := fun _ => FileSystem.content_create_self
  have h6 := h5.next false rfl (Disk.step_rename (by simp [htmp])) rfl
  refine ⟨_, _, h6, ?_⟩
  rintro (hsame | ⟨doc', hpassed, hdoc'⟩)
  · rw [FileSystem.content_rename_target (by simp [htmp]), htmp] at hsame
    cases hsame
  · rw [FileSystem.content_rename_target (by simp [htmp]), htmp] at hdoc'
    obtain ⟨i, current, hedit⟩ := hpassed.edited
    exact edit_injection_ne_empty hedit (utf8_inj (Option.some.inj hdoc').symm)

end Spectty.Provision
