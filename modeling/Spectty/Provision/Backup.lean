/-
  Spectty.Provision.Backup

  The one-time copy of a configuration file, over the calls of the provisioners
  one after another.

  The copy is made at the first write that finds a file and no copy, so where
  the file was absent at first it is a copy of Spectty's own document
  (`backs_up_itself`).  `backup_is_original` says on which runs the copy is what
  the file held at first.
-/

import Spectty.Provision.AtomicWrite

namespace Spectty.Provision

open Spectty.Core
open Spectty.Lib

-- ============================================================================
-- The steps
-- ============================================================================

section

variable (path : String) (fs₀ : Disk)

/-- Calls one after another, whatever each of them answers. -/
def runAll (J : ConfigJson) : List Operation → Prog FsSig Unit
  | [] => .ret ()
  | op :: ops => ((op.run J).implement RealConfigFile.perform).bind fun _ => runAll J ops

/-- What is asked of a step: a write begins on an absent file if the file was
    absent at first, a copy that is there is found, and one that fails leaves no
    part of itself. -/
structure Sound (fs : Disk) (e : Event FsSig) (fs' : Disk) : Prop where
  begins : e.op = .createParentDir path → fs₀.content path = none → fs.content path = none
  found : e = ⟨.pathExists (backupPath path), false⟩ → fs.content (backupPath path) = none
  whole : ∀ contents err, e = ⟨.write (backupPath path) contents, .error err⟩ →
    fs'.content (backupPath path) = fs.content (backupPath path) ∨
      fs'.content (backupPath path) = some (utf8 contents)

/-- The steps that are sound. -/
def soundStep : Prog.Semantics FsSig Disk := fun fs e fs' =>
  Disk.step fs e fs' ∧ Sound path fs₀ fs e fs'

/-- A copy is what the file held at first. -/
def Original (fs : Disk) : Prop :=
  fs.content (backupPath path) ≠ none → fs.content (backupPath path) = fs₀.content path

/-- Between two calls: the copy is made, or there is none and the file is as it
    was, or was absent at first. -/
def Settled (fs : Disk) : Prop :=
  fs.content (backupPath path) = fs₀.content path ∧ fs₀.content path ≠ none ∨
    fs.content (backupPath path) = none ∧
      (fs.content path = fs₀.content path ∨ fs₀.content path = none)

/-- What was to be kept is kept. -/
def BackedUp (fs : Disk) : Prop := fs.content (backupPath path) = fs₀.content path

end

variable {J : ConfigJson} {path contents : String} {fs₀ fs fs' : Disk}

theorem Settled.original (h : Settled path fs₀ fs) : Original path fs₀ fs := by
  intro hcopy
  rcases h with ⟨hsame, -⟩ | ⟨hnone, -⟩
  · exact hsame
  · exact absurd hnone hcopy

theorem BackedUp.original (h : BackedUp path fs₀ fs) : Original path fs₀ fs := fun _ => h

theorem BackedUp.settled (h : BackedUp path fs₀ fs) : Settled path fs₀ fs := by
  by_cases habsent : fs₀.content path = none
  · exact .inr ⟨h.trans habsent, .inr habsent⟩
  · exact .inl ⟨h, habsent⟩

/-- What a write finds: the copy is made, or there is none and the file is as it
    was. -/
def Begun (path : String) (fs₀ fs : Disk) : Prop :=
  BackedUp path fs₀ fs ∧ fs₀.content path ≠ none ∨
    fs.content (backupPath path) = none ∧ fs.content path = fs₀.content path

theorem Begun.settled (h : Begun path fs₀ fs) : Settled path fs₀ fs :=
  h.imp_right fun ⟨hnone, hfile⟩ => ⟨hnone, .inl hfile⟩

/-- Where the file was absent at first and is absent still, it is as it was. -/
theorem Settled.begun (h : Settled path fs₀ fs)
    (hbegins : fs₀.content path = none → fs.content path = none) : Begun path fs₀ fs := by
  rcases h with hcopied | ⟨hnone, hfile | habsent⟩
  · exact .inl hcopied
  · exact .inr ⟨hnone, hfile⟩
  · exact .inr ⟨hnone, (hbegins habsent).trans habsent.symm⟩

-- ============================================================================
-- What a call keeps
-- ============================================================================

/-- A copy of the file as it was: if it fails, there still is none or it is whole. -/
theorem settled_copy {original : String} {r : Except IoError Unit}
    (hnone : fs.content (backupPath path) = none) (hfile : fs.content path = fs₀.content path)
    (hread : fs.content path = some (utf8 original))
    (h : soundStep path fs₀ fs ⟨.write (backupPath path) original, r⟩ fs') :
    Settled path fs₀ fs' ∧ ((∃ u, r = .ok u) → BackedUp path fs₀ fs') := by
  obtain ⟨hstep, hsound⟩ := h
  have hkept : fs'.content path = fs₀.content path :=
    (step_write_other hstep (backupPath_ne path).symm).2.trans hfile
  have hcopied : fs'.content (backupPath path) = some (utf8 original) → BackedUp path fs₀ fs' :=
    fun hcopy => hcopy.trans (hread.symm.trans hfile)
  cases r with
  | error err =>
      refine ⟨?_, fun ⟨_, hok⟩ => nomatch hok⟩
      rcases hsound.whole original err rfl with hsame | hwhole
      · exact .inr ⟨hsame.trans hnone, .inl hkept⟩
      · exact (hcopied hwhole).settled
  | ok u =>
      have hback : BackedUp path fs₀ fs' := by
        rcases hstep with ⟨-, rfl⟩ | ⟨⟨err, herr⟩, -⟩
        · exact hcopied (FileSystem.content_create_write _)
        · cases herr
      exact ⟨hback.settled, fun _ => hback⟩

/-- The copy is made, unless it is there or there is nothing to copy. -/
theorem keeps_backUp (h : Begun path fs₀ fs) :
    Prog.Keeps (soundStep path fs₀) (Original path fs₀)
      (fun r fs => Settled path fs₀ fs ∧ (r = .ok () → BackedUp path fs₀ fs))
      (RealConfigFile.backUp path) fs := by
  refine ⟨h.settled.original, ?_⟩
  rintro (_ | _) fs ⟨⟨htrue, rfl⟩, hsound⟩
  · -- no copy is found: there is none, and the file is as it was
    have hnone := hsound.found rfl
    have hfile : fs.content path = fs₀.content path := by
      rcases h with ⟨hcopied, hpresent⟩ | ⟨-, hfile⟩
      · exact absurd (hcopied.symm.trans hnone) hpresent
      · exact hfile
    refine ⟨h.settled.original, ?_⟩
    rintro (e | original) fs ⟨⟨hread, hmissing, rfl⟩, -⟩
    · cases hfound : e.notFound with
      | true =>
          simp only [hfound]
          have habsent := hmissing e rfl hfound
          refine ⟨h.settled.original, h.settled, fun _ => ?_⟩
          exact hnone.trans (habsent.symm.trans hfile)
      | false =>
          simp only [hfound]
          refine ⟨h.settled.original, h.settled, fun hok => ?_⟩
          cases hok
    · have hcontent := hread original rfl
      refine ⟨h.settled.original, ?_⟩
      rintro r fs' hstep
      obtain ⟨hsettled, hback⟩ := settled_copy hnone hfile hcontent hstep
      refine ⟨hsettled.original, hsettled, fun hok => hback ?_⟩
      cases r with
      | error err => cases hok
      | ok u => exact ⟨u, rfl⟩
  · -- a copy is there
    have hback : BackedUp path fs₀ fs := by
      rcases h with ⟨hcopied, -⟩ | ⟨hnone, -⟩
      · exact hcopied
      · exact absurd hnone (htrue rfl)
    exact ⟨hback.original, hback.settled, fun _ => hback⟩

/-- A replacement leaves the copy alone. -/
theorem keeps_replace (h : BackedUp path fs₀ fs) :
    Prog.Keeps (soundStep path fs₀) (Original path fs₀) (fun _ fs => BackedUp path fs₀ fs)
      (RealConfigFile.replace path contents) fs := by
  have htmp := backupPath_ne_tmpPath path
  have hdone : ∀ {fs' : Disk} {a : Except String Unit},
      fs'.content (backupPath path) = fs.content (backupPath path) →
      Prog.Keeps (soundStep path fs₀) (Original path fs₀) (fun _ fs => BackedUp path fs₀ fs)
        (.ret a) fs' := fun hsame =>
    have hback : BackedUp path fs₀ _ := hsame.trans h
    ⟨hback.original, hback⟩
  refine ⟨h.original, ?_⟩
  rintro r fs₁ ⟨⟨rfl, rfl⟩ | ⟨⟨e, rfl⟩, rfl⟩, -⟩
  case inr => exact hdone rfl
  have hcreated : BackedUp path fs₀ (fs.create (tmpPath path)) :=
    (FileSystem.content_create_other htmp).trans h
  refine ⟨hcreated.original, ?_⟩
  rintro r fs₂ ⟨⟨rfl, rfl⟩ | ⟨⟨e, rfl⟩, k, rfl⟩, -⟩
  case inr => exact hdone (FileSystem.content_create_write_other htmp _)
  have hwritten : ((fs.create (tmpPath path)).write (fs.opened (tmpPath path))
      (utf8 contents)).content (backupPath path) = fs.content (backupPath path) :=
    FileSystem.content_create_write_other htmp _
  have hback : BackedUp path fs₀ _ := hwritten.trans h
  refine ⟨hback.original, ?_⟩
  rintro (e | _) fs ⟨rfl, -⟩
  · exact hdone hwritten
  refine ⟨hback.original, ?_⟩
  rintro r fs₃ ⟨⟨rfl, -, rfl⟩ | ⟨⟨e, rfl⟩, rfl⟩, -⟩
  · exact hdone ((FileSystem.content_rename_other htmp (backupPath_ne path)).trans hwritten)
  · exact hdone hwritten

theorem keeps_writeAtomic (h : Settled path fs₀ fs) :
    Prog.Keeps (soundStep path fs₀) (Original path fs₀) (fun _ fs => Settled path fs₀ fs)
      (RealConfigFile.writeAtomic path contents) fs := by
  refine ⟨h.original, ?_⟩
  rintro (e | _) fs ⟨rfl, hsound⟩
  · exact ⟨h.original, h⟩
  refine (keeps_backUp (h.begun (hsound.begins rfl))).bind fun r fs hkept => ?_
  cases r with
  | error e => exact ⟨hkept.1.original, hkept.1⟩
  | ok _ => exact (keeps_replace (hkept.2 rfl)).mono fun _ _ hback => hback.settled

theorem keeps_operation {op : Operation} (hop : op.path = path) (h : Settled path fs₀ fs) :
    Prog.Keeps (soundStep path fs₀) (Original path fs₀) (fun _ fs => Settled path fs₀ fs)
      ((op.run J).implement RealConfigFile.perform) fs := by
  have hedit : ∀ current, Prog.Keeps (soundStep path fs₀) (Original path fs₀)
      (fun _ fs => Settled path fs₀ fs)
      ((writeEdited path (op.edit J current)).implement RealConfigFile.perform) fs := by
    intro current
    rcases op.edit J current with _ | (e | next)
    · exact ⟨h.original, h⟩
    · exact ⟨h.original, h⟩
    · exact keeps_writeAtomic h |>.bind fun _ _ h => ⟨h.original, h⟩
  rw [op.run_eq, hop]
  refine ⟨h.original, ?_⟩
  rintro (e | current) fs ⟨⟨-, -, rfl⟩, -⟩
  · cases hfound : e.notFound with
    | true =>
        simp only [hfound]
        exact hedit none
    | false =>
        simp only [hfound]
        exact ⟨h.original, h⟩
  · exact hedit (some current)

theorem keeps_runAll {ops : List Operation} (hops : ∀ op ∈ ops, op.path = path)
    (h : Settled path fs₀ fs) :
    Prog.Keeps (soundStep path fs₀) (Original path fs₀) (fun _ fs => Settled path fs₀ fs)
      (runAll J ops) fs := by
  induction ops generalizing fs with
  | nil => exact ⟨h.original, h⟩
  | cons op ops ih =>
      exact (keeps_operation (hops op (by simp)) h).bind fun _ _ h =>
        ih (fun op' hop' => hops op' (by simp [hop'])) h

/-- Over runs whose steps are sound, the copy is what the file held before the
    first of the calls. -/
theorem backup_is_original {ops : List Operation} {p : Prog FsSig Unit}
    (hops : ∀ op ∈ ops, op.path = path) (hstart : fs₀.content (backupPath path) = none)
    (hr : Prog.Reaches (soundStep path fs₀) fs₀ (runAll J ops) fs p) : Original path fs₀ fs :=
  (keeps_runAll hops (.inr ⟨hstart, .inl rfl⟩)).reaches hr

-- ============================================================================
-- Injections
-- ============================================================================

variable {text next : String}

theorem step_readToString (h : fs.content path = some (utf8 text)) :
    Disk.step fs ⟨.readToString path, .ok text⟩ fs := by
  refine ⟨fun s hs => ?_, fun e he => ?_, rfl⟩
  · rw [← Except.ok.inj hs]
    exact h
  · cases he

theorem step_write :
    Disk.step fs ⟨.write path contents, .ok ()⟩
      ((fs.create path).write (fs.opened path) (utf8 contents)) :=
  .inl ⟨rfl, rfl⟩

/-- An injection into a file that was not copied yet copies it. -/
theorem reaches_copy (hfile : fs.content injection.path = some (utf8 text))
    (hcopy : fs.content (backupPath injection.path) = none)
    (hedit : injection.edit .compact (some text) = some (.ok next)) :
    Prog.Reaches (soundStep injection.path fs) fs
      ((injection.run .compact).implement RealConfigFile.perform)
      ((fs.create (backupPath injection.path)).write (fs.opened (backupPath injection.path))
        (utf8 text)) (replacing next) := by
  have hpresent : fs.content injection.path ≠ none := by simp [hfile]
  have hsound : ∀ {e : Event FsSig} {fs' : Disk}, Disk.step fs e fs' →
      (∀ contents err, e ≠ ⟨.write (backupPath injection.path) contents, .error err⟩) →
      soundStep injection.path fs fs e fs' := fun hstep hwhole =>
    ⟨hstep, fun _ h => absurd h hpresent, fun _ => hcopy, fun _ _ h => absurd h (hwhole _ _)⟩
  rw [Operation.run_eq]
  refine .op (hsound (step_readToString hfile) (by simp)) ?_
  show Prog.Reaches _ _
    ((writeEdited injection.path (injection.edit .compact (some text))).implement
      RealConfigFile.perform) _ _
  rw [hedit]
  exact .op (hsound Disk.step_createParentDir (by simp)) <|
    .op (hsound Disk.step_pathExists (by simp)) <|
    .op (hsound (step_readToString hfile) (by simp)) <|
    .op (hsound step_write (by simp)) .refl

/-- A user's file, with an empty object in it. -/
def userConfig : Disk :=
  let fs : Disk := .empty
  (fs.create injection.path).write (fs.opened injection.path) (utf8 "\x7b\x7d")

/-- The copy is made of it. -/
theorem backup_is_original_user :
    ∃ fs p, Prog.Reaches (soundStep injection.path userConfig) userConfig
        (runAll .compact [injection]) fs p ∧
      fs.content (backupPath injection.path) ≠ none ∧ Original injection.path userConfig fs := by
  obtain ⟨doc, hdoc⟩ := edit_injection
  have hfile : userConfig.content injection.path = some (utf8 "\x7b\x7d") :=
    FileSystem.content_create_write _
  have hcopy : userConfig.content (backupPath injection.path) = none :=
    (FileSystem.content_create_write_other (backupPath_ne _) _).trans rfl
  have hrun : Prog.Reaches _ _ (runAll .compact [injection]) _ _ :=
    (reaches_copy hfile hcopy hdoc).bind fun _ => runAll .compact []
  have hops : ∀ op ∈ [injection], op.path = injection.path := by simp
  refine ⟨_, _, hrun, ?_, backup_is_original hops hcopy hrun⟩
  rw [FileSystem.content_create_write]
  simp

/-- The disk after an injection into an absent file. -/
def injected (doc : String) (fs : Disk) : Disk :=
  ((fs.create (tmpPath injection.path)).write (fs.opened (tmpPath injection.path))
    (utf8 doc)).rename (tmpPath injection.path) injection.path

/-- It writes its document, and copies nothing. -/
theorem reaches_injected (hfile : fs.content injection.path = none)
    (hedit : injection.edit .compact none = some (.ok next)) :
    Prog.Reaches Disk.step fs ((injection.run .compact).implement RealConfigFile.perform)
      (injected next fs) (.ret (.ok ())) := by
  have htmp := fs.content_create_write (p := tmpPath injection.path) (utf8 next)
  rw [Operation.run_eq]
  refine .op (Disk.step_absent hfile) ?_
  show Prog.Reaches _ _
    ((writeEdited injection.path (injection.edit .compact none)).implement
      RealConfigFile.perform) _ _
  rw [hedit]
  exact .op Disk.step_createParentDir <| .op Disk.step_pathExists <|
    .op (Disk.step_absent hfile) <| .op Disk.step_create <| .op Disk.step_writeAll <|
    .op Disk.step_syncAll <| .op (Disk.step_rename (by simp [htmp])) .refl

theorem content_injected (doc : String) (fs : Disk) :
    (injected doc fs).content injection.path = some (utf8 doc) ∧
      (injected doc fs).content (backupPath injection.path) =
        fs.content (backupPath injection.path) := by
  have htmp := fs.content_create_write (p := tmpPath injection.path) (utf8 doc)
  constructor
  · rw [injected, FileSystem.content_rename_target (by simp [htmp]), htmp]
  · rw [injected, FileSystem.content_rename_other (backupPath_ne_tmpPath _) (backupPath_ne _),
      FileSystem.content_create_write_other (backupPath_ne_tmpPath _)]

/-- Two injections into an absent file: the copy is the first one's document. -/
theorem backs_up_itself :
    ∃ fs p, Prog.Reaches Disk.step .empty (runAll .compact [injection, injection]) fs p ∧
      ¬ Original injection.path .empty fs := by
  obtain ⟨doc, hdoc⟩ := edit_injection
  have habsent : FileSystem.content (.empty : Disk) injection.path = none := rfl
  have hfirst := reaches_injected habsent hdoc
  obtain ⟨hfile, hcopy⟩ := content_injected doc .empty
  have hagain : injection.edit .compact (some doc) = some (.ok doc) := by
    obtain ⟨root, root', htext, hinject, -⟩ := injectSpecttyMcp_eq_ok.mp (Option.some.inj hdoc)
    exact congrArg some (injectSpecttyMcp_spec htext (Option.some.inj hdoc)).again
  have hsecond := (reaches_copy hfile hcopy hagain).mono fun _ _ _ h => h.1
  refine ⟨_, _, (hfirst.bind _).trans (hsecond.bind fun _ => runAll .compact []), fun h => ?_⟩
  have hsame := h (by rw [FileSystem.content_create_write]; simp)
  rw [FileSystem.content_create_write] at hsame
  cases hsame

end Spectty.Provision
