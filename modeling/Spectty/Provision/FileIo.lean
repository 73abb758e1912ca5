/-
  Spectty.Provision.FileIo

  The file seam over file operations: a read of the whole file, and the
  replacement of a file by writing a temporary one and renaming it.

  Run alone, the two refine the seam's semantics (`refines_seam`).  Their
  steps between those of other writers are the subject of
  `Spectty.Provision.AtomicWrite`.
-/

import Spectty.Provision.Operation
import Spectty.Lib.FileSystem

namespace Spectty.Provision

open Spectty.Lib

-- ============================================================================
-- File operations
-- ============================================================================

/-- An error of a file operation. -/
structure IoError where
  notFound : Bool
  message : String
deriving DecidableEq

/-- The bytes of a text. -/
def utf8 (s : String) : List UInt8 := s.toByteArray.data.toList

theorem utf8_inj {s t : String} (h : utf8 s = utf8 t) : s = t :=
  String.toByteArray_inj.mp (ByteArray.ext (Array.toList_inj.mp h))

/-- The operations on files.  `createParentDir` creates the directories above
    a path, where it has any. -/
inductive FsOp where
  | createParentDir (path : String)
  | pathExists (path : String)
  | readToString (path : String)
  | write (path contents : String)
  | create (path : String)
  | writeAll (file : Nat) (bytes : List UInt8)
  | syncAll (file : Nat)
  | rename (source target : String)
deriving DecidableEq

abbrev FsOp.Reply : FsOp → Type
  | .createParentDir _ => Except IoError Unit
  | .pathExists _ => Bool
  | .readToString _ => Except IoError String
  | .write _ _ => Except IoError Unit
  | .create _ => Except IoError Nat
  | .writeAll _ _ => Except IoError Unit
  | .syncAll _ => Except IoError Unit
  | .rename _ _ => Except IoError Unit

/-- The signature of the file operations. -/
abbrev FsSig : Sig where
  Op := FsOp
  Reply := FsOp.Reply

/-- The files on disk. -/
abbrev Disk := FileSystem String UInt8

/-- What a file operation may do.  One that fails on the way may have
    written a part of its bytes; an unreadable file can look absent. -/
def Disk.step : Prog.Semantics FsSig Disk := fun fs e fs' =>
  match e with
  | ⟨.createParentDir _, _⟩ => fs' = fs
  | ⟨.pathExists path, r⟩ => (r = true → fs.content path ≠ none) ∧ fs' = fs
  | ⟨.readToString path, r⟩ =>
      (∀ s, r = .ok s → fs.content path = some (utf8 s)) ∧
        (∀ e, r = .error e → e.notFound = true → fs.content path = none) ∧ fs' = fs
  | ⟨.write path contents, r⟩ =>
      r = .ok () ∧ fs' = (fs.create path).write (fs.opened path) (utf8 contents) ∨
        (∃ e, r = .error e) ∧ (fs' = fs ∨
          ∃ k, fs' = (fs.create path).write (fs.opened path) ((utf8 contents).take k))
  | ⟨.create path, r⟩ =>
      r = .ok (fs.opened path) ∧ fs' = fs.create path ∨ (∃ e, r = .error e) ∧ fs' = fs
  | ⟨.writeAll file bytes, r⟩ =>
      r = .ok () ∧ fs' = fs.write file bytes ∨
        (∃ e, r = .error e) ∧ ∃ k, fs' = fs.write file (bytes.take k)
  | ⟨.syncAll _, _⟩ => fs' = fs
  | ⟨.rename source target, r⟩ =>
      r = .ok () ∧ fs.content source ≠ none ∧ fs' = fs.rename source target ∨
        (∃ e, r = .error e) ∧ fs' = fs

namespace Disk

variable {fs : Disk} {path source target : String}

/-- A read of an absent file finds it absent. -/
theorem step_absent (h : fs.content path = none) :
    step fs ⟨.readToString path, .error ⟨true, ""⟩⟩ fs := by
  refine ⟨fun s hs => ?_, fun _ _ _ => h, rfl⟩
  cases hs

theorem step_createParentDir : step fs ⟨.createParentDir path, .ok ()⟩ fs := rfl

theorem step_pathExists : step fs ⟨.pathExists path, false⟩ fs := by
  refine ⟨fun h => ?_, rfl⟩
  cases h

theorem step_create : step fs ⟨.create path, .ok (fs.opened path)⟩ (fs.create path) :=
  Or.inl ⟨rfl, rfl⟩

theorem step_writeAll {file : Nat} {bytes : List UInt8} :
    step fs ⟨.writeAll file bytes, .ok ()⟩ (fs.write file bytes) :=
  Or.inl ⟨rfl, rfl⟩

theorem step_syncAll {file : Nat} : step fs ⟨.syncAll file, .ok ()⟩ fs := rfl

theorem step_rename (h : fs.content source ≠ none) :
    step fs ⟨.rename source target, .ok ()⟩ (fs.rename source target) :=
  Or.inl ⟨rfl, h, rfl⟩

end Disk

-- ============================================================================
-- The seam's implementation
-- ============================================================================

/-- The one-time copy of a file's first content. -/
def backupPath (path : String) : String := path ++ ".spectty.bak"

/-- The file that is written before it is renamed. -/
def tmpPath (path : String) : String := path ++ ".tmp"

namespace RealConfigFile

/-- The content of a file, if it is there. -/
def read (path : String) : Prog FsSig (Except String (Option String)) :=
  .op (.readToString path) fun r => .ret <|
    match r with
    | .ok contents => .ok (some contents)
    | .error e => if e.notFound then .ok none else .error e.message

/-- Keep the content a file had before its first replacement. -/
def backUp (path : String) : Prog FsSig (Except String Unit) :=
  .op (.pathExists (backupPath path)) fun present =>
    if present then .ret (.ok ())
    else (read path).bind fun r =>
      match r with
      | .error e => .ret (.error e)
      | .ok none => .ret (.ok ())
      | .ok (some original) =>
          .op (.write (backupPath path) original) fun r => .ret (r.mapError (·.message))

/-- Write the temporary file and rename it. -/
def replace (path contents : String) : Prog FsSig (Except String Unit) :=
  .op (.create (tmpPath path)) fun r =>
    match r with
    | .error e => .ret (.error e.message)
    | .ok file => .op (.writeAll file (utf8 contents)) fun r =>
        match r with
        | .error e => .ret (.error e.message)
        | .ok () => .op (.syncAll file) fun r =>
            match r with
            | .error e => .ret (.error e.message)
            | .ok () => .op (.rename (tmpPath path) path) fun r =>
                .ret (r.mapError (·.message))

/-- Replace the content of a file. -/
def writeAtomic (path contents : String) : Prog FsSig (Except String Unit) :=
  .op (.createParentDir path) fun r =>
    match r with
    | .error e => .ret (.error e.message)
    | .ok () => (backUp path).bind fun r =>
        match r with
        | .error e => .ret (.error e)
        | .ok () => replace path contents

/-- The implementation of each operation of the seam. -/
def perform : (o : ConfigOp) → Prog FsSig (ConfigSig.Reply o)
  | .read path => read path
  | .writeAtomic path contents => writeAtomic path contents

end RealConfigFile

-- ============================================================================
-- What the implementation does, run alone
-- ============================================================================

variable {path contents : String} {fs fs' : Disk} {es : List (Event FsSig)}

theorem ne_append {s suffix : String} (h : suffix ≠ "") : s ++ suffix ≠ s := by
  intro heq
  have hlen : s.length + suffix.length = s.length := by rw [← String.length_append, heq]
  exact h (String.length_eq_zero_iff.mp (by omega))

theorem tmpPath_ne (path : String) : tmpPath path ≠ path := ne_append (by decide)

theorem backupPath_ne (path : String) : backupPath path ≠ path := ne_append (by decide)

theorem backupPath_ne_tmpPath (path : String) : backupPath path ≠ tmpPath path := by
  intro heq
  have hlen : (backupPath path).length = (tmpPath path).length := by rw [heq]
  rw [backupPath, tmpPath, String.length_append, String.length_append] at hlen
  have hsuffix : ".spectty.bak".length = ".tmp".length := by omega
  exact absurd hsuffix (by decide)

/-- A read leaves the files as they are and answers the content. -/
theorem exec_read {r : Except String (Option String)}
    (hx : Prog.Exec Disk.step fs (RealConfigFile.read path) es fs' r) :
    fs' = fs ∧ ∀ c, r = .ok c → fs.content path = c.map utf8 := by
  cases hx with
  | @op _ _ _ _ _ reply _ _ hstep hret =>
      obtain ⟨hok, hmissing, rfl⟩ := hstep
      cases hret
      refine ⟨rfl, fun c hc => ?_⟩
      cases reply with
      | ok s =>
          obtain rfl := Except.ok.inj hc
          exact hok s rfl
      | error e =>
          cases hfound : e.notFound with
          | true =>
              simp only [hfound, if_true] at hc
              obtain rfl := Except.ok.inj hc
              exact hmissing e rfl hfound
          | false =>
              simp only [hfound, Bool.false_eq_true, if_false] at hc
              cases hc

/-- A write to one path leaves the others alone. -/
theorem step_write_other {p x contents : String} {r : Except IoError Unit}
    (hstep : Disk.step fs ⟨.write p contents, r⟩ fs') (hx : x ≠ p) :
    fs'.inode x = fs.inode x ∧ fs'.content x = fs.content x := by
  rcases hstep with ⟨-, rfl⟩ | ⟨-, rfl | ⟨k, rfl⟩⟩
  · exact ⟨FileSystem.inode_create_other hx, FileSystem.content_create_write_other hx _⟩
  · exact ⟨rfl, rfl⟩
  · exact ⟨FileSystem.inode_create_other hx, FileSystem.content_create_write_other hx _⟩

/-- Keeping the first content touches only the copy. -/
theorem exec_backUp {r : Except String Unit}
    (hx : Prog.Exec Disk.step fs (RealConfigFile.backUp path) es fs' r) {q : String}
    (hq : q ≠ backupPath path) : fs'.content q = fs.content q := by
  cases hx with
  | @op _ _ _ _ _ present _ _ hstep hrest =>
      obtain ⟨-, rfl⟩ := hstep
      cases present with
      | true =>
          cases hrest
          rfl
      | false =>
          obtain ⟨es₁, es₂, fs₁, c, -, hread, hwrite⟩ := Prog.exec_bind hrest
          obtain ⟨rfl, -⟩ := exec_read hread
          rcases c with msg | (_ | original)
          · cases hwrite
            rfl
          · cases hwrite
            rfl
          · cases hwrite with
            | op hstep hret =>
                cases hret
                exact (step_write_other hstep hq).2

/-- A replacement happens or fails, and touches only the file and its
    temporary one. -/
theorem exec_replace {r : Except String Unit}
    (hx : Prog.Exec Disk.step fs (RealConfigFile.replace path contents) es fs' r) :
    (r = .ok () ∧ fs'.content path = some (utf8 contents) ∨
        (∃ msg, r = .error msg) ∧ fs'.content path = fs.content path) ∧
      ∀ q, q ≠ path → q ≠ tmpPath path → fs'.content q = fs.content q := by
  have hpath : path ≠ tmpPath path := (tmpPath_ne path).symm
  cases hx with
  | op hcreate hrest =>
      rcases hcreate with ⟨rfl, rfl⟩ | ⟨⟨e, rfl⟩, rfl⟩
      case inr =>
        cases hrest
        exact ⟨Or.inr ⟨⟨_, rfl⟩, rfl⟩, fun _ _ _ => rfl⟩
      cases hrest with
      | op hwrite hrest =>
          rcases hwrite with ⟨rfl, rfl⟩ | ⟨⟨e, rfl⟩, k, rfl⟩
          case inr =>
            cases hrest
            exact ⟨Or.inr ⟨⟨_, rfl⟩, FileSystem.content_create_write_other hpath _⟩,
              fun q _ hq => FileSystem.content_create_write_other hq _⟩
          cases hrest with
          | @op _ _ _ _ _ reply _ _ hsync hrest =>
              obtain rfl := hsync
              cases reply with
              | error e =>
                  cases hrest
                  exact ⟨Or.inr ⟨⟨_, rfl⟩, FileSystem.content_create_write_other hpath _⟩,
                    fun q _ hq => FileSystem.content_create_write_other hq _⟩
              | ok _ =>
                  cases hrest with
                  | op hrename hret =>
                      cases hret
                      rcases hrename with ⟨rfl, -, rfl⟩ | ⟨⟨e, rfl⟩, rfl⟩
                      · refine ⟨Or.inl ⟨rfl, ?_⟩, fun q hq hq' => ?_⟩
                        · have htmp : FileSystem.content _ (tmpPath path) = _ :=
                            fs.content_create_write (utf8 contents)
                          rw [FileSystem.content_rename_target (by simp [htmp]), htmp]
                        · rw [FileSystem.content_rename_other hq' hq]
                          exact FileSystem.content_create_write_other hq' _
                      · exact ⟨Or.inr ⟨⟨_, rfl⟩,
                          FileSystem.content_create_write_other hpath _⟩,
                          fun q _ hq => FileSystem.content_create_write_other hq _⟩

theorem exec_writeAtomic {r : Except String Unit}
    (hx : Prog.Exec Disk.step fs (RealConfigFile.writeAtomic path contents) es fs' r) :
    (r = .ok () ∧ fs'.content path = some (utf8 contents) ∨
        (∃ msg, r = .error msg) ∧ fs'.content path = fs.content path) ∧
      ∀ q, q ≠ path → q ≠ tmpPath path → q ≠ backupPath path → fs'.content q = fs.content q := by
  cases hx with
  | @op _ _ _ _ _ reply _ _ hparent hrest =>
      obtain rfl := hparent
      cases reply with
      | error e =>
          cases hrest
          exact ⟨Or.inr ⟨⟨_, rfl⟩, rfl⟩, fun _ _ _ _ => rfl⟩
      | ok _ =>
          obtain ⟨es₁, es₂, fs₁, kept, -, hbackUp, hreplace⟩ := Prog.exec_bind hrest
          have hframe := fun q => exec_backUp hbackUp (q := q)
          cases kept with
          | error e =>
              cases hreplace
              exact ⟨Or.inr ⟨⟨_, rfl⟩, hframe path (backupPath_ne path).symm⟩,
                fun q _ _ hq => hframe q hq⟩
          | ok _ =>
              obtain ⟨hresult, hothers⟩ := exec_replace hreplace
              rw [hframe path (backupPath_ne path).symm] at hresult
              exact ⟨hresult, fun q hq hq' hq'' => (hothers q hq hq').trans (hframe q hq'')⟩

-- ============================================================================
-- Refinement of the seam
-- ============================================================================

/-- The path an operation of the seam is about. -/
def ConfigOp.file : ConfigOp → String
  | .read path => path
  | .writeAtomic path _ => path

/-- The disk holds the given contents of the configuration files `paths`. -/
def Holds (paths : String → Prop) (files : Files) (fs : Disk) : Prop :=
  ∀ p, paths p → fs.content p = (files p).map utf8

/-- No configuration file is the temporary file or the copy of another. -/
def Separate (paths : String → Prop) : Prop :=
  ∀ p q, paths p → paths q → p ≠ tmpPath q ∧ p ≠ backupPath q

/-- Run alone, the implementation does what the seam may do. -/
theorem refines_seam {paths : String → Prop} (hpaths : Separate paths) (o : ConfigOp)
    (files : Files) {r : ConfigSig.Reply o} (ho : paths o.file) (hfs : Holds paths files fs)
    (hx : Prog.Exec Disk.step fs (RealConfigFile.perform o) es fs' r) :
    ∃ files', Files.step files ⟨o, r⟩ files' ∧ Holds paths files' fs' := by
  cases o with
  | read path =>
      obtain ⟨rfl, hread⟩ := exec_read hx
      refine ⟨files, ⟨fun c hc => ?_, rfl⟩, hfs⟩
      have hmap : c.map utf8 = (files path).map utf8 := by rw [← hread c hc, hfs path ho]
      exact Option.map_injective (fun _ _ => utf8_inj) hmap
  | writeAtomic path contents =>
      obtain ⟨hresult, hothers⟩ := exec_writeAtomic hx
      have hframe : ∀ q, paths q → q ≠ path → fs'.content q = (files q).map utf8 := by
        intro q hq hne
        rw [hothers q hne (hpaths q path hq ho).1 (hpaths q path hq ho).2, hfs q hq]
      rcases hresult with ⟨rfl, hwritten⟩ | ⟨hfailed, hkept⟩
      · refine ⟨Kv.write files path contents, Or.inl ⟨rfl, rfl⟩, fun q hq => ?_⟩
        by_cases hne : q = path
        · rw [hne, Kv.write_same, hwritten, Option.map_some]
        · rw [Kv.write_other hne, hframe q hq hne]
      · refine ⟨files, Or.inr ⟨hfailed, rfl⟩, fun q hq => ?_⟩
        by_cases hne : q = path
        · rw [hne, hkept, hfs path ho]
        · exact hframe q hq hne

/-- Run alone over the disk, a provisioner's call does what it may do over
    the seam. -/
theorem operation_refines {paths : String → Prop} (hpaths : Separate paths) (J : ConfigJson)
    (op : Operation) (files : Files) {a : Except Core.ProvisioningError Unit}
    (hop : paths op.path) (hfs : Holds paths files fs)
    (hx : Prog.Exec Disk.step fs ((op.run J).implement RealConfigFile.perform) es fs' a) :
    ∃ es' files', Prog.Exec Files.step files (op.run J) es' files' a ∧ Holds paths files' fs' := by
  have hops : (op.run J).AllOps fun o : ConfigOp => paths o.file := by
    rw [op.run_eq]
    refine allOps_readEditWrite.mono fun o ho => ?_
    rcases ho with rfl | ⟨contents, rfl⟩ <;> exact hop
  refine Prog.exec_implement (R := Holds paths) ?_ hops hfs hx
  intro o files fs es fs' r ho hR hx
  exact refines_seam hpaths o files ho hR hx

end Spectty.Provision
