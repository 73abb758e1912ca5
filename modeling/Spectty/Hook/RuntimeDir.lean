/-
  Spectty.Hook.RuntimeDir

  The runtime directory, which the sidecars of all sessions write to, and from which the
  application removes the files of one session.

  The files of a session are told apart by their names alone.  The ids are numerals, so
  that what stands before the first dot of a name tells its session (`stem_of_belongs`);
  hence what is in a session's files is decided by its own steps (`sessions_independent`),
  and nothing is left of a session that is closed (`closed_leaves_nothing`).
-/

import Spectty.Core.Session
import Spectty.Hook.Files
import Spectty.Lib.Machine

namespace Spectty.Hook

open Spectty.Lib

-- ============================================================================
-- Where it is
-- ============================================================================

/-- The platforms that the path is chosen by. -/
inductive Platform where
  | macos
  | linux
  | windows
  | other
deriving DecidableEq, Repr

/-- A path and a component below it. -/
def joinPath (base component : String) : String :=
  if base = "" then component
  else if base.toList.getLast? = some '/' then base ++ component
  else base ++ "/" ++ component

/-- The sidecar's resolver. -/
def platformDataDir (platform : Platform) (env : String → Option String) : Option String :=
  match platform with
  | .macos => (env "HOME").map fun home =>
      joinPath (joinPath home "Library") "Application Support"
  | .linux =>
      match env "XDG_DATA_HOME" with
      | some xdg => some xdg
      | none => (env "HOME").map fun home => joinPath (joinPath home ".local") "share"
  | .windows => env "LOCALAPPDATA"
  | .other => none

def bundleIdentifier : String := "app.spectty.desktop"

/-- The runtime directory, as the sidecar finds it. -/
def sidecarRuntimeDir (platform : Platform) (env : String → Option String) : Option String :=
  (platformDataDir platform env).map fun base =>
    joinPath (joinPath base bundleIdentifier) "runtime"

/-- The runtime directory, as the application finds it; empty if there is none. -/
def specttyRuntimeDir (platform : Platform) (env : String → Option String) : String :=
  let base :=
    match platform with
    | .macos => (env "HOME").map fun home =>
        joinPath (joinPath home "Library") "Application Support"
    | .linux =>
        match env "XDG_DATA_HOME" with
        | some xdg => some xdg
        | none => (env "HOME").map fun home => joinPath (joinPath home ".local") "share"
    | .windows => env "LOCALAPPDATA"
    | .other => none
  (base.map fun b => joinPath (joinPath b "app.spectty.desktop") "runtime").getD ""

/-- In one environment the two find the same directory. -/
theorem specttyRuntimeDir_eq (platform : Platform) (env : String → Option String) :
    specttyRuntimeDir platform env = (sidecarRuntimeDir platform env).getD "" := by
  cases platform <;> rfl

-- ============================================================================
-- The names in it
-- ============================================================================

/-- The name of a session's state file. -/
def stateName (id : String) : String := "spectty-" ++ id ++ ".state"

/-- The name of the temporary file of process `pid`. -/
def tmpName (id : String) (pid : Nat) : String :=
  "spectty-" ++ id ++ "." ++ toString pid ++ ".state.tmp"

/-- The names are those of the paths the sidecar and the reader use. -/
theorem statePath_eq (runtimeDir id : String) :
    statePath runtimeDir id = runtimeDir ++ "/" ++ stateName id := by
  simp only [statePath, stateName, String.append_assoc]
  rfl

theorem stateTmp_eq (runtimeDir id : String) (pid : Nat) :
    stateTmp runtimeDir id pid = runtimeDir ++ "/" ++ tmpName id pid := by
  simp only [stateTmp, tmpName, String.append_assoc]
  rfl

/-- The file is one of a session. -/
def Belongs (id name : String) : Prop := name = stateName id ∨ ∃ pid, name = tmpName id pid

/-- The name has the shape of a temporary file of a session. -/
def matchesTmp (id name : String) : Bool :=
  ("spectty-" ++ id ++ ".").toList.isPrefixOf name.toList &&
    ".state.tmp".toList.isSuffixOf name.toList

-- ============================================================================
-- The steps
-- ============================================================================

/-- The files, by name. -/
abbrev RuntimeDir := String → Option String

/-- A sidecar writes its temporary file or renames it over the state file; or the
    application removes a session's state file, or its temporary files.  `removed` says
    of what a removal succeeds, and `listed` whether the directory can be read. -/
inductive RuntimeStep where
  | writeTmp (id : String) (pid : Nat) (json : String)
  | renameTmp (id : String) (pid : Nat)
  | removeState (id : String) (removed : Bool)
  | removeStaleTmpFiles (id : String) (listed : Bool) (removed : String → Bool)

namespace RuntimeStep

/-- The session of a step. -/
def id : RuntimeStep → String
  | .writeTmp id _ _ => id
  | .renameTmp id _ => id
  | .removeState id _ => id
  | .removeStaleTmpFiles id _ _ => id

/-- The step is a sidecar's write. -/
def isWrite : RuntimeStep → Bool
  | .writeTmp _ _ _ => true
  | _ => false

/-- The step is a sidecar's rename. -/
def isRename : RuntimeStep → Bool
  | .renameTmp _ _ => true
  | _ => false

end RuntimeStep

namespace RuntimeDir

/-- One step.  A rename does nothing when its temporary file is gone. -/
def next (dir : RuntimeDir) : RuntimeStep → RuntimeDir
  | .writeTmp id pid json => Function.update dir (tmpName id pid) (some json)
  | .renameTmp id pid =>
      match dir (tmpName id pid) with
      | none => dir
      | some json =>
          Function.update (Function.update dir (tmpName id pid) none) (stateName id) (some json)
  | .removeState id removed =>
      if removed then Function.update dir (stateName id) none else dir
  | .removeStaleTmpFiles id listed removed => fun name =>
      if listed && matchesTmp id name && removed name then none else dir name

end RuntimeDir

-- ============================================================================
-- The owner of a file
-- ============================================================================

/-- What stands in a name before its first dot. -/
def stem (name : String) : List Char := name.toList.takeWhile (· ≠ '.')

/-- The stem of the files of a session. -/
def sessionStem (id : String) : List Char := ("spectty-" ++ id).toList

/-- No character of the id is a dot. -/
def Dotless (id : String) : Prop := '.' ∉ id.toList

theorem dotless_toString (n : Nat) : Dotless (toString n) := by
  have hdigits : (toString n).toList = Nat.toDigits 10 n := by
    rw [Nat.toString_eq_repr, Nat.toList_repr]
  rw [Dotless, hdigits]
  intro hdot
  have hdigit := Nat.isDigit_of_mem_toDigits (by decide) (by decide) hdot
  exact absurd hdigit (by decide)

theorem sessionStem_inj {id id' : String} (h : sessionStem id = sessionStem id') : id = id' := by
  unfold sessionStem at h
  rw [String.toList_append, String.toList_append] at h
  exact String.toList_inj.mp (List.append_cancel_left h)

/-- A name that goes on with a dot after the stem of a session has that stem. -/
theorem stem_eq {id name : String} (hid : Dotless id) (rest : List Char)
    (h : name.toList = sessionStem id ++ '.' :: rest) : stem name = sessionStem id := by
  have hfixed : '.' ∉ "spectty-".toList := by decide
  have hdotless : ∀ c ∈ sessionStem id, decide (c ≠ '.') = true := by
    intro c hc
    unfold sessionStem at hc
    rw [String.toList_append, List.mem_append] at hc
    rw [decide_eq_true_eq]
    rintro rfl
    rcases hc with hfront | hback
    · exact hfixed hfront
    · exact hid hback
  rw [stem, h, List.takeWhile_append_of_pos hdotless]
  simp

theorem stem_stateName {id : String} (hid : Dotless id) : stem (stateName id) = sessionStem id := by
  refine stem_eq hid "state".toList ?_
  rw [stateName, String.toList_append]
  rfl

theorem stem_tmpName {id : String} (hid : Dotless id) (pid : Nat) :
    stem (tmpName id pid) = sessionStem id := by
  refine stem_eq hid (toString pid ++ ".state.tmp").toList ?_
  simp [tmpName, sessionStem]

theorem stem_of_matchesTmp {id name : String} (hid : Dotless id)
    (h : matchesTmp id name = true) : stem name = sessionStem id := by
  obtain ⟨hfront, -⟩ := Bool.and_eq_true_iff.mp h
  obtain ⟨rest, hrest⟩ := List.isPrefixOf_iff_prefix.mp hfront
  refine stem_eq hid rest ?_
  rw [← hrest, sessionStem]
  simp

theorem stem_of_belongs {id name : String} (hid : Dotless id) (h : Belongs id name) :
    stem name = sessionStem id := by
  obtain rfl | ⟨pid, rfl⟩ := h
  · exact stem_stateName hid
  · exact stem_tmpName hid pid

-- An id with a dot is taken for another session's.
example : matchesTmp "1" (tmpName "1.2" 7) = true := by decide

theorem stateName_ne_tmpName (id : String) (pid : Nat) : stateName id ≠ tmpName id pid := by
  intro h
  have hstate : (stateName id).toList.getLast? = some 'e' := by
    rw [stateName, String.toList_append, List.getLast?_append]
    rfl
  have htmp : (tmpName id pid).toList.getLast? = some 'p' := by
    rw [tmpName, String.toList_append, List.getLast?_append]
    rfl
  rw [h, htmp] at hstate
  cases hstate

/-- The removal of a session's temporary files finds each of them. -/
theorem matchesTmp_tmpName (id : String) (pid : Nat) : matchesTmp id (tmpName id pid) = true := by
  refine Bool.and_eq_true_iff.mpr ⟨List.isPrefixOf_iff_prefix.mpr ?_,
    List.isSuffixOf_iff_suffix.mpr ?_⟩
  · exact ⟨(toString pid ++ ".state.tmp").toList, by simp [tmpName]⟩
  · exact ⟨("spectty-" ++ id ++ "." ++ toString pid).toList, by simp [tmpName]⟩

-- ============================================================================
-- One step
-- ============================================================================

namespace RuntimeDir

variable {dir dir' : RuntimeDir} {c : RuntimeStep} {id name : String}

theorem next_removeStaleTmpFiles (dir : RuntimeDir) (id name : String) :
    dir.next (.removeStaleTmpFiles id true fun _ => true) name =
      if matchesTmp id name = true then none else dir name := by
  simp [next]

/-- A step changes only files of its own session. -/
theorem next_other (hid : Dotless c.id) (hname : stem name ≠ sessionStem c.id) :
    dir.next c name = dir name := by
  have hstate : name ≠ stateName c.id := by
    rintro rfl
    exact hname (stem_stateName hid)
  have htmp : ∀ pid, name ≠ tmpName c.id pid := by
    rintro pid rfl
    exact hname (stem_tmpName hid pid)
  cases c with
  | writeTmp id pid json => exact Function.update_of_ne (htmp pid) _ _
  | renameTmp id pid =>
      rw [next]
      cases dir (tmpName id pid) with
      | none => rfl
      | some json =>
          have htmp : name ≠ tmpName id pid := htmp pid
          have hstate : name ≠ stateName id := hstate
          show Function.update (Function.update dir (tmpName id pid) none) (stateName id)
            (some json) name = dir name
          rw [Function.update_of_ne hstate, Function.update_of_ne htmp]
  | removeState id removed =>
      rw [next]
      split_ifs
      · exact Function.update_of_ne hstate _ _
      · rfl
  | removeStaleTmpFiles id listed removed =>
      have hmatch : matchesTmp id name = false := by
        by_contra h
        exact hname (stem_of_matchesTmp hid ((Bool.not_eq_false _).mp h))
      simp [next, hmatch]

/-- What a step leaves in its session's files is decided by what is in them. -/
theorem next_congr (hid : Dotless c.id)
    (h : ∀ name, stem name = sessionStem c.id → dir name = dir' name)
    (hname : stem name = sessionStem c.id) : dir.next c name = dir'.next c name := by
  cases c with
  | writeTmp id pid json =>
      by_cases hsame : name = tmpName id pid
      · subst hsame
        simp [next]
      · simp [next, Function.update_of_ne hsame, h name hname]
  | renameTmp id pid =>
      have htmp : dir (tmpName id pid) = dir' (tmpName id pid) := h _ (stem_tmpName hid pid)
      rw [next, next, htmp]
      cases dir' (tmpName id pid) with
      | none => exact h name hname
      | some json =>
          by_cases hstate : name = stateName id
          · subst hstate
            simp
          · by_cases hsame : name = tmpName id pid
            · subst hsame
              simp [Function.update_of_ne hstate]
            · simp [Function.update_of_ne hstate, Function.update_of_ne hsame, h name hname]
  | removeState id removed =>
      cases removed with
      | false => exact h name hname
      | true =>
          by_cases hstate : name = stateName id
          · subst hstate
            simp [next]
          · simp [next, Function.update_of_ne hstate, h name hname]
  | removeStaleTmpFiles id listed removed => simp only [next, h name hname]

/-- Only a write puts a file of a session there: a rename needs its temporary file. -/
theorem next_gone (hid : Dotless id) (hc : Dotless c.id) (hwrite : c.id = id → c.isWrite = false)
    (hgone : ∀ name, Belongs id name → dir name = none) (hname : Belongs id name) :
    dir.next c name = none := by
  by_cases hsame : c.id = id
  · cases c with
    | writeTmp other pid json => cases hwrite hsame
    | renameTmp other pid =>
        obtain rfl : other = id := hsame
        rw [next, hgone _ (.inr ⟨pid, rfl⟩)]
        exact hgone name hname
    | removeState other removed =>
        obtain rfl : other = id := hsame
        rw [next]
        split_ifs
        · by_cases hstate : name = stateName other
          · rw [hstate, Function.update_self]
          · rw [Function.update_of_ne hstate, hgone name hname]
        · exact hgone name hname
    | removeStaleTmpFiles other listed removed => simp [next, hgone name hname]
  · rw [next_other hc, hgone name hname]
    intro hstem
    exact hsame (sessionStem_inj (hstem.symm.trans (stem_of_belongs hid hname)))

-- ============================================================================
-- Any run
-- ============================================================================

/-- The ids are minted by the registry. -/
def Minted (steps : List RuntimeStep) : Prop := ∀ c ∈ steps, ∃ n : Nat, c.id = toString n

theorem Minted.dotless {steps : List RuntimeStep} (h : Minted steps) {c : RuntimeStep}
    (hc : c ∈ steps) : Dotless c.id := by
  obtain ⟨n, hn⟩ := h c hc
  rw [hn]
  exact dotless_toString n

/-- The files of a session are as if its own steps had been the only ones. -/
theorem sessions_independent (dir : RuntimeDir) (steps : List RuntimeStep) (hminted : Minted steps)
    (n : Nat) (name : String) (hname : Belongs (toString n) name) :
    Machine.run next dir steps name =
      Machine.run next dir (steps.filter fun c => c.id = toString n) name := by
  have hall : ∀ dir dir' : RuntimeDir,
      (∀ name, stem name = sessionStem (toString n) → dir name = dir' name) →
      ∀ name, stem name = sessionStem (toString n) →
        Machine.run next dir steps name =
          Machine.run next dir' (steps.filter fun c => c.id = toString n) name := by
    induction steps with
    | nil => exact fun dir dir' h => h
    | cons c steps ih =>
        intro dir dir' h name hname
        have hrest : Minted steps := fun c hc => hminted c (List.mem_cons_of_mem _ hc)
        have hid : Dotless c.id := hminted.dotless List.mem_cons_self
        by_cases hsame : c.id = toString n
        · rw [List.filter_cons_of_pos (by simpa using hsame), Machine.run_cons, Machine.run_cons]
          refine ih hrest _ _ (fun name hname => ?_) name hname
          rw [← hsame] at h hname
          exact next_congr hid h hname
        · rw [List.filter_cons_of_neg (by simpa using hsame), Machine.run_cons]
          refine ih hrest _ _ (fun name hname => ?_) name hname
          rw [next_other hid, h name hname]
          intro hstem
          exact hsame (sessionStem_inj (hstem.symm.trans hname))
  exact hall dir dir (fun _ _ => rfl) name (stem_of_belongs (dotless_toString n) hname)

/-- A state file that is gone stays away until a temporary file is renamed. -/
theorem state_gone (hid : Dotless id) (hc : Dotless c.id) (hrename : c.id = id → c.isRename = false)
    (hgone : dir (stateName id) = none) : dir.next c (stateName id) = none := by
  by_cases hsame : c.id = id
  · subst hsame
    cases c with
    | writeTmp other pid json =>
        rw [← hgone]
        exact Function.update_of_ne (stateName_ne_tmpName other pid) _ _
    | renameTmp other pid => cases hrename rfl
    | removeState other removed =>
        rw [next]
        split_ifs
        · exact Function.update_self _ _ _
        · exact hgone
    | removeStaleTmpFiles other listed removed =>
        have hgone : dir (stateName other) = none := hgone
        simp [next, RuntimeStep.id, hgone]
  · rw [next_other hc, hgone]
    intro hstem
    exact hsame (sessionStem_inj (hstem.symm.trans (stem_stateName hid)))

/-- Two sessions write, and the first is swept. -/
theorem sessions_independent_two :
    Machine.run next (fun _ => none) [.writeTmp (toString 1) 7 "a", .writeTmp (toString 10) 7 "b",
        .removeStaleTmpFiles (toString 1) true (fun _ => true), .renameTmp (toString 10) 7]
      (stateName (toString 10)) =
    Machine.run next (fun _ => none) ([.writeTmp (toString 1) 7 "a", .writeTmp (toString 10) 7 "b",
        .removeStaleTmpFiles (toString 1) true (fun _ => true),
        .renameTmp (toString 10) 7].filter fun c => c.id = toString 10)
      (stateName (toString 10)) := by
  apply sessions_independent
  · intro c hc
    simp only [List.mem_cons, List.not_mem_nil, or_false] at hc
    rcases hc with rfl | rfl | rfl | rfl
    · exact ⟨1, rfl⟩
    · exact ⟨10, rfl⟩
    · exact ⟨1, rfl⟩
    · exact ⟨10, rfl⟩
  · exact .inl rfl

theorem state_gone_run {steps : List RuntimeStep} (hid : Dotless id) (hminted : Minted steps)
    (hrename : ∀ c ∈ steps, c.id = id → c.isRename = false)
    (hgone : dir (stateName id) = none) : Machine.run next dir steps (stateName id) = none := by
  induction steps generalizing dir with
  | nil => exact hgone
  | cons c steps ih =>
      have hc : Dotless c.id := hminted.dotless List.mem_cons_self
      refine ih (fun c hc => hminted c (List.mem_cons_of_mem _ hc))
        (fun c hc => hrename c (List.mem_cons_of_mem _ hc)) ?_
      exact state_gone hid hc (hrename c List.mem_cons_self) hgone

theorem gone_run {steps : List RuntimeStep} (hid : Dotless id) (hminted : Minted steps)
    (hwrite : ∀ c ∈ steps, c.id = id → c.isWrite = false)
    (hgone : ∀ name, Belongs id name → dir name = none) (hname : Belongs id name) :
    Machine.run next dir steps name = none := by
  induction steps generalizing dir with
  | nil => exact hgone name hname
  | cons c steps ih =>
      have hc : Dotless c.id := hminted.dotless List.mem_cons_self
      refine ih (fun c hc => hminted c (List.mem_cons_of_mem _ hc))
        (fun c hc => hwrite c (List.mem_cons_of_mem _ hc)) fun name hname => ?_
      exact next_gone hid hc (hwrite c List.mem_cons_self) hgone hname

/-- When the state file of a session is removed, and after it the temporary files, none of
    the session's files is left, whatever the other sessions do: provided that its
    sidecars rename nothing between the two, and write nothing after them.  A rename that
    comes later finds its temporary file gone. -/
theorem closed_leaves_nothing (dir : RuntimeDir) (n : Nat)
    (before middle after : List RuntimeStep) (hmiddle : Minted middle) (hafter : Minted after)
    (hrename : ∀ c ∈ middle, c.id = toString n → c.isRename = false)
    (hwrite : ∀ c ∈ after, c.id = toString n → c.isWrite = false)
    (name : String) (hname : Belongs (toString n) name) :
    Machine.run next dir
      (before ++ .removeState (toString n) true :: middle ++
        .removeStaleTmpFiles (toString n) true (fun _ => true) :: after) name = none := by
  have hid := dotless_toString n
  rw [List.append_assoc, Machine.run_append, List.cons_append, Machine.run_cons,
    Machine.run_append, Machine.run_cons]
  refine gone_run hid hafter hwrite (fun name hname => ?_) hname
  obtain rfl | ⟨pid, rfl⟩ := hname
  · have hremoved : ((Machine.run next dir before).next (.removeState (toString n) true))
        (stateName (toString n)) = none := Function.update_self _ _ _
    have hgone := state_gone_run hid hmiddle hrename hremoved
    rw [next_removeStaleTmpFiles]
    split_ifs
    · rfl
    · exact hgone
  · rw [next_removeStaleTmpFiles, if_pos (matchesTmp_tmpName _ pid)]

/-- A sidecar of the closed session renames too late, and another session goes on. -/
theorem closed_leaves_nothing_late :
    Machine.run next (fun _ => none)
      ([.writeTmp (toString 1) 7 "a"] ++ .removeState (toString 1) true ::
        [.writeTmp (toString 2) 8 "b"] ++
        .removeStaleTmpFiles (toString 1) true (fun _ => true) :: [.renameTmp (toString 1) 7])
      (stateName (toString 1)) = none := by
  apply closed_leaves_nothing
  · exact fun c hc => ⟨2, by rw [List.mem_singleton.mp hc]; rfl⟩
  · exact fun c hc => ⟨1, by rw [List.mem_singleton.mp hc]; rfl⟩
  · intro c hc _
    rw [List.mem_singleton.mp hc]
    rfl
  · intro c hc _
    rw [List.mem_singleton.mp hc]
    rfl
  · exact .inl rfl

end RuntimeDir

end Spectty.Hook
