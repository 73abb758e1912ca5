/-
  Spectty.Diff.Explanation

  The builder of explanations: it reads the changed files and the counts of lines
  off the text of a unified diff, line by line.
-/

import Spectty.Adapters.AgentRunner
import Spectty.Diff.Pipeline
import Spectty.Lib.JsonText
import Spectty.Lib.Text

namespace Spectty.Diff

open Spectty.Adapters (isWhitespace)
open Spectty.Lib.JsonText (parseNat_toDigits)
open Spectty.Lib.Text

/-- The text without the whitespace at its ends. -/
abbrev trimText (text : List Char) : List Char := trim isWhitespace text

def stripPrefix (pat line : List Char) : Option (List Char) :=
  if pat <+: line then some (line.drop pat.length) else none

/-- The path that a line names: after `diff --git ` the text behind the first ` b/`, as
    far as the next; after `+++ b/` the rest of the line. -/
def lineFile (line : List Char) : Option (List Char) :=
  match stripPrefix "diff --git ".toList line with
  | some rest => (secondPiece " b/".toList rest).map trimText
  | none =>
      match stripPrefix "+++ b/".toList line with
      | some rest => if trimText rest ≠ "/dev/null".toList then some (trimText rest) else none
      | none => none

/-- Append a path that is not there yet. -/
def pushFile (files : List (List Char)) (path : List Char) : List (List Char) :=
  if path ≠ [] ∧ path ∉ files then files ++ [path] else files

def changedFiles (diff : String) : List (List Char) :=
  (lines diff.toList).foldl (fun files line => (lineFile line).elim files (pushFile files)) []

/-- Count a line, unless it is the header of a file. -/
def countLine (counts : Nat × Nat) (line : List Char) : Nat × Nat :=
  if "+++".toList <+: line ∨ "---".toList <+: line then counts
  else if "+".toList <+: line then (counts.1 + 1, counts.2)
  else if "-".toList <+: line then (counts.1, counts.2 + 1)
  else counts

/-- The lines added and the lines removed. -/
def countChanges (diff : String) : Nat × Nat := (lines diff.toList).foldl countLine (0, 0)

/-- The explanation of one changed file. -/
def modified (path : List Char) : FileExplanation where
  path := String.ofList path
  rationale := "Modified " ++ String.ofList path

/-- The summary of a diff that changes a number of files. -/
def summarize (files added removed : Nat) : String :=
  if files = 0 then
    "Working-tree changes: +" ++ toString added ++ " -" ++ toString removed ++ " lines"
  else
    let noun := if files = 1 then "file" else "files"
    toString files ++ " " ++ noun ++ " changed (+" ++ toString added ++ " -" ++
      toString removed ++ " lines)"

def buildExplanation (diff : String) : DiffExplanation :=
  if isBlank diff then .empty
  else
    let files := changedFiles diff
    let (added, removed) := countChanges diff
    { files := files.map modified
      summary := summarize files.length added removed }

-- ============================================================================
-- The scan as a whole
-- ============================================================================

/-- A line that is counted as added. -/
def countsAdded (line : List Char) : Bool := ¬ "+++".toList <+: line ∧ "+".toList <+: line

/-- A line that is counted as removed. -/
def countsRemoved (line : List Char) : Bool := ¬ "---".toList <+: line ∧ "-".toList <+: line

/-- The paths that some lines name. -/
def named (ls : List (List Char)) : List (List Char) :=
  (ls.filterMap lineFile).filter (· ≠ [])

theorem named_cons (line : List Char) (ls : List (List Char)) :
    named (line :: ls) = ((lineFile line).filter (· ≠ [])).toList ++ named ls := by
  unfold named
  cases h : lineFile line with
  | none => rw [List.filterMap_cons_none h]; rfl
  | some path =>
      rw [List.filterMap_cons_some h]
      by_cases hempty : path = [] <;> simp [hempty, Option.filter]

theorem named_append (ls ls' : List (List Char)) : named (ls ++ ls') = named ls ++ named ls' := by
  unfold named
  rw [List.filterMap_append, List.filter_append]

theorem named_flatMap {β : Type} (f : β → List (List Char)) (bs : List β) :
    named (bs.flatMap f) = bs.flatMap fun b => named (f b) := by
  unfold named
  rw [List.filterMap_flatMap, List.filter_flatMap]

theorem named_eq_nil {ls : List (List Char)} (h : ∀ line ∈ ls, lineFile line = none) :
    named ls = [] := by
  unfold named
  rw [List.filterMap_eq_nil_iff.mpr h, List.filter_nil]

/-- A path that a line names has no whitespace at its ends. -/
theorem trimText_of_lineFile {line path : List Char} (h : lineFile line = some path) :
    trimText path = path := by
  unfold lineFile at h
  split at h
  · obtain ⟨piece, -, rfl⟩ := Option.map_eq_some_iff.mp h
    exact trim_trim
  · split at h
    · split_ifs at h
      obtain rfl := Option.some.inj h
      exact trim_trim
    · cases h

/-- A line that begins like neither header names no file. -/
theorem lineFile_eq_none {line : List Char} (hgit : ¬ "diff --git ".toList <+: line)
    (hnew : ¬ "+++ b/".toList <+: line) : lineFile line = none := by
  unfold lineFile stripPrefix
  rw [if_neg hgit, if_neg hnew]

/-- The files of a diff are the paths that its lines name, each where it stands first. -/
theorem changedFiles_eq (diff : String) :
    changedFiles diff = distinct (named (lines diff.toList)) := by
  have hscan : ∀ (ls files : List (List Char)),
      ls.foldl (fun files line => (lineFile line).elim files (pushFile files)) files =
        (named ls).foldl addNew files := by
    intro ls
    induction ls with
    | nil => exact fun _ => rfl
    | cons line ls ih =>
        intro files
        rw [List.foldl_cons, ih, named_cons]
        cases lineFile line with
        | none => rfl
        | some path =>
            by_cases hempty : path = []
            · simp [hempty, pushFile, Option.filter]
            · have hpush : pushFile files path = addNew files path := by
                by_cases hmem : path ∈ files <;> simp [pushFile, addNew, hempty, hmem]
              simp [hempty, hpush, Option.filter]
  rw [changedFiles, hscan, foldl_addNew]
  simp

/-- No path is listed twice. -/
theorem nodup_changedFiles (diff : String) : (changedFiles diff).Nodup := by
  rw [changedFiles_eq]
  exact nodup_distinct _

theorem countLine_eq (added removed : Nat) (line : List Char) :
    countLine (added, removed) line =
      (added + if countsAdded line then 1 else 0,
        removed + if countsRemoved line then 1 else 0) := by
  have hplus : "+++".toList <+: line → "+".toList <+: line :=
    (show "+".toList <+: "+++".toList by decide).trans
  have hminus : "---".toList <+: line → "-".toList <+: line :=
    (show "-".toList <+: "---".toList by decide).trans
  have hone : "+".toList <+: line → ¬ "-".toList <+: line := by
    rintro ⟨rest, rfl⟩ ⟨rest', hrest⟩
    exact absurd (List.head_eq_of_cons_eq hrest) (by decide)
  by_cases hadd : "+++".toList <+: line
  · simp [-String.reduceToList, countLine, countsAdded, countsRemoved, hadd, hone (hplus hadd)]
  · by_cases hdel : "---".toList <+: line
    · have hnot : ¬ "+".toList <+: line := fun h => hone h (hminus hdel)
      simp [-String.reduceToList, countLine, countsAdded, countsRemoved, hdel, hnot]
    · by_cases h : "+".toList <+: line
      · simp [-String.reduceToList, countLine, countsAdded, countsRemoved, hadd, hdel, h, hone h]
      · by_cases h' : "-".toList <+: line <;>
          simp [-String.reduceToList, countLine, countsAdded, countsRemoved, hadd, hdel, h, h']

/-- The counts of a diff. -/
theorem countChanges_eq (diff : String) :
    countChanges diff =
      ((lines diff.toList).countP countsAdded, (lines diff.toList).countP countsRemoved) := by
  have hscan : ∀ (ls : List (List Char)) (added removed : Nat),
      ls.foldl countLine (added, removed) =
        (added + ls.countP countsAdded, removed + ls.countP countsRemoved) := by
    intro ls
    induction ls with
    | nil => exact fun _ _ => rfl
    | cons line ls ih =>
        intro added removed
        rw [List.foldl_cons, countLine_eq, ih, List.countP_cons, List.countP_cons]
        simp only [Prod.mk.injEq]
        omega
  rw [countChanges, hscan, Nat.zero_add, Nat.zero_add]

-- ============================================================================
-- The summary
-- ============================================================================

/-- A number, and what follows it, can be read off a text. -/
theorem toDigits_append_inj {m n : Nat} {rest rest' : List Char}
    (hrest : ∀ c ∈ rest.head?, c.isDigit = false) (hrest' : ∀ c ∈ rest'.head?, c.isDigit = false)
    (h : Nat.toDigits 10 m ++ rest = Nat.toDigits 10 n ++ rest') : m = n ∧ rest = rest' := by
  have hparse := parseNat_toDigits m hrest
  rw [h, parseNat_toDigits n hrest', Option.some.injEq, Prod.mk.injEq] at hparse
  exact ⟨hparse.1.symm, hparse.2.symm⟩

/-- Two counts in a row can be read off a text. -/
theorem counts_inj {added removed added' removed' : Nat} {rest : String}
    (hrest : ∀ c ∈ rest.toList.head?, c.isDigit = false)
    (h : toString added ++ " -" ++ toString removed ++ rest =
      toString added' ++ " -" ++ toString removed' ++ rest) :
    added = added' ∧ removed = removed' := by
  have hlist := congrArg String.toList h
  simp only [String.toList_append, Nat.toString_eq_repr, Nat.toList_repr, List.append_assoc]
    at hlist
  obtain ⟨hadded, htail⟩ := toDigits_append_inj (by simp) (by simp) hlist
  obtain ⟨hremoved, -⟩ := toDigits_append_inj hrest hrest (List.append_cancel_left htail)
  exact ⟨hadded, hremoved⟩

/-- A summary tells the counts. -/
theorem summarize_inj {files added removed added' removed' : Nat} :
    summarize files added removed = summarize files added' removed' ↔
      added = added' ∧ removed = removed' := by
  constructor
  · intro h
    unfold summarize at h
    split_ifs at h
    all_goals
      simp only [String.append_assoc, String.append_right_inj] at h
      simp only [← String.append_assoc] at h
      exact counts_inj (by simp) h
  · rintro ⟨rfl, rfl⟩
    rfl

end Spectty.Diff
