/-
  Spectty.Diff.UnifiedDiff

  The unified diffs that git writes, and what the explanation of one says.

  The scan of the builder does not know whether a line is a header or the content
  of a file, and cuts a path at ` b/`.  `explains_iff` is the exact condition on a
  diff for its explanation to list the changed paths and to tell the counts.
-/

import Spectty.Diff.Explanation

namespace Spectty.Diff

open Spectty.Adapters (isWhitespace)
open Spectty.Lib.Text

-- ============================================================================
-- The diffs
-- ============================================================================

/-- A text without line feeds. -/
structure LineText where
  chars : List Char
  oneLine : '\n' ∉ chars
deriving DecidableEq

/-- A path that git writes without quotes. -/
structure DiffPath where
  chars : List Char
  ne_nil : chars ≠ []
  plain : ∀ c ∈ chars, 0x20 ≤ c.toNat ∧ c.toNat ≠ 0x7F ∧ c ≠ '"' ∧ c ≠ '\\'
  relative : chars.head? ≠ some '/'
deriving DecidableEq

/-- A line of a hunk. -/
inductive HunkLine where
  | context (text : LineText)
  | added (text : LineText)
  | removed (text : LineText)
  /-- The last line had no line feed. -/
  | noNewline
deriving DecidableEq

structure Hunk where
  oldStart : Nat
  newStart : Nat
  heading : LineText
  lines : List HunkLine
deriving DecidableEq

/-- What a diff shows of the contents of a file. -/
inductive Body where
  | none
  | binary
  | text (hunks : List Hunk)
deriving DecidableEq

inductive Change where
  | modified
  | added
  | deleted
deriving DecidableEq

/-- The part of a diff that is about one file, with its old and new mode and its index
    line where it shows them. -/
structure FileDiff where
  path : DiffPath
  change : Change
  modes : Option (LineText × LineText)
  index : Option LineText
  body : Body
deriving DecidableEq

namespace HunkLine

def noNewlineLine : List Char := "\\ No newline at end of file".toList

def isAdded : HunkLine → Bool
  | .added _ => true
  | _ => false

def isRemoved : HunkLine → Bool
  | .removed _ => true
  | _ => false

def isContext : HunkLine → Bool
  | .context _ => true
  | _ => false

def chars : HunkLine → List Char
  | .context text => ' ' :: text.chars
  | .added text => '+' :: text.chars
  | .removed text => '-' :: text.chars
  | .noNewline => noNewlineLine

end HunkLine

/-- A range of lines; a count of one is left out. -/
def range (start count : Nat) : List Char :=
  if count = 1 then Nat.toDigits 10 start
  else Nat.toDigits 10 start ++ ',' :: Nat.toDigits 10 count

namespace Hunk

def header (self : Hunk) : List Char :=
  let old := self.lines.countP fun line => line.isContext || line.isRemoved
  let new := self.lines.countP fun line => line.isContext || line.isAdded
  "@@ -".toList ++ range self.oldStart old ++ " +".toList ++ range self.newStart new ++
    " @@".toList ++ if self.heading.chars = [] then [] else ' ' :: self.heading.chars

def text (self : Hunk) : List (List Char) := self.header :: self.lines.map HunkLine.chars

end Hunk

namespace FileDiff

def hunks (self : FileDiff) : List Hunk :=
  match self.body with
  | .text hunks => hunks
  | _ => []

/-- The lines of the hunks. -/
def hunkLines (self : FileDiff) : List HunkLine := self.hunks.flatMap Hunk.lines

/-- The names of the two sides. -/
def oldName (self : FileDiff) : List Char :=
  if self.change = .added then "/dev/null".toList else "a/".toList ++ self.path.chars

def newName (self : FileDiff) : List Char :=
  if self.change = .deleted then "/dev/null".toList else "b/".toList ++ self.path.chars

/-- The tab after a name with a space in it. -/
def tab (name : List Char) : List Char := if ' ' ∈ name then ['\t'] else []

def modeLines (self : FileDiff) : List (List Char) :=
  match self.modes, self.change with
  | none, _ => []
  | some (old, new), .modified =>
      ["old mode ".toList ++ old.chars, "new mode ".toList ++ new.chars]
  | some (_, new), .added => ["new file mode ".toList ++ new.chars]
  | some (old, _), .deleted => ["deleted file mode ".toList ++ old.chars]

def indexLines (self : FileDiff) : List (List Char) :=
  self.index.toList.map fun index => "index ".toList ++ index.chars

def sideLines (self : FileDiff) : List (List Char) :=
  match self.body with
  | .none => []
  | .binary =>
      ["Binary files ".toList ++ self.oldName ++ " and ".toList ++ self.newName ++
        " differ".toList]
  | .text _ =>
      ["--- ".toList ++ self.oldName ++ tab self.oldName,
        "+++ ".toList ++ self.newName ++ tab self.newName]

def gitLine (self : FileDiff) : List Char :=
  "diff --git ".toList ++ ("a/".toList ++ self.path.chars ++ " b/".toList ++ self.path.chars)

def lines (self : FileDiff) : List (List Char) :=
  self.gitLine :: (self.modeLines ++ self.indexLines ++ self.sideLines) ++
    self.hunks.flatMap Hunk.text

end FileDiff

/-- The text of a diff. -/
def diffText (diff : List FileDiff) : String := .ofList (unlines (diff.flatMap FileDiff.lines))

/-- The changed paths, each once, in order of first appearance. -/
def changedPaths (diff : List FileDiff) : List (List Char) :=
  distinct (diff.map fun file => file.path.chars)

/-- How many lines the hunks add and remove. -/
def addedCount (diff : List FileDiff) : Nat :=
  (diff.flatMap FileDiff.hunkLines).countP HunkLine.isAdded

def removedCount (diff : List FileDiff) : Nat :=
  (diff.flatMap FileDiff.hunkLines).countP HunkLine.isRemoved

/-- The explanation lists the changed paths and tells the counts. -/
structure Explains (diff : List FileDiff) (explanation : DiffExplanation) : Prop where
  files : explanation.files.map FileExplanation.path = (changedPaths diff).map String.ofList
  summary : diff ≠ [] → explanation.summary =
    summarize (changedPaths diff).length (addedCount diff) (removedCount diff)

-- ============================================================================
-- The condition
-- ============================================================================

/-- The content of the line does not make it look like the header of a file. -/
def HunkLine.Plain : HunkLine → Prop
  | .added text => ¬ "++".toList <+: text.chars
  | .removed text => ¬ "--".toList <+: text.chars
  | _ => True

/-- What the first line of a file's part names instead of its path, when the path has
    ` b/` in it: the text between that and the next. -/
def FileDiff.strayName (self : FileDiff) : Option (List Char) :=
  ((secondPiece " b/".toList self.path.chars).map trimText).filter (· ≠ [])

/-- There is a line `+++ b/` with the path. -/
def FileDiff.hasNewSide (self : FileDiff) : Bool :=
  match self.body with
  | .text _ => self.change ≠ .deleted
  | _ => false

/-- A line of a file's part names its path: the path has no ` b/` in it, or there is a
    line of the new side. -/
def FileDiff.namesPath (self : FileDiff) : Bool :=
  (secondPiece " b/".toList self.path.chars).isNone || self.hasNewSide

/-- What the first lines name instead of a path is the path of an earlier file. -/
def StraysNamed (diff : List FileDiff) : Prop :=
  ∀ before file after, diff = before ++ file :: after → ∀ name ∈ file.strayName,
    ∃ earlier ∈ before, earlier.namesPath ∧ earlier.path.chars = name

/-- A diff whose explanation is right. -/
structure Readable (diff : List FileDiff) : Prop where
  plain : ∀ line ∈ diff.flatMap FileDiff.hunkLines, line.Plain
  trimmed : ∀ file ∈ diff, trimText file.path.chars = file.path.chars
  stray : StraysNamed diff
  named : changedPaths (diff.filter FileDiff.namesPath) = changedPaths diff

-- ============================================================================
-- The lines of a diff
-- ============================================================================

section

variable {diff : List FileDiff} {file : FileDiff} {line : List Char} {content : HunkLine}

theorem DiffPath.newline_notMem (path : DiffPath) : '\n' ∉ path.chars := fun h =>
  absurd (path.plain _ h).1 (by decide)

theorem DiffPath.return_notMem (path : DiffPath) : '\r' ∉ path.chars := fun h =>
  absurd (path.plain _ h).1 (by decide)

theorem newline_notMem_toDigits (n : Nat) : '\n' ∉ Nat.toDigits 10 n := by
  intro h
  have hdigit : '\n'.isDigit = true := Nat.isDigit_of_mem_toDigits (by decide) (by decide) h
  exact absurd hdigit (by decide)

theorem newline_notMem_range (start count : Nat) : '\n' ∉ range start count := by
  unfold range
  split_ifs <;> simp [newline_notMem_toDigits]

theorem HunkLine.noNewlineLine_eq :
    ∃ rest, HunkLine.noNewlineLine = '\\' :: rest ∧ '\n' ∉ rest := by
  unfold HunkLine.noNewlineLine
  simp

theorem newline_notMem_content (content : HunkLine) : '\n' ∉ content.chars := by
  cases content with
  | noNewline =>
      obtain ⟨rest, heq, hrest⟩ := HunkLine.noNewlineLine_eq
      simp [HunkLine.chars, heq, hrest]
  | context text | added text | removed text => simp [HunkLine.chars, text.oneLine]

theorem Hunk.header_eq (hunk : Hunk) : ∃ rest, hunk.header = '@' :: rest := by
  unfold Hunk.header
  simp

theorem newline_notMem_hunk {hunk : Hunk} (h : line ∈ hunk.text) : '\n' ∉ line := by
  rcases List.mem_cons.mp h with rfl | h
  · have hheading := hunk.heading.oneLine
    unfold Hunk.header
    split_ifs <;> simp [newline_notMem_range, hheading]
  · obtain ⟨content, -, rfl⟩ := List.mem_map.mp h
    exact newline_notMem_content content

theorem newline_notMem_sides (file : FileDiff) :
    '\n' ∉ file.oldName ∧ '\n' ∉ file.newName ∧ ∀ name, '\n' ∉ FileDiff.tab name := by
  have hpath := file.path.newline_notMem
  refine ⟨?_, ?_, fun name => ?_⟩
  · unfold FileDiff.oldName
    split_ifs <;> simp [hpath]
  · unfold FileDiff.newName
    split_ifs <;> simp [hpath]
  · unfold FileDiff.tab
    split_ifs <;> simp

/-- The lines between the first line of a file's part and its two sides. -/
theorem mem_modeLines_indexLines (h : line ∈ file.modeLines ++ file.indexLines) :
    ∃ word ∈ ["old mode ", "new mode ", "new file mode ", "deleted file mode ", "index "],
      ∃ text : LineText, line = word.toList ++ text.chars := by
  rcases List.mem_append.mp h with hmode | hindex
  · unfold FileDiff.modeLines at hmode
    split at hmode
    · cases hmode
    · simp only [List.mem_cons, List.not_mem_nil, or_false] at hmode
      rcases hmode with rfl | rfl
      · exact ⟨"old mode ", by simp, _, rfl⟩
      · exact ⟨"new mode ", by simp, _, rfl⟩
    · exact ⟨"new file mode ", by simp, _, List.mem_singleton.mp hmode⟩
    · exact ⟨"deleted file mode ", by simp, _, List.mem_singleton.mp hmode⟩
  · obtain ⟨index, -, rfl⟩ := List.mem_map.mp hindex
    exact ⟨"index ", by simp, index, rfl⟩

theorem newline_notMem_lines (h : line ∈ file.lines) : '\n' ∉ line := by
  obtain ⟨hold, hnew, htab⟩ := newline_notMem_sides file
  rw [FileDiff.lines, List.mem_append, List.mem_cons, List.mem_append] at h
  rcases h with (hgit | hheader | hside) | hhunk
  · have hpath := file.path.newline_notMem
    subst hgit
    unfold FileDiff.gitLine
    simp [hpath]
  · obtain ⟨word, hword, text, rfl⟩ := mem_modeLines_indexLines hheader
    have htext := text.oneLine
    simp only [List.mem_cons, List.not_mem_nil, or_false] at hword
    rcases hword with rfl | rfl | rfl | rfl | rfl <;> simp [htext]
  · unfold FileDiff.sideLines at hside
    split at hside
    · cases hside
    · simp only [List.mem_singleton] at hside
      simp [hside, hold, hnew]
    · simp only [List.mem_cons, List.not_mem_nil, or_false] at hside
      rcases hside with rfl | rfl <;> simp [hold, hnew, htab]
  · obtain ⟨hunk, -, hline⟩ := List.mem_flatMap.mp hhunk
    exact newline_notMem_hunk hline

theorem lines_diffText (diff : List FileDiff) :
    lines (diffText diff).toList = (diff.flatMap FileDiff.lines).map stripReturn := by
  rw [diffText, String.toList_ofList]
  refine lines_unlines fun line hline => ?_
  obtain ⟨file, -, hfile⟩ := List.mem_flatMap.mp hline
  exact newline_notMem_lines hfile

-- ============================================================================
-- The counts
-- ============================================================================

theorem countsAdded_stripReturn (line : List Char) :
    countsAdded (stripReturn line) = countsAdded line := by
  have hheader : "+++".toList <+: stripReturn line ↔ "+++".toList <+: line :=
    prefix_stripReturn (by decide)
  have hplus : "+".toList <+: stripReturn line ↔ "+".toList <+: line :=
    prefix_stripReturn (by decide)
  simp only [countsAdded, hheader, hplus]

theorem countsRemoved_stripReturn (line : List Char) :
    countsRemoved (stripReturn line) = countsRemoved line := by
  have hheader : "---".toList <+: stripReturn line ↔ "---".toList <+: line :=
    prefix_stripReturn (by decide)
  have hminus : "-".toList <+: stripReturn line ↔ "-".toList <+: line :=
    prefix_stripReturn (by decide)
  simp only [countsRemoved, hheader, hminus]

theorem countsAdded_content : countsAdded content.chars ↔ content.isAdded ∧ content.Plain := by
  obtain ⟨rest, heq, -⟩ := HunkLine.noNewlineLine_eq
  cases content <;> simp [countsAdded, HunkLine.chars, heq, HunkLine.isAdded, HunkLine.Plain]

theorem countsRemoved_content :
    countsRemoved content.chars ↔ content.isRemoved ∧ content.Plain := by
  obtain ⟨rest, heq, -⟩ := HunkLine.noNewlineLine_eq
  cases content <;>
    simp [countsRemoved, HunkLine.chars, heq, HunkLine.isRemoved, HunkLine.Plain]

/-- The lines that are not of a hunk do not count. -/
theorem not_counted_header
    (h : line ∈ file.gitLine :: (file.modeLines ++ file.indexLines ++ file.sideLines)) :
    countsAdded line = false ∧ countsRemoved line = false := by
  rw [List.mem_cons, List.mem_append] at h
  rcases h with rfl | hheader | hside
  · unfold FileDiff.gitLine
    simp [countsAdded, countsRemoved]
  · obtain ⟨word, hword, text, rfl⟩ := mem_modeLines_indexLines hheader
    simp only [List.mem_cons, List.not_mem_nil, or_false] at hword
    rcases hword with rfl | rfl | rfl | rfl | rfl <;> simp [countsAdded, countsRemoved]
  · unfold FileDiff.sideLines at hside
    split at hside
    · cases hside
    · rw [List.mem_singleton.mp hside]
      simp [countsAdded, countsRemoved]
    · simp only [List.mem_cons, List.not_mem_nil, or_false] at hside
      rcases hside with rfl | rfl <;> simp [countsAdded, countsRemoved]

theorem not_counted_hunk_header (hunk : Hunk) :
    countsAdded hunk.header = false ∧ countsRemoved hunk.header = false := by
  obtain ⟨rest, heq⟩ := hunk.header_eq
  simp [heq, countsAdded, countsRemoved]

/-- The lines that pass a test which no header passes are lines of the hunks. -/
theorem filter_lines {p : List Char → Bool}
    (hheader : ∀ file : FileDiff, ∀ line ∈
      file.gitLine :: (file.modeLines ++ file.indexLines ++ file.sideLines), p line = false)
    (hhunk : ∀ hunk : Hunk, p hunk.header = false) (diff : List FileDiff) :
    (diff.flatMap FileDiff.lines).filter p =
      ((diff.flatMap FileDiff.hunkLines).map HunkLine.chars).filter p := by
  have hfile : ∀ file : FileDiff,
      file.lines.filter p = (file.hunkLines.map HunkLine.chars).filter p := by
    intro file
    rw [FileDiff.lines, List.filter_append, List.filter_eq_nil_iff.mpr, List.nil_append,
      FileDiff.hunkLines, List.map_flatMap, List.filter_flatMap, List.filter_flatMap]
    · refine List.flatMap_congr fun hunk _ => ?_
      rw [Hunk.text, List.filter_cons_of_neg (by simp [hhunk])]
    · intro line hline
      simp [hheader file line hline]
  rw [List.filter_flatMap, List.map_flatMap, List.filter_flatMap]
  exact List.flatMap_congr fun file _ => hfile file

/-- What is counted of a diff. -/
theorem countChanges_diffText (diff : List FileDiff) :
    countChanges (diffText diff) =
      ((diff.flatMap FileDiff.hunkLines).countP fun content => countsAdded content.chars,
        (diff.flatMap FileDiff.hunkLines).countP fun content => countsRemoved content.chars) := by
  have hadded : countsAdded ∘ stripReturn = countsAdded := funext countsAdded_stripReturn
  have hremoved : countsRemoved ∘ stripReturn = countsRemoved := funext countsRemoved_stripReturn
  rw [countChanges_eq, lines_diffText, List.countP_map, List.countP_map, hadded, hremoved]
  simp only [List.countP_eq_length_filter]
  rw [filter_lines (fun file line h => (not_counted_header h).1)
      (fun hunk => (not_counted_hunk_header hunk).1),
    filter_lines (fun file line h => (not_counted_header h).2)
      (fun hunk => (not_counted_hunk_header hunk).2)]
  simp only [List.filter_map, List.length_map]
  rfl

/-- The counts are right just when no line of a hunk looks like the header of a file. -/
theorem countChanges_diffText_iff :
    countChanges (diffText diff) = (addedCount diff, removedCount diff) ↔
      ∀ content ∈ diff.flatMap FileDiff.hunkLines, content.Plain := by
  rw [countChanges_diffText, Prod.mk.injEq, addedCount, removedCount,
    countP_eq_countP_iff fun _ h => (countsAdded_content.mp h).1,
    countP_eq_countP_iff fun _ h => (countsRemoved_content.mp h).1]
  constructor
  · rintro ⟨hadded, hremoved⟩ content hcontent
    cases content with
    | added text => exact (countsAdded_content.mp (hadded _ hcontent rfl)).2
    | removed text => exact (countsRemoved_content.mp (hremoved _ hcontent rfl)).2
    | context text | noNewline => trivial
  · intro h
    exact ⟨fun content hcontent hadded => countsAdded_content.mpr ⟨hadded, h _ hcontent⟩,
      fun content hcontent hremoved => countsRemoved_content.mpr ⟨hremoved, h _ hcontent⟩⟩

-- ============================================================================
-- The names
-- ============================================================================

/-- The paths that the lines of a file's part name, up to repetitions. -/
def FileDiff.names (self : FileDiff) : List (List Char) :=
  self.strayName.toList ++ if self.namesPath then [self.path.chars] else []

theorem lineFile_stripReturn_eq_none (hgit : ¬ "diff --git ".toList <+: line)
    (hnew : ¬ "+++ b/".toList <+: line) : lineFile (stripReturn line) = none :=
  lineFile_eq_none (mt (prefix_stripReturn (by decide)).mp hgit)
    (mt (prefix_stripReturn (by decide)).mp hnew)

theorem lineFile_content (h : content.Plain) : lineFile (stripReturn content.chars) = none := by
  obtain ⟨rest, heq, -⟩ := HunkLine.noNewlineLine_eq
  cases content with
  | added text =>
      refine lineFile_stripReturn_eq_none (by simp [HunkLine.chars]) fun hnew => h ?_
      have hshort : "+++".toList <+: "+++ b/".toList := by simp
      simpa [HunkLine.chars] using hshort.trans hnew
  | context text | removed text | noNewline =>
      exact lineFile_stripReturn_eq_none (by simp [HunkLine.chars, heq])
        (by simp [HunkLine.chars, heq])

/-- What the first line of a file's part names. -/
theorem lineFile_gitLine (file : FileDiff) :
    lineFile (stripReturn file.gitLine) =
      some (trimText ((secondPiece " b/".toList file.path.chars).getD file.path.chars)) := by
  have hreturn : '\r' ∉ file.gitLine := by
    have hpath := file.path.return_notMem
    unfold FileDiff.gitLine
    simp [hpath]
  have hrest : stripPrefix "diff --git ".toList file.gitLine =
      some ('a' :: '/' :: (file.path.chars ++ " b/".toList ++ file.path.chars)) := by
    unfold stripPrefix FileDiff.gitLine
    rw [if_pos (List.prefix_append _ _), List.drop_left]
    simp
  have hpat : " b/".toList = ' ' :: "b/".toList := by simp
  have hfirst : ' ' ∉ "b/".toList := by decide
  unfold lineFile
  rw [stripReturn_of_notMem hreturn, hrest]
  show (secondPiece " b/".toList _).map trimText = _
  rw [secondPiece_cons_of_ne hpat (by decide), secondPiece_cons_of_ne hpat (by decide)]
  cases hpiece : secondPiece " b/".toList file.path.chars with
  | none =>
      have hnot := secondPiece_eq_none_iff.mp hpiece
      rw [secondPiece_of_not_isInfix hpat hfirst hnot hnot]
      rfl
  | some piece =>
      rw [secondPiece_append hpat hfirst hpiece]
      rfl

/-- What the line of the new side names. -/
theorem lineFile_newSide (name : List Char) (htrim : trimText file.path.chars = file.path.chars) :
    lineFile (stripReturn ("+++ ".toList ++ ("b/".toList ++ file.path.chars) ++
      FileDiff.tab name)) = some file.path.chars := by
  have hreturn : '\r' ∉ "+++ ".toList ++ ("b/".toList ++ file.path.chars) ++
      FileDiff.tab name := by
    have hpath := file.path.return_notMem
    unfold FileDiff.tab
    split_ifs <;> simp [hpath]
  have hgit : stripPrefix "diff --git ".toList ("+++ ".toList ++ ("b/".toList ++
      file.path.chars) ++ FileDiff.tab name) = none := by
    unfold stripPrefix
    rw [if_neg (by simp)]
  have hrest : stripPrefix "+++ b/".toList ("+++ ".toList ++ ("b/".toList ++
      file.path.chars) ++ FileDiff.tab name) = some (file.path.chars ++ FileDiff.tab name) := by
    unfold stripPrefix
    rw [if_pos (by simp)]
    simp
  have hall : trimText (file.path.chars ++ FileDiff.tab name) = file.path.chars := by
    unfold FileDiff.tab
    split_ifs
    · exact (trim_concat (by decide)).trans htrim
    · rwa [List.append_nil]
  have hrelative : file.path.chars ≠ "/dev/null".toList := by
    intro h
    have hhead := file.path.relative
    rw [h] at hhead
    exact hhead (by simp)
  unfold lineFile
  rw [stripReturn_of_notMem hreturn, hgit, hrest]
  show (if trimText (file.path.chars ++ FileDiff.tab name) ≠ "/dev/null".toList then _ else _) = _
  rw [hall, if_pos hrelative]

theorem named_sideLines (htrim : trimText file.path.chars = file.path.chars) :
    named (file.sideLines.map stripReturn) =
      if file.hasNewSide then [file.path.chars] else [] := by
  unfold FileDiff.sideLines FileDiff.hasNewSide
  cases file.body with
  | none => rfl
  | binary => exact named_eq_nil (by simp [lineFile_stripReturn_eq_none])
  | text hunks =>
      have hold : lineFile (stripReturn ("--- ".toList ++ file.oldName ++
          FileDiff.tab file.oldName)) = none :=
        lineFile_stripReturn_eq_none (by simp) (by simp)
      rw [List.map_cons, List.map_cons, List.map_nil, named_cons, named_cons, hold]
      by_cases hdeleted : file.change = .deleted
      · have hnew : file.newName = "/dev/null".toList := if_pos hdeleted
        rw [hnew, lineFile_stripReturn_eq_none (by simp) (by simp)]
        simp [hdeleted, named]
      · have hnew : file.newName = "b/".toList ++ file.path.chars := if_neg hdeleted
        have hne := file.path.ne_nil
        rw [hnew, lineFile_newSide _ htrim]
        simp [hdeleted, named, Option.filter, hne]

/-- The lines of a file's part name the stray name, and the path when one of them does. -/
theorem distinct_named_lines (hplain : ∀ content ∈ file.hunkLines, content.Plain)
    (htrim : trimText file.path.chars = file.path.chars) :
    distinct (named (file.lines.map stripReturn)) = distinct file.names := by
  have hheader : named ((file.modeLines ++ file.indexLines).map stripReturn) = [] := by
    refine named_eq_nil fun line hline => ?_
    obtain ⟨header, hmem, rfl⟩ := List.mem_map.mp hline
    obtain ⟨word, hword, text, rfl⟩ := mem_modeLines_indexLines hmem
    simp only [List.mem_cons, List.not_mem_nil, or_false] at hword
    rcases hword with rfl | rfl | rfl | rfl | rfl <;>
      exact lineFile_stripReturn_eq_none (by simp) (by simp)
  have hhunks : named ((file.hunks.flatMap Hunk.text).map stripReturn) = [] := by
    refine named_eq_nil fun line hline => ?_
    obtain ⟨text, htext, rfl⟩ := List.mem_map.mp hline
    obtain ⟨hunk, hhunk, hmem⟩ := List.mem_flatMap.mp htext
    rcases List.mem_cons.mp hmem with rfl | hmem
    · obtain ⟨rest, heq⟩ := hunk.header_eq
      exact lineFile_stripReturn_eq_none (by simp [heq]) (by simp [heq])
    · obtain ⟨content, hcontent, rfl⟩ := List.mem_map.mp hmem
      exact lineFile_content (hplain _ (List.mem_flatMap.mpr ⟨hunk, hhunk, hcontent⟩))
  have hne := file.path.ne_nil
  rw [FileDiff.lines, List.map_append, List.map_cons, List.map_append, named_append, named_cons,
    named_append, hheader, hhunks, List.nil_append, List.append_nil, named_sideLines htrim,
    lineFile_gitLine]
  unfold FileDiff.names FileDiff.strayName FileDiff.namesPath
  cases secondPiece " b/".toList file.path.chars with
  | none =>
      -- The first line names the path, and the line of the new side may do so again.
      have hagain : (if file.hasNewSide then [file.path.chars] else []) ⊆ [file.path.chars] := by
        split_ifs <;> simp
      simpa [htrim, hne, Option.filter] using distinct_append_of_subset hagain
  | some piece => simp [Option.filter]

theorem changedFiles_diffText
    (hplain : ∀ content ∈ diff.flatMap FileDiff.hunkLines, content.Plain)
    (htrim : ∀ file ∈ diff, trimText file.path.chars = file.path.chars) :
    changedFiles (diffText diff) = distinct (diff.flatMap FileDiff.names) := by
  rw [changedFiles_eq, lines_diffText, List.map_flatMap, named_flatMap]
  refine distinct_flatMap_congr fun file hfile => ?_
  exact distinct_named_lines
    (fun content hcontent => hplain _ (List.mem_flatMap.mpr ⟨file, hfile, hcontent⟩))
    (htrim file hfile)

theorem straysNamed_concat : StraysNamed (diff ++ [file]) ↔
    StraysNamed diff ∧ ∀ name ∈ file.strayName,
      ∃ earlier ∈ diff, earlier.namesPath ∧ earlier.path.chars = name := by
  constructor
  · intro h
    refine ⟨fun before earlier after hdiff => ?_, h diff file [] rfl⟩
    exact h before earlier (after ++ [file]) (by simp [hdiff])
  · rintro ⟨hbefore, hlast⟩ before earlier after hdiff
    rcases List.eq_nil_or_concat after with rfl | ⟨rest, last, rfl⟩
    · obtain ⟨rfl, heq⟩ := List.append_inj' hdiff rfl
      obtain rfl := List.head_eq_of_cons_eq heq
      exact hlast
    · rw [List.concat_eq_append, ← List.cons_append, ← List.append_assoc] at hdiff
      obtain ⟨rfl, -⟩ := List.append_inj' hdiff rfl
      exact hbefore before earlier rest rfl

/-- What is named besides the paths is there already. -/
theorem distinct_names (h : StraysNamed diff) :
    distinct (diff.flatMap FileDiff.names) = changedPaths (diff.filter FileDiff.namesPath) := by
  induction diff using List.reverseRecOn with
  | nil => rfl
  | append_singleton before file ih =>
      obtain ⟨hbefore, hstray⟩ := straysNamed_concat.mp h
      have hold := ih hbefore
      have hsub : file.strayName.toList ⊆ before.flatMap FileDiff.names := by
        intro name hname
        obtain ⟨earlier, hmem, hnamed, hpath⟩ := hstray name (Option.mem_toList.mp hname)
        rw [← mem_distinct, hold, changedPaths, mem_distinct]
        exact List.mem_map.mpr ⟨earlier, List.mem_filter.mpr ⟨hmem, hnamed⟩, hpath⟩
      rw [List.flatMap_append, List.flatMap_singleton, FileDiff.names, ← List.append_assoc]
      rw [distinct_append_congr (distinct_append_of_subset hsub) rfl,
        distinct_append_congr hold rfl, changedPaths, List.filter_append, List.map_append]
      by_cases hnamed : file.namesPath <;> simp [hnamed]

theorem mem_names_iff (h : StraysNamed diff) {path : List Char} :
    path ∈ diff.flatMap FileDiff.names ↔
      ∃ file ∈ diff, file.namesPath ∧ file.path.chars = path := by
  rw [← mem_distinct, distinct_names h, changedPaths, mem_distinct]
  simp only [List.mem_map, List.mem_filter, and_assoc]

theorem not_infix_of_strayName {name : List Char} (h : name ∈ file.strayName) :
    ¬ " b/".toList <:+: name := by
  obtain ⟨hmem, -⟩ := Option.mem_filter_iff.mp h
  obtain ⟨piece, hpiece, rfl⟩ := Option.map_eq_some_iff.mp hmem
  exact fun hname => not_infix_of_secondPiece (by simp) hpiece (hname.trans trim_infix)

/-- A file whose path is a stray name has none itself, and names its path. -/
theorem namesPath_of_stray {stray : FileDiff} (h : stray.path.chars ∈ file.strayName) :
    stray.namesPath ∧ stray.strayName = none := by
  have hnone : secondPiece " b/".toList stray.path.chars = none :=
    secondPiece_eq_none_iff.mpr (not_infix_of_strayName h)
  constructor
  · rw [FileDiff.namesPath, hnone]
    rfl
  · rw [FileDiff.strayName, hnone]
    rfl

/-- When the listed paths are the changed ones, the stray names are paths of earlier files:
    a stray name is listed no later than the path of its own file, so where it is a path,
    that is of a file before. -/
theorem straysNamed_of_names
    (h : distinct (diff.flatMap FileDiff.names) = changedPaths diff) : StraysNamed diff := by
  suffices hprefix : ∀ before after, diff = before ++ after → StraysNamed before from
    hprefix diff [] (List.append_nil _).symm
  intro before
  induction before using List.reverseRecOn with
  | nil => exact fun _ _ before file after hnil => absurd hnil (by simp)
  | append_singleton before file ih =>
      intro after hdiff
      have hbefore : StraysNamed before := ih (file :: after) (by simpa using hdiff)
      refine straysNamed_concat.mpr ⟨hbefore, fun name hname => ?_⟩
      by_contra hnot
      have hbehind : distinct (before.flatMap FileDiff.names) ++ [name] <+: changedPaths diff := by
        rw [← distinct_concat (mt (mem_names_iff hbefore).mp hnot), ← h]
        refine distinct_isPrefix ⟨(if file.namesPath then [file.path.chars] else []) ++
          after.flatMap FileDiff.names, ?_⟩
        have hstray : file.strayName.toList = [name] := by rw [Option.mem_def.mp hname]; rfl
        rw [hdiff, List.flatMap_append, List.flatMap_append, List.flatMap_singleton,
          FileDiff.names, hstray]
        simp
      have hpaths : changedPaths (before ++ [file]) <+: changedPaths diff :=
        distinct_isPrefix (List.IsPrefix.map _ ⟨after, hdiff.symm⟩)
      -- No file so far has the stray name for its path: it would have listed it.
      have hnotpath : name ∉ changedPaths (before ++ [file]) := by
        intro hmem
        obtain ⟨earlier, hearlier, rfl⟩ := List.mem_map.mp (mem_distinct.mp hmem)
        obtain ⟨hnamed, hnone⟩ := namesPath_of_stray hname
        rcases List.mem_append.mp hearlier with hin | hself
        · exact hnot ⟨earlier, hin, hnamed, rfl⟩
        · obtain rfl := List.mem_singleton.mp hself
          rw [hnone] at hname
          cases hname
      -- So the path of the file is listed before it, by one with the same stray name.
      have hpath : file.path.chars ∈ before.flatMap FileDiff.names := by
        rw [← mem_distinct]
        exact (prefix_of_notMem hpaths hbehind hnotpath).subset (by simp [changedPaths])
      obtain ⟨earlier, hearlier, -, hsame⟩ := (mem_names_iff hbefore).mp hpath
      obtain ⟨first, rest, rfl⟩ := List.append_of_mem hearlier
      have hstray : name ∈ earlier.strayName := by
        unfold FileDiff.strayName at hname ⊢
        rwa [hsame]
      obtain ⟨origin, hmem, horigin⟩ := hbefore first earlier rest rfl name hstray
      exact hnot ⟨origin, List.mem_append_left _ hmem, horigin⟩

-- ============================================================================
-- The explanation
-- ============================================================================

theorem isBlank_diffText (h : diff ≠ []) : isBlank (diffText diff) = false := by
  cases diff with
  | nil => exact absurd rfl h
  | cons file diff =>
      have hfirst : isWhitespace 'd' = false := by decide
      unfold isBlank diffText FileDiff.lines FileDiff.gitLine
      simp [unlines, hfirst]

/-- The explanation is right just when what is scanned off the text is. -/
theorem explains_iff_scan (h : diff ≠ []) :
    Explains diff (buildExplanation (diffText diff)) ↔
      changedFiles (diffText diff) = changedPaths diff ∧
        countChanges (diffText diff) = (addedCount diff, removedCount diff) := by
  have hbuild : buildExplanation (diffText diff) =
      { files := (changedFiles (diffText diff)).map modified
        summary := summarize (changedFiles (diffText diff)).length
          (countChanges (diffText diff)).1 (countChanges (diffText diff)).2 } := by
    rw [buildExplanation, isBlank_diffText h]
    rfl
  have hpaths (files : List (List Char)) :
      (files.map modified).map FileExplanation.path = files.map String.ofList := by
    rw [List.map_map]
    rfl
  rw [hbuild]
  constructor
  · rintro ⟨hfiles, hsummary⟩
    rw [hpaths] at hfiles
    have heq := List.map_injective_iff.mpr (fun _ _ => String.ofList_injective) hfiles
    have hcounts := hsummary h
    rw [heq] at hcounts
    exact ⟨heq, Prod.ext_iff.mpr (summarize_inj.mp hcounts)⟩
  · rintro ⟨hfiles, hcounts⟩
    rw [hfiles, hcounts]
    exact ⟨hpaths _, fun _ => rfl⟩

theorem buildExplanation_nil : buildExplanation (diffText []) = .empty := by
  simp [buildExplanation, isBlank, diffText, unlines]

/-- The explanation of a diff lists its changed paths and tells its counts just when the
    diff is readable. -/
theorem explains_iff (diff : List FileDiff) :
    Explains diff (buildExplanation (diffText diff)) ↔ Readable diff := by
  by_cases hdiff : diff = []
  · subst hdiff
    rw [buildExplanation_nil]
    constructor
    · intro _
      exact ⟨by simp, by simp, fun before file after hnil => absurd hnil (by simp), rfl⟩
    · intro _
      exact ⟨rfl, fun hne => absurd rfl hne⟩
  rw [explains_iff_scan hdiff, countChanges_diffText_iff]
  constructor
  · rintro ⟨hfiles, hplain⟩
    have htrim : ∀ file ∈ diff, trimText file.path.chars = file.path.chars := by
      intro file hfile
      have hmem : file.path.chars ∈ changedFiles (diffText diff) := by
        rw [hfiles, changedPaths, mem_distinct]
        exact List.mem_map_of_mem hfile
      rw [changedFiles_eq, mem_distinct] at hmem
      obtain ⟨line, -, hline⟩ := List.mem_filterMap.mp (List.mem_of_mem_filter hmem)
      exact trimText_of_lineFile hline
    rw [changedFiles_diffText hplain htrim] at hfiles
    have hstray := straysNamed_of_names hfiles
    exact ⟨hplain, htrim, hstray, (distinct_names hstray).symm.trans hfiles⟩
  · rintro ⟨hplain, htrim, hstray, hnamed⟩
    rw [changedFiles_diffText hplain htrim, distinct_names hstray]
    exact ⟨hnamed, hplain⟩

end

/-- The removal of a comment from a query: its content begins with `--`. -/
def commentRemoved : FileDiff where
  path := ⟨"q.sql".toList, by simp, by simp, by simp⟩
  change := .modified
  modes := none
  index := none
  body := .text [{
    oldStart := 1
    newStart := 1
    heading := ⟨[], by simp⟩
    lines := [.removed ⟨"-- all".toList, by simp⟩, .context ⟨"SELECT 1;".toList, by simp⟩] }]

/-- The scan takes the removed comment for the header of a file. -/
theorem removed_comment_not_counted :
    ¬ Explains [commentRemoved] (buildExplanation (diffText [commentRemoved])) := by
  intro h
  have hcounts := ((explains_iff_scan (by simp)).mp h).2
  have hremoved : HunkLine.removed ⟨"-- all".toList, by simp⟩ ∈
      [commentRemoved].flatMap FileDiff.hunkLines := by
    simp [commentRemoved, FileDiff.hunkLines, FileDiff.hunks]
  exact countChanges_diffText_iff.mp hcounts _ hremoved (by simp)

end Spectty.Diff
