/-
  Spectty.Adapters.OutputSignal

  The normalized view of recent terminal output, and its producer: an ANSI
  stripper feeding a bounded rolling window of bytes, decoded lossily when a
  snapshot is taken.

  `fromUtf8Lossy` is the standard library's lossy decoding: each maximal
  ill-formed prefix of a character becomes one replacement character.
-/

import Spectty.Core.Session

namespace Spectty.Adapters

open Spectty.Core

/-- A normalized, decoded view of recent output. -/
structure OutputSignal where
  textWindow : String
  isActive : Bool
  exitCode : Option Int
  lastByteAt : Timestamp
  idleMs : Nat
deriving DecidableEq, Repr

/-- A pre-canned answer the UI can offer. -/
structure QuickAction where
  id : String
  label : String
  bytes : List UInt8
deriving DecidableEq, Repr

-- ============================================================================
-- Lossy decoding
-- ============================================================================

/-- A UTF-8 continuation byte. -/
def isContinuation (b : UInt8) : Bool := b &&& 0xC0 = 0x80

/-- The replacement character. -/
def replacement : Char := Char.ofNat 0xFFFD

/-- The second byte `c` may follow the first byte `b` of a character of three
    or four bytes. -/
def secondOk (b c : UInt8) : Bool :=
  if b = 0xE0 then 0xA0 ≤ c ∧ c ≤ 0xBF
  else if b = 0xED then 0x80 ≤ c ∧ c ≤ 0x9F
  else if b = 0xF0 then 0x90 ≤ c ∧ c ≤ 0xBF
  else if b = 0xF4 then 0x80 ≤ c ∧ c ≤ 0x8F
  else isContinuation c

/-- The character with leading bits `lead` and the given continuation bytes. -/
def charOf (lead : Nat) (tail : List UInt8) : Char :=
  Char.ofNat (tail.foldl (fun acc c => acc * 64 + (c.toNat - 0x80)) lead)

/-- Decode bytes, with a replacement character for each maximal ill-formed
    prefix. -/
def fromUtf8Lossy : List UInt8 → List Char
  | [] => []
  | b :: rest =>
      if b < 0x80 then Char.ofNat b.toNat :: fromUtf8Lossy rest
      else if 0xC2 ≤ b ∧ b ≤ 0xDF then
        match rest with
        | [] => [replacement]
        | c :: rest₁ =>
            if isContinuation c then charOf (b.toNat - 0xC0) [c] :: fromUtf8Lossy rest₁
            else replacement :: fromUtf8Lossy (c :: rest₁)
      else if 0xE0 ≤ b ∧ b ≤ 0xEF then
        match rest with
        | [] => [replacement]
        | c :: rest₁ =>
            if secondOk b c then
              match rest₁ with
              | [] => [replacement]
              | d :: rest₂ =>
                  if isContinuation d then
                    charOf (b.toNat - 0xE0) [c, d] :: fromUtf8Lossy rest₂
                  else replacement :: fromUtf8Lossy (d :: rest₂)
            else replacement :: fromUtf8Lossy (c :: rest₁)
      else if 0xF0 ≤ b ∧ b ≤ 0xF4 then
        match rest with
        | [] => [replacement]
        | c :: rest₁ =>
            if secondOk b c then
              match rest₁ with
              | [] => [replacement]
              | d :: rest₂ =>
                  if isContinuation d then
                    match rest₂ with
                    | [] => [replacement]
                    | e :: rest₃ =>
                        if isContinuation e then
                          charOf (b.toNat - 0xF0) [c, d, e] :: fromUtf8Lossy rest₃
                        else replacement :: fromUtf8Lossy (e :: rest₃)
                  else replacement :: fromUtf8Lossy (d :: rest₂)
            else replacement :: fromUtf8Lossy (c :: rest₁)
      else replacement :: fromUtf8Lossy rest

/-- ASCII bytes decode to themselves. -/
theorem fromUtf8Lossy_ascii {bytes : List UInt8} (h : ∀ b ∈ bytes, b < 0x80) :
    fromUtf8Lossy bytes = bytes.map fun b => Char.ofNat b.toNat := by
  induction bytes with
  | nil => simp [fromUtf8Lossy]
  | cons b bytes ih =>
      have hb : b < 0x80 := h b (by simp)
      rw [fromUtf8Lossy.eq_def]
      simp only [if_pos hb]
      rw [ih fun c hc => h c (by simp [hc]), List.map_cons]

-- ============================================================================
-- The producer
-- ============================================================================

/-- Where the ANSI stripper is inside an escape sequence. -/
inductive AnsiState where
  | ground
  | esc
  | csi
  | osc
  | oscEsc
deriving DecidableEq, Repr

/-- The ANSI stripper and its rolling window. -/
structure OutputSignalProducer where
  window : List UInt8
  ansiState : AnsiState
  windowBytes : Nat
  exitCode : Option Int
deriving DecidableEq, Repr

namespace OutputSignalProducer

def new (windowBytes : Nat) : OutputSignalProducer where
  window := []
  ansiState := .ground
  windowBytes := windowBytes
  exitCode := none

/-- Append a printable byte; control bytes other than `\n`, `\r`, `\t` are
    dropped. -/
def pushPrintable (self : OutputSignalProducer) (byte : UInt8) : OutputSignalProducer :=
  if byte = 0x0A ∨ byte = 0x0D ∨ byte = 0x09 ∨ 0x20 ≤ byte then
    { self with window := self.window ++ [byte] }
  else self

/-- Advance the ANSI state machine by one byte. -/
def step (self : OutputSignalProducer) (byte : UInt8) : OutputSignalProducer :=
  match self.ansiState with
  | .ground =>
      if byte = 0x1B then { self with ansiState := .esc } else self.pushPrintable byte
  | .esc =>
      if byte = 0x5B then { self with ansiState := .csi }
      else if byte = 0x5D then { self with ansiState := .osc }
      else { self with ansiState := .ground }
  | .csi => if 0x40 ≤ byte ∧ byte ≤ 0x7E then { self with ansiState := .ground } else self
  | .osc =>
      if byte = 0x07 then { self with ansiState := .ground }
      else if byte = 0x1B then { self with ansiState := .oscEsc }
      else self
  | .oscEsc =>
      if byte = 0x5C then { self with ansiState := .ground }
      else if byte ≠ 0x1B then { self with ansiState := .osc }
      else self

/-- Drop the oldest bytes over the cap, then any continuation bytes left at
    the front. -/
def truncateWindow (self : OutputSignalProducer) : OutputSignalProducer :=
  if self.window.length ≤ self.windowBytes then self
  else
    let cut := self.window.length - self.windowBytes
    { self with window := (self.window.drop cut).dropWhile isContinuation }

/-- Fold one raw chunk in. -/
def ingest (self : OutputSignalProducer) (raw : List UInt8) : OutputSignalProducer :=
  (raw.foldl step self).truncateWindow

/-- Record the exit code. -/
def markExit (self : OutputSignalProducer) (code : Int) : OutputSignalProducer :=
  { self with exitCode := some code }

/-- The signal of the current window and the caller's clock fields. -/
def snapshot (self : OutputSignalProducer) (lastByteAt : Timestamp) (idleMs : Nat)
    (isActive : Bool) : OutputSignal where
  textWindow := String.ofList (fromUtf8Lossy self.window)
  isActive := isActive
  exitCode := self.exitCode
  lastByteAt := lastByteAt
  idleMs := idleMs

variable {self : OutputSignalProducer}

@[simp] theorem exitCode_new (windowBytes : Nat) : (new windowBytes).exitCode = none := rfl

@[simp] theorem exitCode_step (byte : UInt8) : (self.step byte).exitCode = self.exitCode := by
  unfold step pushPrintable
  repeat' split
  all_goals rfl

/-- Ingesting never touches the exit code. -/
@[simp] theorem exitCode_ingest (raw : List UInt8) :
    (self.ingest raw).exitCode = self.exitCode := by
  have hfold : ∀ p : OutputSignalProducer, (raw.foldl step p).exitCode = p.exitCode := by
    induction raw with
    | nil => intro p; rfl
    | cons byte raw ih =>
        intro p
        rw [List.foldl_cons, ih, exitCode_step]
  unfold ingest truncateWindow
  split
  · exact hfold self
  · exact hfold self

end OutputSignalProducer

end Spectty.Adapters
