/-
  Spectty.Ui.OutputChannel

  The channel that brings a session's output to its terminal, and the bytes that cross
  it and the input command.

  The channel exists before the terminal: what arrives meanwhile is buffered, and
  `drainTo` hands it to the terminal that mounts.  `deliver_conserves` and
  `drainTo_conserves` are the laws of one step: the bytes are written in order, or wait.
-/

import Spectty.Lib.Machine

namespace Spectty.Ui

open Spectty.Lib

-- ============================================================================
-- The wire
-- ============================================================================

/-- A message of a channel, by the shape in which it arrives. -/
inductive ChannelMessage where
  | uint8Array (bytes : List UInt8)
  | arrayBuffer (bytes : List UInt8)
  | array (items : List Int)
  | view (bytes : List UInt8)
  | other (tag : String)
deriving DecidableEq, Repr

/-- A number as an element of a byte array. -/
def toUint8 (n : Int) : UInt8 := UInt8.ofNat (n % 256).toNat

/-- The bytes of a message, whichever shape it has. -/
def decodeChannelBytes : ChannelMessage → Except String (List UInt8)
  | .uint8Array bytes => .ok bytes
  | .arrayBuffer bytes => .ok bytes
  | .array items => .ok (items.map toUint8)
  | .view bytes => .ok bytes
  | .other tag => .error ("unexpected pty channel payload shape: " ++ tag)

/-- The numbers of some bytes: a `Vec<u8>` on the wire. -/
def byteNumbers (bytes : List UInt8) : List Int := bytes.map fun b => (b.toNat : Int)

/-- A `Vec<u8>` argument read from the wire. -/
def readBytes (items : List Int) : Option (List UInt8) :=
  items.mapM fun n => if 0 ≤ n ∧ n < 256 then some (UInt8.ofNat n.toNat) else none

@[simp] theorem toUint8_toNat (b : UInt8) : toUint8 b.toNat = b := by
  have hb := b.toNat_lt
  have hmod : ((b.toNat : Int) % 256).toNat = b.toNat := by omega
  rw [toUint8, hmod, UInt8.ofNat_toNat]

/-- A chunk of output arrives as it was sent. -/
@[simp] theorem decode_byteNumbers (bytes : List UInt8) :
    decodeChannelBytes (.array (byteNumbers bytes)) = .ok bytes := by
  have hmap : (byteNumbers bytes).map toUint8 = bytes := by
    rw [byteNumbers, List.map_map]
    exact (List.map_congr_left fun b _ => toUint8_toNat b).trans (List.map_id _)
  rw [decodeChannelBytes, hmap]

/-- A piece of input arrives as it was typed. -/
@[simp] theorem readBytes_byteNumbers (bytes : List UInt8) :
    readBytes (byteNumbers bytes) = some bytes := by
  induction bytes with
  | nil => rfl
  | cons b bytes ih =>
      have hb := b.toNat_lt
      have hrest : (List.map (fun b : UInt8 => (b.toNat : Int)) bytes).mapM
          (fun n => if 0 ≤ n ∧ n < 256 then some (UInt8.ofNat n.toNat) else none) =
            some bytes := ih
      rw [readBytes, byteNumbers, List.map_cons, List.mapM_cons, hrest,
        if_pos (by omega), Int.toNat_natCast, UInt8.ofNat_toNat]
      rfl

-- ============================================================================
-- The channel
-- ============================================================================

/-- A buffered output channel: what waits for a terminal, and the terminal it is
    wired to. -/
structure BufferedOutputChannel (T : Type) where
  buffer : List (List UInt8)
  sink : Option T
  wired : sink ≠ none → buffer = []

/-- A call of a terminal's `write`. -/
abbrev Write (T : Type) := T × List UInt8

namespace BufferedOutputChannel

variable {T : Type}

/-- `createBufferedOutputChannel`. -/
def create : BufferedOutputChannel T where
  buffer := []
  sink := none
  wired := fun h => absurd rfl h

/-- Decoded bytes arrive: they go to the terminal, or wait for one. -/
def deliver (self : BufferedOutputChannel T) (bytes : List UInt8) :
    List (Write T) × BufferedOutputChannel T :=
  match self.sink with
  | some terminal => ([(terminal, bytes)], self)
  | none =>
      ([], { buffer := self.buffer ++ [bytes], sink := none, wired := fun h => absurd rfl h })

/-- A message arrives; one of an unknown shape throws. -/
def onMessage (self : BufferedOutputChannel T) (message : ChannelMessage) :
    List (Write T) × BufferedOutputChannel T :=
  match decodeChannelBytes message with
  | .ok bytes => self.deliver bytes
  | .error _ => ([], self)

/-- Hand what is buffered to a terminal, and wire the channel to it. -/
def drainTo (self : BufferedOutputChannel T) (terminal : T) :
    List (Write T) × BufferedOutputChannel T :=
  (self.buffer.map fun chunk => (terminal, chunk),
    { buffer := [], sink := some terminal, wired := fun _ => rfl })

variable {self : BufferedOutputChannel T} {terminal : T} {bytes : List UInt8}

theorem deliver_of_none (h : self.sink = none) :
    (self.deliver bytes).1 = [] ∧ (self.deliver bytes).2.buffer = self.buffer ++ [bytes] ∧
      (self.deliver bytes).2.sink = none := by
  unfold deliver
  rw [h]
  exact ⟨rfl, rfl, rfl⟩

theorem deliver_of_some (h : self.sink = some terminal) :
    self.deliver bytes = ([(terminal, bytes)], self) := by
  unfold deliver
  rw [h]

@[simp] theorem sink_deliver : (self.deliver bytes).2.sink = self.sink := by
  cases hsink : self.sink with
  | none => exact (deliver_of_none hsink).2.2
  | some terminal => rw [deliver_of_some hsink, hsink]

/-- The bytes that some writes hand to their terminals. -/
def bytesOf (writes : List (Write T)) : List UInt8 := (writes.map Prod.snd).flatten

@[simp] theorem bytesOf_nil : bytesOf ([] : List (Write T)) = [] := rfl

@[simp] theorem bytesOf_append (writes writes' : List (Write T)) :
    bytesOf (writes ++ writes') = bytesOf writes ++ bytesOf writes' := by
  simp [bytesOf]

/-- Bytes that arrive are written after those that wait, or wait after them. -/
theorem deliver_conserves (self : BufferedOutputChannel T) (bytes : List UInt8) :
    self.buffer.flatten ++ bytes =
      bytesOf (self.deliver bytes).1 ++ (self.deliver bytes).2.buffer.flatten := by
  cases hsink : self.sink with
  | none =>
      obtain ⟨hwrites, hbuffer, -⟩ := @deliver_of_none _ self bytes hsink
      rw [hwrites, hbuffer, List.flatten_append, List.flatten_singleton]
      rfl
  | some terminal =>
      have hempty : self.buffer = [] := self.wired (by simp [hsink])
      rw [deliver_of_some hsink, hempty]
      simp [bytesOf]

/-- A drain writes what waits. -/
theorem drainTo_conserves (self : BufferedOutputChannel T) (terminal : T) :
    self.buffer.flatten =
      bytesOf (self.drainTo terminal).1 ++ (self.drainTo terminal).2.buffer.flatten := by
  simp [drainTo, bytesOf, Function.comp_def]

end BufferedOutputChannel

end Spectty.Ui
