/-
  Spectty.Lib.JsonText

  A JSON text layer: the compact writer (no blanks, the short escapes, other
  control characters as `\u00xx`) and a recursive-descent reader for what it
  writes.  `parseValue_put` is the round trip, by structural recursion on the
  document; it gives `SerdeJson.compact`, an instance of `SerdeJson`.

  The writer is in difference form: `put j r` is the text of `j` followed by
  `r`, so no proof reassociates appends.
-/

import Spectty.Lib.Json

namespace Spectty.Lib
namespace JsonText

-- ============================================================================
-- Numbers
-- ============================================================================

/-- The decimal text of an integer, before `r`. -/
def putInt (n : Int) (r : List Char) : List Char :=
  if n < 0 then '-' :: (Nat.toDigits 10 n.natAbs ++ r) else Nat.toDigits 10 n.natAbs ++ r

/-- Read a nonempty run of decimal digits. -/
def parseNat (cs : List Char) : Option (Nat × List Char) :=
  let ds := cs.takeWhile Char.isDigit
  if ds = [] then none else some (Nat.ofDigitChars 10 ds 0, cs.dropWhile Char.isDigit)

/-- Read an integer. -/
def parseInt : List Char → Option (Int × List Char)
  | '-' :: cs => (parseNat cs).map fun (n, r) => (-(n : Int), r)
  | cs => (parseNat cs).map fun (n, r) => ((n : Int), r)

/-- The rest of a text does not continue a number. -/
def NumEnd (r : List Char) : Prop := ∀ c ∈ r.head?, c.isDigit = false ∧ c ≠ 'e'

theorem numEnd_cons {c : Char} {r : List Char} (h : c.isDigit = false ∧ c ≠ 'e') :
    NumEnd (c :: r) := by
  simpa [NumEnd] using h

theorem parseNat_toDigits (n : Nat) {r : List Char} (hr : ∀ c ∈ r.head?, c.isDigit = false) :
    parseNat (Nat.toDigits 10 n ++ r) = some (n, r) := by
  have hd : ∀ c ∈ Nat.toDigits 10 n, c.isDigit = true := fun c hc =>
    Nat.isDigit_of_mem_toDigits (by decide) (by decide) hc
  have htake : r.takeWhile Char.isDigit = [] := by
    cases r with
    | nil => rfl
    | cons c r => simp [hr c (by simp)]
  have hdrop : r.dropWhile Char.isDigit = r := by
    cases r with
    | nil => rfl
    | cons c r => simp [hr c (by simp)]
  rw [parseNat, List.takeWhile_append_of_pos hd, List.dropWhile_append_of_pos hd, htake, hdrop]
  simp [Nat.toDigits_ne_nil]

/-- The first character of a written number starts no other kind of value. -/
theorem head_toDigits (n : Nat) :
    ∃ c ds, Nat.toDigits 10 n = c :: ds ∧ c.isDigit = true := by
  cases h : Nat.toDigits 10 n with
  | nil => exact absurd h Nat.toDigits_ne_nil
  | cons c ds =>
      exact ⟨c, ds, rfl, Nat.isDigit_of_mem_toDigits (b := 10) (n := n) (by decide) (by decide)
        (by rw [h]; simp)⟩

theorem parseInt_putInt (n : Int) {r : List Char} (hr : ∀ c ∈ r.head?, c.isDigit = false) :
    parseInt (putInt n r) = some (n, r) := by
  unfold putInt
  split
  case isTrue hneg =>
      have habs : -(n.natAbs : Int) = n := by omega
      simp only [parseInt, parseNat_toDigits _ hr, Option.map_some, habs]
  case isFalse hpos =>
      obtain ⟨c, ds, hds, hc⟩ := head_toDigits n.natAbs
      have hne : c ≠ '-' := by rintro rfl; revert hc; decide
      have hcall : parseInt (Nat.toDigits 10 n.natAbs ++ r) =
          (parseNat (Nat.toDigits 10 n.natAbs ++ r)).map fun (n, r) => ((n : Int), r) := by
        rw [hds, List.cons_append]
        unfold parseInt
        split
        · rename_i h
          exact absurd (List.cons.inj h).1 hne
        · rfl
      have habs : (n.natAbs : Int) = n := by omega
      simp only [hcall, parseNat_toDigits _ hr, Option.map_some, habs]

/-- Read a number: an integer, or an integer with an exponent. -/
def parseNumber (cs : List Char) : Option (Json × List Char) :=
  match parseInt cs with
  | some (m, 'e' :: r) => (parseInt r).map fun (e, r) => (.float m e, r)
  | some (m, r) => some (.int m, r)
  | none => none

theorem parseNumber_int (n : Int) {r : List Char} (hr : NumEnd r) :
    parseNumber (putInt n r) = some (.int n, r) := by
  unfold parseNumber
  rw [parseInt_putInt n fun c hc => (hr c hc).1]
  split
  · rename_i h
    obtain ⟨-, rfl⟩ : _ ∧ r = _ := by simpa using h
    exact absurd rfl (hr 'e' (by simp)).2
  · rename_i h
    obtain ⟨rfl, rfl⟩ : n = _ ∧ r = _ := by simpa using h
    rfl
  · rename_i h
    simp at h

theorem parseNumber_float (m e : Int) {r : List Char} (hr : NumEnd r) :
    parseNumber (putInt m ('e' :: putInt e r)) = some (.float m e, r) := by
  unfold parseNumber
  rw [parseInt_putInt m (by simp +decide)]
  simp only [parseInt_putInt e fun c hc => (hr c hc).1, Option.map_some]

-- ============================================================================
-- Strings
-- ============================================================================

/-- The letter of a character's short escape, where it has one. -/
def shortEscape (c : Char) : Option Char :=
  if c = '\x22' then some '\x22'
  else if c = '\x5c' then some '\x5c'
  else if c = '\n' then some 'n'
  else if c = '\r' then some 'r'
  else if c = '\t' then some 't'
  else if c = '\x08' then some 'b'
  else if c = '\x0c' then some 'f'
  else none

/-- One character of a JSON string, before `r`. -/
def putChar (c : Char) (r : List Char) : List Char :=
  match shortEscape c with
  | some e => '\x5c' :: e :: r
  | none =>
      if c.toNat < 32 then
        '\x5c' :: 'u' :: '0' :: '0' :: Nat.digitChar (c.toNat / 16) ::
          Nat.digitChar (c.toNat % 16) :: r
      else c :: r

/-- The quoted text of a string, before `r`. -/
def putStr (s : String) (r : List Char) : List Char :=
  '\x22' :: s.toList.foldr putChar ('\x22' :: r)

/-- The value of a hexadecimal digit. -/
def hexVal (c : Char) : Option Nat :=
  if '0' ≤ c ∧ c ≤ '9' then some (c.toNat - 48)
  else if 'a' ≤ c ∧ c ≤ 'f' then some (c.toNat - 87)
  else if 'A' ≤ c ∧ c ≤ 'F' then some (c.toNat - 55)
  else none

/-- The character of a four-digit escape. -/
def hexChar (a b c d : Char) : Option Char := do
  let a ← hexVal a
  let b ← hexVal b
  let c ← hexVal c
  let d ← hexVal d
  return Char.ofNat (4096 * a + 256 * b + 16 * c + d)

/-- The character a short escape stands for. -/
def unescape : Char → Option Char
  | '\x22' => some '\x22'
  | '\x5c' => some '\x5c'
  | '/' => some '/'
  | 'n' => some '\n'
  | 'r' => some '\r'
  | 't' => some '\t'
  | 'b' => some '\x08'
  | 'f' => some '\x0c'
  | _ => none

/-- Read the characters of a string up to its closing quote. -/
def parseChars : List Char → Option (List Char × List Char)
  | [] => none
  | '\x22' :: r => some ([], r)
  | '\x5c' :: 'u' :: a :: b :: c :: d :: r => do
      let ch ← hexChar a b c d
      let (cs, r) ← parseChars r
      return (ch :: cs, r)
  | '\x5c' :: c :: r => do
      let ch ← unescape c
      let (cs, r) ← parseChars r
      return (ch :: cs, r)
  | c :: r => do
      let (cs, r) ← parseChars r
      return (c :: cs, r)

theorem hexVal_digitChar : ∀ d, d < 16 → hexVal (Nat.digitChar d) = some d := by decide

/-- The escape written for a control character reads as that character. -/
theorem hexChar_control {c : Char} (h : c.toNat < 32) :
    hexChar '0' '0' (Nat.digitChar (c.toNat / 16)) (Nat.digitChar (c.toNat % 16)) = some c := by
  have hhi := hexVal_digitChar (c.toNat / 16) (by omega)
  have hlo := hexVal_digitChar (c.toNat % 16) (by omega)
  have hzero : hexVal '0' = some 0 := by decide
  have hc : Char.ofNat (16 * (c.toNat / 16) + c.toNat % 16) = c := by
    rw [Nat.div_add_mod, Char.ofNat_toNat]
  simp [hexChar, hhi, hlo, hzero, hc]

/-- A short escape reads as the character it was written for, and is not the
    letter of a four-digit escape. -/
theorem unescape_shortEscape {c e : Char} (h : shortEscape c = some e) :
    unescape e = some c ∧ e ≠ 'u' := by
  unfold shortEscape at h
  split_ifs at h <;> simp only [Option.some.injEq] at h <;> subst_vars <;> decide

/-- A character without a short escape ends no string and starts no escape. -/
theorem ne_of_shortEscape_eq_none {c : Char} (h : shortEscape c = none) :
    c ≠ '\x22' ∧ c ≠ '\x5c' := by
  unfold shortEscape at h
  split_ifs at h with h1 h2
  exact ⟨h1, h2⟩

theorem parseChars_putChar (c : Char) (r : List Char) :
    parseChars (putChar c r) = (parseChars r).map fun p => (c :: p.1, p.2) := by
  unfold putChar
  cases he : shortEscape c with
  | some e =>
      obtain ⟨hun, hu⟩ := unescape_shortEscape he
      simp only
      rw [parseChars]
      · cases h : parseChars r <;> simp [hun]
      · exact fun _ _ _ _ _ h => absurd h hu
  | none =>
      obtain ⟨hq, hb⟩ := ne_of_shortEscape_eq_none he
      simp only
      split_ifs with hctl
      · rw [parseChars, hexChar_control hctl]
        cases h : parseChars r <;> simp
      · rw [parseChars]
        · cases h : parseChars r <;> simp
        · exact hq
        · exact fun _ _ _ _ _ h => absurd h hb
        · exact fun _ _ h => absurd h hb

theorem parseChars_foldr (cs r : List Char) :
    parseChars (cs.foldr putChar ('\x22' :: r)) = some (cs, r) := by
  induction cs with
  | nil => simp [parseChars]
  | cons c cs ih => rw [List.foldr_cons, parseChars_putChar, ih]; rfl

-- ============================================================================
-- Values
-- ============================================================================

mutual

/-- The text of a document, before `r`. -/
def put : Json → List Char → List Char
  | .null, r => 'n' :: 'u' :: 'l' :: 'l' :: r
  | .bool true, r => 't' :: 'r' :: 'u' :: 'e' :: r
  | .bool false, r => 'f' :: 'a' :: 'l' :: 's' :: 'e' :: r
  | .int n, r => putInt n r
  | .float m e, r => putInt m ('e' :: putInt e r)
  | .str s, r => putStr s r
  | .arr [], r => '[' :: ']' :: r
  | .arr (j :: items), r => '[' :: put j (putItems items r)
  | .obj [], r => '\x7b' :: '\x7d' :: r
  | .obj ((k, v) :: members), r => '\x7b' :: putStr k (':' :: put v (putMembers members r))

/-- The rest of an array, before `r`. -/
def putItems : List Json → List Char → List Char
  | [], r => ']' :: r
  | j :: items, r => ',' :: put j (putItems items r)

/-- The rest of an object, before `r`. -/
def putMembers : List (String × Json) → List Char → List Char
  | [], r => '\x7d' :: r
  | (k, v) :: members, r => ',' :: putStr k (':' :: put v (putMembers members r))

end

mutual

/-- Read a document; the number bounds the nesting. -/
def parseValue : Nat → List Char → Option (Json × List Char)
  | 0, _ => none
  | _ + 1, 'n' :: 'u' :: 'l' :: 'l' :: r => some (.null, r)
  | _ + 1, 't' :: 'r' :: 'u' :: 'e' :: r => some (.bool true, r)
  | _ + 1, 'f' :: 'a' :: 'l' :: 's' :: 'e' :: r => some (.bool false, r)
  | _ + 1, '\x22' :: r => do
      let (cs, r) ← parseChars r
      return (.str (String.ofList cs), r)
  | _ + 1, '[' :: ']' :: r => some (.arr [], r)
  | n + 1, '[' :: r => do
      let (j, r) ← parseValue n r
      let (items, r) ← parseItems n r
      return (.arr (j :: items), r)
  | _ + 1, '\x7b' :: '\x7d' :: r => some (.obj [], r)
  | n + 1, '\x7b' :: r => do
      let (m, r) ← parseMember n r
      let (members, r) ← parseMembers n r
      return (.obj (m :: members), r)
  | _ + 1, r => parseNumber r

/-- Read one member of an object. -/
def parseMember : Nat → List Char → Option ((String × Json) × List Char)
  | 0, _ => none
  | n + 1, '\x22' :: r => do
      let (cs, r) ← parseChars r
      match r with
      | ':' :: r =>
          let (v, r) ← parseValue n r
          return ((String.ofList cs, v), r)
      | _ => none
  | _ + 1, _ => none

/-- Read the rest of an array. -/
def parseItems : Nat → List Char → Option (List Json × List Char)
  | 0, _ => none
  | _ + 1, ']' :: r => some ([], r)
  | n + 1, ',' :: r => do
      let (j, r) ← parseValue n r
      let (items, r) ← parseItems n r
      return (j :: items, r)
  | _ + 1, _ => none

/-- Read the rest of an object. -/
def parseMembers : Nat → List Char → Option (List (String × Json) × List Char)
  | 0, _ => none
  | _ + 1, '\x7d' :: r => some ([], r)
  | n + 1, ',' :: r => do
      let (m, r) ← parseMember n r
      let (members, r) ← parseMembers n r
      return (m :: members, r)
  | _ + 1, _ => none

end

-- ============================================================================
-- The round trip
-- ============================================================================

mutual

/-- A bound on the nesting `parseValue` meets in the text of a document. -/
def depth : Json → Nat
  | .arr (j :: items) => 1 + depth j + depthItems items
  | .obj ((_, v) :: members) => 2 + depth v + depthMembers members
  | _ => 1

/-- The same for the rest of an array. -/
def depthItems : List Json → Nat
  | [] => 1
  | j :: items => 1 + depth j + depthItems items

/-- The same for the rest of an object. -/
def depthMembers : List (String × Json) → Nat
  | [] => 1
  | (_, v) :: members => 2 + depth v + depthMembers members

end

theorem numEnd_putItems (items : List Json) (r : List Char) : NumEnd (putItems items r) := by
  cases items <;> rw [putItems] <;> exact numEnd_cons (by decide)

theorem numEnd_putMembers (members : List (String × Json)) (r : List Char) :
    NumEnd (putMembers members r) := by
  rcases members with _ | ⟨⟨k, v⟩, members⟩ <;> rw [putMembers] <;> exact numEnd_cons (by decide)

/-- A member's text reads as the member once its value's text does. -/
theorem parseMember_put {n : Nat} {k : String} {v : Json} {r r' : List Char}
    (hv : parseValue n r = some (v, r')) :
    parseMember (n + 1) (putStr k (':' :: r)) = some ((k, v), r') := by
  have hk := parseChars_foldr k.toList (':' :: r)
  simp [putStr, parseMember, hk, hv]

/-- A written number reads as `parseNumber` reads it. -/
theorem parseValue_putInt (n : Nat) (m : Int) (r : List Char) :
    parseValue (n + 1) (putInt m r) = parseNumber (putInt m r) := by
  obtain ⟨c, rest, hput, hc⟩ :
      ∃ c rest, putInt m r = c :: rest ∧ (c = '-' ∨ c.isDigit = true) := by
    unfold putInt
    split
    · exact ⟨'-', _, rfl, Or.inl rfl⟩
    · obtain ⟨c, ds, hds, hdig⟩ := head_toDigits m.natAbs
      exact ⟨c, ds ++ r, by rw [hds]; rfl, Or.inr hdig⟩
  have hne : c ≠ 'n' ∧ c ≠ 't' ∧ c ≠ 'f' ∧ c ≠ '\x22' ∧ c ≠ '[' ∧ c ≠ '\x7b' := by
    refine ⟨?_, ?_, ?_, ?_, ?_, ?_⟩ <;> rintro rfl <;> revert hc <;> decide
  rw [hput, parseValue.eq_def]
  split <;> simp_all

theorem length_putInt (m : Int) (r : List Char) : 1 + r.length ≤ (putInt m r).length := by
  obtain ⟨c, ds, hds, -⟩ := head_toDigits m.natAbs
  unfold putInt
  split <;> rw [hds] <;> simp <;> omega

theorem length_putStr (s : String) (r : List Char) : 2 + r.length ≤ (putStr s r).length := by
  have hchar : ∀ c r, r.length ≤ (putChar c r).length := by
    intro c r
    unfold putChar
    split
    · simp; omega
    · split_ifs
      · simp; omega
      · simp
  have hfold : ∀ cs : List Char, 1 + r.length ≤ (cs.foldr putChar ('\x22' :: r)).length := by
    intro cs
    induction cs with
    | nil => simp; omega
    | cons c cs ih => exact Nat.le_trans ih (hchar c _)
  have := hfold s.toList
  simp only [putStr, List.length_cons]
  omega

/-- No document's text starts with a closing bracket. -/
theorem put_ne_bracket (j : Json) (r r' : List Char) : put j r ≠ ']' :: r' := by
  have hint : ∀ (m : Int) (r : List Char), putInt m r ≠ ']' :: r' := by
    intro m r h
    unfold putInt at h
    split at h
    · simp at h
    · obtain ⟨c, ds, hds, hdig⟩ := head_toDigits m.natAbs
      rw [hds, List.cons_append] at h
      rw [(List.cons.inj h).1] at hdig
      exact absurd hdig (by decide)
  match j with
  | .null | .bool true | .bool false | .arr [] | .obj [] => simp [put]
  | .int m => rw [put]; exact hint m r
  | .float m e => rw [put]; exact hint m _
  | .str s => simp [put, putStr]
  | .arr (_ :: _) | .obj ((_, _) :: _) => simp [put]

mutual

/-- Reading the text of a document gives the document. -/
theorem parseValue_put : ∀ (j : Json) (n : Nat) (r : List Char), depth j ≤ n → NumEnd r →
    parseValue n (put j r) = some (j, r)
  | .null, n + 1, r, _, _ => by simp [put, parseValue]
  | .bool true, n + 1, r, _, _ => by simp [put, parseValue]
  | .bool false, n + 1, r, _, _ => by simp [put, parseValue]
  | .int m, n + 1, r, _, hr => by rw [put, parseValue_putInt, parseNumber_int m hr]
  | .float m e, n + 1, r, _, hr => by rw [put, parseValue_putInt, parseNumber_float m e hr]
  | .str s, n + 1, r, _, _ => by simp [put, putStr, parseValue, parseChars_foldr]
  | .arr [], n + 1, r, _, _ => by simp [put, parseValue]
  | .arr (j :: items), n + 1, r, hn, _ => by
      simp only [depth] at hn
      have hj := parseValue_put j n (putItems items r) (by omega) (numEnd_putItems items r)
      have hitems := parseItems_put items n r (by omega)
      rw [put, parseValue]
      · simp [hj, hitems]
      · exact fun r' => put_ne_bracket j _ r'
  | .obj [], n + 1, r, _, _ => by simp [put, parseValue]
  | .obj ((k, v) :: members), n + 2, r, hn, _ => by
      simp only [depth] at hn
      have hv := parseValue_put v n (putMembers members r) (by omega)
        (numEnd_putMembers members r)
      have hmembers := parseMembers_put members (n + 1) r (by omega)
      rw [put, parseValue]
      · simp [parseMember_put hv, hmembers]
      · simp [putStr]
  | .obj ((_, _) :: _), 1, _, hn, _ => by simp only [depth] at hn; omega
  | j, 0, _, hn, _ => by cases j <;> rename_i a <;> (try cases a) <;> simp [depth] at hn

/-- Reading the rest of an array. -/
theorem parseItems_put : ∀ (items : List Json) (n : Nat) (r : List Char), depthItems items ≤ n →
    parseItems n (putItems items r) = some (items, r)
  | [], n + 1, r, _ => by simp [putItems, parseItems]
  | j :: items, n + 1, r, hn => by
      simp only [depthItems] at hn
      have hj := parseValue_put j n (putItems items r) (by omega) (numEnd_putItems items r)
      have hitems := parseItems_put items n r (by omega)
      simp [putItems, parseItems, hj, hitems]
  | [], 0, _, hn | _ :: _, 0, _, hn => by simp only [depthItems] at hn; omega

/-- Reading the rest of an object. -/
theorem parseMembers_put : ∀ (members : List (String × Json)) (n : Nat) (r : List Char),
    depthMembers members ≤ n → parseMembers n (putMembers members r) = some (members, r)
  | [], n + 1, r, _ => by simp [putMembers, parseMembers]
  | (k, v) :: members, n + 2, r, hn => by
      simp only [depthMembers] at hn
      have hv := parseValue_put v n (putMembers members r) (by omega)
        (numEnd_putMembers members r)
      have hmembers := parseMembers_put members (n + 1) r (by omega)
      simp [putMembers, parseMembers, parseMember_put hv, hmembers]
  | [], 0, _, hn | (_, _) :: _, 0, _, hn | (_, _) :: _, 1, _, hn => by
      simp only [depthMembers] at hn; omega

end

/-- Read a whole text, nested as deep as it is long at most. -/
def parse (text : String) : Option Json :=
  match parseValue text.length text.toList with
  | some (j, []) => some j
  | _ => none

mutual

theorem depth_le_length : ∀ (j : Json) (r : List Char), depth j + r.length ≤ (put j r).length
  | .null, r | .bool true, r | .bool false, r | .arr [], r | .obj [], r => by
      simp [depth, put]; omega
  | .int m, r => by
      have := length_putInt m r
      simp only [depth, put]; omega
  | .float m e, r => by
      have := length_putInt m ('e' :: putInt e r)
      have := length_putInt e r
      simp only [depth, put, List.length_cons] at *; omega
  | .str s, r => by
      have := length_putStr s r
      simp only [depth, put]; omega
  | .arr (j :: items), r => by
      have := depth_le_length j (putItems items r)
      have := depthItems_le_length items r
      simp only [depth, put, List.length_cons]; omega
  | .obj ((k, v) :: members), r => by
      have := length_putStr k (':' :: put v (putMembers members r))
      have := depth_le_length v (putMembers members r)
      have := depthMembers_le_length members r
      simp only [depth, put, List.length_cons] at *; omega

theorem depthItems_le_length : ∀ (items : List Json) (r : List Char),
    depthItems items + r.length ≤ (putItems items r).length
  | [], r => by simp [depthItems, putItems]; omega
  | j :: items, r => by
      have := depth_le_length j (putItems items r)
      have := depthItems_le_length items r
      simp only [depthItems, putItems, List.length_cons]; omega

theorem depthMembers_le_length : ∀ (members : List (String × Json)) (r : List Char),
    depthMembers members + r.length ≤ (putMembers members r).length
  | [], r => by simp [depthMembers, putMembers]; omega
  | (k, v) :: members, r => by
      have := length_putStr k (':' :: put v (putMembers members r))
      have := depth_le_length v (putMembers members r)
      have := depthMembers_le_length members r
      simp only [depthMembers, putMembers, List.length_cons] at *; omega

end

-- ============================================================================
-- Control characters
-- ============================================================================

/-- A text on one line: no control character in it. -/
def Printable (cs : List Char) : Prop := ∀ c ∈ cs, 32 ≤ c.toNat

theorem printable_cons {c : Char} {r : List Char} :
    Printable (c :: r) ↔ 32 ≤ c.toNat ∧ Printable r :=
  List.forall_mem_cons

theorem printable_putInt (m : Int) {r : List Char} (hr : Printable r) : Printable (putInt m r) := by
  have hdigits : ∀ n : Nat, Printable (Nat.toDigits 10 n ++ r) := by
    intro n c hc
    rcases List.mem_append.mp hc with hc | hc
    · have hdigit := Nat.isDigit_of_mem_toDigits (by decide) (by decide) hc
      have hrange : 48 ≤ c.val ∧ c.val ≤ 57 := by simpa [Char.isDigit] using hdigit
      exact Nat.le_trans (by decide) (UInt32.le_iff_toNat_le.mp hrange.1)
    · exact hr c hc
  unfold putInt
  split
  · exact printable_cons.mpr ⟨by decide, hdigits _⟩
  · exact hdigits _

theorem digitChar_printable : ∀ d, d < 16 → 32 ≤ (Nat.digitChar d).toNat := by decide

theorem printable_putChar (c : Char) {r : List Char} (hr : Printable r) :
    Printable (putChar c r) := by
  unfold putChar
  cases he : shortEscape c with
  | some e =>
      have hletter : 32 ≤ e.toNat := by
        unfold shortEscape at he
        split_ifs at he <;> simp only [Option.some.injEq] at he <;> subst_vars <;> decide
      exact printable_cons.mpr ⟨by decide, printable_cons.mpr ⟨hletter, hr⟩⟩
  | none =>
      simp only
      split_ifs with hctl
      · simp only [printable_cons]
        exact ⟨by decide, by decide, by decide, by decide, digitChar_printable _ (by omega),
          digitChar_printable _ (by omega), hr⟩
      · exact printable_cons.mpr ⟨by omega, hr⟩

theorem printable_putStr (s : String) {r : List Char} (hr : Printable r) :
    Printable (putStr s r) := by
  have hfold : ∀ cs : List Char, Printable (cs.foldr putChar ('\x22' :: r)) := by
    intro cs
    induction cs with
    | nil => exact printable_cons.mpr ⟨by decide, hr⟩
    | cons c cs ih => exact printable_putChar c ih
  exact printable_cons.mpr ⟨by decide, hfold s.toList⟩

mutual

/-- The writer adds no control character. -/
theorem printable_put : ∀ (j : Json) {r : List Char}, Printable r → Printable (put j r)
  | .null, r, hr | .bool true, r, hr | .bool false, r, hr | .arr [], r, hr | .obj [], r, hr => by
      simp only [put, printable_cons]
      exact ⟨by decide, by simpa using hr⟩
  | .int m, r, hr => printable_putInt m hr
  | .float m e, r, hr =>
      printable_putInt m (printable_cons.mpr ⟨by decide, printable_putInt e hr⟩)
  | .str s, r, hr => printable_putStr s hr
  | .arr (j :: items), r, hr =>
      printable_cons.mpr ⟨by decide, printable_put j (printable_putItems items hr)⟩
  | .obj ((k, v) :: members), r, hr =>
      printable_cons.mpr ⟨by decide, printable_putStr k (printable_cons.mpr ⟨by decide,
        printable_put v (printable_putMembers members hr)⟩)⟩

theorem printable_putItems : ∀ (items : List Json) {r : List Char}, Printable r →
    Printable (putItems items r)
  | [], r, hr => printable_cons.mpr ⟨by decide, hr⟩
  | j :: items, r, hr =>
      printable_cons.mpr ⟨by decide, printable_put j (printable_putItems items hr)⟩

theorem printable_putMembers : ∀ (members : List (String × Json)) {r : List Char}, Printable r →
    Printable (putMembers members r)
  | [], r, hr => printable_cons.mpr ⟨by decide, hr⟩
  | (k, v) :: members, r, hr =>
      printable_cons.mpr ⟨by decide, printable_putStr k (printable_cons.mpr ⟨by decide,
        printable_put v (printable_putMembers members hr)⟩)⟩

end

end JsonText

/-- The compact text layer. -/
def SerdeJson.compact : SerdeJson where
  fromStr := JsonText.parse
  toString := fun j => String.ofList (JsonText.put j [])
  fromStr_toString := by
    intro j
    have hlen := JsonText.depth_le_length j []
    have hput := JsonText.parseValue_put j (JsonText.put j []).length [] (by simpa using hlen)
      (by simp [JsonText.NumEnd])
    simp [JsonText.parse, hput]

/-- A text layer that writes each document on one line. -/
def SerdeJson.OneLine (J : SerdeJson) : Prop := ∀ j, '\n' ∉ (J.toString j).toList

theorem SerdeJson.oneLine_compact : SerdeJson.compact.OneLine := by
  intro j hmem
  change '\n' ∈ (String.ofList (JsonText.put j [])).toList at hmem
  rw [String.toList_ofList] at hmem
  have hnil : JsonText.Printable [] := by simp [JsonText.Printable]
  exact absurd (JsonText.printable_put j hnil _ hmem) (by decide)

end Spectty.Lib
