/-
  Spectty.Lib.FileSystem

  Files as names over inodes.  A name points at an inode and an inode holds
  bytes; an open file is its inode, so that it goes on writing the same bytes
  whatever names point at them by then.

  `create` truncates the inode of a name that has one, `rename` moves an
  inode from one name to another.  No two names share an inode.
-/

import Mathlib.Logic.Function.Basic

namespace Spectty.Lib

/-- Names `N` over inodes of bytes `β`. -/
structure FileSystem (N β : Type) where
  inode : N → Option Nat
  data : Nat → List β
  fresh : Nat
  inode_lt : ∀ {p n}, inode p = some n → n < fresh
  inode_inj : ∀ {p q n}, inode p = some n → inode q = some n → p = q

namespace FileSystem

variable {N β : Type} {fs : FileSystem N β} {p q x : N} {n : Nat}

/-- The bytes under a name. -/
def content (fs : FileSystem N β) (p : N) : Option (List β) := (fs.inode p).map fs.data

/-- The inode that creating a file opens. -/
def opened (fs : FileSystem N β) (p : N) : Nat := (fs.inode p).getD fs.fresh

/-- Write at the start of an open file. -/
def write (fs : FileSystem N β) (n : Nat) (bytes : List β) : FileSystem N β where
  inode := fs.inode
  data := Function.update fs.data n (bytes ++ (fs.data n).drop bytes.length)
  fresh := fs.fresh
  inode_lt := fs.inode_lt
  inode_inj := fs.inode_inj

/-- No files. -/
def empty : FileSystem N β where
  inode := fun _ => none
  data := fun _ => []
  fresh := 0
  inode_lt := by
    intro p n h
    cases h
  inode_inj := by
    intro p q n h
    cases h

theorem content_eq_some_of_inode (h : fs.inode p = some n) : fs.content p = some (fs.data n) := by
  rw [content, h, Option.map_some]

/-- A name with another inode keeps its bytes where only `n` changes. -/
theorem content_eq_of_data {fs' : FileSystem N β} (hinode : fs'.inode p = fs.inode p)
    (hne : fs.inode p ≠ some n) (hdata : ∀ m, m ≠ n → fs'.data m = fs.data m) :
    fs'.content p = fs.content p := by
  rw [content, content, hinode]
  cases hp : fs.inode p with
  | none => rfl
  | some m =>
      have hm : m ≠ n := fun h => hne (by rw [hp, h])
      rw [Option.map_some, Option.map_some, hdata m hm]

theorem content_write (h : fs.inode p = some n) (bytes : List β) :
    (fs.write n bytes).content p = some (bytes ++ (fs.data n).drop bytes.length) := by
  have hinode : (fs.write n bytes).inode p = some n := h
  rw [content_eq_some_of_inode hinode]
  exact congrArg some (Function.update_self ..)

theorem content_write_other (h : fs.inode p ≠ some n) (bytes : List β) :
    (fs.write n bytes).content p = fs.content p :=
  content_eq_of_data rfl h fun _ hm => Function.update_of_ne hm _ _

/-- Only the name that is opened has the opened inode. -/
theorem inode_ne_opened (h : q ≠ p) : fs.inode q ≠ some (fs.opened p) := by
  intro hq
  cases hp : fs.inode p with
  | none =>
      have hopened : fs.opened p = fs.fresh := by rw [opened, hp, Option.getD_none]
      rw [hopened] at hq
      exact absurd (fs.inode_lt hq) (Nat.lt_irrefl _)
  | some m =>
      have hopened : fs.opened p = m := by rw [opened, hp, Option.getD_some]
      rw [hopened] at hq
      exact h (fs.inode_inj hq hp)

variable [DecidableEq N]

/-- Open a name for writing, with nothing in it. -/
def create (fs : FileSystem N β) (p : N) : FileSystem N β where
  inode := Function.update fs.inode p (some (fs.opened p))
  data := Function.update fs.data (fs.opened p) []
  fresh := max fs.fresh (fs.opened p + 1)
  inode_lt := by
    intro q n hq
    by_cases hqp : q = p
    · subst hqp
      rw [Function.update_self] at hq
      obtain rfl := Option.some.inj hq
      omega
    · rw [Function.update_of_ne hqp] at hq
      have := fs.inode_lt hq
      omega
  inode_inj := by
    intro q q' n hq hq'
    by_cases hqp : q = p <;> by_cases hqp' : q' = p
    · rw [hqp, hqp']
    · rw [hqp, Function.update_self] at hq
      rw [Function.update_of_ne hqp', ← hq] at hq'
      exact absurd hq' (inode_ne_opened hqp')
    · rw [hqp', Function.update_self] at hq'
      rw [Function.update_of_ne hqp, ← hq'] at hq
      exact absurd hq (inode_ne_opened hqp)
    · rw [Function.update_of_ne hqp] at hq
      rw [Function.update_of_ne hqp'] at hq'
      exact fs.inode_inj hq hq'

/-- Move what is under `p` to `q`, replacing what was there. -/
def rename (fs : FileSystem N β) (p q : N) : FileSystem N β :=
  match h : fs.inode p with
  | none => fs
  | some n =>
      { inode := Function.update (Function.update fs.inode p none) q (some n)
        data := fs.data
        fresh := fs.fresh
        inode_lt := by
          intro x m hx
          by_cases hxq : x = q
          · rw [hxq, Function.update_self] at hx
            exact Option.some.inj hx ▸ fs.inode_lt h
          · rw [Function.update_of_ne hxq] at hx
            by_cases hxp : x = p
            · rw [hxp, Function.update_self] at hx
              cases hx
            · rw [Function.update_of_ne hxp] at hx
              exact fs.inode_lt hx
        inode_inj := by
          intro x y m hx hy
          have hmoved : ∀ {z}, z ≠ q →
              Function.update (Function.update fs.inode p none) q (some n) z = some m →
                z ≠ p ∧ fs.inode z = some m := by
            intro z hzq hz
            rw [Function.update_of_ne hzq] at hz
            by_cases hzp : z = p
            · rw [hzp, Function.update_self] at hz
              cases hz
            · rw [Function.update_of_ne hzp] at hz
              exact ⟨hzp, hz⟩
          by_cases hxq : x = q <;> by_cases hyq : y = q
          · rw [hxq, hyq]
          · rw [hxq, Function.update_self] at hx
            obtain ⟨hyp, hy⟩ := hmoved hyq hy
            exact absurd (fs.inode_inj hy (h.trans hx)) hyp
          · rw [hyq, Function.update_self] at hy
            obtain ⟨hxp, hx⟩ := hmoved hxq hx
            exact absurd (fs.inode_inj hx (h.trans hy)) hxp
          · exact fs.inode_inj (hmoved hxq hx).2 (hmoved hyq hy).2 }

theorem inode_create_self : (fs.create p).inode p = some (fs.opened p) := Function.update_self ..

theorem inode_create_other (h : q ≠ p) : (fs.create p).inode q = fs.inode q :=
  Function.update_of_ne h _ _

/-- A created file is empty. -/
theorem data_create : (fs.create p).data (fs.opened p) = [] := Function.update_self ..

theorem content_create_self : (fs.create p).content p = some [] := by
  rw [content_eq_some_of_inode inode_create_self, data_create]

theorem content_create_other (h : q ≠ p) : (fs.create p).content q = fs.content q :=
  content_eq_of_data (inode_create_other h) (inode_ne_opened h) fun _ hm =>
    Function.update_of_ne hm _ _

/-- A new file holds what was written to it. -/
theorem content_create_write (bytes : List β) :
    ((fs.create p).write (fs.opened p) bytes).content p = some bytes := by
  rw [content_write inode_create_self, data_create, List.drop_nil, List.append_nil]

theorem content_create_write_other (h : q ≠ p) (bytes : List β) :
    ((fs.create p).write (fs.opened p) bytes).content q = fs.content q := by
  have hne : (fs.create p).inode q ≠ some (fs.opened p) := by
    rw [inode_create_other h]
    exact inode_ne_opened h
  rw [content_write_other hne, content_create_other h]

theorem inode_rename_other (hp : x ≠ p) (hq : x ≠ q) : (fs.rename p q).inode x = fs.inode x := by
  unfold rename
  split
  · rfl
  · exact (Function.update_of_ne hq _ _).trans (Function.update_of_ne hp _ _)

theorem data_rename : (fs.rename p q).data = fs.data := by
  unfold rename
  split <;> rfl

/-- What was under the source is under the target. -/
theorem content_rename_target (h : fs.content p ≠ none) :
    (fs.rename p q).content q = fs.content p := by
  cases hp : fs.inode p with
  | none => exact absurd (by rw [content, hp, Option.map_none]) h
  | some n =>
      have hq : (fs.rename p q).inode q = some n := by
        unfold rename
        split
        case h_1 hnone => rw [hp] at hnone; cases hnone
        case h_2 m hm =>
          obtain rfl : m = n := Option.some.inj (hm.symm.trans hp)
          exact Function.update_self ..
      rw [content_eq_some_of_inode hq, data_rename, content_eq_some_of_inode hp]

theorem content_rename_other (hp : x ≠ p) (hq : x ≠ q) :
    (fs.rename p q).content x = fs.content x := by
  rw [content, content, inode_rename_other hp hq, data_rename]

end FileSystem

end Spectty.Lib
