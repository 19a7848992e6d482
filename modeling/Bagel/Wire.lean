/-
This file models the cursor that reads what a peer sent, and what a capture of it comes to.
-/

import Bagel.Library.Bytes

namespace Bagel

inductive CaptureError where
  | incomplete
  | invalid
  | limited
  | untrusted
  deriving DecidableEq

inductive Capture (Value : Type) where
  | unavailable
  | failed (error : CaptureError)
  | complete (value : Value)

/-- A read takes bytes off the front of what remains, or fails and takes none. -/
abbrev Cursor (Value : Type) := List UInt8 → Except CaptureError (Value × List UInt8)

namespace Cursor

def take (length : Nat) : Cursor (List UInt8) := fun remaining =>
  if length ≤ remaining.length then .ok (remaining.take length, remaining.drop length)
  else .error .invalid

def byte : Cursor UInt8 := fun remaining => do
  let (bytes, rest) ← take 1 remaining
  return (bytes.headD 0, rest)

def u16 : Cursor UInt16 := fun remaining => do
  let (bytes, rest) ← take 2 remaining
  return (UInt16.ofNat (Bytes.number bytes), rest)

def u32 : Cursor UInt32 := fun remaining => do
  let (bytes, rest) ← take 4 remaining
  return (UInt32.ofNat (Bytes.number bytes), rest)

def vectorU8 : Cursor (List UInt8) := fun remaining => do
  let (length, rest) ← byte remaining
  take length.toNat rest

def vectorU16 : Cursor (List UInt8) := fun remaining => do
  let (length, rest) ← u16 remaining
  take length.toNat rest

def finish (remaining : List UInt8) : Except CaptureError Unit :=
  if remaining.isEmpty then .ok () else .error .invalid

/-- A loop that runs as long as something remains, for at most so many passes. -/
def loop {State : Type} (pass : State → Cursor State) :
    Nat → State → List UInt8 → Except CaptureError State
  | _, state, [] => .ok state
  | 0, _, _ :: _ => .error .invalid
  | passes + 1, state, byte :: rest => do
    let (next, left) ← pass state (byte :: rest)
    loop pass passes next left

/-- A loop whose passes each take something, so that it ends before the passes run out. -/
def whileSome {State : Type} (pass : State → Cursor State) (state : State)
    (remaining : List UInt8) : Except CaptureError State :=
  loop pass remaining.length state remaining

/-! ### Loops end -/

/-- Whatever is read, less remains. -/
def Advances {Value : Type} (read : Cursor Value) : Prop :=
  ∀ {remaining value rest}, read remaining = .ok (value, rest) → rest.length < remaining.length

/-- More passes than there are bytes make no difference. -/
theorem loop_congr {State : Type} {pass : State → Cursor State}
    (advances : ∀ state, Advances (pass state)) {passes passes' : Nat} {remaining : List UInt8}
    (enough : remaining.length ≤ passes) (enough' : remaining.length ≤ passes') (state : State) :
    loop pass passes state remaining = loop pass passes' state remaining := by
  induction passes generalizing passes' remaining state with
  | zero =>
    rw [List.eq_nil_of_length_eq_zero (Nat.le_zero.mp enough), loop, loop]
  | succ passes inductionHypothesis =>
    cases remaining with
    | nil => rw [loop, loop]
    | cons byte rest =>
      obtain ⟨fewer, rfl⟩ : ∃ fewer, passes' = fewer + 1 :=
        Nat.exists_eq_add_one.mpr (Nat.lt_of_lt_of_le (Nat.succ_pos _) enough')
      rw [loop, loop]
      cases read : pass state (byte :: rest) with
      | error error => rfl
      | ok value =>
        have less := advances state read
        exact inductionHypothesis (by omega) (by omega) value.1

/-- So a bound on the passes that is large enough is never met. -/
theorem loop_eq_whileSome {State : Type} {pass : State → Cursor State}
    (advances : ∀ state, Advances (pass state)) {passes : Nat} {remaining : List UInt8}
    (enough : remaining.length ≤ passes) (state : State) :
    loop pass passes state remaining = whileSome pass state remaining :=
  loop_congr advances enough (Nat.le_refl _) state

theorem length_of_take {length : Nat} {remaining bytes rest : List UInt8}
    (taken : take length remaining = .ok (bytes, rest)) :
    bytes.length = length ∧ remaining = bytes ++ rest := by
  unfold take at taken
  split at taken
  · next enough =>
    cases taken
    exact ⟨List.length_take_of_le enough, (List.take_append_drop length remaining).symm⟩
  · cases taken

theorem bind_eq_ok {Value Result : Type} {read : Except CaptureError Value}
    {next : Value → Except CaptureError Result} {result : Result}
    (ok : (read >>= next) = .ok result) : ∃ value, read = .ok value ∧ next value = .ok result := by
  cases read with
  | error error => cases ok
  | ok value => exact ⟨value, rfl, ok⟩

theorem length_lt_of_take {length : Nat} (positive : 0 < length) : Advances (take length) := by
  intro remaining bytes rest taken
  obtain ⟨count, rfl⟩ := length_of_take taken
  rw [List.length_append]
  omega

/-- A read that takes some bytes advances, whatever is made of them. -/
theorem advances_of_take {Value : Type} {length : Nat} (some : 0 < length)
    (make : List UInt8 → Value) :
    Advances fun remaining => do
      let (bytes, rest) ← take length remaining
      return (make bytes, rest) := by
  intro remaining value rest read
  obtain ⟨taken, bytes, same⟩ := bind_eq_ok read
  cases same
  exact length_lt_of_take some bytes

theorem advances_byte : Advances byte :=
  advances_of_take (by decide) fun bytes => bytes.headD 0

theorem advances_u16 : Advances u16 :=
  advances_of_take (by decide) fun bytes => UInt16.ofNat (Bytes.number bytes)

theorem advances_u32 : Advances u32 :=
  advances_of_take (by decide) fun bytes => UInt32.ofNat (Bytes.number bytes)

theorem length_le_of_take {length : Nat} {remaining bytes rest : List UInt8}
    (taken : take length remaining = .ok (bytes, rest)) : rest.length ≤ remaining.length := by
  obtain ⟨count, rfl⟩ := length_of_take taken
  rw [List.length_append]
  omega

theorem advances_vectorU8 : Advances vectorU8 := by
  intro remaining value rest read
  obtain ⟨length, first, taken⟩ := bind_eq_ok read
  exact Nat.lt_of_le_of_lt (length_le_of_take taken) (advances_byte first)

theorem advances_vectorU16 : Advances vectorU16 := by
  intro remaining value rest read
  obtain ⟨length, first, taken⟩ := bind_eq_ok read
  exact Nat.lt_of_le_of_lt (length_le_of_take taken) (advances_u16 first)

end Cursor

end Bagel
