/-
This file develops steps that draw numbers from a source, for instance from a keystream. A script
is a list of numbers that a source is about to yield. A step reads a script when it answers the
same value from every source that yields it, and leaves the source at the end of it.

What a step can answer at all is then shown by scripts, and the scripts of two steps are put
together to one of the steps in turn.
-/

import Mathlib.Order.Basic

namespace Script

section Reads

variable {State Value Other : Type}

/-- The source is about to yield the numbers of a script. -/
def Supplies (next : StateM State Nat) : State → List Nat → Prop
  | _, [] => True
  | state, number :: rest => (next state).1 = number ∧ Supplies next (next state).2 rest

/-- The step answers the value from every source that yields the script. -/
def Reads (next : StateM State Nat) (step : StateM State Value) (script : List Nat)
    (value : Value) : Prop :=
  ∀ state rest, Supplies next state (script ++ rest) →
    (step state).1 = value ∧ Supplies next (step state).2 rest

namespace Reads

variable {next : StateM State Nat} {step : StateM State Value} {script script' : List Nat}
  {value : Value} {result : Other}

theorem pure (value : Value) : Reads next (Pure.pure value) [] value :=
  fun _ _ supplies => ⟨rfl, supplies⟩

theorem source (number : Nat) : Reads next next [number] number :=
  fun _ _ supplies => supplies

theorem bind {continue' : Value → StateM State Other} (first : Reads next step script value)
    (second : Reads next (continue' value) script' result) :
    Reads next (step >>= continue') (script ++ script') result := by
  intro state rest supplies
  rw [List.append_assoc] at supplies
  obtain ⟨answered, left⟩ := first state (script' ++ rest) supplies
  have after := second (step state).2 rest left
  rw [← answered] at after
  exact after

end Reads

end Reads

/-! ### What can be drawn -/

section Can

variable {Index State Value Other : Type} {next : Index → StateM State Nat} {limit : Nat}

/-- A value that a step can be made to answer, whatever the source is made from: by a script that
is not too long and has no number beyond the limit. -/
def Can (next : Index → StateM State Nat) (limit : Nat) (step : Index → StateM State Value)
    (cost : Nat) (value : Value) : Prop :=
  ∃ script : List Nat, script.length ≤ cost ∧ (∀ number ∈ script, number < limit) ∧
    ∀ index, Reads (next index) (step index) script value

namespace Can

variable {step : Index → StateM State Value} {cost cost' : Nat} {value : Value} {result : Other}

theorem pure (value : Value) : Can next limit (fun _ => Pure.pure value) 0 value :=
  ⟨[], Nat.le_refl 0, fun _ absent => absurd absent List.not_mem_nil, fun _ => Reads.pure value⟩

theorem source {number : Nat} (small : number < limit) : Can next limit next 1 number :=
  ⟨[number], Nat.le_refl 1, fun _ listed => List.mem_singleton.mp listed ▸ small,
    fun _ => Reads.source number⟩

theorem bind (continue' : Index → Value → StateM State Other)
    (first : Can next limit step cost value)
    (second : Can next limit (fun index => continue' index value) cost' result) :
    Can next limit (fun index => step index >>= continue' index) (cost + cost') result := by
  obtain ⟨script, short, small, reads⟩ := first
  obtain ⟨script', short', small', reads'⟩ := second
  refine ⟨script ++ script', ?_, fun number listed => ?_, fun index =>
    (reads index).bind (reads' index)⟩
  · rw [List.length_append]
    exact Nat.add_le_add short short'
  · rcases List.mem_append.mp listed with early | late
    · exact small number early
    · exact small' number late

theorem mono (can : Can next limit step cost value) (more : cost ≤ cost') :
    Can next limit step cost' value := by
  obtain ⟨script, short, rest⟩ := can
  exact ⟨script, Nat.le_trans short more, rest⟩

end Can

end Can

end Script
