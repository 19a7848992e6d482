/-
This file develops fallible state changes: operations that either answer with a
next state or fail. Running one as a transaction keeps the old state when it
fails, so a property that every successful operation preserves holds over a whole
run of transactions, whatever fails in between. The same holds of a relation
between two runs whose operations succeed and fail together.
-/

import Mathlib.Data.List.Basic
import Mathlib.Data.List.Forall2

namespace Transaction

variable {Fault First Second State Answer Input : Type}

/-- A sequence of two fallible computations succeeds exactly when the first does and the
second does on its result. -/
theorem bind_eq_ok_iff {first : Except Fault First} {next : First → Except Fault Second}
    {result : Second} :
    (first >>= next) = .ok result ↔ ∃ value, first = .ok value ∧ next value = .ok result := by
  cases first with
  | error fault => simp [bind, Except.bind]
  | ok value => simp [bind, Except.bind]

theorem map_eq_ok_iff {first : Except Fault First} {function : First → Second} {result : Second} :
    first.map function = .ok result ↔ ∃ value, first = .ok value ∧ function value = result := by
  cases first with
  | error fault => simp [Except.map]
  | ok value => simp [Except.map]

/-- An outcome whose answer is known to be that of the computation. -/
def attach : (outcome : Except Fault Answer) → Except Fault {answer // outcome = .ok answer}
  | .ok answer => .ok ⟨answer, rfl⟩
  | .error fault => .error fault

/-- The state after a transaction: what the operation leaves when it succeeds, and the old
state when it fails. -/
def commit (operation : State → Except Fault (State × Answer)) (state : State) : State :=
  match operation state with
  | .ok (next, _) => next
  | .error _ => state

theorem commit_ok {operation : State → Except Fault (State × Answer)} {state next : State}
    {answer : Answer} (succeeds : operation state = .ok (next, answer)) :
    commit operation state = next := by
  rw [commit, succeeds]

theorem commit_error {operation : State → Except Fault (State × Answer)} {state : State}
    {fault : Fault} (fails : operation state = .error fault) : commit operation state = state := by
  rw [commit, fails]

/-- A property that an operation preserves when it succeeds survives its transaction. -/
theorem commit_preserves {operation : State → Except Fault (State × Answer)} {state : State}
    {holds : State → Prop} (before : holds state)
    (preserved : ∀ next answer, operation state = .ok (next, answer) → holds next) :
    holds (commit operation state) := by
  cases result : operation state with
  | error fault => rwa [commit_error result]
  | ok output =>
    obtain ⟨next, answer⟩ := output
    rw [commit_ok result]
    exact preserved next answer result

/-- Two states stay related when an operation that succeeds on one succeeds on the other and
leads to related states. -/
theorem commit_related {operation : State → Except Fault (State × Answer)} {first second : State}
    {related : State → State → Prop} (before : related first second)
    (forward : ∀ next answer, operation first = .ok (next, answer) →
      ∃ other answer, operation second = .ok (other, answer) ∧ related next other)
    (backward : ∀ other answer, operation second = .ok (other, answer) →
      ∃ next answer, operation first = .ok (next, answer)) :
    related (commit operation first) (commit operation second) := by
  cases result : operation first with
  | ok output =>
    obtain ⟨next, answer⟩ := output
    obtain ⟨other, otherAnswer, succeeds, after⟩ := forward next answer result
    rw [commit_ok result, commit_ok succeeds]
    exact after
  | error fault =>
    cases otherResult : operation second with
    | error otherFault =>
      rw [commit_error result, commit_error otherResult]
      exact before
    | ok output =>
      obtain ⟨next, answer, succeeds⟩ := backward output.1 output.2 otherResult
      exact nomatch result.symm.trans succeeds

/-- A check of every element succeeds exactly when it does on each. -/
theorem forM_eq_ok_iff {check : Input → Except Fault Unit} {inputs : List Input} :
    inputs.forM check = .ok () ↔ ∀ input ∈ inputs, check input = .ok () := by
  induction inputs with
  | nil => exact ⟨fun _ input member => absurd member List.not_mem_nil, fun _ => rfl⟩
  | cons first rest inductionHypothesis =>
    rw [List.forM, bind_eq_ok_iff, List.forall_mem_cons, ← inductionHypothesis]
    exact ⟨fun ⟨_, one, others⟩ => ⟨one, others⟩, fun ⟨one, others⟩ => ⟨(), one, others⟩⟩

/-- Every answer of a loop over inputs is that of one of them. -/
theorem exists_of_mapM_eq_ok {build : Input → Except Fault Answer} {inputs : List Input}
    {answers : List Answer} (succeeds : inputs.mapM build = .ok answers) :
    ∀ answer ∈ answers, ∃ input ∈ inputs, build input = .ok answer := by
  induction inputs generalizing answers with
  | nil =>
    cases succeeds
    exact fun answer member => absurd member List.not_mem_nil
  | cons input rest inductionHypothesis =>
    rw [List.mapM_cons] at succeeds
    obtain ⟨first, built, succeeds⟩ := bind_eq_ok_iff.mp succeeds
    obtain ⟨others, later, succeeds⟩ := bind_eq_ok_iff.mp succeeds
    cases succeeds
    refine List.forall_mem_cons.mpr ⟨⟨input, List.mem_cons_self, built⟩, fun answer member => ?_⟩
    obtain ⟨other, among, same⟩ := inductionHypothesis later answer member
    exact ⟨other, List.mem_cons_of_mem _ among, same⟩

/-- The invariant rule of a run that ends with the first fault. -/
theorem foldlM_preserves {step : State → Input → Except Fault State} {holds : State → Prop}
    (inputs : List Input) {start last : State} (initial : holds start)
    (preserved : ∀ input ∈ inputs, ∀ state next, holds state → step state input = .ok next →
      holds next)
    (succeeds : inputs.foldlM step start = .ok last) : holds last := by
  induction inputs generalizing start with
  | nil =>
    cases succeeds
    exact initial
  | cons input rest inductionHypothesis =>
    rw [List.foldlM_cons, bind_eq_ok_iff] at succeeds
    obtain ⟨next, first, later⟩ := succeeds
    exact inductionHypothesis (preserved input List.mem_cons_self start next initial first)
      (fun other member => preserved other (List.mem_cons_of_mem _ member)) later

/-- The invariant rule of a run: what holds at the start and survives every step holds at
the end. -/
theorem foldl_preserves {step : State → Input → State} {holds : State → Prop}
    (inputs : List Input) {start : State} (initial : holds start)
    (preserved : ∀ input ∈ inputs, ∀ state, holds state → holds (step state input)) :
    holds (inputs.foldl step start) := by
  induction inputs generalizing start with
  | nil => exact initial
  | cons input rest inductionHypothesis =>
    rw [List.foldl_cons]
    exact inductionHypothesis (preserved input List.mem_cons_self start initial)
      fun later member => preserved later (List.mem_cons_of_mem _ member)

end Transaction
