/-
This file develops computations that are carried out step by step while others use the same
state. What is left of such a computation is a resumption: it is done, it has failed, or its
next step changes the state and goes on with what it read there. Between any two steps the
calls of clients are served.

The question is what the clients notice. A computation is described by what each of its
steps guarantees as long as the clients keep to what it relies on, and two states are alike
when every call has the same reply in both. If all steps are unseen, every client is
answered as if the computation had never been started. If only the steps before some point
are unseen and nothing fails after it, this still holds whenever the computation fails.
-/

import Mathlib.Data.List.Basic

namespace Interleaving

variable {State Fault Answer Next Input Call Reply : Type}

/-! ### Resumptions -/

inductive Resumption (State Fault Answer : Type) where
  | done (answer : Answer)
  | fail (fault : Fault)
  | step (write : State → State) (next : State → Resumption State Fault Answer)

namespace Resumption

def bind (first : Resumption State Fault Answer)
    (next : Answer → Resumption State Fault Next) : Resumption State Fault Next :=
  match first with
  | done answer => next answer
  | fail fault => fail fault
  | step write rest => step write fun state => (rest state).bind next

instance : Monad (Resumption State Fault) where
  pure := done
  bind := bind

/-- An outcome that no state has a part in. -/
def lift : Except Fault Answer → Resumption State Fault Answer
  | .ok answer => done answer
  | .error fault => fail fault

/-- A single step. -/
def atomic (act : State → Answer × State) : Resumption State Fault Answer :=
  step (fun state => (act state).2) fun state => done (act state).1

/-- An outcome that has to be waited for. -/
def await (outcome : Except Fault Answer) : Resumption State Fault Answer :=
  step id fun _ => lift outcome

/-- The next step, and what is left after it. -/
def advance : Resumption State Fault Answer → State → State × Resumption State Fault Answer
  | step write next, state => (write state, next state)
  | finished, state => (state, finished)

/-- The computation can no longer fail. -/
def Sure : Resumption State Fault Answer → Prop
  | done _ => True
  | fail _ => False
  | step _ next => ∀ state, (next state).Sure

theorem Sure.bind {first : Resumption State Fault Answer}
    {next : Answer → Resumption State Fault Next} (sure : first.Sure)
    (later : ∀ answer, (next answer).Sure) : (first >>= next).Sure := by
  induction first with
  | done answer => exact later answer
  | fail fault => exact sure.elim
  | step write rest inductionHypothesis =>
    intro state
    exact inductionHypothesis state (sure state)

theorem sure_forM {body : Input → Resumption State Fault Unit} {inputs : List Input}
    (every : ∀ input ∈ inputs, (body input).Sure) : (inputs.forM body).Sure := by
  induction inputs with
  | nil => exact trivial
  | cons input rest inductionHypothesis =>
    exact (every input List.mem_cons_self).bind fun _ =>
      inductionHypothesis fun later member => every later (List.mem_cons_of_mem input member)

theorem Sure.advance {computation : Resumption State Fault Answer} (sure : computation.Sure)
    (state : State) : (computation.advance state).2.Sure := by
  cases computation with
  | done answer => exact sure
  | fail fault => exact sure
  | step write next => exact sure state

/-! ### Relying and guaranteeing -/

/-- What is relied on survives a sequence of steps, of the others or of one's own. -/
structure Interference (rely guarantee : State → State → Prop) : Prop where
  refl : ∀ state, rely state state
  trans : ∀ first second third, rely first second → rely second third → rely first third
  own : ∀ state next, guarantee state next → rely state next

/-- From this state on every step is one that `guarantee` allows, and the answer is one that
`post` allows, as long as what happens between the steps is what `rely` allows. -/
def Meets (rely guarantee : State → State → Prop) (post : State → Answer → Prop) :
    Resumption State Fault Answer → State → Prop
  | done answer, state => ∀ later, rely state later → post later answer
  | fail _, _ => True
  | step write next, state => ∀ later, rely state later →
    guarantee later (write later) ∧ (next later).Meets rely guarantee post (write later)

section Meets

variable {rely guarantee : State → State → Prop} {post : State → Answer → Prop}

/-- What is met stays met while only others are busy. -/
theorem Meets.later (fair : Interference rely guarantee)
    {computation : Resumption State Fault Answer} {state later : State}
    (meets : computation.Meets rely guarantee post state) (before : rely state later) :
    computation.Meets rely guarantee post later := by
  cases computation with
  | done answer =>
    intro last after
    exact meets last (fair.trans _ _ _ before after)
  | fail fault => exact trivial
  | step write next =>
    intro last after
    exact meets last (fair.trans _ _ _ before after)

/-- The second computation starts in a state that the first leads to from its own start. -/
theorem Meets.bind (fair : Interference rely guarantee)
    {first : Resumption State Fault Answer} {next : Answer → Resumption State Fault Next}
    {last : State → Next → Prop} {state : State}
    (meets : first.Meets rely guarantee post state)
    (rest : ∀ later answer, rely state later → post later answer →
      (next answer).Meets rely guarantee last later) :
    (first >>= next).Meets rely guarantee last state := by
  induction first generalizing state with
  | done answer => exact rest state answer (fair.refl state) (meets state (fair.refl state))
  | fail fault => exact trivial
  | step write other inductionHypothesis =>
    intro later between
    obtain ⟨allowed, after⟩ := meets later between
    refine ⟨allowed, inductionHypothesis later after fun final answer onwards => ?_⟩
    exact rest final answer
      (fair.trans _ _ _ (fair.trans _ _ _ between (fair.own _ _ allowed)) onwards)

theorem Meets.weaken {looser : State → State → Prop} {other : State → Answer → Prop}
    {computation : Resumption State Fault Answer} {state : State}
    (meets : computation.Meets rely guarantee post state)
    (allows : ∀ state next, guarantee state next → looser state next)
    (weaker : ∀ state answer, post state answer → other state answer) :
    computation.Meets rely looser other state := by
  induction computation generalizing state with
  | done answer =>
    intro later between
    exact weaker later answer (meets later between)
  | fail fault => exact trivial
  | step write next inductionHypothesis =>
    intro later between
    obtain ⟨allowed, after⟩ := meets later between
    exact ⟨allows later _ allowed, inductionHypothesis later after⟩

theorem meets_lift (outcome : Except Fault Answer) (state : State) :
    (lift outcome).Meets rely guarantee (fun _ answer => outcome = .ok answer) state := by
  cases outcome with
  | error fault => exact trivial
  | ok answer =>
    intro later between
    exact rfl

theorem meets_atomic {act : State → Answer × State} {state : State}
    (every : ∀ later, rely state later → guarantee later (act later).2 ∧
      ∀ last, rely (act later).2 last → post last (act later).1) :
    (atomic act : Resumption State Fault Answer).Meets rely guarantee post state := by
  intro later between
  obtain ⟨allowed, after⟩ := every later between
  exact ⟨allowed, after⟩

theorem meets_await (quiet : ∀ state, guarantee state state) (outcome : Except Fault Answer)
    (state : State) :
    (await outcome).Meets rely guarantee (fun _ answer => outcome = .ok answer) state :=
  fun later _ => ⟨quiet later, meets_lift outcome later⟩

/-- The rule of a loop that collects its answer. -/
theorem meets_foldlM (fair : Interference rely guarantee)
    {body : Answer → Input → Resumption State Fault Answer} {inputs : List Input}
    {holds : List Input → State → Answer → Prop}
    (stable : ∀ before state later answer, rely state later → holds before state answer →
      holds before later answer)
    (every : ∀ before input state answer, holds before state answer →
      (body answer input).Meets rely guarantee (holds (before ++ [input])) state)
    {before : List Input} {state : State} {answer : Answer} (start : holds before state answer) :
    (inputs.foldlM body answer).Meets rely guarantee (holds (before ++ inputs)) state := by
  induction inputs generalizing before state answer with
  | nil =>
    intro later between
    rw [List.append_nil]
    exact stable before state later answer between start
  | cons input rest inductionHypothesis =>
    refine (every before input state answer start).bind fair fun later collected _ kept => ?_
    have whole : before ++ input :: rest = before ++ [input] ++ rest := by
      rw [List.append_assoc, List.singleton_append]
    rw [whole]
    exact inductionHypothesis kept

theorem meets_forM (fair : Interference rely guarantee)
    {body : Input → Resumption State Fault Unit} {inputs : List Input}
    (every : ∀ input ∈ inputs, ∀ state,
      (body input).Meets rely guarantee (fun _ _ => True) state)
    (state : State) : (inputs.forM body).Meets rely guarantee (fun _ _ => True) state := by
  induction inputs generalizing state with
  | nil =>
    intro later between
    exact trivial
  | cons input rest inductionHypothesis =>
    refine (every input List.mem_cons_self state).bind fair fun later _ _ _ => ?_
    exact inductionHypothesis (fun other member => every other (List.mem_cons_of_mem input member))
      later

end Meets

end Resumption

/-! ### Serving clients -/

section Serve

variable (serve : Call → State → State × Reply)

/-- The replies to a sequence of calls, and the state after them. -/
def serveAll : List Call → State → List Reply × State
  | [], state => ([], state)
  | call :: rest, state =>
    let served := serve call state
    let later := serveAll rest served.1
    (served.2 :: later.1, later.2)

inductive Event (Call : Type) where
  | call (call : Call)
  | step

/-- The calls among the events. -/
def calls : List (Event Call) → List Call
  | [] => []
  | .call call :: rest => call :: calls rest
  | .step :: rest => calls rest

/-- What the clients were answered, the state, and what is left of the computation. -/
structure Progress (State Fault Answer Reply : Type) where
  replies : List Reply
  state : State
  rest : Resumption State Fault Answer

/-- A computation among calls. -/
def interleave : List (Event Call) → State → Resumption State Fault Answer →
    Progress State Fault Answer Reply
  | [], state, computation => ⟨[], state, computation⟩
  | .step :: rest, state, computation =>
    let advanced := computation.advance state
    interleave rest advanced.1 advanced.2
  | .call call :: rest, state, computation =>
    let served := serve call state
    let progress := interleave rest served.1 computation
    { progress with replies := served.2 :: progress.replies }

/-- How clients and computation get along: serving calls is what the computation relies on,
calls that clients may make have the same reply in states that are alike and leave them alike,
and what the computation guarantees keeps states alike. -/
structure Unseen (may : Call → Prop) (rely guarantee alike : State → State → Prop) : Prop
    extends Resumption.Interference rely guarantee where
  serves : ∀ call state, rely state (serve call state).1
  reply : ∀ {call alone state}, may call → alike alone state →
    (serve call alone).2 = (serve call state).2
  next : ∀ {call alone state}, may call → alike alone state →
    alike (serve call alone).1 (serve call state).1
  steps : ∀ {alone state next}, guarantee state next → alike alone state → alike alone next

variable {serve} {may : Call → Prop} {rely guarantee alike : State → State → Prop}

/-- What a computation meets, what is left of it meets after any events, and these lead to a state
that may be relied on. -/
theorem meets_interleave (fair : Resumption.Interference rely guarantee)
    (serves : ∀ call state, rely state (serve call state).1) {post : State → Answer → Prop}
    (events : List (Event Call)) {state : State} {computation : Resumption State Fault Answer}
    (meets : computation.Meets rely guarantee post state) :
    (interleave serve events state computation).rest.Meets rely guarantee post
        (interleave serve events state computation).state ∧
      rely state (interleave serve events state computation).state := by
  induction events generalizing state computation with
  | nil => exact ⟨meets, fair.refl state⟩
  | cons event rest inductionHypothesis =>
    cases event with
    | call call =>
      obtain ⟨left, reached⟩ := inductionHypothesis (meets.later fair (serves call state))
      exact ⟨left, fair.trans _ _ _ (serves call state) reached⟩
    | step =>
      cases computation with
      | done answer => exact inductionHypothesis meets
      | fail fault => exact inductionHypothesis meets
      | step write next =>
        obtain ⟨allowed, after⟩ := meets state (fair.refl state)
        obtain ⟨left, reached⟩ := inductionHypothesis after
        exact ⟨left, fair.trans _ _ _ (fair.own _ _ allowed) reached⟩

/-- Calls do not tell states that are alike. -/
theorem Unseen.serveAll (unseen : Unseen serve may rely guarantee alike) {calls : List Call}
    (every : ∀ call ∈ calls, may call) {alone state : State} (same : alike alone state) :
    (serveAll serve calls alone).1 = (serveAll serve calls state).1 ∧
      alike (serveAll serve calls alone).2 (serveAll serve calls state).2 := by
  induction calls generalizing alone state with
  | nil => exact ⟨rfl, same⟩
  | cons call rest inductionHypothesis =>
    have first := every call List.mem_cons_self
    obtain ⟨replies, states⟩ := inductionHypothesis
      (fun later member => every later (List.mem_cons_of_mem call member))
      (unseen.next first same)
    exact ⟨congrArg₂ List.cons (unseen.reply first same) replies, states⟩

/-- Nobody notices a computation that meets its guarantee. -/
theorem Unseen.interleave (unseen : Unseen serve may rely guarantee alike)
    {post : State → Answer → Prop} {events : List (Event Call)}
    (every : ∀ call ∈ calls events, may call) {alone state : State} (same : alike alone state)
    {computation : Resumption State Fault Answer}
    (meets : computation.Meets rely guarantee post state) :
    (interleave serve events state computation).replies =
        (Interleaving.serveAll serve (calls events) alone).1 ∧
      alike (Interleaving.serveAll serve (calls events) alone).2
        (interleave serve events state computation).state := by
  induction events generalizing alone state computation with
  | nil => exact ⟨rfl, same⟩
  | cons event rest inductionHypothesis =>
    cases event with
    | call call =>
      have first := every call List.mem_cons_self
      obtain ⟨replies, states⟩ := inductionHypothesis
        (fun later member => every later (List.mem_cons_of_mem call member))
        (unseen.next first same) (meets.later unseen.toInterference (unseen.serves call state))
      exact ⟨congrArg₂ List.cons (unseen.reply first same).symm replies, states⟩
    | step =>
      cases computation with
      | done answer => exact inductionHypothesis every same meets
      | fail fault => exact inductionHypothesis every same meets
      | step write next =>
        obtain ⟨allowed, after⟩ := meets state (unseen.refl state)
        exact inductionHypothesis every (unseen.steps allowed same) after

/-- A computation that can no longer fail does not. -/
theorem sure_interleave {events : List (Event Call)} {state : State}
    {computation : Resumption State Fault Answer} (sure : computation.Sure) :
    (interleave serve events state computation).rest.Sure := by
  induction events generalizing state computation with
  | nil => exact sure
  | cons event rest inductionHypothesis =>
    cases event with
    | call call => exact inductionHypothesis sure
    | step => exact inductionHypothesis (sure.advance state)

/-- Nobody notices a computation that failed, when what it did before the last point at which it
could fail meets its guarantee. -/
theorem Unseen.interleave_fail (unseen : Unseen serve may rely guarantee alike)
    {post : State → Answer → Prop} {events : List (Event Call)}
    (every : ∀ call ∈ calls events, may call) {alone state : State} (same : alike alone state)
    {first : Resumption State Fault Answer} {finish : Answer → Resumption State Fault Next}
    (meets : first.Meets rely guarantee post state) (sure : ∀ answer, (finish answer).Sure)
    {fault : Fault}
    (failed : (Interleaving.interleave serve events state (first >>= finish)).rest = .fail fault) :
    (Interleaving.interleave serve events state (first >>= finish)).replies =
        (Interleaving.serveAll serve (calls events) alone).1 ∧
      alike (Interleaving.serveAll serve (calls events) alone).2
        (Interleaving.interleave serve events state (first >>= finish)).state := by
  induction events generalizing alone state first with
  | nil => exact ⟨rfl, same⟩
  | cons event rest inductionHypothesis =>
    cases event with
    | call call =>
      have before := every call List.mem_cons_self
      obtain ⟨replies, states⟩ := inductionHypothesis
        (fun later member => every later (List.mem_cons_of_mem call member))
        (unseen.next before same) (meets.later unseen.toInterference (unseen.serves call state))
        failed
      exact ⟨congrArg₂ List.cons (unseen.reply before same).symm replies, states⟩
    | step =>
      cases first with
      | done answer =>
        -- From here on nothing fails.
        have certain : (Interleaving.interleave serve (.step :: rest) state
            (.done answer >>= finish)).rest.Sure := sure_interleave (sure answer)
        rw [failed] at certain
        exact certain.elim
      | fail fault => exact inductionHypothesis every same meets failed
      | step write next =>
        obtain ⟨allowed, after⟩ := meets state (unseen.refl state)
        exact inductionHypothesis every (unseen.steps allowed same) after failed

end Serve

end Interleaving
