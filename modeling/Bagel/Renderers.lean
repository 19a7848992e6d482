/-
This file models the budgets of an external renderer: `maze/renderer.rs` without the request
itself. Every key has two buckets of tokens, which are filled when they are looked at, and may
have a cooldown. An attempt runs without interruption until it waits for the page, and goes on
when the page is there, the request has failed or the time is up.

Times are seconds on one clock. An attempt reads the clock up to three times.
-/

import Mathlib.Algebra.Order.Ring.Rat
import Bagel.Library.TokenBuckets
import Bagel.MazeLinks
import Bagel.Reload

namespace Bagel

open TokenBuckets

deriving instance DecidableEq for BudgetKey

/-- `BUDGET_CAPACITY` -/
def budgetCapacity : Nat := 65536

/-! ### Buckets -/

/-- `TokenBucket` -/
abbrev TokenBucket := Bucket ℚ

structure Buckets where
  general : TokenBucket
  decoy : TokenBucket
  deriving DecidableEq

namespace Buckets

/-- The buckets of a key that is new. -/
def new (config : RendererConfig) (now : ℚ) : Buckets where
  general := .full config.burst now
  decoy := .full config.decoyBurst now

/-- The end of `take_budget`. A decoy draws from both buckets, also when the first refuses. -/
def take (config : RendererConfig) (buckets : Buckets) (decoy : Bool) (now : ℚ) : Bool × Buckets :=
  let (generalOk, general) := buckets.general.take (config.rate : ℚ) config.burst now
  let (decoyOk, decoyBucket) :=
    if decoy then buckets.decoy.take (config.decoyRate : ℚ) config.decoyBurst now
    else (true, buckets.decoy)
  (generalOk && decoyOk, ⟨general, decoyBucket⟩)

end Buckets

/-! ### The renderer -/

/-- `HashMap::retain`, by the value. -/
def retainValues {Value : Type} (keep : Value → Bool) (map : AList fun _ : BudgetKey => Value) :
    AList fun _ : BudgetKey => Value :=
  ⟨map.entries.filter fun entry => keep entry.2,
    List.NodupKeys.sublist List.filter_sublist map.nodupKeys⟩

/-- Remove a key with the smallest value, the first one in the order of the map. -/
def removeLeast {Value : Type} (rank : Value → ℚ) (map : AList fun _ : BudgetKey => Value) :
    AList fun _ : BudgetKey => Value :=
  match map.entries.argmin fun entry => rank entry.2 with
  | some entry => map.erase entry.1
  | none => map

/-- `ExternalRenderer`, with the keys whose attempts hold a permit of the semaphore. -/
structure ExternalRenderer where
  buckets : AList fun _ : BudgetKey => Buckets
  cooldowns : AList fun _ : BudgetKey => ℚ
  rendering : List BudgetKey

/-- The three readings of the clock in an attempt: in `in_cooldown`, `take_budget` and
`start_cooldown`. -/
structure Readings where
  checked : ℚ
  taken : ℚ
  blamed : ℚ

/-- How far an attempt comes without waiting. -/
inductive RenderAdmission where
  | cooldown
  | overBudget
  | concurrency
  /-- The request is under way. -/
  | started
  deriving DecidableEq

/-- The errors of `request`. -/
inductive RequestError where
  | error
  | status
  | oversized
  | utf8
  deriving DecidableEq

/-- What an attempt that was started comes to. -/
inductive Completion where
  | body (html : List Char)
  | failed (cause : RequestError)
  | timeout
  /-- The caller does not wait any longer. -/
  | dropped

def RequestError.label : RequestError → String
  | .error => "error"
  | .status => "status"
  | .oversized => "oversized"
  | .utf8 => "utf8"

/-- What `render` returns before it waits. -/
def RenderAdmission.attempt : RenderAdmission → Option RenderAttempt
  | cooldown => some (.fallback "cooldown")
  | overBudget => some (.fallback "over_budget")
  | concurrency => some (.fallback "concurrency")
  | started => none

/-- What `render` returns after it has waited. -/
def Completion.attempt : Completion → Option RenderAttempt
  | body html => some (.body html)
  | failed cause => some (.fallback cause.label)
  | timeout => some (.fallback "timeout")
  | dropped => none

/-- The completions that start a cooldown. -/
def Completion.isFailure : Completion → Bool
  | body _ => false
  | failed _ => true
  | timeout => true
  | dropped => false

namespace ExternalRenderer

def new : ExternalRenderer := ⟨∅, ∅, []⟩

/-- `in_cooldown` -/
def inCooldown (renderer : ExternalRenderer) (key : BudgetKey) (now : ℚ) : Bool :=
  match renderer.cooldowns.lookup key with
  | some ends => now < ends
  | none => false

/-- The `cooldown` of a configuration, which is in nanoseconds, in seconds. -/
def cooldownSecs (config : RendererConfig) : ℚ := config.cooldown / 1000000000

/-- `start_cooldown` -/
def startCooldown (config : RendererConfig) (renderer : ExternalRenderer) (key : BudgetKey)
    (now : ℚ) : ExternalRenderer :=
  let cooldowns := renderer.cooldowns
  let cooldowns :=
    if budgetCapacity ≤ cooldowns.keys.length then retainValues (fun ends => now < ends) cooldowns
    else cooldowns
  let cooldowns :=
    if budgetCapacity ≤ cooldowns.keys.length then removeLeast id cooldowns else cooldowns
  { renderer with cooldowns := cooldowns.insert key (now + cooldownSecs config) }

/-- `take_budget` -/
def takeBudget (config : RendererConfig) (renderer : ExternalRenderer) (key : BudgetKey)
    (decoy : Bool) (now : ℚ) : Bool × ExternalRenderer :=
  let buckets := renderer.buckets
  let buckets :=
    if budgetCapacity ≤ buckets.keys.length ∧ key ∉ buckets then
      retainValues (fun bucket => max 0 (now - bucket.general.last) < 600) buckets
    else buckets
  let buckets :=
    if budgetCapacity ≤ buckets.keys.length ∧ key ∉ buckets then
      removeLeast (fun bucket => bucket.general.last) buckets
    else buckets
  let (ok, taken) := ((buckets.lookup key).getD (.new config now)).take config decoy now
  (ok, { renderer with buckets := buckets.insert key taken })

/-- `render` up to where it waits for the request. -/
def render (config : RendererConfig) (renderer : ExternalRenderer) (key : BudgetKey) (decoy : Bool)
    (clock : Readings) : RenderAdmission × ExternalRenderer :=
  if renderer.inCooldown key clock.checked then (.cooldown, renderer)
  else
    let (ok, renderer) := renderer.takeBudget config key decoy clock.taken
    if ¬ ok then (.overBudget, renderer.startCooldown config key clock.blamed)
    else if config.maxConcurrency ≤ renderer.rendering.length then (.concurrency, renderer)
    else (.started, { renderer with rendering := key :: renderer.rendering })

/-- `render` after it has waited. The permit is given back when it returns. -/
def complete (config : RendererConfig) (renderer : ExternalRenderer) (key : BudgetKey)
    (completion : Completion) (now : ℚ) : ExternalRenderer :=
  let renderer :=
    if completion.isFailure then renderer.startCooldown config key now else renderer
  { renderer with rendering := renderer.rendering.erase key }

end ExternalRenderer

/-! ### Runs -/

/-- What happens to a renderer: an attempt begins, or one that was started ends. -/
inductive RenderEvent where
  | attempt (key : BudgetKey) (decoy : Bool) (clock : Readings)
  | completion (key : BudgetKey) (completion : Completion) (now : ℚ)

namespace RenderEvent

def key : RenderEvent → BudgetKey
  | attempt key _ _ => key
  | completion key _ _ => key

/-- The first reading of the clock. -/
def start : RenderEvent → ℚ
  | attempt _ _ clock => clock.checked
  | completion _ _ now => now

/-- The last reading of the clock. -/
def finish : RenderEvent → ℚ
  | attempt _ _ clock => clock.blamed
  | completion _ _ now => now

/-- The clock does not go back within an event. -/
def Monotone : RenderEvent → Prop
  | attempt _ _ clock => clock.checked ≤ clock.taken ∧ clock.taken ≤ clock.blamed
  | completion _ _ _ => True

/-- The clock does not go back, from a time on. -/
def Ordered : ℚ → List RenderEvent → Prop
  | _, [] => True
  | now, event :: later => now ≤ event.start ∧ event.Monotone ∧ Ordered event.finish later

end RenderEvent

/-- A render that the budgets of a key have granted. -/
structure Granted where
  decoy : Bool
  time : ℚ
  deriving DecidableEq

namespace ExternalRenderer

def act (config : RendererConfig) (renderer : ExternalRenderer) : RenderEvent → ExternalRenderer
  | .attempt key decoy clock => (renderer.render config key decoy clock).2
  | .completion key completion now => renderer.complete config key completion now

/-- What an event grants to a key. The budgets have also granted what the concurrency refuses. -/
def grant (config : RendererConfig) (renderer : ExternalRenderer) (key : BudgetKey) :
    RenderEvent → Option Granted
  | .attempt own decoy clock =>
    let admission := (renderer.render config own decoy clock).1
    if own = key ∧ (admission = .started ∨ admission = .concurrency) then
      some ⟨decoy, clock.taken⟩
    else none
  | .completion _ _ _ => none

/-- When an event starts a cooldown of its key. -/
def blame (config : RendererConfig) (renderer : ExternalRenderer) : RenderEvent → Option ℚ
  | .attempt key decoy clock =>
    if (renderer.render config key decoy clock).1 = .overBudget then some clock.blamed else none
  | .completion _ completion now => if completion.isFailure then some now else none

/-- The renders granted to a key in a run. -/
def grants (config : RendererConfig) (key : BudgetKey) :
    ExternalRenderer → List RenderEvent → List Granted
  | _, [] => []
  | renderer, event :: later =>
    (renderer.grant config key event).toList ++ grants config key (renderer.act config event) later

end ExternalRenderer

end Bagel
