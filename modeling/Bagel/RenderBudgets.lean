/-
This file proves what the budgets of an external renderer promise, in any run on fewer keys than
the maps have room for.

Then nothing is ever evicted, and what a renderer knows of a key, its share, changes only with
the events of that key, so a run can be followed for one key alone. The level of a bucket plus
what flows in until the end of a window bounds the renders that are granted until then; an end
of a cooldown is only ever replaced by a later one.
-/

import Bagel.Renderers

namespace Bagel

open TokenBuckets

/-! ### The share of a key -/

/-- What a renderer knows of a key. -/
structure BudgetShare where
  buckets : Option Buckets
  ends : Option ℚ

namespace BudgetShare

variable (config : RendererConfig) (share : BudgetShare)

def inCooldown (now : ℚ) : Bool :=
  match share.ends with
  | some ends => now < ends
  | none => false

/-- What the buckets say to an attempt, and how it leaves them. -/
def take (decoy : Bool) (now : ℚ) : Bool × Buckets :=
  (share.buckets.getD (.new config now)).take config decoy now

/-- An event of the key. -/
def act : RenderEvent → BudgetShare
  | .attempt _ decoy clock =>
    if share.inCooldown clock.checked then share
    else
      ⟨some (share.take config decoy clock.taken).2,
        if (share.take config decoy clock.taken).1 then share.ends
        else some (clock.blamed + ExternalRenderer.cooldownSecs config)⟩
  | .completion _ completion now =>
    if completion.isFailure then ⟨share.buckets, some (now + ExternalRenderer.cooldownSecs config)⟩
    else share

def grant : RenderEvent → Option Granted
  | .attempt _ decoy clock =>
    if ¬ share.inCooldown clock.checked ∧ (share.take config decoy clock.taken).1 then
      some ⟨decoy, clock.taken⟩
    else none
  | .completion _ _ _ => none

/-- When an event starts a cooldown. -/
def blame : RenderEvent → Option ℚ
  | .attempt _ decoy clock =>
    if ¬ share.inCooldown clock.checked ∧ ¬ (share.take config decoy clock.taken).1 then
      some clock.blamed
    else none
  | .completion _ completion now => if completion.isFailure then some now else none

/-- The renders granted in a run of the key. -/
def grants (config : RendererConfig) : BudgetShare → List RenderEvent → List Granted
  | _, [] => []
  | share, event :: later =>
    (share.grant config event).toList ++ grants config (share.act config event) later

variable {config share} {key : BudgetKey} {decoy : Bool} {clock : Readings}

theorem act_of_cool (cool : share.inCooldown clock.checked = true) :
    share.act config (.attempt key decoy clock) = share :=
  if_pos cool

theorem act_of_empty (warm : share.inCooldown clock.checked = false)
    (empty : (share.take config decoy clock.taken).1 = false) :
    share.act config (.attempt key decoy clock) =
      ⟨some (share.take config decoy clock.taken).2,
        some (clock.blamed + ExternalRenderer.cooldownSecs config)⟩ := by
  rw [act, if_neg (ne_true_of_eq_false warm), if_neg (ne_true_of_eq_false empty)]

theorem act_of_filled (warm : share.inCooldown clock.checked = false)
    (filled : (share.take config decoy clock.taken).1 = true) :
    share.act config (.attempt key decoy clock) =
      ⟨some (share.take config decoy clock.taken).2, share.ends⟩ := by
  rw [act, if_neg (ne_true_of_eq_false warm), if_pos filled]

end BudgetShare

namespace ExternalRenderer

def share (renderer : ExternalRenderer) (key : BudgetKey) : BudgetShare :=
  ⟨renderer.buckets.lookup key, renderer.cooldowns.lookup key⟩

/-! ### Nothing is evicted -/

/-- A renderer knows only these keys. -/
structure Knows (keys : Finset BudgetKey) (renderer : ExternalRenderer) : Prop where
  buckets : ∀ key ∈ renderer.buckets, key ∈ keys
  cooldowns : ∀ key ∈ renderer.cooldowns, key ∈ keys

variable {config : RendererConfig} {renderer : ExternalRenderer} {keys : Finset BudgetKey}

theorem length_keys_le {Value : Type} {map : AList fun _ : BudgetKey => Value}
    (known : ∀ key ∈ map, key ∈ keys) : map.keys.length ≤ keys.card := by
  rw [← List.toFinset_card_of_nodup map.keys_nodup]
  exact Finset.card_le_card fun key member => known key (List.mem_toFinset.mp member)

theorem startCooldown_eq (known : renderer.Knows keys) (few : keys.card < budgetCapacity)
    (key : BudgetKey) (now : ℚ) :
    renderer.startCooldown config key now =
      { renderer with
        cooldowns := renderer.cooldowns.insert key (now + cooldownSecs config) } := by
  have room : ¬ budgetCapacity ≤ renderer.cooldowns.keys.length :=
    Nat.not_le.mpr ((length_keys_le known.cooldowns).trans_lt few)
  simp only [startCooldown, if_neg room]

theorem takeBudget_eq (known : renderer.Knows keys) (few : keys.card < budgetCapacity)
    (key : BudgetKey) (decoy : Bool) (now : ℚ) :
    renderer.takeBudget config key decoy now =
      (((renderer.share key).take config decoy now).1,
        { renderer with
          buckets :=
            renderer.buckets.insert key ((renderer.share key).take config decoy now).2 }) := by
  have room : ¬ (budgetCapacity ≤ renderer.buckets.keys.length ∧ key ∉ renderer.buckets) :=
    fun full => Nat.not_le.mpr ((length_keys_le known.buckets).trans_lt few) full.1
  simp only [takeBudget, if_neg room]
  rfl

theorem Knows.insertCooldown (known : renderer.Knows keys) {key : BudgetKey} (member : key ∈ keys)
    (ends : ℚ) : { renderer with cooldowns := renderer.cooldowns.insert key ends }.Knows keys := by
  refine ⟨known.buckets, fun other inserted => ?_⟩
  rcases (AList.mem_insert _).mp inserted with same | held
  · rw [same]
    exact member
  · exact known.cooldowns other held

theorem Knows.insertBuckets (known : renderer.Knows keys) {key : BudgetKey} (member : key ∈ keys)
    (buckets : Buckets) :
    { renderer with buckets := renderer.buckets.insert key buckets }.Knows keys := by
  refine ⟨fun other inserted => ?_, known.cooldowns⟩
  rcases (AList.mem_insert _).mp inserted with same | held
  · rw [same]
    exact member
  · exact known.buckets other held

/-! ### One event -/

variable (config)

theorem knows_startCooldown (known : renderer.Knows keys) (few : keys.card < budgetCapacity)
    {key : BudgetKey} (member : key ∈ keys) (now : ℚ) :
    (renderer.startCooldown config key now).Knows keys := by
  rw [startCooldown_eq known few]
  exact known.insertCooldown member _

theorem knows_takeBudget (known : renderer.Knows keys) (few : keys.card < budgetCapacity)
    {key : BudgetKey} (member : key ∈ keys) (decoy : Bool) (now : ℚ) :
    (renderer.takeBudget config key decoy now).2.Knows keys := by
  rw [takeBudget_eq known few]
  exact known.insertBuckets member _

theorem share_startCooldown (known : renderer.Knows keys) (few : keys.card < budgetCapacity)
    (own key : BudgetKey) (now : ℚ) :
    (renderer.startCooldown config own now).share key =
      if own = key then ⟨(renderer.share key).buckets, some (now + cooldownSecs config)⟩
      else renderer.share key := by
  rw [startCooldown_eq known few]
  by_cases same : own = key
  · rw [if_pos same, ← same, share, AList.lookup_insert]
    rfl
  · rw [if_neg same, share, AList.lookup_insert_ne (Ne.symm same)]
    rfl

theorem share_takeBudget (known : renderer.Knows keys) (few : keys.card < budgetCapacity)
    (own key : BudgetKey) (decoy : Bool) (now : ℚ) :
    (renderer.takeBudget config own decoy now).2.share key =
      if own = key then
        ⟨some ((renderer.share own).take config decoy now).2, (renderer.share own).ends⟩
      else renderer.share key := by
  rw [takeBudget_eq known few]
  by_cases same : own = key
  · rw [if_pos same, ← same]
    exact congrArg (BudgetShare.mk · _) (AList.lookup_insert _)
  · rw [if_neg same, share, AList.lookup_insert_ne (Ne.symm same)]
    rfl

/-- What an attempt comes to, by the share of its key. -/
theorem render_cases (known : renderer.Knows keys) (few : keys.card < budgetCapacity)
    (key : BudgetKey) (decoy : Bool) (clock : Readings) :
    ((renderer.share key).inCooldown clock.checked = true ∧
        renderer.render config key decoy clock = (.cooldown, renderer)) ∨
      ((renderer.share key).inCooldown clock.checked = false ∧
        ((renderer.share key).take config decoy clock.taken).1 = false ∧
        renderer.render config key decoy clock = (.overBudget,
          (renderer.takeBudget config key decoy clock.taken).2.startCooldown config key
            clock.blamed)) ∨
      ((renderer.share key).inCooldown clock.checked = false ∧
        ((renderer.share key).take config decoy clock.taken).1 = true ∧
        ∃ rendering, ∃ admission, (admission = .started ∨ admission = .concurrency) ∧
          renderer.render config key decoy clock = (admission,
            { (renderer.takeBudget config key decoy clock.taken).2 with
              rendering := rendering })) := by
  have checks : renderer.inCooldown key clock.checked =
      (renderer.share key).inCooldown clock.checked := rfl
  have takes : (renderer.takeBudget config key decoy clock.taken).1 =
      ((renderer.share key).take config decoy clock.taken).1 := by
    rw [takeBudget_eq known few]
  rw [render, checks, ← takes]
  cases cool : (renderer.share key).inCooldown clock.checked with
  | true => exact .inl ⟨rfl, if_pos rfl⟩
  | false =>
    cases ok : (renderer.takeBudget config key decoy clock.taken).1 with
    | false => exact .inr (.inl ⟨rfl, rfl, by simp [ok]⟩)
    | true =>
      refine .inr (.inr ⟨rfl, rfl, ?_⟩)
      simp only [Bool.false_eq_true, if_false, ok, not_true_eq_false]
      split
      · exact ⟨_, .concurrency, .inr rfl, rfl⟩
      · exact ⟨_, .started, .inl rfl, rfl⟩

/-- One event keeps the keys, and changes the share of its own key only. -/
theorem act_spec (known : renderer.Knows keys) (few : keys.card < budgetCapacity)
    {event : RenderEvent} (member : event.key ∈ keys) :
    (renderer.act config event).Knows keys ∧
      ∀ key, (renderer.act config event).share key =
        if event.key = key then (renderer.share key).act config event else renderer.share key := by
  cases event with
  | completion own completion now =>
    rw [act, complete]
    cases failure : completion.isFailure with
    | true =>
      rw [if_pos rfl]
      have after := knows_startCooldown config known few member now
      refine ⟨⟨after.buckets, after.cooldowns⟩, fun key => ?_⟩
      rw [BudgetShare.act, if_pos failure]
      exact share_startCooldown config known few own key now
    | false =>
      rw [if_neg Bool.false_ne_true]
      refine ⟨⟨known.buckets, known.cooldowns⟩, fun key => ?_⟩
      rw [BudgetShare.act, if_neg (ne_true_of_eq_false failure), ite_self]
      rfl
  | attempt own decoy clock =>
    have ownKey : (RenderEvent.attempt own decoy clock).key = own := rfl
    rw [ownKey] at member ⊢
    have taken := share_takeBudget config known few own
    have known' := knows_takeBudget config known few member decoy clock.taken
    rcases render_cases config known few own decoy clock with
      ⟨cool, admitted⟩ | ⟨warm, empty, admitted⟩ | ⟨warm, filled, rendering, _, -, admitted⟩
    · have after : renderer.act config (.attempt own decoy clock) = renderer :=
        congrArg Prod.snd admitted
      rw [after]
      refine ⟨known, fun key => ?_⟩
      by_cases same : own = key
      · rw [if_pos same, ← same, BudgetShare.act_of_cool cool]
      · rw [if_neg same]
    · have after : renderer.act config (.attempt own decoy clock) =
          (renderer.takeBudget config own decoy clock.taken).2.startCooldown config own
            clock.blamed := congrArg Prod.snd admitted
      rw [after]
      refine ⟨knows_startCooldown config known' few member _, fun key => ?_⟩
      rw [share_startCooldown config known' few, taken]
      by_cases same : own = key
      · rw [if_pos same, if_pos same, if_pos same, ← same, BudgetShare.act_of_empty warm empty]
      · rw [if_neg same, if_neg same, if_neg same]
    · have after : renderer.act config (.attempt own decoy clock) =
          { (renderer.takeBudget config own decoy clock.taken).2 with rendering := rendering } :=
        congrArg Prod.snd admitted
      rw [after]
      refine ⟨⟨known'.buckets, known'.cooldowns⟩, fun key => (taken key decoy clock.taken).trans ?_⟩
      by_cases same : own = key
      · rw [if_pos same, if_pos same, ← same, BudgetShare.act_of_filled warm filled]
      · rw [if_neg same, if_neg same]

/-- An event grants what the share of its key grants, and starts a cooldown when that does. -/
theorem grant_blame_eq (known : renderer.Knows keys) (few : keys.card < budgetCapacity)
    (key : BudgetKey) (event : RenderEvent) :
    renderer.grant config key event =
        (if event.key = key then (renderer.share key).grant config event else none) ∧
      renderer.blame config event = (renderer.share event.key).blame config event := by
  cases event with
  | completion own completion now => exact ⟨(ite_self none).symm, rfl⟩
  | attempt own decoy clock =>
    have ownKey : (RenderEvent.attempt own decoy clock).key = own := rfl
    rw [ownKey, grant, blame, BudgetShare.grant, BudgetShare.blame]
    rcases render_cases config known few own decoy clock with
      ⟨cool, admitted⟩ | ⟨warm, empty, admitted⟩ | ⟨warm, filled, rendering, _, goesOn, admitted⟩
    · rw [admitted]
      by_cases same : own = key
      · simp [← same, cool]
      · simp [same, cool]
    · rw [admitted]
      by_cases same : own = key
      · simp [← same, warm, empty]
      · simp [same, warm, empty]
    · rw [admitted]
      by_cases same : own = key
      · rcases goesOn with started | concurrency
        · simp [← same, warm, filled, started]
        · simp [← same, warm, filled, concurrency]
      · rcases goesOn with started | concurrency
        · simp [same, warm, filled, started]
        · simp [same, warm, filled, concurrency]

/-! ### Runs -/

/-- The events of a key. -/
def own (key : BudgetKey) (events : List RenderEvent) : List RenderEvent :=
  events.filter fun event => event.key = key

theorem own_cons_of_eq {key : BudgetKey} {event : RenderEvent} (same : event.key = key)
    (later : List RenderEvent) : own key (event :: later) = event :: own key later :=
  List.filter_cons_of_pos (decide_eq_true same)

theorem own_cons_of_ne {key : BudgetKey} {event : RenderEvent} (other : event.key ≠ key)
    (later : List RenderEvent) : own key (event :: later) = own key later :=
  List.filter_cons_of_neg (by rwa [decide_eq_true_iff])

/-- What a run grants to a key is what the key's own events grant to its share. -/
theorem run_spec {events : List RenderEvent} (few : keys.card < budgetCapacity)
    (members : ∀ event ∈ events, event.key ∈ keys) (known : renderer.Knows keys) :
    (events.foldl (act config) renderer).Knows keys ∧
      ∀ key,
        (events.foldl (act config) renderer).share key =
            (own key events).foldl (BudgetShare.act config) (renderer.share key) ∧
          renderer.grants config key events =
            BudgetShare.grants config (renderer.share key) (own key events) := by
  induction events generalizing renderer with
  | nil => exact ⟨known, fun key => ⟨rfl, rfl⟩⟩
  | cons event later inductionHypothesis =>
    obtain ⟨known', shares⟩ := act_spec config known few (members _ List.mem_cons_self)
    obtain ⟨final, follows⟩ :=
      inductionHypothesis (fun event member => members event (.tail _ member)) known'
    refine ⟨final, fun key => ?_⟩
    have granted := (grant_blame_eq config known few key event).1
    obtain ⟨share, grants'⟩ := follows key
    rw [shares key] at share grants'
    by_cases same : event.key = key
    · rw [if_pos same] at share grants' granted
      rw [own_cons_of_eq same]
      exact ⟨share, by rw [grants, grants', granted, BudgetShare.grants]⟩
    · rw [if_neg same] at share grants' granted
      rw [own_cons_of_ne same]
      exact ⟨share, by rw [grants, grants', granted, Option.toList_none, List.nil_append]⟩

end ExternalRenderer

/-! ### The level of a bucket -/

namespace Buckets

variable (config : RendererConfig) (decoyOnly : Bool)

/-- The bucket of all renders, or that of the decoys. -/
def side (buckets : Buckets) : TokenBucket := if decoyOnly then buckets.decoy else buckets.general

end Buckets

/-- How fast that bucket fills, and up to where. -/
def RendererConfig.rateOf (config : RendererConfig) (decoyOnly : Bool) : ℚ :=
  if decoyOnly then config.decoyRate else config.rate

def RendererConfig.burstOf (config : RendererConfig) (decoyOnly : Bool) : ℚ :=
  if decoyOnly then config.decoyBurst else config.burst

/-- The renders that draw from that bucket. -/
def Granted.counts (decoyOnly : Bool) (granted : Granted) : Bool := !decoyOnly || granted.decoy

section Levels

variable (config : RendererConfig) (decoyOnly : Bool)

theorem rateOf_nonneg : 0 ≤ config.rateOf decoyOnly := by
  unfold RendererConfig.rateOf
  split
  · exact Nat.cast_nonneg _
  · exact Nat.cast_nonneg _

theorem burstOf_nonneg : 0 ≤ config.burstOf decoyOnly := by
  unfold RendererConfig.burstOf
  split
  · exact Nat.cast_nonneg _
  · exact Nat.cast_nonneg _

variable {config decoyOnly}

theorem side_new (now : ℚ) :
    (Buckets.new config now).side decoyOnly = .full (config.burstOf decoyOnly) now := by
  cases decoyOnly <;> rfl

/-- A bucket is taken from by the renders that draw from it, and those are granted only what it
grants. -/
theorem take_side (config : RendererConfig) (decoyOnly : Bool) (buckets : Buckets) (decoy : Bool)
    (now : ℚ) :
    ((buckets.take config decoy now).2.side decoyOnly =
        if Granted.counts decoyOnly ⟨decoy, now⟩ then
          ((buckets.side decoyOnly).take (config.rateOf decoyOnly) (config.burstOf decoyOnly) now).2
        else buckets.side decoyOnly) ∧
      ((buckets.take config decoy now).1 = true → Granted.counts decoyOnly ⟨decoy, now⟩ = true →
        ((buckets.side decoyOnly).take (config.rateOf decoyOnly) (config.burstOf decoyOnly) now).1 =
          true) := by
  cases decoyOnly with
  | false => exact ⟨rfl, fun ok _ => (Bool.and_eq_true_iff.mp ok).1⟩
  | true =>
    cases decoy with
    | false => exact ⟨rfl, fun _ uncounted => absurd uncounted Bool.false_ne_true⟩
    | true => exact ⟨rfl, fun ok _ => (Bool.and_eq_true_iff.mp ok).2⟩

/-- An attempt that is granted and counts lowers the level by one, and any other does not raise
it. -/
theorem level_take_le (config : RendererConfig) (decoyOnly : Bool) (buckets : Buckets)
    (decoy : Bool) (now : ℚ) :
    (if (buckets.take config decoy now).1 ∧ Granted.counts decoyOnly ⟨decoy, now⟩ then 1 else 0) +
        ((buckets.take config decoy now).2.side decoyOnly).level (config.rateOf decoyOnly)
          (config.burstOf decoyOnly) now ≤
      (buckets.side decoyOnly).level (config.rateOf decoyOnly) (config.burstOf decoyOnly) now := by
  obtain ⟨left, granted⟩ := take_side config decoyOnly buckets decoy now
  rw [left]
  by_cases counted : Granted.counts decoyOnly ⟨decoy, now⟩ = true
  · rw [if_pos counted]
    refine le_of_le_of_eq ?_ level_take
    by_cases ok : (buckets.take config decoy now).1 = true
    · rw [if_pos ⟨ok, counted⟩, if_pos (granted ok counted)]
    · rw [if_neg fun both => ok both.1, zero_add]
      refine le_add_of_nonneg_left ?_
      split
      · exact zero_le_one
      · exact le_rfl
  · rw [if_neg counted, if_neg fun both => counted both.2, zero_add]

theorem tokens_take_side (config : RendererConfig) {buckets : Buckets} (decoy : Bool) (now : ℚ)
    (some : 0 ≤ (buckets.side decoyOnly).tokens) :
    0 ≤ ((buckets.take config decoy now).2.side decoyOnly).tokens := by
  rw [(take_side config decoyOnly buckets decoy now).1]
  split
  · exact tokens_take_nonneg (rateOf_nonneg _ _) (burstOf_nonneg _ _) some
  · exact some

end Levels

/-! ### The renders granted in a window -/

namespace RenderEvent

/-- When an event looks at the buckets. -/
def moment : RenderEvent → ℚ
  | attempt _ _ clock => clock.taken
  | completion _ _ now => now

theorem Ordered.moments {now : ℚ} {event : RenderEvent} {later : List RenderEvent}
    (ordered : Ordered now (event :: later)) :
    now ≤ event.start ∧ event.start ≤ event.moment ∧ event.moment ≤ event.finish := by
  obtain ⟨after, monotone, -⟩ := ordered
  cases event with
  | attempt key decoy clock => exact ⟨after, monotone⟩
  | completion key completion now => exact ⟨after, le_rfl, le_rfl⟩

theorem Ordered.mono {now earlier : ℚ} {events : List RenderEvent} (ordered : Ordered now events)
    (before : earlier ≤ now) : Ordered earlier events := by
  cases events with
  | nil => trivial
  | cons event later => exact ⟨before.trans ordered.1, ordered.2⟩

/-- The events that follow are ordered from the look at the buckets on. -/
theorem Ordered.later {now : ℚ} {event : RenderEvent} {later : List RenderEvent}
    (ordered : Ordered now (event :: later)) : Ordered event.moment later :=
  Ordered.mono ordered.2.2 ordered.moments.2.2

theorem Ordered.own {now : ℚ} {events : List RenderEvent} (ordered : Ordered now events)
    (key : BudgetKey) : Ordered now (ExternalRenderer.own key events) := by
  induction events generalizing now with
  | nil => trivial
  | cons event later inductionHypothesis =>
    have moments := ordered.moments
    by_cases same : event.key = key
    · rw [ExternalRenderer.own_cons_of_eq same]
      exact ⟨ordered.1, ordered.2.1, inductionHypothesis ordered.2.2⟩
    · rw [ExternalRenderer.own_cons_of_ne same]
      exact (inductionHypothesis ordered.2.2).mono
        (moments.1.trans (moments.2.1.trans moments.2.2))

/-- What follows an event is ordered from its end on. -/
theorem Ordered.after {now : ℚ} {earlier later : List RenderEvent} {event : RenderEvent}
    (ordered : Ordered now (earlier ++ event :: later)) : Ordered event.finish later := by
  induction earlier generalizing now with
  | nil => exact ordered.2.2
  | cons first rest inductionHypothesis => exact inductionHypothesis ordered.2.2

end RenderEvent

/-- How many renders of a window count. -/
def countIn (decoyOnly : Bool) (opening closing : ℚ) (grants : List Granted) : Nat :=
  (grants.filter fun granted =>
    granted.counts decoyOnly && decide (opening ≤ granted.time ∧ granted.time ≤ closing)).length

namespace BudgetShare

variable {config : RendererConfig} {decoyOnly : Bool} {share : BudgetShare}

/-- No bucket owes tokens. -/
def Sound (decoyOnly : Bool) (share : BudgetShare) : Prop :=
  ∀ buckets, share.buckets = some buckets → 0 ≤ (buckets.side decoyOnly).tokens

/-- The level that a look at the bucket would find. -/
def level (config : RendererConfig) (decoyOnly : Bool) (share : BudgetShare) (now : ℚ) : ℚ :=
  ((share.buckets.getD (.new config now)).side decoyOnly).level (config.rateOf decoyOnly)
    (config.burstOf decoyOnly) now

theorem level_le_burst (config : RendererConfig) (decoyOnly : Bool) (share : BudgetShare)
    (now : ℚ) : share.level config decoyOnly now ≤ config.burstOf decoyOnly :=
  TokenBuckets.level_le_burst

theorem level_eq_of_none (fresh : share.buckets = none) (now : ℚ) :
    share.level config decoyOnly now = config.burstOf decoyOnly := by
  rw [level, fresh, Option.getD_none, side_new]
  exact level_of_now le_rfl

theorem level_le_add (config : RendererConfig) (decoyOnly : Bool) (share : BudgetShare)
    {now later : ℚ} (order : now ≤ later) :
    share.level config decoyOnly later ≤
      share.level config decoyOnly now + config.rateOf decoyOnly * (later - now) := by
  cases known : share.buckets with
  | none =>
    rw [level_eq_of_none known, level_eq_of_none known]
    exact le_add_of_nonneg_right (mul_nonneg (rateOf_nonneg _ _) (sub_nonneg.mpr order))
  | some buckets =>
    rw [level, level, known]
    exact TokenBuckets.level_le_add (rateOf_nonneg _ _) order

theorem level_nonneg (sound : share.Sound decoyOnly) (now : ℚ) :
    0 ≤ share.level config decoyOnly now := by
  cases known : share.buckets with
  | none =>
    rw [level_eq_of_none known]
    exact burstOf_nonneg _ _
  | some buckets =>
    rw [level, known]
    exact TokenBuckets.level_nonneg (rateOf_nonneg _ _) (burstOf_nonneg _ _) (sound buckets known)

theorem countIn_singleton_le (decoyOnly : Bool) (granted : Granted) (opening closing : ℚ) :
    countIn decoyOnly opening closing [granted] ≤ if granted.counts decoyOnly then 1 else 0 := by
  unfold countIn
  cases counted : granted.counts decoyOnly with
  | false => simp [counted]
  | true => exact List.length_filter_le _ _

/-- What one event preserves: the renders it grants are paid for by the level. -/
theorem act_spec (config : RendererConfig) (sound : share.Sound decoyOnly) (event : RenderEvent)
    (opening closing : ℚ) :
    (share.act config event).Sound decoyOnly ∧
      (countIn decoyOnly opening closing (share.grant config event).toList : ℚ) +
          (share.act config event).level config decoyOnly event.moment ≤
        share.level config decoyOnly event.moment := by
  cases event with
  | completion key completion now =>
    have nothing : countIn decoyOnly opening closing
        (share.grant config (.completion key completion now)).toList = 0 := rfl
    rw [nothing, Nat.cast_zero, zero_add, act]
    split
    · exact ⟨sound, le_rfl⟩
    · exact ⟨sound, le_rfl⟩
  | attempt key decoy clock =>
    have paid := level_take_le config decoyOnly (share.buckets.getD (.new config clock.taken)) decoy
      clock.taken
    have solvent : 0 ≤ ((share.take config decoy clock.taken).2.side decoyOnly).tokens := by
      refine tokens_take_side config decoy clock.taken ?_
      cases known : share.buckets with
      | none =>
        rw [Option.getD_none, side_new]
        exact burstOf_nonneg _ _
      | some buckets => exact sound buckets known
    cases cool : share.inCooldown clock.checked with
    | true =>
      have nothing : share.grant config (.attempt key decoy clock) = none := by simp [grant, cool]
      rw [act_of_cool cool, nothing]
      exact ⟨sound, (zero_add _).le⟩
    | false =>
      cases ok : (share.take config decoy clock.taken).1 with
      | false =>
        have nothing : share.grant config (.attempt key decoy clock) = none := by simp [grant, ok]
        rw [act_of_empty cool ok, nothing]
        refine ⟨fun buckets known => Option.some.inj known ▸ solvent, ?_⟩
        refine le_trans ?_ paid
        rw [if_neg fun both => ne_true_of_eq_false ok both.1]
        exact le_rfl
      | true =>
        have granted : share.grant config (.attempt key decoy clock) =
            some ⟨decoy, clock.taken⟩ := by simp [grant, cool, ok]
        rw [act_of_filled cool ok, granted]
        refine ⟨fun buckets known => Option.some.inj known ▸ solvent, ?_⟩
        refine le_trans (add_le_add_left ?_ _) paid
        have counted := countIn_singleton_le decoyOnly ⟨decoy, clock.taken⟩ opening closing
        cases counts : Granted.counts decoyOnly ⟨decoy, clock.taken⟩ with
        | true =>
          rw [if_pos ⟨ok, rfl⟩]
          rw [counts, if_pos rfl] at counted
          exact Nat.cast_le_one.mpr counted
        | false =>
          rw [if_neg fun both => Bool.false_ne_true both.2]
          rw [counts, if_neg Bool.false_ne_true, Nat.le_zero] at counted
          exact (Nat.cast_eq_zero.mpr counted).le

theorem countIn_append (opening closing : ℚ) (first second : List Granted) :
    countIn decoyOnly opening closing (first ++ second) =
      countIn decoyOnly opening closing first + countIn decoyOnly opening closing second := by
  rw [countIn, countIn, countIn, List.filter_append, List.length_append]

/-- Renders after the end of a window are not counted. -/
theorem countIn_of_late {opening closing : ℚ} {grants : List Granted}
    (late : ∀ granted ∈ grants, closing < granted.time) :
    countIn decoyOnly opening closing grants = 0 := by
  rw [countIn, List.length_eq_zero_iff, List.filter_eq_nil_iff]
  intro granted member
  have after := not_le.mpr (late granted member)
  simp [after]

/-- An event grants at most one render, at its look at the buckets. -/
theorem time_of_grant {event : RenderEvent} {granted : Granted}
    (member : granted ∈ (share.grant config event).toList) : granted.time = event.moment := by
  cases event with
  | completion key completion now => exact absurd member List.not_mem_nil
  | attempt key decoy clock =>
    rw [grant] at member
    split at member
    · rw [List.mem_singleton.mp member]
      rfl
    · exact absurd member List.not_mem_nil

theorem le_time_of_grants {now : ℚ} {events : List RenderEvent}
    (ordered : RenderEvent.Ordered now events) :
    ∀ granted ∈ grants config share events, now ≤ granted.time := by
  induction events generalizing now share with
  | nil => exact fun granted member => absurd member List.not_mem_nil
  | cons event later inductionHypothesis =>
    intro granted member
    have moments := ordered.moments
    have before : now ≤ event.moment := moments.1.trans moments.2.1
    rcases List.mem_append.mp member with here | there
    · rw [time_of_grant here]
      exact before
    · exact before.trans (inductionHypothesis ordered.later granted there)

theorem countIn_of_outside {now : ℚ} (opening : ℚ) {closing : ℚ} {event : RenderEvent}
    {later : List RenderEvent} (ordered : RenderEvent.Ordered now (event :: later))
    (outside : closing < event.moment) :
    countIn decoyOnly opening closing (grants config share (event :: later)) = 0 := by
  refine countIn_of_late fun granted member => ?_
  rcases List.mem_append.mp member with here | there
  · rw [time_of_grant here]
    exact outside
  · exact outside.trans_le (le_time_of_grants ordered.later granted there)

/-- Until a time, a key is granted at most what its bucket holds and what flows in until then. -/
theorem countIn_le_level (config : RendererConfig) (sound : share.Sound decoyOnly) (opening : ℚ)
    {now closing : ℚ} (before : now ≤ closing) {events : List RenderEvent}
    (ordered : RenderEvent.Ordered now events) :
    (countIn decoyOnly opening closing (grants config share events) : ℚ) ≤
      share.level config decoyOnly now + config.rateOf decoyOnly * (closing - now) := by
  induction events generalizing now share with
  | nil =>
    have flows := mul_nonneg (rateOf_nonneg config decoyOnly) (sub_nonneg.mpr before)
    exact add_nonneg (level_nonneg sound now) flows
  | cons event later inductionHypothesis =>
    have moments := ordered.moments
    have reached : now ≤ event.moment := moments.1.trans moments.2.1
    have filled := level_le_add config decoyOnly share reached
    rcases le_or_gt event.moment closing with inside | outside
    · obtain ⟨sound', paid⟩ := act_spec config sound event opening closing
      have rest := inductionHypothesis sound' inside ordered.later
      rw [grants, countIn_append, Nat.cast_add]
      linarith
    · rw [countIn_of_outside opening ordered outside, Nat.cast_zero]
      exact add_nonneg (level_nonneg sound now)
        (mul_nonneg (rateOf_nonneg _ _) (sub_nonneg.mpr before))

theorem countIn_of_early {opening closing : ℚ} {grants : List Granted}
    (early : ∀ granted ∈ grants, granted.time < opening) :
    countIn decoyOnly opening closing grants = 0 := by
  rw [countIn, List.length_eq_zero_iff, List.filter_eq_nil_iff]
  intro granted member
  have before := not_le.mpr (early granted member)
  simp [before]

/-- Within a window, a key is granted at most the burst and what flows in. -/
theorem countIn_le_burst (config : RendererConfig) (sound : share.Sound decoyOnly)
    {now opening closing : ℚ} (window : opening ≤ closing) {events : List RenderEvent}
    (ordered : RenderEvent.Ordered now events) :
    (countIn decoyOnly opening closing (grants config share events) : ℚ) ≤
      config.burstOf decoyOnly + config.rateOf decoyOnly * (closing - opening) := by
  have flows := mul_nonneg (rateOf_nonneg config decoyOnly) (sub_nonneg.mpr window)
  induction events generalizing now share with
  | nil => exact add_nonneg (burstOf_nonneg _ _) flows
  | cons event later inductionHypothesis =>
    obtain ⟨sound', paid⟩ := act_spec config sound event opening closing
    rcases lt_or_ge event.moment opening with early | late
    · have before : ∀ granted ∈ (share.grant config event).toList, granted.time < opening :=
        fun granted member => time_of_grant member ▸ early
      rw [grants, countIn_append, countIn_of_early before, Nat.zero_add]
      exact inductionHypothesis sound' ordered.later
    · rcases le_or_gt event.moment closing with inside | outside
      · have rest := countIn_le_level config sound' opening inside ordered.later
        have full := level_le_burst config decoyOnly share event.moment
        have shorter : config.rateOf decoyOnly * (closing - event.moment) ≤
            config.rateOf decoyOnly * (closing - opening) :=
          mul_le_mul_of_nonneg_left (sub_le_sub_left late _) (rateOf_nonneg _ _)
        rw [grants, countIn_append, Nat.cast_add]
        linarith
      · rw [countIn_of_outside opening ordered outside, Nat.cast_zero]
        exact add_nonneg (burstOf_nonneg _ _) flows

/-! ### Cooldowns -/

/-- The cooldown of a key does not end before a time. -/
def Rests (time : ℚ) (share : BudgetShare) : Prop :=
  ∃ ends, share.ends = some ends ∧ time ≤ ends

/-- An event that starts a cooldown does so at its end, and leaves the key at rest. -/
theorem rests_of_blame {event : RenderEvent} {time : ℚ}
    (blamed : share.blame config event = some time) :
    time = event.finish ∧
      (share.act config event).Rests (time + ExternalRenderer.cooldownSecs config) := by
  cases event with
  | completion key completion now =>
    rw [blame] at blamed
    rw [act]
    split at blamed
    · next failure =>
      cases blamed
      rw [if_pos failure]
      exact ⟨rfl, _, rfl, le_rfl⟩
    · cases blamed
  | attempt key decoy clock =>
    rw [blame] at blamed
    split at blamed
    · next refused =>
      cases blamed
      rw [act_of_empty (Bool.eq_false_of_not_eq_true refused.1)
        (Bool.eq_false_of_not_eq_true refused.2)]
      exact ⟨rfl, _, rfl, le_rfl⟩
    · cases blamed

/-- A rest lasts: cooldowns that start later end later. -/
theorem Rests.act {time : ℚ} (rests : share.Rests (time + ExternalRenderer.cooldownSecs config))
    {event : RenderEvent} (after : time ≤ event.finish) :
    (share.act config event).Rests (time + ExternalRenderer.cooldownSecs config) := by
  cases event with
  | completion key completion now =>
    rw [BudgetShare.act]
    split
    · exact ⟨_, rfl, add_le_add_left after _⟩
    · exact rests
  | attempt key decoy clock =>
    rw [BudgetShare.act]
    split
    · exact rests
    · obtain ⟨ends, known, later⟩ := rests
      split
      · exact ⟨ends, known, later⟩
      · exact ⟨_, rfl, add_le_add_left after _⟩

/-- A key at rest is granted nothing before its time. -/
theorem Rests.le_time {time : ℚ} (rests : share.Rests time) {now : ℚ} {event : RenderEvent}
    {later : List RenderEvent} (ordered : RenderEvent.Ordered now (event :: later))
    {granted : Granted} (member : granted ∈ (share.grant config event).toList) :
    time ≤ granted.time := by
  rw [time_of_grant member]
  cases event with
  | completion key completion now => exact absurd member List.not_mem_nil
  | attempt key decoy clock =>
    obtain ⟨ends, known, bound⟩ := rests
    rw [grant] at member
    split at member
    · next free =>
      rw [inCooldown, known, decide_eq_true_iff, not_lt] at free
      exact bound.trans (free.1.trans ordered.moments.2.1)
    · exact absurd member List.not_mem_nil

/-- What a run grants after a cooldown has started lies after its end. -/
theorem Rests.le_time_of_grants {time : ℚ}
    (rests : share.Rests (time + ExternalRenderer.cooldownSecs config)) {now : ℚ}
    (after : time ≤ now) {events : List RenderEvent}
    (ordered : RenderEvent.Ordered now events) :
    ∀ granted ∈ grants config share events,
      time + ExternalRenderer.cooldownSecs config ≤ granted.time := by
  induction events generalizing now share with
  | nil => exact fun granted member => absurd member List.not_mem_nil
  | cons event later inductionHypothesis =>
    have moments := ordered.moments
    have before : time ≤ event.moment := after.trans (moments.1.trans moments.2.1)
    intro granted member
    rcases List.mem_append.mp member with here | there
    · exact rests.le_time ordered here
    · exact inductionHypothesis (rests.act (before.trans moments.2.2)) before ordered.later granted
        there

end BudgetShare

/-! ### The promises -/

namespace ExternalRenderer

variable {config : RendererConfig}

theorem knows_new (keys : Finset BudgetKey) : new.Knows keys :=
  ⟨fun key member => absurd member (AList.notMem_empty key),
    fun key member => absurd member (AList.notMem_empty key)⟩

theorem mem_keys (events : List RenderEvent) :
    ∀ event ∈ events, event.key ∈ (events.map RenderEvent.key).toFinset :=
  fun _ member => List.mem_toFinset.mpr (List.mem_map_of_mem member)

/-- In a window of any length, a key is granted at most the burst and what flows in. -/
theorem countIn_grants_le {start : ℚ} {events : List RenderEvent}
    (ordered : RenderEvent.Ordered start events)
    (few : (events.map RenderEvent.key).toFinset.card < budgetCapacity) (decoyOnly : Bool)
    (key : BudgetKey) (opening : ℚ) {length : ℚ} (positive : 0 ≤ length) :
    (countIn decoyOnly opening (opening + length) (grants config key new events) : ℚ) ≤
      config.burstOf decoyOnly + config.rateOf decoyOnly * length := by
  have fresh : (new.share key).Sound decoyOnly := fun buckets known => by cases known
  have window : opening ≤ opening + length := le_add_of_nonneg_right positive
  have bound := BudgetShare.countIn_le_burst config fresh window (ordered.own key)
  rw [add_sub_cancel_left] at bound
  rwa [((run_spec config few (mem_keys events) (knows_new _)).2 key).2]

/-- After a cooldown has started, a key is granted nothing before its end. -/
theorem le_time_of_blame {start : ℚ} {earlier later : List RenderEvent} {event : RenderEvent}
    (ordered : RenderEvent.Ordered start (earlier ++ event :: later))
    (few : ((earlier ++ event :: later).map RenderEvent.key).toFinset.card < budgetCapacity)
    {time : ℚ} (blamed : (earlier.foldl (act config) new).blame config event = some time) :
    ∀ granted ∈ grants config event.key ((earlier.foldl (act config) new).act config event) later,
      time + cooldownSecs config ≤ granted.time := by
  have members := mem_keys (earlier ++ event :: later)
  have known := (run_spec config few
    (fun event member => members event (List.mem_append_left _ member)) (knows_new _)).1
  obtain ⟨known', shares⟩ := act_spec config known few
    (members event (List.mem_append_right _ List.mem_cons_self))
  have granted := ((run_spec config few (fun event member =>
    members event (List.mem_append_right _ (.tail _ member))) known').2 event.key).2
  rw [(grant_blame_eq config known few event.key event).2] at blamed
  obtain ⟨ends, rests⟩ := BudgetShare.rests_of_blame blamed
  rw [granted, shares event.key, if_pos rfl]
  exact rests.le_time_of_grants ends.le (ordered.after.own event.key)

theorem cooldowns_of_concurrency {renderer : ExternalRenderer} {key : BudgetKey} {decoy : Bool}
    {clock : Readings} (refused : (renderer.render config key decoy clock).1 = .concurrency) :
    (renderer.render config key decoy clock).2.cooldowns = renderer.cooldowns := by
  have kept : (renderer.takeBudget config key decoy clock.taken).2.cooldowns =
      renderer.cooldowns := rfl
  rw [render] at refused ⊢
  cases cool : renderer.inCooldown key clock.checked with
  | true => rfl
  | false =>
    rw [cool, if_neg Bool.false_ne_true] at refused
    rw [if_neg Bool.false_ne_true]
    cases ok : (renderer.takeBudget config key decoy clock.taken).1 with
    | false => simp [ok] at refused
    | true =>
      simp only [ok, not_true_eq_false, if_false]
      split
      · exact kept
      · exact kept

/-- The promises of the budgets, in any run of attempts on a clock that does not go back, on
fewer keys than the maps have room for: the renders of a window, those of decoys among them, are
bounded; a key that was over budget or whose render failed is granted nothing in the cooldown
that follows, and lack of concurrency starts none; what a key is granted is what its own events
grant. -/
theorem renderBudgets_hold (config : RendererConfig) (start : ℚ) (events : List RenderEvent)
    (ordered : RenderEvent.Ordered start events)
    (few : (events.map RenderEvent.key).toFinset.card < budgetCapacity) :
    (∀ key : BudgetKey, ∀ opening length : ℚ, 0 ≤ length →
      (countIn false opening (opening + length) (grants config key new events) : ℚ) ≤
          config.burst + config.rate * length ∧
        (countIn true opening (opening + length) (grants config key new events) : ℚ) ≤
          config.decoyBurst + config.decoyRate * length) ∧
    (∀ (earlier later : List RenderEvent) (event : RenderEvent) (time : ℚ),
      events = earlier ++ event :: later →
        (earlier.foldl (act config) new).blame config event = some time →
          ∀ granted ∈ grants config event.key
              ((earlier.foldl (act config) new).act config event) later,
            time + cooldownSecs config ≤ granted.time) ∧
    (∀ (renderer : ExternalRenderer) (key : BudgetKey) (decoy : Bool) (clock : Readings),
      (renderer.render config key decoy clock).1 = .concurrency →
        (renderer.render config key decoy clock).2.cooldowns = renderer.cooldowns) ∧
    ∀ key : BudgetKey, grants config key new events = grants config key new (own key events) := by
  refine ⟨fun key opening length positive => ⟨?_, ?_⟩, ?_, fun renderer key decoy clock refused =>
    cooldowns_of_concurrency refused, fun key => ?_⟩
  · exact countIn_grants_le ordered few false key opening positive
  · exact countIn_grants_le ordered few true key opening positive
  · rintro earlier later event time rfl blamed
    exact le_time_of_blame ordered few blamed
  · have whole := ((run_spec config few (mem_keys events) (knows_new _)).2 key).2
    have members : ∀ event ∈ own key events,
        event.key ∈ (events.map RenderEvent.key).toFinset :=
      fun event member => mem_keys events event (List.mem_of_mem_filter member)
    have alone := ((run_spec config few members (knows_new _)).2 key).2
    have again : own key (own key events) = own key events := by simp [own]
    rw [whole, alone, again]

end ExternalRenderer

/-! ### A run -/

namespace SampleRenderers

def config : RendererConfig where
  name := "pages"
  kind := "iocaine"
  endpoint := "http://127.0.0.1:42069/"
  timeout := 2000000000
  maxBody := 262144
  maxConcurrency := 128
  rate := 1
  burst := 2
  decoyRate := 1
  decoyBurst := 1
  cooldown := 60000000000

def visitor : BudgetKey := ⟨"example.test", "m", none⟩

def other : BudgetKey := ⟨"example.org", "m", none⟩

def once (time : ℚ) : Readings := ⟨time, time, time⟩

/-- Both keys are granted a render, and the one of the other key comes back. -/
def earlier : List RenderEvent :=
  [.attempt visitor true (once 0), .attempt other false (once 1), .completion other (.body []) 2]

/-- The one of the visitor does not. -/
def failed : RenderEvent := .completion visitor .timeout 3

/-- Within the minute that follows the visitor is granted nothing, and the other key is. -/
def later : List RenderEvent :=
  [.attempt other false (once 4), .attempt visitor false (once 59),
    .attempt visitor false (once 63)]

theorem ordered : RenderEvent.Ordered 0 (earlier ++ failed :: later) := by
  simp only [earlier, failed, later, List.cons_append, List.nil_append, RenderEvent.Ordered,
    RenderEvent.start, RenderEvent.finish, RenderEvent.Monotone, once]
  norm_num

theorem few : ((earlier ++ failed :: later).map RenderEvent.key).toFinset.card < budgetCapacity :=
  (List.toFinset_card_le _).trans_lt (by decide)

theorem blame_failed :
    (earlier.foldl (ExternalRenderer.act config) .new).blame config failed = some 3 := rfl

end SampleRenderers

theorem renderBudgets_hold_sample :
    (countIn true 0 (0 + 1) (ExternalRenderer.grants SampleRenderers.config
        SampleRenderers.visitor .new
        (SampleRenderers.earlier ++ SampleRenderers.failed :: SampleRenderers.later)) : ℚ) ≤
      (SampleRenderers.config.decoyBurst : ℚ) + SampleRenderers.config.decoyRate * 1 ∧
    ∀ granted ∈ ExternalRenderer.grants SampleRenderers.config SampleRenderers.visitor
        ((SampleRenderers.earlier.foldl (ExternalRenderer.act SampleRenderers.config) .new).act
          SampleRenderers.config SampleRenderers.failed) SampleRenderers.later,
      63 ≤ granted.time := by
  obtain ⟨bounded, rests, -, -⟩ := ExternalRenderer.renderBudgets_hold SampleRenderers.config 0 _
    SampleRenderers.ordered SampleRenderers.few
  refine ⟨(bounded SampleRenderers.visitor 0 1 zero_le_one).2, fun granted member => ?_⟩
  have ends : (3 : ℚ) + ExternalRenderer.cooldownSecs SampleRenderers.config = 63 := by
    decide +kernel
  rw [← ends]
  exact rests _ _ _ 3 rfl SampleRenderers.blame_failed granted member

example : (ExternalRenderer.grants SampleRenderers.config SampleRenderers.visitor .new
    (SampleRenderers.earlier ++ SampleRenderers.failed :: SampleRenderers.later)).map
      Granted.time = [0, 63] := by
  decide +kernel

end Bagel
