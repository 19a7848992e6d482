/-
This file proves that a detector with context patterns keeps its clients apart. All correlation
keys share one memory, which every call purges by time, and which drops its oldest key when a new
one finds it full.

A purge by the call of another key takes nothing that the own call would not purge, since times do
not go back. As long as no more keys occur within a window than the memory holds, the oldest key
is never dropped. What a key finds is therefore what it would find if it were alone.
-/

import Bagel.Detector
import Mathlib.Data.Finset.Card

namespace Bagel

/-! ### The memory -/

/-- The older of the oldest entry so far and another one. -/
def older (oldest : Option (String × ContextEntry)) (entry : String × ContextEntry) :
    Option (String × ContextEntry) :=
  match oldest with
  | none => some entry
  | some best => if entry.2.lastSeen < best.2.lastSeen then some entry else some best

/-- The oldest key of a memory is one of its keys. -/
theorem exists_of_oldestKey {cache : List (String × ContextEntry)} (nonempty : cache ≠ []) :
    ∃ entry ∈ cache, oldestKey cache = some entry.1 := by
  have chosen : ∀ (rest : List (String × ContextEntry)) (best : String × ContextEntry),
      ∃ entry ∈ best :: rest, rest.foldl older (some best) = some entry := by
    intro rest
    induction rest with
    | nil => exact fun best => ⟨best, List.mem_cons_self, rfl⟩
    | cons head rest inductionHypothesis =>
      intro best
      rw [List.foldl_cons]
      dsimp only [older]
      split
      · obtain ⟨entry, listed, same⟩ := inductionHypothesis head
        exact ⟨entry, List.mem_cons_of_mem _ listed, same⟩
      · obtain ⟨entry, listed, same⟩ := inductionHypothesis best
        refine ⟨entry, ?_, same⟩
        rcases List.mem_cons.mp listed with rfl | later
        · exact List.mem_cons_self
        · exact List.mem_cons_of_mem _ (List.mem_cons_of_mem _ later)
  cases cache with
  | nil => exact absurd rfl nonempty
  | cons head rest =>
    obtain ⟨entry, listed, same⟩ := chosen rest head
    exact ⟨entry, listed, congrArg (Option.map Prod.fst) same⟩

namespace RegexDetector

variable {detector : RegexDetector} {context : List (String × ContextEntry)} {key : String}
  {now : Nat}

/-- The entries that a call does not find stale. -/
def fresh (detector : RegexDetector) (receivedAt : Nat) (context : List (String × ContextEntry)) :
    List (String × ContextEntry) :=
  context.filter fun entry => decide (receivedAt - detector.contextWindowSecs ≤ entry.2.lastSeen)

/-- The entry of a key, unless it is stale. -/
def live (detector : RegexDetector) (receivedAt : Nat) (context : List (String × ContextEntry))
    (key : String) : Option ContextEntry :=
  (context.lookup key).filter fun entry =>
    decide (receivedAt - detector.contextWindowSecs ≤ entry.lastSeen)

theorem lookup_fresh (ordered : Sorted.Ordered context) :
    (detector.fresh now context).lookup key = detector.live now context key :=
  ordered.lookup_filter _ _

/-- What is purged early would be purged later as well. -/
theorem live_fresh {later : Nat} (ordered : Sorted.Ordered context) (order : now ≤ later) :
    detector.live later (detector.fresh now context) key = detector.live later context key := by
  unfold live
  rw [lookup_fresh ordered, live, Option.filter_filter]
  refine congrArg (fun keep => (context.lookup key).filter keep) (funext fun entry => ?_)
  have earlier := Nat.sub_le_sub_right order detector.contextWindowSecs
  rw [Bool.eq_iff_iff, Bool.and_eq_true, decide_eq_true_iff, decide_eq_true_iff]
  exact and_iff_right_of_imp earlier.trans

/-- A memory without its oldest key. -/
def withoutOldest (context : List (String × ContextEntry)) : List (String × ContextEntry) :=
  match oldestKey context with
  | none => context
  | some oldest => context.filter fun entry => entry.1 != oldest

/-- The memory in which a call looks for its key. -/
def cacheFor (detector : RegexDetector) (receivedAt : Nat) (key : String)
    (context : List (String × ContextEntry)) : List (String × ContextEntry) :=
  detector.evict receivedAt key context

/-- A call purges the stale entries, and drops a key only when its own is new and the memory is
full. -/
theorem cacheFor_cases (detector : RegexDetector) (now : Nat) (key : String)
    (context : List (String × ContextEntry)) :
    (detector.cacheFor now key context = detector.fresh now context ∧
        ((∃ entry ∈ detector.fresh now context, entry.1 = key) ∨
          (detector.fresh now context).length < contextCapacity)) ∨
      ((¬ ∃ entry ∈ detector.fresh now context, entry.1 = key) ∧
        contextCapacity ≤ (detector.fresh now context).length ∧
        ∃ oldest ∈ detector.fresh now context, detector.cacheFor now key context =
          (detector.fresh now context).filter fun entry => entry.1 != oldest.1) := by
  have room : ((detector.fresh now context).any (fun entry => entry.1 == key) ||
        decide ((detector.fresh now context).length < contextCapacity)) = true ↔
      (∃ entry ∈ detector.fresh now context, entry.1 = key) ∨
        (detector.fresh now context).length < contextCapacity := by
    rw [Bool.or_eq_true, List.any_eq_true, decide_eq_true_iff]
    simp only [beq_iff_eq]
  by_cases fits : (∃ entry ∈ detector.fresh now context, entry.1 = key) ∨
      (detector.fresh now context).length < contextCapacity
  · exact Or.inl ⟨if_pos (room.mpr fits), fits⟩
  · obtain ⟨missing, overfull⟩ := not_or.mp fits
    have full := Nat.le_of_not_lt overfull
    have nonempty : detector.fresh now context ≠ [] :=
      List.ne_nil_of_length_pos (Nat.lt_of_lt_of_le (by decide) full)
    obtain ⟨oldest, listed, same⟩ := exists_of_oldestKey nonempty
    refine Or.inr ⟨missing, full, oldest, listed, (if_neg (mt room.mp fits)).trans ?_⟩
    show withoutOldest (detector.fresh now context) = _
    rw [withoutOldest, same]

/-! ### Calls -/

/-- An entry with one more line. -/
def extended (detector : RegexDetector) (receivedAt : Nat) (content : String)
    (entry : Option ContextEntry) : ContextEntry :=
  let pushed := (entry.map ContextEntry.lines).getD [] ++ [content]
  ⟨receivedAt, pushed.drop (pushed.length - detector.maxContextLines)⟩

/-- What a call leaves of the memory when it adds a line. -/
def remember (detector : RegexDetector) (receivedAt : Nat) (key content : String)
    (context : List (String × ContextEntry)) : List (String × ContextEntry) :=
  let cache := detector.cacheFor receivedAt key context
  let entry := detector.extended receivedAt content (cache.lookup key)
  Sorted.alter key entry (fun _ => entry) cache

end RegexDetector

/-- A call of a detector. -/
structure DetectCall where
  record : String
  receivedAt : Nat
  correlation : Option String

namespace RegexDetector

variable {parsers : Parsers} {detector : RegexDetector} {context : List (String × ContextEntry)}
  {key : String} {now : Nat} {call : DetectCall} {calls : List DetectCall}

def detectCall (parsers : Parsers) (detector : RegexDetector)
    (context : List (String × ContextEntry)) (call : DetectCall) :
    List (String × ContextEntry) × Option Detection :=
  detector.detect parsers context call.record call.receivedAt call.correlation

/-- The memory after some calls. -/
def contextAfter (parsers : Parsers) (detector : RegexDetector) (calls : List DetectCall) :
    List (String × ContextEntry) :=
  calls.foldl (fun context call => (detector.detectCall parsers context call).1) []

/-- A call leaves the memory alone and does not depend on it, or it adds a line to its key and
depends on the lines that it finds there. -/
theorem detectCall_cases (parsers : Parsers) (detector : RegexDetector) (call : DetectCall) :
    (∃ result, ∀ context, detector.detectCall parsers context call = (context, result)) ∨
      ∃ key content, call.correlation = some key ∧
        ∃ answer : List String → Option Detection, ∀ context : List (String × ContextEntry),
          detector.detectCall parsers context call =
            (detector.remember call.receivedAt key content context,
              answer ((((detector.cacheFor call.receivedAt key context).lookup key).map
                ContextEntry.lines).getD [])) := by
  unfold detectCall detect
  by_cases ignored : (detector.ignore.any fun pattern => pattern.isMatch call.record) = true
  · exact Or.inl ⟨none, fun context => if_pos ignored⟩
  · simp only [if_neg ignored]
    cases detector.content call.record with
    | none => exact Or.inl ⟨none, fun context => rfl⟩
    | some content =>
      by_cases plain : detector.contextPatterns.isEmpty = true
      · exact Or.inl ⟨_, fun context => if_pos plain⟩
      · simp only [if_neg plain]
        cases call.correlation with
        | none => exact Or.inl ⟨_, fun context => rfl⟩
        | some key =>
          exact Or.inr ⟨key, content, rfl, fun lines =>
            detector.detectText parsers call.receivedAt content detector.patterns <|>
              detector.detectText parsers call.receivedAt (joinLines lines content)
                detector.contextPatterns, fun context => rfl⟩

/-! ### Bounds -/

theorem ordered_cacheFor (ordered : Sorted.Ordered context) :
    Sorted.Ordered (detector.cacheFor now key context) := by
  rcases cacheFor_cases detector now key context with ⟨same, -⟩ | ⟨-, -, oldest, -, same⟩
  · rw [same]
    exact List.Pairwise.filter _ ordered
  · rw [same]
    exact List.Pairwise.filter _ (List.Pairwise.filter _ ordered)

/-- An eviction leaves a part of the memory. -/
theorem mem_of_cacheFor {entry : String × ContextEntry}
    (listed : entry ∈ detector.cacheFor now key context) : entry ∈ context := by
  rcases cacheFor_cases detector now key context with ⟨same, -⟩ | ⟨-, -, oldest, -, same⟩
  · rw [same] at listed
    exact List.mem_of_mem_filter listed
  · rw [same] at listed
    exact List.mem_of_mem_filter (List.mem_of_mem_filter listed)

/-- What holds of the entries of a memory in every state. -/
structure Bounded (detector : RegexDetector) (context : List (String × ContextEntry)) : Prop where
  ordered : Sorted.Ordered context
  keys : context.length ≤ contextCapacity
  lines : ∀ entry ∈ context, entry.2.lines.length ≤ detector.maxContextLines

theorem Bounded.length_remember (bounded : detector.Bounded context) (content : String) :
    (detector.remember now key content context).length ≤ contextCapacity := by
  have fewer : (detector.fresh now context).length ≤ context.length := List.length_filter_le _ _
  have within := fewer.trans bounded.keys
  have ordered : Sorted.Ordered (detector.fresh now context) :=
    List.Pairwise.filter _ bounded.ordered
  unfold remember
  dsimp only
  rcases cacheFor_cases detector now key context with
    ⟨same, present | room⟩ | ⟨-, -, oldest, listed, same⟩
  · rw [same, ordered.length_alter present]
    exact within
  · rw [same]
    exact (Sorted.length_alter_le _ _ _ _).trans room
  · rw [same]
    have dropped : ((detector.fresh now context).filter fun entry =>
        entry.1 != oldest.1).length < (detector.fresh now context).length :=
      List.length_filter_lt_length_iff_exists.mpr ⟨oldest, listed, by simp⟩
    exact (Sorted.length_alter_le _ _ _ _).trans (dropped.trans_le within)

/-- The entries after a line was added: the one of its key, and what was there before. -/
theorem of_mem_remember {content : String} {entry : String × ContextEntry}
    (listed : entry ∈ detector.remember now key content context) :
    (entry.1 = key ∧ entry.2.lastSeen = now ∧
        entry.2.lines.length ≤ detector.maxContextLines) ∨ entry ∈ context := by
  rcases Sorted.mem_of_mem_alter listed with rfl | before
  · refine Or.inl ⟨rfl, rfl, ?_⟩
    rw [extended, List.length_drop]
    omega
  · exact Or.inr (mem_of_cacheFor before)

/-- What one call preserves. -/
theorem Bounded.detectCall (bounded : detector.Bounded context) :
    detector.Bounded (detector.detectCall parsers context call).1 := by
  rcases detectCall_cases parsers detector call with
    ⟨result, alone⟩ | ⟨key, content, -, answer, adds⟩
  · rw [alone]
    exact bounded
  · rw [adds]
    refine ⟨(ordered_cacheFor bounded.ordered).alter _ _ _, bounded.length_remember content, ?_⟩
    intro entry listed
    rcases of_mem_remember listed with ⟨-, -, few⟩ | before
    · exact few
    · exact bounded.lines entry before

theorem bounded_contextAfter (parsers : Parsers) (detector : RegexDetector)
    (calls : List DetectCall) : detector.Bounded (detector.contextAfter parsers calls) := by
  induction calls using List.reverseRecOn with
  | nil => exact ⟨List.Pairwise.nil, Nat.zero_le _, fun _ absent => absurd absent List.not_mem_nil⟩
  | append_singleton calls call inductionHypothesis =>
    rw [contextAfter, List.foldl_concat]
    exact inductionHypothesis.detectCall

theorem contextAfter_concat (calls : List DetectCall) (call : DetectCall) :
    detector.contextAfter parsers (calls ++ [call]) =
      (detector.detectCall parsers (detector.contextAfter parsers calls) call).1 :=
  List.foldl_concat ..

/-! ### Keys that were seen -/

/-- Every entry tells of a call with its key at its time. -/
theorem seen_of_mem {entry : String × ContextEntry}
    (listed : entry ∈ detector.contextAfter parsers calls) :
    ∃ call ∈ calls, call.correlation = some entry.1 ∧ call.receivedAt = entry.2.lastSeen := by
  induction calls using List.reverseRecOn with
  | nil => exact absurd listed List.not_mem_nil
  | append_singleton calls call inductionHypothesis =>
    have earlier : entry ∈ detector.contextAfter parsers calls →
        ∃ other ∈ calls ++ [call], other.correlation = some entry.1 ∧
          other.receivedAt = entry.2.lastSeen := fun before => by
      obtain ⟨other, member, both⟩ := inductionHypothesis before
      exact ⟨other, List.mem_append_left _ member, both⟩
    rw [contextAfter_concat] at listed
    rcases detectCall_cases parsers detector call with
      ⟨result, alone⟩ | ⟨key, content, correlated, answer, adds⟩
    · rw [alone] at listed
      exact earlier listed
    · rw [adds] at listed
      rcases of_mem_remember listed with ⟨own, last, -⟩ | before
      · refine ⟨call, List.mem_append_right _ List.mem_cons_self, ?_, last.symm⟩
        rw [correlated, own]
      · exact earlier before

end RegexDetector

/-- The clock does not go back from one call to the next. -/
def DetectCall.Ordered (calls : List DetectCall) : Prop :=
  calls.Pairwise fun earlier later => earlier.receivedAt ≤ later.receivedAt

/-- In no window do more keys occur than a memory holds. -/
def DetectCall.Uncrowded (window : Nat) (calls : List DetectCall) : Prop :=
  ∀ start, ((calls.filter fun call => start ≤ call.receivedAt ∧
    call.receivedAt ≤ start + window).filterMap DetectCall.correlation).toFinset.card ≤
      contextCapacity

theorem DetectCall.Uncrowded.sublist {window : Nat} {calls part : List DetectCall}
    (uncrowded : Uncrowded window calls) (within : part.Sublist calls) : Uncrowded window part := by
  intro start
  refine (Finset.card_le_card fun key listed => ?_).trans (uncrowded start)
  rw [List.mem_toFinset] at listed ⊢
  exact ((within.filter _).filterMap _).subset listed

namespace RegexDetector

variable {parsers : Parsers} {detector : RegexDetector} {key : String} {call : DetectCall}
  {calls : List DetectCall}

/-- The entry of a key after a line was added. -/
theorem lookup_remember_self {now : Nat} {content : String}
    {context : List (String × ContextEntry)} (ordered : Sorted.Ordered context)
    (purged : detector.cacheFor now key context = detector.fresh now context) :
    (detector.remember now key content context).lookup key =
      some (detector.extended now content (detector.live now context key)) := by
  rw [remember, Sorted.lookup_alter_self, purged, lookup_fresh ordered]

/-- A line of another key changes nothing that is not stale. -/
theorem live_remember_of_ne {now later : Nat} {other content : String}
    {context : List (String × ContextEntry)} (ordered : Sorted.Ordered context)
    (purged : detector.cacheFor now other context = detector.fresh now context)
    (different : key ≠ other) (order : now ≤ later) :
    detector.live later (detector.remember now other content context) key =
      detector.live later context key := by
  rw [← live_fresh ordered order, ← purged]
  unfold live remember
  rw [Sorted.lookup_alter_of_ne different]

/-- As long as no window is crowded, a call only purges what is stale. -/
theorem cacheFor_eq_fresh (parsers : Parsers)
    (ordered : DetectCall.Ordered (calls ++ [call]))
    (uncrowded : DetectCall.Uncrowded detector.contextWindowSecs (calls ++ [call]))
    (correlated : call.correlation = some key) :
    detector.cacheFor call.receivedAt key (detector.contextAfter parsers calls) =
      detector.fresh call.receivedAt (detector.contextAfter parsers calls) := by
  rcases cacheFor_cases detector call.receivedAt key (detector.contextAfter parsers calls) with
    ⟨same, -⟩ | ⟨missing, full, -⟩
  · exact same
  · exfalso
    have found : ∀ entry ∈ detector.fresh call.receivedAt (detector.contextAfter parsers calls),
        ∃ other ∈ calls, other.correlation = some entry.1 ∧
          call.receivedAt - detector.contextWindowSecs ≤ other.receivedAt := by
      intro entry listed
      obtain ⟨stored, young⟩ := List.mem_filter.mp listed
      obtain ⟨other, member, same, last⟩ := seen_of_mem stored
      exact ⟨other, member, same, last ▸ of_decide_eq_true young⟩
    have reached : ∀ other ∈ calls, other.receivedAt ≤ call.receivedAt := fun other member =>
      (List.pairwise_append.mp ordered).2.2 other member call List.mem_cons_self
    have sorted : Sorted.Ordered
        (detector.fresh call.receivedAt (detector.contextAfter parsers calls)) :=
      List.Pairwise.filter _ (bounded_contextAfter parsers detector calls).ordered
    have distinct : (key :: (detector.fresh call.receivedAt
        (detector.contextAfter parsers calls)).map Prod.fst).Nodup := by
      refine List.nodup_cons.mpr ⟨fun listed => missing ?_, sorted.nodup_keys⟩
      exact List.mem_map.mp listed
    have subset : (key :: (detector.fresh call.receivedAt
        (detector.contextAfter parsers calls)).map Prod.fst).toFinset ⊆
          (((calls ++ [call]).filter fun other =>
            call.receivedAt - detector.contextWindowSecs ≤ other.receivedAt ∧
              other.receivedAt ≤ call.receivedAt - detector.contextWindowSecs +
                detector.contextWindowSecs).filterMap DetectCall.correlation).toFinset := by
      intro other listed
      rw [List.mem_toFinset] at listed ⊢
      rw [List.mem_filterMap]
      rcases List.mem_cons.mp listed with rfl | old
      · refine ⟨call, List.mem_filter.mpr ⟨List.mem_append_right _ List.mem_cons_self, ?_⟩,
          correlated⟩
        exact decide_eq_true ⟨Nat.sub_le _ _, by omega⟩
      · obtain ⟨entry, stored, rfl⟩ := List.mem_map.mp old
        obtain ⟨earlier, member, same, young⟩ := found entry stored
        have before := reached earlier member
        refine ⟨earlier, List.mem_filter.mpr ⟨List.mem_append_left _ member, ?_⟩, same⟩
        exact decide_eq_true ⟨young, by omega⟩
    have many := (Finset.card_le_card subset).trans
      (uncrowded (call.receivedAt - detector.contextWindowSecs))
    rw [List.toFinset_card_of_nodup distinct, List.length_cons, List.length_map] at many
    exact absurd many (Nat.not_le_of_lt (Nat.lt_succ_of_le full))

/-! ### A key alone -/

/-- The calls with one correlation key. -/
def withKey (key : String) (calls : List DetectCall) : List DetectCall :=
  calls.filter fun call => call.correlation == some key

theorem withKey_concat (key : String) (calls : List DetectCall) (call : DetectCall) :
    withKey key (calls ++ [call]) =
      if call.correlation = some key then withKey key calls ++ [call] else withKey key calls := by
  rw [withKey, List.filter_append, ← withKey]
  split
  · next own => rw [List.filter_singleton, beq_iff_eq.mpr own, cond_true]
  · next other => rw [List.filter_singleton, beq_false_of_ne other, cond_false, List.append_nil]

/-- What a key finds after some calls is what it would find if it were alone. -/
theorem live_withKey (parsers : Parsers) (key : String) (ordered : DetectCall.Ordered calls)
    (uncrowded : DetectCall.Uncrowded detector.contextWindowSecs calls) {now : Nat}
    (reached : ∀ call ∈ calls, call.receivedAt ≤ now) :
    detector.live now (detector.contextAfter parsers calls) key =
      detector.live now (detector.contextAfter parsers (withKey key calls)) key := by
  induction calls using List.reverseRecOn generalizing now with
  | nil => rfl
  | append_singleton calls call inductionHypothesis =>
    have last : call ∈ calls ++ [call] := List.mem_append_right _ List.mem_cons_self
    have firstOrdered : DetectCall.Ordered calls := (List.pairwise_append.mp ordered).1
    have firstUncrowded := uncrowded.sublist (List.sublist_append_left calls [call])
    have before : ∀ other ∈ calls, other.receivedAt ≤ call.receivedAt := fun other member =>
      (List.pairwise_append.mp ordered).2.2 other member call List.mem_cons_self
    have unchanged := inductionHypothesis firstOrdered firstUncrowded fun other member =>
      reached other (List.mem_append_left _ member)
    have same := inductionHypothesis firstOrdered firstUncrowded before
    have full := (bounded_contextAfter parsers detector calls).ordered
    have alone := (bounded_contextAfter parsers detector (withKey key calls)).ordered
    rw [contextAfter_concat]
    by_cases own : call.correlation = some key
    · rw [withKey_concat, if_pos own, contextAfter_concat]
      rcases detectCall_cases parsers detector call with
        ⟨result, silent⟩ | ⟨other, content, correlated, answer, adds⟩
      · rw [silent, silent]
        exact unchanged
      · cases correlated.symm.trans own
        have kept : (withKey key calls ++ [call]).Sublist (calls ++ [call]) :=
          List.filter_sublist.append (List.Sublist.refl _)
        have purged := cacheFor_eq_fresh parsers ordered uncrowded own
        have purgedAlone := cacheFor_eq_fresh parsers (ordered.sublist kept)
          (uncrowded.sublist kept) own
        rw [adds, adds, live, live, lookup_remember_self full purged,
          lookup_remember_self alone purgedAlone, same]
    · rw [withKey_concat, if_neg own]
      rcases detectCall_cases parsers detector call with
        ⟨result, silent⟩ | ⟨other, content, correlated, answer, adds⟩
      · rw [silent]
        exact unchanged
      · have different : key ≠ other := by
          rintro rfl
          exact own correlated
        have purged := cacheFor_eq_fresh parsers ordered uncrowded correlated
        rw [adds, live_remember_of_ne full purged different (reached call last)]
        exact unchanged

/-- Whatever records of other keys come in between, a record yields what it would yield if only
those of its own key had come; and the memory stays within its bounds in every state. -/
theorem clients_apart (parsers : Parsers) (detector : RegexDetector) :
    (∀ calls call key, call.correlation = some key → DetectCall.Ordered (calls ++ [call]) →
      DetectCall.Uncrowded detector.contextWindowSecs (calls ++ [call]) →
        (detector.detectCall parsers (detector.contextAfter parsers calls) call).2 =
          (detector.detectCall parsers
            (detector.contextAfter parsers (withKey key calls)) call).2) ∧
      ∀ calls, (detector.contextAfter parsers calls).length ≤ contextCapacity ∧
        ∀ entry ∈ detector.contextAfter parsers calls,
          entry.2.lines.length ≤ detector.maxContextLines := by
  constructor
  · intro calls call key correlated ordered uncrowded
    rcases detectCall_cases parsers detector call with
      ⟨result, silent⟩ | ⟨other, content, own, answer, adds⟩
    · rw [silent, silent]
    · cases own.symm.trans correlated
      have kept : (withKey key calls ++ [call]).Sublist (calls ++ [call]) :=
        List.filter_sublist.append (List.Sublist.refl _)
      have full := (bounded_contextAfter parsers detector calls).ordered
      have alone := (bounded_contextAfter parsers detector (withKey key calls)).ordered
      have before : ∀ other ∈ calls, other.receivedAt ≤ call.receivedAt := fun other member =>
        (List.pairwise_append.mp ordered).2.2 other member call List.mem_cons_self
      have same := live_withKey parsers key (List.pairwise_append.mp ordered).1
        (uncrowded.sublist (List.sublist_append_left calls [call])) before
      rw [adds, adds, cacheFor_eq_fresh parsers ordered uncrowded correlated,
        cacheFor_eq_fresh parsers (ordered.sublist kept) (uncrowded.sublist kept) correlated,
        lookup_fresh full, lookup_fresh alone, same]
  · intro calls
    have bounded := bounded_contextAfter parsers detector calls
    exact ⟨bounded.keys, bounded.lines⟩

end RegexDetector

/-- A few calls crowd no window. -/
theorem DetectCall.uncrowded_of_length {calls : List DetectCall} (window : Nat)
    (few : calls.length ≤ contextCapacity) : Uncrowded window calls := by
  intro start
  refine (List.toFinset_card_le _).trans ((List.length_filterMap_le _ _).trans ?_)
  exact (List.length_filter_le _ _).trans few

namespace SampleContext

/-- Only the address of the connection matters here. -/
def parsers : Parsers where
  ipNetwork _ := none
  ipAddr raw := if raw = "192.0.2.3" then some (.v4 0xC0000203#32) else none
  rfc3339 _ := none
  strptime _ _ := none
  json _ := none

/-- A connection that ends with too many failures. -/
def failures : Pattern where
  captures text :=
    if text = "Connection from 192.0.2.3 port 1234\nDisconnecting: Too many failures" then
      some fun name => if name = "address" then some "192.0.2.3" else none
    else none

def detector : RegexDetector where
  prefilter := none
  patterns := []
  contextPatterns := [failures]
  maxContextLines := 3
  contextWindowSecs := 120
  ignore := []
  addressCapture := "address"
  timestampCapture := none
  timestampFormat := .rfc3339

def connection : DetectCall := ⟨"Connection from 192.0.2.3 port 1234", 40, some "pid:1"⟩

def disconnecting (receivedAt : Nat) (key : String) : DetectCall :=
  ⟨"Disconnecting: Too many failures", receivedAt, some key⟩

/-- A line of another process in between makes no difference. -/
theorem other_process_apart :
    (detector.detectCall parsers
        (detector.contextAfter parsers [connection, disconnecting 41 "pid:2"])
        (disconnecting 42 "pid:1")).2 =
      (detector.detectCall parsers (detector.contextAfter parsers
        (RegexDetector.withKey "pid:1" [connection, disconnecting 41 "pid:2"]))
        (disconnecting 42 "pid:1")).2 :=
  (RegexDetector.clients_apart parsers detector).1 [connection, disconnecting 41 "pid:2"]
    (disconnecting 42 "pid:1") "pid:1" rfl
    (by simp [DetectCall.Ordered, connection, disconnecting])
    (DetectCall.uncrowded_of_length _ (by decide))

end SampleContext

end Bagel
