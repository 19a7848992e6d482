/-
This file develops tables whose entries expire. A book keeps its entries in a map and,
next to it, an ordered queue of the deadlines, so that what has expired is found at the
front of the queue.

The two are in balance when the queue holds exactly the deadline of every entry. Adding
a fresh entry, removing one with its deadline, and dropping all that has expired keep
the balance, and in a balanced book the last of these removes exactly the entries whose
deadline has come.
-/

import Mathlib.Data.List.AList
import Mathlib.Order.Lattice

namespace Expiry

variable {Key Value : Type} [LinearOrder Key]

/-! ### The queue -/

/-- The order of the queue: by deadline, and by key where deadlines are equal. -/
def Before (first second : Nat × Key) : Prop :=
  first.1 < second.1 ∨ first.1 = second.1 ∧ first.2 < second.2

instance (first second : Nat × Key) : Decidable (Before first second) :=
  inferInstanceAs (Decidable (_ ∨ _))

/-- Insert into an ordered set. -/
def place (entry : Nat × Key) : List (Nat × Key) → List (Nat × Key)
  | [] => [entry]
  | head :: rest =>
    if Before entry head then entry :: head :: rest
    else if entry = head then head :: rest
    else head :: place entry rest

theorem Before.trans {first second third : Nat × Key} (earlier : Before first second)
    (later : Before second third) : Before first third := by
  rcases earlier with time | ⟨time, key⟩ <;> rcases later with time' | ⟨time', key'⟩
  · exact .inl (lt_trans time time')
  · exact .inl (time'.symm ▸ time)
  · exact .inl (time ▸ time')
  · exact .inr ⟨Eq.trans time time', lt_trans key key'⟩

theorem Before.ne {first second : Nat × Key} (before : Before first second) : first ≠ second := by
  rintro rfl
  rcases before with time | ⟨-, key⟩
  · exact lt_irrefl _ time
  · exact lt_irrefl _ key

theorem before_of_not_before {first second : Nat × Key} (late : ¬ Before first second)
    (different : first ≠ second) : Before second first := by
  simp only [Before, not_or, not_and, not_lt] at late
  rcases lt_or_eq_of_le late.1 with time | time
  · exact .inl time
  · refine .inr ⟨time, lt_of_le_of_ne (late.2 time.symm) fun key => different ?_⟩
    exact Prod.ext time.symm key.symm

theorem mem_place (entry other : Nat × Key) (queue : List (Nat × Key)) :
    other ∈ place entry queue ↔ other = entry ∨ other ∈ queue := by
  induction queue with
  | nil => simp [place]
  | cons head rest inductionHypothesis =>
    rw [place]
    split
    · simp
    · split
      · next same =>
        rw [List.mem_cons, same, ← or_assoc, or_self]
      · rw [List.mem_cons, List.mem_cons, inductionHypothesis]
        exact or_left_comm

theorem pairwise_place (entry : Nat × Key) {queue : List (Nat × Key)}
    (ordered : queue.Pairwise Before) : (place entry queue).Pairwise Before := by
  induction queue with
  | nil => exact List.pairwise_singleton _ _
  | cons head rest inductionHypothesis =>
    obtain ⟨first, others⟩ := List.pairwise_cons.mp ordered
    rw [place]
    split
    · next early =>
      refine List.pairwise_cons.mpr ⟨fun other member => ?_, ordered⟩
      rcases List.mem_cons.mp member with rfl | member
      · exact early
      · exact early.trans (first other member)
    · next late =>
      split
      · exact ordered
      · next different =>
        refine List.pairwise_cons.mpr ⟨fun other member => ?_, inductionHypothesis others⟩
        rcases (mem_place entry other rest).mp member with rfl | member
        · exact before_of_not_before late different
        · exact first other member

/-! ### Books -/

/-- The entries and the queue of their deadlines. -/
structure Book (Key Value : Type) where
  entries : AList fun _ : Key => Value
  queue : List (Nat × Key)

namespace Book

def empty : Book Key Value := ⟨∅, []⟩

/-- Drop the entries at the front of the queue whose deadline has come. -/
def expireFrom (now : Nat) (entries : AList fun _ : Key => Value) :
    List (Nat × Key) → Book Key Value
  | [] => ⟨entries, []⟩
  | (deadline, key) :: rest =>
    if now < deadline then ⟨entries, (deadline, key) :: rest⟩
    else expireFrom now (entries.erase key) rest

def expire (book : Book Key Value) (now : Nat) : Book Key Value :=
  expireFrom now book.entries book.queue

def insert (book : Book Key Value) (key : Key) (value : Value) (deadline : Nat) : Book Key Value :=
  ⟨book.entries.insert key value, place (deadline, key) book.queue⟩

def remove (book : Book Key Value) (key : Key) (deadline : Nat) : Book Key Value :=
  ⟨book.entries.erase key, book.queue.erase (deadline, key)⟩

/-- The queue is ordered and holds exactly the deadline of every entry. -/
structure Balanced (deadline : Value → Nat) (book : Book Key Value) : Prop where
  ordered : book.queue.Pairwise Before
  queued : ∀ time key, (time, key) ∈ book.queue ↔
    ∃ value, book.entries.lookup key = some value ∧ deadline value = time

variable {deadline : Value → Nat} {book : Book Key Value}

theorem balanced_empty : (empty : Book Key Value).Balanced deadline := by
  refine ⟨List.Pairwise.nil, fun time key => ?_⟩
  simp [empty]

theorem Balanced.insert (balanced : book.Balanced deadline) {key : Key}
    (fresh : book.entries.lookup key = none) (value : Value) :
    (book.insert key value (deadline value)).Balanced deadline := by
  refine ⟨pairwise_place _ balanced.ordered, fun time other => ?_⟩
  show (time, other) ∈ place (deadline value, key) book.queue ↔
    ∃ found, (book.entries.insert key value).lookup other = some found ∧ deadline found = time
  rw [mem_place, balanced.queued, Prod.mk.injEq]
  by_cases same : other = key
  · subst same
    simp only [AList.lookup_insert, fresh, Option.some.injEq, reduceCtorEq, false_and, exists_false,
      or_false, and_true, exists_eq_left']
    exact eq_comm
  · simp only [AList.lookup_insert_ne same, same, and_false, false_or]

theorem Balanced.remove (balanced : book.Balanced deadline) {key : Key} {value : Value}
    (found : book.entries.lookup key = some value) :
    (book.remove key (deadline value)).Balanced deadline := by
  refine ⟨balanced.ordered.sublist List.erase_sublist, fun time other => ?_⟩
  show (time, other) ∈ book.queue.erase (deadline value, key) ↔
    ∃ found, (book.entries.erase key).lookup other = some found ∧ deadline found = time
  have distinct : book.queue.Nodup := balanced.ordered.imp Before.ne
  rw [distinct.mem_erase_iff, balanced.queued]
  by_cases same : other = key
  · subst same
    simp only [AList.lookup_erase, reduceCtorEq, false_and, exists_false, iff_false, not_and]
    rintro different ⟨other, same, rfl⟩
    rw [Option.some.inj (same.symm.trans found)] at different
    exact different rfl
  · simp only [AList.lookup_erase_ne same, ne_eq, Prod.mk.injEq, same, and_false, not_false_eq_true,
      true_and]

/-- Taking the front of the queue off together with its entry keeps the balance. -/
theorem Balanced.pop {entries : AList fun _ : Key => Value} {time : Nat} {key : Key}
    {rest : List (Nat × Key)}
    (balanced : Balanced deadline ⟨entries, (time, key) :: rest⟩) :
    Balanced deadline ⟨entries.erase key, rest⟩ := by
  obtain ⟨value, found, rfl⟩ := (balanced.queued time key).mp List.mem_cons_self
  have removed := balanced.remove found
  rw [Book.remove, List.erase_cons_head] at removed
  exact removed

/-- Expiring keeps the balance and removes exactly the entries whose deadline has come. -/
theorem Balanced.expireFrom {now : Nat} {entries : AList fun _ : Key => Value}
    {queue : List (Nat × Key)} (balanced : Balanced deadline ⟨entries, queue⟩) :
    (Book.expireFrom now entries queue).Balanced deadline ∧
      ∀ key, (Book.expireFrom now entries queue).entries.lookup key =
        (entries.lookup key).filter fun value => decide (now < deadline value) := by
  induction queue generalizing entries with
  | nil =>
    refine ⟨balanced, fun key => ?_⟩
    cases found : entries.lookup key with
    | none => exact found
    | some value =>
      exact nomatch (balanced.queued (deadline value) key).mpr ⟨value, found, rfl⟩
  | cons head rest inductionHypothesis =>
    obtain ⟨time, first⟩ := head
    rw [Book.expireFrom]
    split
    · next early =>
      -- the deadline in front is the smallest, so nothing has expired
      refine ⟨balanced, fun key => ?_⟩
      cases found : entries.lookup key with
      | none => rfl
      | some value =>
        have queued := (balanced.queued (deadline value) key).mpr ⟨value, found, rfl⟩
        have later : time ≤ deadline value := by
          rcases List.mem_cons.mp queued with same | member
          · exact Nat.le_of_eq (congrArg Prod.fst same).symm
          · rcases (List.pairwise_cons.mp balanced.ordered).1 _ member with time | ⟨time, -⟩
            · exact Nat.le_of_lt time
            · exact Nat.le_of_eq time
        rw [Option.filter_some, if_pos (decide_eq_true (Nat.lt_of_lt_of_le early later))]
    · next due =>
      obtain ⟨kept, lookups⟩ := inductionHypothesis balanced.pop
      refine ⟨kept, fun key => ?_⟩
      rw [lookups]
      by_cases same : key = first
      · subst same
        obtain ⟨value, found, rfl⟩ := (balanced.queued time key).mp List.mem_cons_self
        rw [AList.lookup_erase, found, Option.filter_some, if_neg (by simpa using due)]
        rfl
      · rw [AList.lookup_erase_ne same]

theorem Balanced.expire (balanced : book.Balanced deadline) (now : Nat) :
    (book.expire now).Balanced deadline :=
  balanced.expireFrom.1

theorem Balanced.lookup_expire (balanced : book.Balanced deadline) (now : Nat) (key : Key) :
    (book.expire now).entries.lookup key =
      (book.entries.lookup key).filter fun value => decide (now < deadline value) :=
  balanced.expireFrom.2 key

/-- Expiring only takes entries away. -/
theorem lookup_of_expireFrom {now : Nat} {queue : List (Nat × Key)}
    {entries : AList fun _ : Key => Value} {key : Key} {value : Value}
    (found : (expireFrom now entries queue).entries.lookup key = some value) :
    entries.lookup key = some value := by
  induction queue generalizing entries with
  | nil => exact found
  | cons head rest inductionHypothesis =>
    rw [expireFrom] at found
    split at found
    · exact found
    · have before := inductionHypothesis found
      by_cases same : key = head.2
      · rw [same, AList.lookup_erase] at before
        exact nomatch before
      · rwa [AList.lookup_erase_ne same] at before

/-! ### The number of entries -/

def size (book : Book Key Value) : Nat := book.entries.keys.length

theorem size_remove_le (book : Book Key Value) (key : Key) (deadline : Nat) :
    (book.remove key deadline).size ≤ book.size := by
  rw [size, remove, AList.keys_erase]
  exact List.length_erase_le

theorem size_insert (book : Book Key Value) {key : Key} (fresh : book.entries.lookup key = none)
    (value : Value) (deadline : Nat) :
    (book.insert key value deadline).size = book.size + 1 := by
  have absent : key ∉ book.entries.keys := AList.lookup_eq_none.mp fresh
  rw [size, insert, AList.keys_insert, List.length_cons, List.erase_of_not_mem absent, size]

theorem size_expireFrom_le (now : Nat) (entries : AList fun _ : Key => Value)
    (queue : List (Nat × Key)) : (expireFrom now entries queue).size ≤ entries.keys.length := by
  induction queue generalizing entries with
  | nil => exact le_rfl
  | cons head rest inductionHypothesis =>
    rw [expireFrom]
    split
    · exact le_rfl
    · refine Nat.le_trans (inductionHypothesis _) ?_
      rw [AList.keys_erase]
      exact List.length_erase_le

theorem size_expire_le (book : Book Key Value) (now : Nat) : (book.expire now).size ≤ book.size :=
  size_expireFrom_le now book.entries book.queue

end Book

end Expiry
