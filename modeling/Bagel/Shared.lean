/-
This file models the objects that the snapshots of the web state share: `memory.rs`, the
table of pending challenges, and the trackers, caches and pools behind an `Arc`. A snapshot
holds handles. What is behind a handle lives in the world, where every snapshot that holds
the handle finds the same object.

A reload puts objects from one snapshot into the next without looking inside, the poison
memory apart. So the others are any objects that answer operations.
-/

import Bagel.Pending
import Bagel.Library.Interleaving
import Mathlib.Data.List.MinMax

namespace Bagel

/-! ### Poison memory -/

structure PoisonEntry where
  expires : Nat
  maze : String
  deriving DecidableEq

def poisonMemoryCapacity : Nat := 65536

/-- `PoisonStore` -/
abbrev PoisonStore (Digest : Type) := List (Digest × PoisonEntry)

namespace PoisonStore

variable {Digest : Type} [DecidableEq Digest] (store : PoisonStore Digest)

/-- The store with room for one more entry, unless it is that of `id` again. -/
def makeRoom (now : Nat) (id : Digest) : PoisonStore Digest :=
  if poisonMemoryCapacity ≤ store.length ∧ store.lookup id = none then
    let kept := store.filter fun entry => now < entry.2.expires
    if poisonMemoryCapacity ≤ kept.length then
      match kept.argmin fun entry => entry.2.expires with
      | some oldest => kept.filter fun entry => entry.1 ≠ oldest.1
      | none => kept
    else kept
  else store

/-- `set`, which reads the clock a second time for the entry. -/
def set (now stamp : Nat) (id : Digest) (maze : String) (ttl : Nat) : PoisonStore Digest :=
  (id, ⟨stamp + ttl, maze⟩) :: (store.makeRoom now id).filter fun entry => entry.1 ≠ id

def contains (now : Nat) (id : Digest) : Bool :=
  (store.lookup id).any fun entry => now < entry.expires

def purgeMaze (maze : String) : PoisonStore Digest :=
  store.filter fun entry => entry.2.maze ≠ maze

end PoisonStore

inductive PoisonCall (Digest : Type) where
  | set (now stamp : Nat) (id : Digest) (maze : String) (ttl : Nat)
  | contains (now : Nat) (id : Digest)

/-! ### Objects -/

/-- The kinds of objects that a reload carries over as they are or makes anew. -/
inductive Part where
  | rateTracker
  | census
  | visits
  | solverPool
  | deceiver
  | semaphore
  | hooks
  | renderer
  | crawlerVerifier
  | tagCache
  deriving DecidableEq

/-- What is inside the objects of each kind, and how they answer what is asked of them. -/
structure Machinery where
  Inside : Part → Type
  Operation : Part → Type
  Answer : Part → Type
  operate : (part : Part) → Operation part → Inside part → Inside part × Answer part

inductive Kind where
  | poison
  | pending
  | part (part : Part)
  deriving DecidableEq

namespace Machinery

variable (machinery : Machinery) (Digest : Type) [LinearOrder Digest]

abbrev Object : Kind → Type
  | .poison => PoisonStore Digest
  | .pending => PendingTable Digest
  | .part part => machinery.Inside part

abbrev Call : Kind → Type
  | .poison => PoisonCall Digest
  | .pending => PendingCall Digest
  | .part part => machinery.Operation part

abbrev Result : Kind → Type
  | .poison => Option Bool
  | .pending => Except IssueError Digest ⊕ Option Digest
  | .part part => machinery.Answer part

variable {Digest}

def perform : (kind : Kind) → machinery.Call Digest kind → machinery.Object Digest kind →
    machinery.Object Digest kind × machinery.Result Digest kind
  | .poison, .set now stamp id maze ttl, store =>
    (PoisonStore.set store now stamp id maze ttl, none)
  | .poison, .contains now id, store => (store, some (PoisonStore.contains store now id))
  | .pending, .issue now rate draws binding passKey level gpuLevel duration, table =>
    let issued := PendingTable.issue table now rate draws binding passKey level gpuLevel duration
    (issued.1, .inl issued.2)
  | .pending, .redeem now key binding level, table =>
    let redeemed := PendingTable.redeem table now key binding level
    (redeemed.1, .inr redeemed.2)
  | .part part, operation, inside => machinery.operate part operation inside

end Machinery

/-! ### The world -/

/-- Everything that is not in a snapshot: the objects of every kind, and the counter
`POLICY_REVISION`. -/
structure World (machinery : Machinery) (Digest : Type) [LinearOrder Digest] where
  objects : (kind : Kind) → List (machinery.Object Digest kind)
  revision : Nat

namespace World

variable {machinery : Machinery} {Digest : Type} [LinearOrder Digest]
  (world : World machinery Digest)

def put (kind : Kind) (objects : List (machinery.Object Digest kind)) : World machinery Digest :=
  { world with objects := Function.update world.objects kind objects }

@[simp] theorem put_objects (kind : Kind) (objects : List (machinery.Object Digest kind)) :
    (world.put kind objects).objects = Function.update world.objects kind objects := rfl

/-- One operation on one object. -/
def call (kind : Kind) (handle : Nat) (operation : machinery.Call Digest kind) :
    World machinery Digest × Option (machinery.Result Digest kind) :=
  match (world.objects kind)[handle]? with
  | none => (world, none)
  | some object =>
    let performed := machinery.perform kind operation object
    (world.put kind ((world.objects kind).set handle performed.1), some performed.2)

/-- `Arc::new` -/
def create (kind : Kind) (object : machinery.Object Digest kind) : Nat × World machinery Digest :=
  ((world.objects kind).length, world.put kind (world.objects kind ++ [object]))

/-- `fetch_add` on the counter: its new value. -/
def bump : Nat × World machinery Digest :=
  (world.revision + 1, { world with revision := world.revision + 1 })

/-- `purge_maze` of the poison memory behind a handle. -/
def purgeMaze (handle : Nat) (maze : String) : Unit × World machinery Digest :=
  ((), world.put .poison ((world.objects .poison).modify handle
    fun store => PoisonStore.purgeMaze store maze))

/-! ### Growing -/

/-- There is an object behind the handle. -/
def Holds (kind : Kind) (handle : Nat) : Prop := handle < (world.objects kind).length

/-- There is an object behind every one of the handles. -/
def HoldsAll (handles : List (Kind × Nat)) : Prop :=
  ∀ entry ∈ handles, world.Holds entry.1 entry.2

variable {world}

/-- No object went away, and the counter did not go back. -/
structure Grows (first second : World machinery Digest) : Prop where
  objects : ∀ kind handle, first.Holds kind handle → second.Holds kind handle
  revision : first.revision ≤ second.revision

/-- The second world has the objects of the first, each as it is there, and perhaps more, and its
counter did not go back. -/
structure Extends (alone world : World machinery Digest) : Prop where
  objects : ∀ kind, alone.objects kind <+: world.objects kind
  revision : alone.revision ≤ world.revision

theorem Grows.refl (world : World machinery Digest) : Grows world world :=
  ⟨fun _ _ held => held, le_rfl⟩

theorem Grows.trans {first second third : World machinery Digest} (before : Grows first second)
    (after : Grows second third) : Grows first third :=
  ⟨fun kind handle held => after.objects kind handle (before.objects kind handle held),
    before.revision.trans after.revision⟩

theorem HoldsAll.grow {first second : World machinery Digest} {handles : List (Kind × Nat)}
    (held : first.HoldsAll handles) (grown : Grows first second) : second.HoldsAll handles :=
  fun entry member => grown.objects entry.1 entry.2 (held entry member)

theorem holdsAll_append {first second : List (Kind × Nat)} :
    world.HoldsAll (first ++ second) ↔ world.HoldsAll first ∧ world.HoldsAll second :=
  List.forall_mem_append

theorem holdsAll_cons {kind : Kind} {handle : Nat} {rest : List (Kind × Nat)} :
    world.HoldsAll ((kind, handle) :: rest) ↔ world.Holds kind handle ∧ world.HoldsAll rest :=
  List.forall_mem_cons

theorem Extends.refl (world : World machinery Digest) : Extends world world :=
  ⟨fun _ => List.prefix_rfl, le_rfl⟩

theorem Extends.trans {first second third : World machinery Digest}
    (before : Extends first second) (after : Extends second third) : Extends first third :=
  ⟨fun kind => (before.objects kind).trans (after.objects kind),
    before.revision.trans after.revision⟩

theorem Extends.grows {alone world : World machinery Digest} (extended : Extends alone world) :
    Grows alone world :=
  ⟨fun kind _ held => Nat.lt_of_lt_of_le held (extended.objects kind).length_le,
    extended.revision⟩

/-- A new object is behind a handle of its own. -/
theorem extends_create (kind : Kind) (object : machinery.Object Digest kind) :
    Extends world (world.create kind object).2 := by
  refine ⟨fun other => ?_, le_rfl⟩
  rw [create, put_objects]
  by_cases same : other = kind
  · cases same
    rw [Function.update_self]
    exact List.prefix_append _ _
  · have kept := Function.update_of_ne same (world.objects kind ++ [object]) world.objects
    exact kept.symm ▸ List.prefix_rfl

theorem holds_create (kind : Kind) (object : machinery.Object Digest kind) :
    (world.create kind object).2.Holds kind (world.create kind object).1 := by
  rw [create, Holds, put_objects, Function.update_self, List.length_append, List.length_singleton]
  exact Nat.lt_succ_self _

/-- Purging takes entries out of a store, but no store away. -/
theorem grows_purgeMaze (handle : Nat) (maze : String) :
    Grows world (world.purgeMaze handle maze).2 := by
  refine ⟨fun kind index held => ?_, le_rfl⟩
  rw [purgeMaze, Holds, put_objects]
  by_cases same : kind = .poison
  · cases same
    rw [Function.update_self]
    exact Nat.lt_of_lt_of_eq held (List.length_modify _ _ _).symm
  · rw [Function.update_of_ne same]
    exact held

theorem extends_bump : Extends world world.bump.2 :=
  ⟨fun _ => List.prefix_rfl, Nat.le_succ _⟩

/-! ### Operations -/

variable {kind : Kind} {handle : Nat} {operation : machinery.Call Digest kind}

theorem call_of_holds {object : machinery.Object Digest kind}
    (found : (world.objects kind)[handle]? = some object) :
    world.call kind handle operation =
      (world.put kind ((world.objects kind).set handle
        (machinery.perform kind operation object).1),
        some (machinery.perform kind operation object).2) := by
  rw [call, found]

theorem length_objects_call (other : Kind) :
    ((world.call kind handle operation).1.objects other).length =
      (world.objects other).length := by
  cases found : (world.objects kind)[handle]? with
  | none => rw [call, found]
  | some object =>
    rw [call_of_holds found, put_objects]
    by_cases same : other = kind
    · cases same
      rw [Function.update_self, List.length_set]
    · rw [Function.update_of_ne same]

theorem revision_call : (world.call kind handle operation).1.revision = world.revision := by
  cases found : (world.objects kind)[handle]? with
  | none => rw [call, found]
  | some object =>
    rw [call_of_holds found]
    rfl

/-- An operation makes no objects and loses none. -/
theorem grows_call : Grows world (world.call kind handle operation).1 := by
  refine ⟨fun other index held => ?_, Nat.le_of_eq revision_call.symm⟩
  rw [Holds, length_objects_call]
  exact held

/-- An operation on an object of the smaller world has the same answer in the larger one. -/
theorem Extends.call {alone world : World machinery Digest} (extended : Extends alone world)
    (held : alone.Holds kind handle) :
    (alone.call kind handle operation).2 = (world.call kind handle operation).2 ∧
      Extends (alone.call kind handle operation).1 (world.call kind handle operation).1 := by
  obtain ⟨more, whole⟩ := extended.objects kind
  have here : (alone.objects kind)[handle]? = some (alone.objects kind)[handle] :=
    List.getElem?_eq_getElem held
  have there : (world.objects kind)[handle]? = some (alone.objects kind)[handle] := by
    rw [← whole, List.getElem?_append_left held, here]
  rw [call_of_holds here, call_of_holds there]
  refine ⟨rfl, fun other => ?_, extended.revision⟩
  simp only [put_objects]
  by_cases same : other = kind
  · cases same
    rw [Function.update_self, Function.update_self, ← whole, List.set_append_left _ _ held]
    exact List.prefix_append _ _
  · rw [Function.update_of_ne same, Function.update_of_ne same]
    exact extended.objects other

end World

end Bagel
