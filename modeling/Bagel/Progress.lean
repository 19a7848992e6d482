/-
This file looks at the store from the side of one source: how its events and its
checkpoint move, and what other sources and maintenance can do to them.

Records of other sources, maintenance and manual bans leave the checkpoint of a source
alone, add no event of it and keep its history. That is all that properties of the
progress of one source need to know about everything else that happens.
-/

import Bagel.StoreCalls

namespace Bagel

/-- The records of an ordered source, with distinct identifiers. -/
structure Stream where
  source : String
  recordId : Nat → String
  checkpoint : Nat → Checkpoint
  distinct : Function.Injective recordId

namespace Store

/-! ### What others can do to a source -/

/-- For one source a later store has the same history, the same checkpoint and no new event. -/
structure Follows (source : String) (store next : Store) : Prop where
  inserted : (next.inserted.filter fun row => row.source == source) =
    store.inserted.filter fun row => row.source == source
  checkpoints : (next.checkpoints.filter fun row => row.source == source) =
    store.checkpoints.filter fun row => row.source == source
  events : ∀ row ∈ next.events, row.source = source → row ∈ store.events

/-- The later store has also kept every event of the source. -/
structure Keeps (source : String) (store next : Store) : Prop extends
    Follows source store next where
  kept : ∀ row ∈ store.events, row.source = source → row ∈ next.events

section Follows

variable {source : String} {store middle next : Store}

theorem Follows.mem_inserted (followed : Follows source store next) {row : OffenseRow}
    (own : row.source = source) : row ∈ next.inserted ↔ row ∈ store.inserted := by
  have listed (rows : List OffenseRow) :
      row ∈ rows ↔ row ∈ rows.filter fun row => row.source == source := by simp [own]
  rw [listed, followed.inserted, ← listed]

theorem Follows.mem_checkpoints (followed : Follows source store next) {row : CheckpointRow}
    (own : row.source = source) : row ∈ next.checkpoints ↔ row ∈ store.checkpoints := by
  have listed (rows : List CheckpointRow) :
      row ∈ rows ↔ row ∈ rows.filter fun row => row.source == source := by simp [own]
  rw [listed, followed.checkpoints, ← listed]

theorem Follows.checkpoint_eq (followed : Follows source store next) :
    next.checkpoint source = store.checkpoint source := by
  rw [checkpoint, checkpoint, ← List.head?_filter, ← List.head?_filter, followed.checkpoints]

theorem Keeps.refl (source : String) (store : Store) : Keeps source store store :=
  ⟨⟨rfl, rfl, fun _ member _ => member⟩, fun _ member _ => member⟩

theorem Keeps.trans (first : Keeps source store middle) (second : Keeps source middle next) :
    Keeps source store next :=
  ⟨⟨second.inserted.trans first.inserted, second.checkpoints.trans first.checkpoints,
    fun row member own => first.events row (second.events row member own) own⟩,
    fun row member own => second.kept row (first.kept row member own) own⟩

/-- Changing leases alone changes nothing for any source. -/
theorem Keeps.leases (kept : Keeps source store next) (leases : List LeaseRow) :
    Keeps source store { next with leases } :=
  ⟨⟨kept.inserted, kept.checkpoints, kept.events⟩, kept.kept⟩

theorem Keeps.setCheckpoint {input : EventInput} (foreign : input.source ≠ source)
    (store : Store) : Keeps source store (store.setCheckpoint input) := by
  refine ⟨⟨rfl, ?_, fun _ member _ => member⟩, fun _ member _ => member⟩
  simp only [Store.setCheckpoint]
  split
  · refine Table.filter_update (fun row hit => ?_) store.checkpoints
    have other : row.source = input.source := by simpa using hit
    exact ⟨by simpa [other] using foreign, by simpa using foreign⟩
  · rw [List.filter_append, List.filter_cons_of_neg (by simpa using foreign), List.filter_nil,
      List.append_nil]

theorem EventStep.keeps {input : EventInput} {outcome : EventOutcome}
    (foreign : input.source ≠ source) (step : EventStep store input next outcome) :
    Keeps source store next := by
  cases step with
  | duplicate seen => exact .refl source store
  | recorded unseen applied =>
    refine Keeps.trans ?_ (.setCheckpoint foreign _)
    obtain ⟨sameEvents, sameCheckpoints, rows, grown, subjects⟩ := applyOffenses_ok applied
    refine ⟨⟨?_, ?_, fun row member own => ?_⟩, fun row member own => ?_⟩
    · rw [grown, List.filter_append]
      refine (congrArg _ (List.filter_eq_nil_iff.mpr fun row member => ?_)).trans
        (List.append_nil _)
      have subject := List.mem_map_of_mem (f := OffenseRow.subject) member
      rw [subjects] at subject
      obtain ⟨offense, -, same⟩ := List.mem_map.mp subject
      have other : row.source = input.source := (Prod.mk.inj same).1.symm
      simpa [other] using foreign
    · rw [sameCheckpoints]
      rfl
    · rw [sameEvents] at member
      rcases List.mem_append.mp member with old | new
      · exact old
      · exact absurd ((congrArg EventRow.source (List.mem_singleton.mp new)).symm.trans own) foreign
    · rw [sameEvents]
      exact List.mem_append_left _ member

theorem keeps_processEvents {inputs : List EventInput} {outcomes : List EventOutcome}
    (foreign : ∀ input ∈ inputs, input.source ≠ source)
    (processed : store.processEvents inputs = .ok (next, outcomes)) : Keeps source store next := by
  induction inputs generalizing store outcomes with
  | nil =>
    obtain ⟨rfl, -⟩ := Prod.mk.inj (Except.ok.inj processed)
    exact .refl source store
  | cons input rest inductionHypothesis =>
    obtain ⟨middle, outcome, others, later, -, -, first⟩ :=
      processEvents_cons_eq_ok_iff.mp processed
    have foreignHead := foreign input List.mem_cons_self
    have tail := inductionHypothesis
      (fun input member => foreign input (List.mem_cons_of_mem _ member)) later
    rcases first with ⟨-, rfl, -⟩ | ⟨-, step⟩
    · exact (Keeps.setCheckpoint foreignHead store).trans tail
    · exact (step.keeps foreignHead).trans tail

end Follows

end Store

namespace StoreCall

variable {source : String} {call : StoreCall}

/-- A call that neither prunes offenses nor brings an event of a source keeps all of it. -/
theorem keeps_execute (foreign : ∀ input ∈ call.inputs, input.source ≠ source)
    (unpruned : ∀ before, call ≠ .pruneOffenses before) (store : Store) :
    Store.Keeps source store (call.execute store) := by
  have unchanged := Store.Keeps.refl source store
  cases call with
  | processEvent input =>
    rw [execute]
    refine Transaction.commit_preserves unchanged fun next outcome processed => ?_
    exact (Store.applyEvent_eq_ok_iff.mp processed).2.keeps
      (foreign input (List.mem_singleton_self input))
  | processEvents inputs =>
    rw [execute]
    refine Transaction.commit_preserves unchanged fun next outcomes processed => ?_
    exact Store.keeps_processEvents foreign processed
  | pruneOffenses before => exact absurd rfl (unpruned before)
  | _ =>
    refine execute_upkeep_preserves (fun before same => absurd same (unpruned before)) ?_ ?_ ?_ rfl
      unchanged
    · exact fun later hit change _ kept => kept.leases _
    · exact fun later hit kept => kept.leases _
    · intro later next network action now durationSecs lease blocked kept
      rw [(Store.manualBlock_ok blocked).2.2]
      exact kept.leases _

/-- A call that brings no event of a source leaves its history and checkpoint alone. -/
theorem follows_execute (foreign : ∀ input ∈ call.inputs, input.source ≠ source) (store : Store) :
    Store.Follows source store (call.execute store) := by
  by_cases pruning : ∃ before, call = .pruneOffenses before
  · obtain ⟨before, rfl⟩ := pruning
    rw [execute]
    refine Transaction.commit_preserves (Store.Keeps.refl source store).toFollows
      fun next count pruned => ?_
    rw [(Store.pruneOffenses_ok pruned).2]
    exact ⟨rfl, rfl, fun row member _ => (Table.mem_delete.mp member).1⟩
  · push Not at pruning
    exact (keeps_execute foreign pruning store).toFollows

end StoreCall

/-! ### Sample cursors -/

/-- The cursor of a record in a sample journal. -/
def cursorOf (index : Nat) : String :=
  String.ofList (List.replicate index 'x')

theorem cursorOf_injective : Function.Injective cursorOf := by
  intro first second same
  have lengths := congrArg (fun text => text.toList.length) same
  simpa [cursorOf] using lengths

end Bagel
