/-
This file develops a protocol in which tasks publish what they have read of a shared
collection. A task that changed the collection owes a publication: it takes a snapshot
and posts, some time later, what it renders from the snapshot, in the place of whatever
was posted before. Tasks interleave freely, so a snapshot may be out of date by the time
it is posted.

Snapshots are numbered as they are taken. As long as no snapshot is posted after one
that was taken later, what is posted at the end is rendered from the collection as it
is, and an item that some posted snapshot had and that is still there is posted now.
-/

import Mathlib.Logic.Relation
import Mathlib.Logic.Function.Basic

namespace Publish

variable {Task Item Post : Type}

/-- Where a task stands: it has nothing to publish, it has yet to take a snapshot, or it
holds the snapshot of the given number. -/
inductive Phase where
  | idle
  | owing
  | holding (ticket : Nat)

structure Board (Task Item Post : Type) where
  current : List Item
  posted : Option Post
  /-- The number of the snapshot that was posted last. -/
  latest : Option Nat
  /-- Every snapshot taken so far, oldest first. -/
  snapshots : List (List Item)
  phases : Task → Phase

/-- One step of one task, if snapshots are posted in the order they are taken. A change never
brings back an item that was seen before and has gone since. A snapshot that does not render
is dropped. -/
inductive Step [DecidableEq Task] (render : List Item → Option Post)
    (board : Board Task Item Post) : Board Task Item Post → Prop where
  | changed (task : Task) (items : List Item) (idle : board.phases task = .idle)
      (lasting : ∀ item ∈ items, item ∈ board.current ∨
        ∀ snapshot ∈ board.snapshots, item ∉ snapshot) :
      Step render board { board with
        current := items
        phases := Function.update board.phases task .owing }
  | taken (task : Task) (owing : board.phases task = .owing) :
      Step render board { board with
        snapshots := board.snapshots ++ [board.current]
        phases := Function.update board.phases task (.holding board.snapshots.length) }
  | posted (task : Task) (ticket : Nat) (snapshot : List Item) (post : Post)
      (holding : board.phases task = .holding ticket)
      (held : board.snapshots[ticket]? = some snapshot) (renders : render snapshot = some post)
      (inOrder : ∀ earlier ∈ board.latest, earlier ≤ ticket) :
      Step render board { board with
        posted := some post
        latest := some ticket
        phases := Function.update board.phases task .idle }
  | dropped (task : Task) (ticket : Nat) (snapshot : List Item)
      (holding : board.phases task = .holding ticket)
      (held : board.snapshots[ticket]? = some snapshot) (fails : render snapshot = none) :
      Step render board { board with phases := Function.update board.phases task .idle }

/-- The newest snapshot shows the collection as it is, and it is held by a task, or it has been
posted unless it does not render. -/
def Fresh (render : List Item → Option Post) (board : Board Task Item Post) : Prop :=
  ∃ newest, newest + 1 = board.snapshots.length ∧
    board.snapshots[newest]? = some board.current ∧
    ((∃ task, board.phases task = .holding newest) ∨
      ∀ post, render board.current = some post →
        board.posted = some post ∧ board.latest = some newest)

/-- What holds along a run. -/
structure Sound (render : List Item → Option Post) (board : Board Task Item Post) : Prop where
  /-- A task holds one of the snapshots. -/
  held : ∀ task ticket, board.phases task = .holding ticket → ticket < board.snapshots.length
  /-- What is posted was rendered from one of the snapshots. -/
  rendered : ∀ ticket ∈ board.latest, ∃ snapshot, board.snapshots[ticket]? = some snapshot ∧
    (render snapshot).isSome ∧ board.posted = render snapshot
  /-- An item that is still there is in every snapshot since it was first seen. -/
  lasting : board.snapshots.Pairwise fun earlier later =>
    ∀ item ∈ earlier, item ∈ board.current → item ∈ later
  /-- A publication is still owed, or the newest snapshot is up to date. -/
  fresh : (∃ task, board.phases task = .owing) ∨ Fresh render board

variable {render : List Item → Option Post} {board next : Board Task Item Post}

/-- A board on which nothing was read yet and something is owed. -/
theorem sound_of_owing {task : Task} (owing : board.phases task = .owing)
    (others : ∀ other ticket, board.phases other ≠ .holding ticket)
    (unread : board.snapshots = []) (unposted : board.latest = none) : Sound render board := by
  refine ⟨fun other ticket holds => absurd holds (others other ticket), ?_, ?_, .inl ⟨task, owing⟩⟩
  · intro ticket member
    rw [unposted] at member
    exact nomatch member
  · rw [unread]
    exact List.Pairwise.nil

namespace Sound

/-- When every task is idle, what is posted is what the collection renders to. -/
theorem posted_eq (sound : Sound render board) (idle : ∀ task, board.phases task = .idle)
    {post : Post} (renders : render board.current = some post) : board.posted = some post := by
  rcases sound.fresh with ⟨task, owing⟩ | ⟨newest, -, -, ⟨task, holds⟩ | done⟩
  · exact nomatch (idle task).symm.trans owing
  · exact nomatch (idle task).symm.trans holds
  · exact (done post renders).1

/-- When every task is idle, something was read. -/
theorem snapshots_ne_nil (sound : Sound render board) (idle : ∀ task, board.phases task = .idle) :
    board.snapshots ≠ [] := by
  rcases sound.fresh with ⟨task, owing⟩ | ⟨newest, count, -⟩
  · exact nomatch (idle task).symm.trans owing
  · exact List.ne_nil_of_length_pos (by omega)

/-- An item that is still there and that was in a snapshot up to the posted one is in the posted
one. -/
theorem mem_posted (sound : Sound render board) {ticket earlier : Nat} {seen : List Item}
    {item : Item} (latest : board.latest = some ticket) (order : earlier ≤ ticket)
    (taken : board.snapshots[earlier]? = some seen) (member : item ∈ seen)
    (there : item ∈ board.current) :
    ∃ snapshot, (render snapshot).isSome ∧ board.posted = render snapshot ∧ item ∈ snapshot := by
  obtain ⟨snapshot, present, renders, same⟩ := sound.rendered ticket latest
  refine ⟨snapshot, renders, same, ?_⟩
  rcases Nat.lt_or_eq_of_le order with before | rfl
  · obtain ⟨first, rfl⟩ := List.getElem?_eq_some_iff.mp taken
    obtain ⟨second, rfl⟩ := List.getElem?_eq_some_iff.mp present
    exact List.pairwise_iff_getElem.mp sound.lasting earlier ticket first second before item member
      there
  · rw [taken] at present
    rwa [← Option.some.inj present]

variable [DecidableEq Task]

/-- A task other than the one that moved still owes its publication. -/
theorem owing_update {task other : Task} {phase : Phase} {phases : Task → Phase}
    (owing : phases other = .owing) (moved : phases task ≠ .owing) :
    Function.update phases task phase other = .owing := by
  have different : other ≠ task := fun same => moved (same ▸ owing)
  rw [Function.update_of_ne different, owing]

/-- A task that holds nothing afterwards leaves the others with theirs. -/
theorem held_update (sound : Sound render board) {task other : Task} {phase : Phase} {ticket : Nat}
    (free : phase ≠ .holding ticket)
    (holds : Function.update board.phases task phase other = .holding ticket) :
    ticket < board.snapshots.length := by
  by_cases same : other = task
  · rw [same, Function.update_self] at holds
    exact absurd holds free
  · rw [Function.update_of_ne same] at holds
    exact sound.held other ticket holds

theorem changed (sound : Sound render board) (task : Task) (items : List Item)
    (lasting : ∀ item ∈ items, item ∈ board.current ∨
      ∀ snapshot ∈ board.snapshots, item ∉ snapshot) :
    Sound render { board with
      current := items
      phases := Function.update board.phases task .owing } := by
  refine ⟨fun other ticket holds => sound.held_update Phase.noConfusion holds, sound.rendered, ?_,
    .inl ⟨task, Function.update_self ..⟩⟩
  refine sound.lasting.imp_of_mem fun {earlier later} member _ kept item seen there => ?_
  rcases lasting item there with still | unseen
  · exact kept item seen still
  · exact absurd seen (unseen earlier member)

theorem taken (sound : Sound render board) (task : Task) :
    Sound render { board with
      snapshots := board.snapshots ++ [board.current]
      phases := Function.update board.phases task (.holding board.snapshots.length) } := by
  refine ⟨fun other ticket holds => ?_, fun ticket member => ?_, ?_, .inr ?_⟩
  · show ticket < (board.snapshots ++ [board.current]).length
    rw [List.length_append, List.length_singleton]
    have holds : Function.update board.phases task (.holding board.snapshots.length) other =
      .holding ticket := holds
    by_cases same : other = task
    · rw [same, Function.update_self] at holds
      cases holds
      exact Nat.lt_succ_self _
    · rw [Function.update_of_ne same] at holds
      exact Nat.lt_succ_of_lt (sound.held other ticket holds)
  · obtain ⟨snapshot, present, renders, same⟩ := sound.rendered ticket member
    have inside := (List.getElem?_eq_some_iff.mp present).1
    exact ⟨snapshot, (List.getElem?_append_left inside).trans present, renders, same⟩
  · refine List.pairwise_append.mpr ⟨sound.lasting, List.pairwise_singleton _ _, ?_⟩
    intro earlier _ later single item _ there
    rwa [List.mem_singleton.mp single]
  · refine ⟨board.snapshots.length, by simp, by simp, .inl ⟨task, Function.update_self ..⟩⟩

/-- Posting the newest snapshot posts what there is, and posting an older one only happens
before the newest is posted. -/
theorem posted (sound : Sound render board) {task : Task} {ticket : Nat} {snapshot : List Item}
    {post : Post} (holding : board.phases task = .holding ticket)
    (held : board.snapshots[ticket]? = some snapshot) (renders : render snapshot = some post)
    (inOrder : ∀ earlier ∈ board.latest, earlier ≤ ticket) :
    Sound render { board with
      posted := some post
      latest := some ticket
      phases := Function.update board.phases task .idle } := by
  have moved : board.phases task ≠ .owing := by
    rw [holding]
    exact Phase.noConfusion
  refine ⟨fun other number holds => sound.held_update Phase.noConfusion holds, ?_, sound.lasting,
    ?_⟩
  · rintro number ⟨⟩
    exact ⟨snapshot, held, by rw [renders]; rfl, renders.symm⟩
  · rcases sound.fresh with ⟨other, owing⟩ | ⟨newest, count, seen, known⟩
    · exact .inl ⟨other, owing_update owing moved⟩
    · refine .inr ⟨newest, count, seen, ?_⟩
      by_cases last : ticket = newest
      · refine .inr fun wanted shown => ⟨?_, congrArg some last⟩
        rw [last, seen] at held
        exact (renders.symm.trans ((congrArg render (Option.some.inj held)).symm.trans shown))
      · rcases known with ⟨other, holds⟩ | done
        · have different : other ≠ task := by
            intro same
            rw [same, holding] at holds
            exact last (Phase.holding.inj holds)
          exact .inl ⟨other, by rw [← holds]; exact Function.update_of_ne different ..⟩
        · refine .inr fun wanted shown => ?_
          -- The newest snapshot was posted already, so an older one cannot follow.
          have order : newest ≤ ticket := inOrder newest (done wanted shown).2
          have bound := sound.held task ticket holding
          omega

theorem dropped (sound : Sound render board) {task : Task} {ticket : Nat} {snapshot : List Item}
    (holding : board.phases task = .holding ticket)
    (held : board.snapshots[ticket]? = some snapshot) (fails : render snapshot = none) :
    Sound render { board with phases := Function.update board.phases task .idle } := by
  have moved : board.phases task ≠ .owing := by
    rw [holding]
    exact Phase.noConfusion
  refine ⟨fun other number holds => sound.held_update Phase.noConfusion holds, sound.rendered,
    sound.lasting, ?_⟩
  rcases sound.fresh with ⟨other, owing⟩ | ⟨newest, count, seen, known⟩
  · exact .inl ⟨other, owing_update owing moved⟩
  · refine .inr ⟨newest, count, seen, ?_⟩
    rcases known with ⟨other, holds⟩ | done
    · by_cases same : other = task
      · rw [same, holding] at holds
        rw [Phase.holding.inj holds, seen] at held
        refine .inr fun wanted shown => ?_
        rw [← Option.some.inj held, shown] at fails
        exact nomatch fails
      · exact .inl ⟨other, by rw [← holds]; exact Function.update_of_ne same ..⟩
    · exact .inr done

theorem step (sound : Sound render board) (step : Step render board next) :
    Sound render next := by
  cases step with
  | changed task items idle lasting => exact sound.changed task items lasting
  | taken task owing => exact sound.taken task
  | posted task ticket snapshot post holding held renders inOrder =>
    exact sound.posted holding held renders inOrder
  | dropped task ticket snapshot holding held fails => exact sound.dropped holding held fails

/-- The invariant holds along every run. -/
theorem run (sound : Sound render board) (run : Relation.ReflTransGen (Step render) board next) :
    Sound render next := by
  induction run with
  | refl => exact sound
  | tail _ step inductionHypothesis => exact inductionHypothesis.step step

end Sound

end Publish
