/-
This file models the records that sources hand to the defense loop and the
checkpoints that say how far a source has been read.
-/

namespace Bagel

/-- How far a source has been read. -/
inductive Checkpoint where
  | journal (cursor : String) (realtimeMicros : Nat)
  | file (device inode offset generation : Nat) (tail : List UInt8)
  | addressSet (device inode modifiedNanos size offset : Nat)
  | listener (sequence : Nat)
  deriving DecidableEq

structure SourceRecord where
  source : String
  id : String
  payload : String
  correlation : Option String
  observedAt : Nat
  checkpoint : Checkpoint
  oversized : Bool
  deriving DecidableEq

end Bagel
