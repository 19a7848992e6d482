/-
This file models `codec.rs` of the solver, the blob that the page hands to it and the blob that
it posts back, and proves that packing and unpacking undo each other. The keystream depends on
the four bytes in front of it alone, so that going over the same bytes twice restores them, and
what is left is to see that both sides cut the blob at the same places.
-/

import Bagel.Solver
import Mathlib.Data.List.GetD

namespace Bagel

namespace Solver

/-! ### Blobs -/

/-- `Kind::tag` -/
def tagOfKind : PowKind → UInt8
  | .sha256 => 0
  | .scratch => 1

/-- What the solver posts back. -/
structure Solution where
  key : Hash
  nonce : UInt64
  difficulty : UInt8
  probe : UInt64
  deriving DecidableEq

def solutionLen : Nat := ivLen + keyLen + 17

/-- The bytes of a number of 64 bits, the highest first. -/
def beBytes (value : UInt64) : List UInt8 := Bytes.big 8 value.toNat

/-- Bytes in a buffer of a fixed length, with the keystream over those behind the first four. -/
def masked (length : Nat) (iv : Vector UInt8 4) (bytes : List UInt8) : List UInt8 :=
  let out := overwrite (List.replicate length 0) 0 (iv.toList ++ bytes)
  out.take ivLen ++ keystream iv.toList (out.drop ivLen)

def packHandoff (iv : Vector UInt8 4) (handoff : Handoff) : List UInt8 :=
  masked handoffLen iv (handoff.key.toList ++ [tagOfKind handoff.kind, handoff.difficulty,
    handoff.blocksLog2, handoff.gpuDifficulty])

def packSolution (iv : Vector UInt8 4) (solution : Solution) : List UInt8 :=
  masked solutionLen iv (solution.key.toList ++ beBytes solution.nonce ++ [solution.difficulty] ++
    beBytes solution.probe)

def unpackSolution (blob : List UInt8) : Option Solution :=
  if blob.length = solutionLen then
    let body := keystream (blob.take ivLen) (blob.drop ivLen)
    let rest := body.drop keyLen
    some { key := Vector.ofFn fun index => body.getD index.val 0
           nonce := UInt64.ofNat (Bytes.number (rest.take 8))
           difficulty := (rest.drop 8).getD 0 0
           probe := UInt64.ofNat (Bytes.number ((rest.drop 9).take 8)) }
  else none

/-! ### The keystream -/

@[simp] theorem length_keystreamFrom (state : UInt32) (data : List UInt8) :
    (keystreamFrom state data).length = data.length := by
  induction data generalizing state with
  | nil => rfl
  | cons byte rest inductionHypothesis =>
    rw [keystreamFrom, List.length_cons, List.length_cons, inductionHypothesis]

theorem keystreamFrom_keystreamFrom (state : UInt32) (data : List UInt8) :
    keystreamFrom state (keystreamFrom state data) = data := by
  induction data generalizing state with
  | nil => rfl
  | cons byte rest inductionHypothesis =>
    rw [keystreamFrom, keystreamFrom, inductionHypothesis, UInt8.xor_assoc, UInt8.xor_self,
      UInt8.xor_zero]

@[simp] theorem length_keystream (iv data : List UInt8) :
    (keystream iv data).length = data.length := length_keystreamFrom _ data

/-- The keystream is its own inverse. -/
@[simp] theorem keystream_keystream (iv data : List UInt8) :
    keystream iv (keystream iv data) = data := keystreamFrom_keystreamFrom _ data

/-! ### Cutting -/

theorem masked_eq {length : Nat} (iv : Vector UInt8 4) {bytes : List UInt8}
    (fits : ivLen + bytes.length = length) :
    masked length iv bytes = iv.toList ++ keystream iv.toList bytes := by
  have whole : overwrite (List.replicate length 0) 0 (iv.toList ++ bytes) =
      iv.toList ++ bytes := by
    have even : (List.replicate length (0 : UInt8)).length = (iv.toList ++ bytes).length := by
      simp only [List.length_replicate, List.length_append, Vector.length_toList]
      exact fits.symm
    have placed := overwrite_append (rfl : ([] : List UInt8).length = 0) even []
    simpa using placed
  have front : iv.toList.length = ivLen := Vector.length_toList
  unfold masked
  dsimp only
  rw [whole, List.take_left' front, List.drop_left' front]

theorem ofFn_getD_append {size : Nat} (key : Vector UInt8 size) (rest : List UInt8) :
    (Vector.ofFn fun index : Fin size => (key.toList ++ rest).getD index.val 0) = key := by
  ext index inside
  rw [Vector.getElem_ofFn, List.getD_eq_getElem?_getD,
    List.getElem?_append_left (by rw [Vector.length_toList]; exact inside),
    List.getElem?_eq_getElem (by rw [Vector.length_toList]; exact inside), Option.getD_some,
    Vector.getElem_toList]

theorem toList_ofFn_getD {size : Nat} {body : List UInt8} (long : size ≤ body.length) :
    (Vector.ofFn fun index : Fin size => body.getD index.val 0).toList = body.take size := by
  refine List.ext_getElem (by simpa using long) fun index inside inside' => ?_
  rw [Vector.length_toList] at inside
  rw [Vector.getElem_toList, Vector.getElem_ofFn, List.getElem_take,
    List.getD_eq_getElem body 0 (by omega)]

theorem getD_after {front rest : List UInt8} {length : Nat} (size : front.length = length)
    (index : Nat) : (front ++ rest).getD (length + index) 0 = rest.getD index 0 := by
  rw [List.getD_append_right _ _ _ _ (by omega), size, Nat.add_sub_cancel_left]

/-- The last four of some bytes. -/
theorem drop_eq_getD {bytes : List UInt8} {start : Nat} (size : bytes.length = start + 4) :
    bytes.drop start = [bytes.getD start 0, bytes.getD (start + 1) 0, bytes.getD (start + 2) 0,
      bytes.getD (start + 3) 0] := by
  have front : (bytes.take start).length = start := List.length_take_of_le (by omega)
  have back : (bytes.drop start).length = 4 := by
    rw [List.length_drop, size, Nat.add_sub_cancel_left]
  have whole := List.take_append_drop start bytes
  obtain ⟨first, second, third, fourth, rest⟩ := List.length_eq_four.mp back
  rw [rest] at whole
  have place : ∀ index, bytes.getD (start + index) 0 =
      [first, second, third, fourth].getD index 0 := by
    intro index
    rw [← whole]
    exact getD_after front index
  have zeroth := place 0
  rw [Nat.add_zero] at zeroth
  rw [rest, zeroth, place 1, place 2, place 3]
  rfl

/-! ### Handoffs -/

theorem kindOfTag_tagOfKind (kind : PowKind) : kindOfTag (tagOfKind kind) = some kind := by
  cases kind <;> rfl

theorem tagOfKind_of_kindOfTag {tag : UInt8} {kind : PowKind} (read : kindOfTag tag = some kind) :
    tagOfKind kind = tag := by
  unfold kindOfTag at read
  split at read
  · cases read
    rfl
  · cases read
    rfl
  · cases read

theorem kindOfTag_eq_none {tag : UInt8} (other : tag ≠ 0 ∧ tag ≠ 1) : kindOfTag tag = none := by
  unfold kindOfTag
  split
  · exact absurd rfl other.1
  · exact absurd rfl other.2
  · rfl

theorem packHandoff_eq (iv : Vector UInt8 4) (handoff : Handoff) :
    packHandoff iv handoff = iv.toList ++ keystream iv.toList (handoff.key.toList ++
      [tagOfKind handoff.kind, handoff.difficulty, handoff.blocksLog2, handoff.gpuDifficulty]) :=
  masked_eq iv (by
    rw [List.length_append, Vector.length_toList]
    rfl)

theorem unpackHandoff_packHandoff (iv : Vector UInt8 4) (handoff : Handoff) :
    unpackHandoff (packHandoff iv handoff) = some handoff := by
  have front : iv.toList.length = ivLen := Vector.length_toList
  have key : handoff.key.toList.length = keyLen := Vector.length_toList
  rw [packHandoff_eq, unpackHandoff, if_pos]
  · dsimp only
    rw [List.take_left' front, List.drop_left' front, keystream_keystream, ofFn_getD_append,
      getD_after key 1, getD_after key 2, getD_after key 3, ← Nat.add_zero keyLen,
      getD_after key 0]
    exact congrArg (Option.map _) (kindOfTag_tagOfKind handoff.kind)
  · rw [List.length_append, front, length_keystream, List.length_append, key]
    rfl

/-- Whatever is unpacked was packed with the first four bytes. -/
theorem packHandoff_of_unpackHandoff {blob : List UInt8} {handoff : Handoff}
    (read : unpackHandoff blob = some handoff) {iv : Vector UInt8 4}
    (first : iv.toList = blob.take ivLen) : packHandoff iv handoff = blob := by
  unfold unpackHandoff at read
  split at read
  · next whole =>
    dsimp only at read
    obtain ⟨kind, tag, rfl⟩ := Option.map_eq_some_iff.mp read
    have size : (keystream (blob.take ivLen) (blob.drop ivLen)).length = keyLen + 4 := by
      rw [length_keystream, List.length_drop, whole]
      rfl
    have back : blob.drop ivLen = keystream iv.toList (keystream (blob.take ivLen)
        (blob.drop ivLen)) := by
      rw [first, keystream_keystream]
    rw [packHandoff_eq, toList_ofFn_getD (by rw [size]; decide), tagOfKind_of_kindOfTag tag,
      ← drop_eq_getD size]
    change iv.toList ++ keystream iv.toList (List.take keyLen _ ++ List.drop keyLen _) = blob
    rw [List.take_append_drop, ← back, first, List.take_append_drop]
  · cases read

theorem unpackHandoff_of_length {blob : List UInt8} (other : blob.length ≠ handoffLen) :
    unpackHandoff blob = none := if_neg other

/-- The tag of the kind under the keystream. -/
def handoffTag (blob : List UInt8) : UInt8 :=
  (keystream (blob.take ivLen) (blob.drop ivLen)).getD keyLen 0

theorem unpackHandoff_of_tag {blob : List UInt8}
    (other : handoffTag blob ≠ 0 ∧ handoffTag blob ≠ 1) : unpackHandoff blob = none := by
  unfold unpackHandoff
  split
  · exact congrArg (Option.map _) (kindOfTag_eq_none other)
  · rfl

/-! ### Solutions -/

@[simp] theorem length_beBytes (value : UInt64) : (beBytes value).length = 8 :=
  Bytes.length_big 8 _

theorem ofNat_number_beBytes (value : UInt64) :
    UInt64.ofNat (Bytes.number (beBytes value)) = value := by
  rw [beBytes, Bytes.number_big value.toNat_lt, UInt64.ofNat_toNat]

theorem beBytes_ofNat_number {bytes : List UInt8} (eight : bytes.length = 8) :
    beBytes (UInt64.ofNat (Bytes.number bytes)) = bytes := by
  have small := Bytes.number_lt bytes
  rw [eight] at small
  rw [beBytes, UInt64.toNat_ofNat_of_lt' small, ← eight, Bytes.big_number]

/-- What a solution is packed as, before the keystream. -/
def Solution.body (solution : Solution) : List UInt8 :=
  solution.key.toList ++ (beBytes solution.nonce ++ (solution.difficulty ::
    beBytes solution.probe))

theorem Solution.length_body (solution : Solution) : solution.body.length = keyLen + 17 := by
  rw [body, List.length_append, List.length_append, List.length_cons, length_beBytes,
    length_beBytes, Vector.length_toList]
  rfl

/-- Seventeen bytes are eight, one and eight. -/
theorem eight_one_eight {bytes : List UInt8} (size : bytes.length = 17) :
    bytes.take 8 ++ ((bytes.drop 8).getD 0 0 :: (bytes.drop 9).take 8) = bytes := by
  have back : (bytes.drop 8).length = 9 := by rw [List.length_drop, size]
  obtain ⟨middle, last, parts⟩ := List.exists_cons_of_length_eq_add_one back
  have eight : last.length = 8 := by
    rw [parts, List.length_cons] at back
    exact Nat.succ.inj back
  have later : bytes.drop 9 = last := by
    change bytes.drop (8 + 1) = last
    rw [← List.drop_drop, parts]
    rfl
  rw [later, parts, List.take_of_length_le eight.le]
  conv_rhs => rw [← List.take_append_drop 8 bytes, parts]
  rfl

theorem packSolution_eq (iv : Vector UInt8 4) (solution : Solution) :
    packSolution iv solution = iv.toList ++ keystream iv.toList solution.body := by
  have same : solution.key.toList ++ beBytes solution.nonce ++ [solution.difficulty] ++
      beBytes solution.probe = solution.body := by
    simp only [Solution.body, List.append_assoc, List.singleton_append]
  rw [packSolution, same]
  exact masked_eq iv (by rw [solution.length_body]; rfl)

theorem unpackSolution_packSolution (iv : Vector UInt8 4) (solution : Solution) :
    unpackSolution (packSolution iv solution) = some solution := by
  have front : iv.toList.length = ivLen := Vector.length_toList
  have key : solution.key.toList.length = keyLen := Vector.length_toList
  have nonce := length_beBytes solution.nonce
  have probe : (beBytes solution.probe).take 8 = beBytes solution.probe :=
    List.take_of_length_le (length_beBytes _).le
  have later : (beBytes solution.nonce ++ (solution.difficulty :: beBytes solution.probe)).drop 9 =
      beBytes solution.probe := by
    change List.drop (8 + 1) _ = _
    rw [← List.drop_drop, List.drop_left' nonce]
    rfl
  rw [packSolution_eq, unpackSolution, if_pos]
  · dsimp only
    rw [List.take_left' front, List.drop_left' front, keystream_keystream, Solution.body,
      ofFn_getD_append, List.drop_left' key, List.take_left' nonce, List.drop_left' nonce,
      ofNat_number_beBytes, later, probe, ofNat_number_beBytes]
    rfl
  · rw [List.length_append, front, length_keystream, solution.length_body]
    rfl

/-- Whatever is unpacked was packed with the first four bytes. -/
theorem packSolution_of_unpackSolution {blob : List UInt8} {solution : Solution}
    (read : unpackSolution blob = some solution) {iv : Vector UInt8 4}
    (first : iv.toList = blob.take ivLen) : packSolution iv solution = blob := by
  unfold unpackSolution at read
  split at read
  · next whole =>
    dsimp only at read
    rw [← Option.some.inj read]
    have size : (keystream (blob.take ivLen) (blob.drop ivLen)).length = keyLen + 17 := by
      rw [length_keystream, List.length_drop, whole]
      rfl
    have back : blob.drop ivLen = keystream iv.toList (keystream (blob.take ivLen)
        (blob.drop ivLen)) := by
      rw [first, keystream_keystream]
    generalize keystream (blob.take ivLen) (blob.drop ivLen) = body at size back
    have rest : (body.drop keyLen).length = 17 := by
      rw [List.length_drop, size, Nat.add_sub_cancel_left]
    rw [packSolution_eq, Solution.body]
    dsimp only
    rw [toList_ofFn_getD (by rw [size]; decide),
      beBytes_ofNat_number (by rw [List.length_take, rest]; rfl),
      beBytes_ofNat_number (by rw [List.length_take, List.length_drop, rest]; rfl),
      eight_one_eight rest]
    change iv.toList ++ keystream iv.toList (List.take keyLen body ++ List.drop keyLen body) = blob
    rw [List.take_append_drop, ← back, first, List.take_append_drop]
  · cases read

theorem unpackSolution_of_length {blob : List UInt8} (other : blob.length ≠ solutionLen) :
    unpackSolution blob = none := if_neg other

/-! ### The codec -/

/-- Packing and unpacking undo each other, with the first four bytes as the IV, and a blob of
another length or with another kind is refused. -/
theorem codec_bijective :
    (∀ iv handoff, unpackHandoff (packHandoff iv handoff) = some handoff) ∧
      (∀ iv solution, unpackSolution (packSolution iv solution) = some solution) ∧
      (∀ blob handoff, unpackHandoff blob = some handoff →
        ∀ iv : Vector UInt8 4, iv.toList = blob.take ivLen → packHandoff iv handoff = blob) ∧
      (∀ blob solution, unpackSolution blob = some solution →
        ∀ iv : Vector UInt8 4, iv.toList = blob.take ivLen → packSolution iv solution = blob) ∧
      (∀ blob, blob.length ≠ handoffLen → unpackHandoff blob = none) ∧
      (∀ blob, blob.length ≠ solutionLen → unpackSolution blob = none) ∧
      ∀ blob, handoffTag blob ≠ 0 ∧ handoffTag blob ≠ 1 → unpackHandoff blob = none :=
  ⟨unpackHandoff_packHandoff, unpackSolution_packSolution,
    fun _ _ read _ first => packHandoff_of_unpackHandoff read first,
    fun _ _ read _ first => packSolution_of_unpackSolution read first,
    fun _ other => unpackHandoff_of_length other, fun _ other => unpackSolution_of_length other,
    fun _ other => unpackHandoff_of_tag other⟩

end Solver

namespace SampleSolver

open Solver

def iv : Vector UInt8 4 := #v[7, 7, 7, 7]

/-- Fifty-three bytes are a solution, whatever they are. -/
def blob : List UInt8 := List.replicate 53 7

theorem codec_bijective_sevens :
    unpackHandoff (packHandoff iv handoff) = some handoff ∧ unpackHandoff blob = none ∧
      ∃ solution, unpackSolution blob = some solution ∧ packSolution iv solution = blob := by
  obtain ⟨forth, -, -, back, refused, -, -⟩ := codec_bijective
  have accepted : (unpackSolution blob).isSome = true := by
    rw [unpackSolution, if_pos (by decide)]
    rfl
  obtain ⟨solution, read⟩ := Option.isSome_iff_exists.mp accepted
  exact ⟨forth iv handoff, refused blob (by decide), solution, read,
    back blob solution read iv rfl⟩

end SampleSolver

end Bagel
