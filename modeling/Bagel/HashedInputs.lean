/-
This file settles what the digests of mazes and of challenge sessions tell about their inputs.
Six places put fields of any length behind each other before they are hashed. Each field has its
length in front, or is of a fixed length, and five of the places begin with a label of their own.
So no two inputs of one place are hashed as the same bytes, and no two places share any.
-/

import Bagel.Gates
import Bagel.MazeLinks

namespace Bagel

/-- The places that hash fields of any length. -/
inductive Encoder where
  | deriveMazeKeys
  | memoryId
  | bindingValue
  | computeTag
  | pageSeed
  | challengeBinding
  deriving DecidableEq

/-- What one of the places is given to hash. -/
inductive KeyMaterial where
  | mazeKey (label host name : String)
  | memory (host name : String) (source : SourceNetwork)
  | binding (source : SourceNetwork)
  | tag (header : Vector UInt8 headerLen) (mazePath : List Char)
  | page (pathBytes : List UInt8)
  | challengeBinding (session : Vector UInt8 32) (host challenge : Text) (userAgent : List UInt8)
      (revision : UInt64)

/-- The labels that the keys of a maze are derived with. -/
def mazeLabels : List String := ["route", "mac", "binding", "render", "decoy", "memory"]

namespace KeyMaterial

def encoder : KeyMaterial → Encoder
  | mazeKey .. => .deriveMazeKeys
  | memory .. => .memoryId
  | binding _ => .bindingValue
  | tag .. => .computeTag
  | page _ => .pageSeed
  | challengeBinding .. => .challengeBinding

/-- The bytes that are hashed. -/
def message : KeyMaterial → List UInt8
  | mazeKey label host name => keyInfo label host name
  | memory host name source =>
    Bytes.bigFrame (Bytes.ofText "bagel poison memory v1") ++
      (Bytes.bigFrame (Bytes.ofText host) ++ (Bytes.bigFrame (Bytes.ofText name) ++
        Bytes.bigFrame source.toBytes))
  | binding source =>
    Bytes.bigFrame (Bytes.ofText "bagel maze binding v1") ++ Bytes.bigFrame source.toBytes
  | tag header mazePath =>
    Bytes.bigFrame (Bytes.ofText "bagel maze token v1") ++
      (header.toList ++ Bytes.bigFrame (Bytes.ofText (String.ofList mazePath)))
  | page pathBytes =>
    Bytes.bigFrame (Bytes.ofText "bagel maze render v1") ++ Bytes.bigFrame pathBytes
  | challengeBinding session host challenge userAgent revision =>
    Bytes.frame session.toList ++ (Bytes.frame (Bytes.ofText host.value) ++
      (Bytes.frame (Bytes.ofText challenge.value) ++ (Bytes.frame userAgent ++
        Bytes.frame (Bytes.ofInt 8 revision.toNat))))

/-- Every field of a length of its own is shorter than 2^32 bytes. -/
def Fits : KeyMaterial → Prop
  | mazeKey label host name => Framable label ∧ Framable host ∧ Framable name
  | memory host name _ => Framable host ∧ Framable name
  | binding _ => True
  | tag _ mazePath => Framable (String.ofList mazePath)
  | page pathBytes => pathBytes.length < 2 ^ 32
  | challengeBinding _ host challenge userAgent _ =>
    Framable host.value ∧ Framable challenge.value ∧ userAgent.length < 2 ^ 32

/-- The key of a maze is one of those that there are. -/
def Labelled : KeyMaterial → Prop
  | mazeKey label _ _ => label ∈ mazeLabels
  | _ => True

/-! ### Where the bytes are hashed -/

section Hashed

variable (crypto : MazeCrypto) (host name : String) (source : SourceNetwork)

theorem deriveMazeKeys_expand :
    let keys := crypto.deriveMazeKeys host name
    [keys.routeKey, keys.macKey, keys.bindingKey, keys.renderKey, keys.decoyKey, keys.memoryKey] =
      mazeLabels.map fun label => crypto.expand (mazeKey label host name).message :=
  rfl

theorem memoryId_hmac : crypto.memoryId host name source =
    crypto.hmac ((crypto.deriveMazeKeys host name).memoryKey, (memory host name source).message) :=
  rfl

theorem bindingValue_mac (key : List UInt8) :
    crypto.bindingValue key source = crypto.mac (key, (binding source).message) :=
  rfl

theorem computeTag_mac (key : List UInt8) (header : Vector UInt8 headerLen)
    (mazePath : List Char) :
    crypto.computeTag key header.toList mazePath =
      crypto.mac (key, (tag header mazePath).message) :=
  rfl

theorem pageSeed_hmac (key pathBytes : List UInt8) :
    pageSeed crypto key pathBytes = crypto.hmac (key, (page pathBytes).message) :=
  rfl

theorem challengeBinding_sha256 {Digest : Type} (server : Server Digest)
    (session : Vector UInt8 32) (host challenge : Text) (userAgent : List UInt8)
    (revision : UInt64) :
    server.challengeBinding session host challenge userAgent revision.toNat =
      server.sha256
        (KeyMaterial.challengeBinding session host challenge userAgent revision).message :=
  rfl

end Hashed

/-! ### One place -/

/-- The fields of a challenge can be told apart by the length in front of each. -/
theorem challengeBinding_inj {session session' : Vector UInt8 32}
    {host host' challenge challenge' : Text} {userAgent userAgent' : List UInt8}
    {revision revision' : UInt64}
    (fits : userAgent.length < 2 ^ 32) (fits' : userAgent'.length < 2 ^ 32)
    (same : (KeyMaterial.challengeBinding session host challenge userAgent revision).message =
      (KeyMaterial.challengeBinding session' host' challenge' userAgent' revision').message) :
    KeyMaterial.challengeBinding session host challenge userAgent revision =
      KeyMaterial.challengeBinding session' host' challenge' userAgent' revision' := by
  have length (session : Vector UInt8 32) : session.toList.length < 2 ^ 64 := by
    rw [Vector.length_toList]
    decide
  obtain ⟨sessions, rest⟩ := Bytes.frame_append_inj (length session) (length session') same
  obtain ⟨hosts, rest⟩ := Bytes.frame_append_inj host.fits host'.fits rest
  obtain ⟨challenges, rest⟩ := Bytes.frame_append_inj challenge.fits challenge'.fits rest
  obtain ⟨agents, revisions⟩ := Bytes.frame_append_inj (fits.trans (by decide))
    (fits'.trans (by decide)) rest
  have numbers : (revision.toNat : Int) = revision'.toNat := by
    refine Bytes.ofInt_inj (Bytes.frame_inj revisions) ?_
    have small := revision.toNat_lt
    have small' := revision'.toNat_lt
    rw [abs_lt]
    constructor <;> omega
  rw [Vector.toList_inj.mp sessions, Text.ext (Bytes.ofText_inj hosts),
    Text.ext (Bytes.ofText_inj challenges), agents, UInt64.toNat_inj.mp (Int.ofNat.inj numbers)]

theorem tag_inj {header header' : Vector UInt8 headerLen} {mazePath mazePath' : List Char}
    (same : (tag header mazePath).message = (tag header' mazePath').message) :
    tag header mazePath = tag header' mazePath' := by
  have fields := List.append_cancel_left same
  -- the header has no length in front, as it is of one length
  obtain ⟨headers, paths⟩ := List.append_inj fields
    (by rw [Vector.length_toList, Vector.length_toList])
  have texts := Bytes.ofText_inj (Bytes.bigFrame_inj paths)
  rw [Vector.toList_inj.mp headers, String.ofList_inj.mp texts]

/-- Each place hashes different bytes for different inputs. -/
theorem eq_of_message_eq {first second : KeyMaterial} (fits : first.Fits) (fits' : second.Fits)
    (place : first.encoder = second.encoder) (same : first.message = second.message) :
    first = second := by
  cases first with
  | mazeKey label host name =>
    cases second with
    | mazeKey label' host' name' =>
      obtain ⟨labels, rest⟩ := Bytes.bigFrame_append_inj fits.1 fits'.1 same
      obtain ⟨hosts, names⟩ := Bytes.bigFrame_append_inj fits.2.1 fits'.2.1 rest
      rw [Bytes.ofText_inj labels, Bytes.ofText_inj hosts,
        Bytes.ofText_inj (Bytes.bigFrame_inj names)]
    | _ => cases place
  | memory host name source =>
    cases second with
    | memory host' name' source' =>
      have fields := List.append_cancel_left same
      obtain ⟨hosts, rest⟩ := Bytes.bigFrame_append_inj fits.1 fits'.1 fields
      obtain ⟨names, sources⟩ := Bytes.bigFrame_append_inj fits.2 fits'.2 rest
      rw [Bytes.ofText_inj hosts, Bytes.ofText_inj names,
        SourceNetwork.toBytes_inj (Bytes.bigFrame_inj sources)]
    | _ => cases place
  | binding source =>
    cases second with
    | binding source' =>
      have sources := Bytes.bigFrame_inj (List.append_cancel_left same)
      rw [SourceNetwork.toBytes_inj sources]
    | _ => cases place
  | tag header mazePath =>
    cases second with
    | tag header' mazePath' => exact tag_inj same
    | _ => cases place
  | page pathBytes =>
    cases second with
    | page pathBytes' => rw [Bytes.bigFrame_inj (List.append_cancel_left same)]
    | _ => cases place
  | challengeBinding session host challenge userAgent revision =>
    cases second with
    | challengeBinding session' host' challenge' userAgent' revision' =>
      exact challengeBinding_inj fits.2.2 fits'.2.2 same
    | _ => cases place

/-! ### Two places -/

/-- The label in front, which a challenge has none of. -/
def label : KeyMaterial → Option String
  | mazeKey label _ _ => some label
  | memory .. => some "bagel poison memory v1"
  | binding _ => some "bagel maze binding v1"
  | tag .. => some "bagel maze token v1"
  | page _ => some "bagel maze render v1"
  | challengeBinding .. => none

/-- The place that a label belongs to. -/
def encoderOf : Option String → Encoder
  | some "bagel poison memory v1" => .memoryId
  | some "bagel maze binding v1" => .bindingValue
  | some "bagel maze token v1" => .computeTag
  | some "bagel maze render v1" => .pageSeed
  | some _ => .deriveMazeKeys
  | none => .challengeBinding

theorem encoderOf_mazeLabels :
    ∀ label ∈ mazeLabels, encoderOf (some label) = .deriveMazeKeys ∧
      (Bytes.ofText label).length < 2 ^ 24 := by
  simp only [mazeLabels, List.forall_mem_cons]
  decide

theorem encoderOf_label {material : KeyMaterial} (labelled : material.Labelled) :
    encoderOf material.label = material.encoder := by
  cases material with
  | mazeKey text host name => exact (encoderOf_mazeLabels text labelled).1
  | _ => rfl

/-- The bytes begin with the label, and it is short. -/
theorem message_of_label {material : KeyMaterial} (labelled : material.Labelled) {text : String}
    (begins : material.label = some text) :
    (Bytes.ofText text).length < 2 ^ 24 ∧
      ∃ rest, material.message = Bytes.bigFrame (Bytes.ofText text) ++ rest := by
  cases material with
  | mazeKey text host name =>
    cases begins
    exact ⟨(encoderOf_mazeLabels _ labelled).2, _, rfl⟩
  | challengeBinding session host challenge userAgent revision => cases begins
  | _ =>
    cases begins
    exact ⟨by decide, _, rfl⟩

theorem head?_bigFrame {part : List UInt8} (short : part.length < 2 ^ 24) (rest : List UInt8) :
    (Bytes.bigFrame part ++ rest).head? = some 0 := by
  have high : part.length / 256 / 256 / 256 = 0 := by omega
  simp [Bytes.bigFrame, Bytes.big, high]

theorem head?_message_of_none {material : KeyMaterial} (begins : material.label = none) :
    material.message.head? = some 32 := by
  cases material with
  | challengeBinding session host challenge userAgent revision =>
    simp only [message, Bytes.frame, Vector.length_toList, List.append_assoc]
    rfl
  | _ => cases begins

theorem label_eq_of_message_eq {first second : KeyMaterial} (labelled : first.Labelled)
    (labelled' : second.Labelled) (same : first.message = second.message) :
    first.label = second.label := by
  cases begins : first.label with
  | none =>
    cases begins' : second.label with
    | none => rfl
    | some text =>
      obtain ⟨short, rest, whole⟩ := message_of_label labelled' begins'
      have start := head?_message_of_none begins
      rw [same, whole, head?_bigFrame short] at start
      exact absurd start (by decide)
  | some text =>
    obtain ⟨short, rest, whole⟩ := message_of_label labelled begins
    cases begins' : second.label with
    | none =>
      have start := head?_message_of_none begins'
      rw [← same, whole, head?_bigFrame short] at start
      exact absurd start (by decide)
    | some text' =>
      obtain ⟨short', rest', whole'⟩ := message_of_label labelled' begins'
      rw [whole, whole'] at same
      have texts := Bytes.bigFrame_append_inj (short.trans (by decide)) (short'.trans (by decide))
        same
      rw [Bytes.ofText_inj texts.1]

end KeyMaterial

/-- What is hashed at a place is hashed for one input only, and at no other place, whatever keys
the places are given. -/
theorem keyMaterial_not_repartitioned {first second : KeyMaterial} (fits : first.Fits)
    (fits' : second.Fits) :
    (first.encoder = second.encoder → first.message = second.message → first = second) ∧
      (first.Labelled → second.Labelled → first.encoder ≠ second.encoder →
        first.message ≠ second.message) := by
  refine ⟨KeyMaterial.eq_of_message_eq fits fits', fun labelled labelled' places same => ?_⟩
  have labels := KeyMaterial.label_eq_of_message_eq labelled labelled' same
  rw [← KeyMaterial.encoderOf_label labelled, ← KeyMaterial.encoderOf_label labelled',
    labels] at places
  exact places rfl

namespace SampleKeyMaterial

theorem framable_short : Framable "a" ∧ Framable "bc" ∧ Framable "ab" ∧ Framable "c" := by
  unfold Framable
  decide

/-- A host and a maze that are one text with another host and maze, and the identifier of a
network next to a value that binds to it. -/
theorem neighbours_not_repartitioned :
    (KeyMaterial.mazeKey "mac" "a" "bc").message ≠ (KeyMaterial.mazeKey "mac" "ab" "c").message ∧
      (KeyMaterial.memory "a" "bc" (.v4 0)).message ≠ (KeyMaterial.binding (.v4 0)).message := by
  obtain ⟨one, two, other, last⟩ := framable_short
  have mac : Framable "mac" := by
    unfold Framable
    decide
  constructor
  · intro same
    have inputs := (@keyMaterial_not_repartitioned (.mazeKey "mac" "a" "bc")
      (.mazeKey "mac" "ab" "c") ⟨mac, one, two⟩ ⟨mac, other, last⟩).1 rfl same
    exact absurd (KeyMaterial.mazeKey.inj inputs).2.1 (by decide)
  · exact (@keyMaterial_not_repartitioned (.memory "a" "bc" (.v4 0)) (.binding (.v4 0)) ⟨one, two⟩
      trivial).2 trivial trivial (by decide)

end SampleKeyMaterial

end Bagel
