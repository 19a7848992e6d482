/-
This file models the headers of a request or response as the `http` crate keeps them: names
in lower case, values of any bytes but control characters, and a map that holds the values
of each name in their order.

A value can be read as a text only when all its bytes are visible ASCII or tabs. Every other
value is one that `to_str` refuses, and what a caller does then is part of its own model.
-/

import Bagel.Library.Bytes
import Bagel.Library.Decimal
import Bagel.Library.Multimap
import Bagel.Library.Parts

namespace Bagel

/-- `char::is_whitespace` -/
def isWhitespace (character : Char) : Bool :=
  let code := character.toNat
  (9 ≤ code && code ≤ 13) || code == 0x20 || code == 0x85 || code == 0xa0 || code == 0x1680 ||
    (0x2000 ≤ code && code ≤ 0x200a) || code == 0x2028 || code == 0x2029 || code == 0x202f ||
    code == 0x205f || code == 0x3000

/-- `str::trim` -/
def trim (text : List Char) : List Char := Parts.trim isWhitespace text

/-! ### Names -/

/-- A character of a header name after it was put in lower case. -/
def isNameCharacter (character : Char) : Bool :=
  character.isLower || character.isDigit || "!#$%&'*+-.^_`|~".toList.contains character

/-- The name of a header, in lower case. -/
structure HeaderName where
  text : String
  valid : text ≠ "" ∧ text.toList.all isNameCharacter = true ∧ text.length ≤ 65535
  deriving DecidableEq

namespace HeaderName

/-- `HeaderName::from_bytes` -/
def parse (text : List Char) : Option HeaderName :=
  let lower := String.ofList (text.map Char.toLower)
  if valid : lower ≠ "" ∧ lower.toList.all isNameCharacter = true ∧ lower.length ≤ 65535 then
    some ⟨lower, valid⟩
  else none

def host : HeaderName := ⟨"host", by decide⟩

def userAgent : HeaderName := ⟨"user-agent", by decide⟩

def cookie : HeaderName := ⟨"cookie", by decide⟩

end HeaderName

/-! ### Values -/

/-- A byte that a header value may hold. -/
def isValueByte (byte : UInt8) : Bool := (32 ≤ byte && byte != 127) || byte == 9

/-- A byte that `to_str` can read. -/
def isVisible (byte : UInt8) : Bool := (32 ≤ byte && byte < 127) || byte == 9

structure HeaderValue where
  bytes : List UInt8
  valid : bytes.all isValueByte = true
  deriving DecidableEq

namespace HeaderValue

/-- The bytes as characters of their own, whether they can be read or not. -/
def characters (value : HeaderValue) : List Char := value.bytes.map Char.ofUInt8

/-- All bytes can be read. -/
def Readable (value : HeaderValue) : Prop := value.bytes.all isVisible = true

instance (value : HeaderValue) : Decidable value.Readable := inferInstanceAs (Decidable (_ = true))

/-- `to_str` -/
def toStr (value : HeaderValue) : Option String :=
  if value.Readable then some (String.ofList value.characters) else none

/-- `HeaderValue::from_str` -/
def fromStr (text : String) : Option HeaderValue :=
  if valid : (Bytes.ofText text).all isValueByte = true then some ⟨Bytes.ofText text, valid⟩
  else none

theorem lt_of_isVisible {byte : UInt8} (visible : isVisible byte = true) : byte < 128 := by
  induction byte using Bytes.forall_of_values with
  | every value =>
    revert value
    decide +kernel

theorem isValueByte_of_isVisible {byte : UInt8} (visible : isVisible byte = true) :
    isValueByte byte = true := by
  induction byte using Bytes.forall_of_values with
  | every value =>
    revert value
    decide +kernel

theorem toStr_eq_some {value : HeaderValue} {text : String} (read : value.toStr = some text) :
    value.Readable ∧ text.toList = value.characters ∧ Bytes.ofText text = value.bytes := by
  unfold toStr at read
  split at read
  · next readable =>
    cases read
    refine ⟨readable, String.toList_ofList, Bytes.ofText_ascii fun byte member => ?_⟩
    exact lt_of_isVisible (List.all_eq_true.mp readable byte member)
  · exact absurd read (by simp)

theorem toStr_of_readable {value : HeaderValue} (readable : value.Readable) :
    value.toStr = some (String.ofList value.characters) := if_pos readable

theorem toStr_of_not_readable {value : HeaderValue} (unreadable : ¬ value.Readable) :
    value.toStr = none := if_neg unreadable

theorem exists_visible_of_mem {value : HeaderValue} (readable : value.Readable) {character : Char}
    (member : character ∈ value.characters) :
    ∃ byte, isVisible byte = true ∧ Char.ofUInt8 byte = character := by
  obtain ⟨byte, listed, rfl⟩ := List.mem_map.mp member
  exact ⟨byte, List.all_eq_true.mp readable byte listed, rfl⟩

/-- A text of visible characters is a value that reads as the text. -/
theorem fromStr_of_visible {text : List Char}
    (visible : ∀ character ∈ text, ∃ byte, isVisible byte = true ∧ Char.ofUInt8 byte = character) :
    ∃ value, fromStr (String.ofList text) = some value ∧ value.Readable ∧
      value.characters = text := by
  obtain ⟨bytes, allVisible, rfl⟩ : ∃ bytes : List UInt8,
      (∀ byte ∈ bytes, isVisible byte = true) ∧ bytes.map Char.ofUInt8 = text := by
    induction text with
    | nil => exact ⟨[], by simp, rfl⟩
    | cons character rest inductionHypothesis =>
      obtain ⟨byte, first, rfl⟩ := visible character List.mem_cons_self
      obtain ⟨bytes, others, rfl⟩ := inductionHypothesis fun other member =>
        visible other (List.mem_cons_of_mem _ member)
      exact ⟨byte :: bytes, List.forall_mem_cons.mpr ⟨first, others⟩, rfl⟩
  have written : Bytes.ofText (String.ofList (bytes.map Char.ofUInt8)) = bytes :=
    Bytes.ofText_ascii fun byte member => lt_of_isVisible (allVisible byte member)
  have valid : bytes.all isValueByte = true := by
    rw [List.all_eq_true]
    exact fun byte member => isValueByte_of_isVisible (allVisible byte member)
  refine ⟨⟨bytes, valid⟩, ?_, List.all_eq_true.mpr allVisible, rfl⟩
  unfold fromStr
  simp only [written, valid, dite_true]

theorem toString_visible (number : Nat) {character : Char}
    (member : character ∈ (toString number).toList) :
    ∃ byte, isVisible byte = true ∧ Char.ofUInt8 byte = character := by
  rw [Decimal.toList_toString] at member
  obtain ⟨digit, small, rfl⟩ := Decimal.exists_of_mem_toDigits (by decide) member
  have every : ∀ digit : Fin 10, isVisible (UInt8.ofNat (48 + digit.val)) = true ∧
      Char.ofUInt8 (UInt8.ofNat (48 + digit.val)) = digit.val.digitChar := by
    decide
  exact ⟨UInt8.ofNat (48 + digit), every ⟨digit, small⟩⟩

theorem fromStr_toString (number : Nat) :
    ∃ value, fromStr (toString number) = some value ∧ value.toStr = some (toString number) := by
  obtain ⟨value, written, readable, characters⟩ :=
    fromStr_of_visible fun character (member : character ∈ (toString number).toList) =>
      toString_visible number member
  rw [String.ofList_toList] at written
  refine ⟨value, written, ?_⟩
  rw [toStr_of_readable readable, characters, String.ofList_toList]

/-- `HeaderValue::from` of a number. -/
def ofNat (number : Nat) : HeaderValue :=
  (fromStr (toString number)).get (by
    obtain ⟨value, written, -⟩ := fromStr_toString number
    rw [written]
    rfl)

theorem toStr_ofNat (number : Nat) : (ofNat number).toStr = some (toString number) := by
  obtain ⟨value, written, read⟩ := fromStr_toString number
  have same : ofNat number = value := by
    unfold ofNat
    simp only [written, Option.get_some]
  rw [same, read]

end HeaderValue

/-- `http::HeaderMap` -/
abbrev HeaderMap := Multimap HeaderName HeaderValue

end Bagel
