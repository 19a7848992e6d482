/-
This file develops start tags of HTML: how they are written, and how a reader of HTML reads
them.

A reader goes through a text character by character, and is in one of the states that the
standard gives to it. Here it reads start tags and refuses everything else. Text in an attribute
may hold references for characters; a writer escapes at least the ampersand and the quotation
mark. Whatever else it escapes, the tags that it writes are read back. Line breaks are taken to be
normalised before, and no text here holds the null character, which readers replace.
-/

import Mathlib.Data.List.Basic

namespace Markup

/-! ### References -/

/-- The characters that writers escape, with the names of their references. -/
def referenceNames : List (Char × List Char) :=
  [('&', "amp".toList), ('<', "lt".toList), ('>', "gt".toList), ('"', "quot".toList),
    (Char.ofNat 0xA0, "nbsp".toList)]

/-- The reference with a name. -/
def reference (name : List Char) : List Char := '&' :: (name ++ [';'])

/-- A reader of references. Besides those that writers use, it may know any others. -/
structure References where
  decode : List Char → List Char
  decode_nil : decode [] = []
  decode_plain : ∀ char rest, char ≠ '&' → decode (char :: rest) = char :: decode rest
  decode_reference : ∀ char name rest, (char, name) ∈ referenceNames →
    decode (reference name ++ rest) = char :: decode rest

/-- Decode the references that writers use. -/
def decodeNamed : List Char → List Char
  | [] => []
  | '&' :: 'a' :: 'm' :: 'p' :: ';' :: rest => '&' :: decodeNamed rest
  | '&' :: 'l' :: 't' :: ';' :: rest => '<' :: decodeNamed rest
  | '&' :: 'g' :: 't' :: ';' :: rest => '>' :: decodeNamed rest
  | '&' :: 'q' :: 'u' :: 'o' :: 't' :: ';' :: rest => '"' :: decodeNamed rest
  | '&' :: 'n' :: 'b' :: 's' :: 'p' :: ';' :: rest => Char.ofNat 0xA0 :: decodeNamed rest
  | char :: rest => char :: decodeNamed rest

theorem decodeNamed_plain (char : Char) (rest : List Char) (other : char ≠ '&') :
    decodeNamed (char :: rest) = char :: decodeNamed rest := by
  rw [decodeNamed] <;> exact fun _ same _ => other same

theorem decodeNamed_reference (char : Char) (name rest : List Char)
    (named : (char, name) ∈ referenceNames) :
    decodeNamed (reference name ++ rest) = char :: decodeNamed rest := by
  simp only [referenceNames, List.mem_cons, List.not_mem_nil, or_false, Prod.mk.injEq] at named
  rcases named with ⟨rfl, rfl⟩ | ⟨rfl, rfl⟩ | ⟨rfl, rfl⟩ | ⟨rfl, rfl⟩ | ⟨rfl, rfl⟩ <;> rfl

/-- The reader that knows only the references that writers use. -/
def namedReferences : References := ⟨decodeNamed, rfl, decodeNamed_plain, decodeNamed_reference⟩

/-- A character, escaped when it is one of some special ones. -/
def escapeChar (specials : List Char) (char : Char) : List Char :=
  if char ∈ specials then
    match referenceNames.lookup char with
    | some name => reference name
    | none => [char]
  else [char]

def escape (specials text : List Char) : List Char := text.flatMap (escapeChar specials)

theorem escapeChar_cases (specials : List Char) (char : Char) :
    escapeChar specials char = [char] ∨
      char ∈ specials ∧ ∃ name, (char, name) ∈ referenceNames ∧
        escapeChar specials char = reference name := by
  unfold escapeChar
  split
  · next special =>
    cases found : referenceNames.lookup char with
    | none => exact .inl rfl
    | some name =>
      obtain ⟨before, after, entries, -⟩ := List.lookup_eq_some_iff.mp found
      refine .inr ⟨special, name, ?_, rfl⟩
      rw [entries]
      exact List.mem_append_right _ List.mem_cons_self
  · exact .inl rfl

theorem escapeChar_of_notMem {specials : List Char} {char : Char} (plain : char ∉ specials) :
    escapeChar specials char = [char] := if_neg plain

/-- A special character is changed when it has a reference. -/
theorem escapeChar_ne_self {specials : List Char} {char : Char} (special : char ∈ specials)
    (named : (referenceNames.lookup char).isSome = true) : escapeChar specials char ≠ [char] := by
  obtain ⟨name, found⟩ := Option.isSome_iff_exists.mp named
  rw [escapeChar, if_pos special, found]
  intro plain
  have tail : name ++ [';'] = [] := (List.cons.inj plain).2
  exact List.append_ne_nil_of_right_ne_nil name (List.cons_ne_nil _ _) tail

/-- What is escaped is decoded again. -/
theorem decode_escape (references : References) {specials : List Char} (amp : '&' ∈ specials)
    (text : List Char) : references.decode (escape specials text) = text := by
  induction text with
  | nil => exact references.decode_nil
  | cons char text inductionHypothesis =>
    rw [escape, List.flatMap_cons]
    rcases escapeChar_cases specials char with plain | ⟨-, name, named, escaped⟩
    · have other : char ≠ '&' := by
        rintro rfl
        exact escapeChar_ne_self amp rfl plain
      rw [plain, List.singleton_append, references.decode_plain char _ other]
      exact congrArg (char :: ·) inductionHypothesis
    · rw [escaped, references.decode_reference char name _ named]
      exact congrArg (char :: ·) inductionHypothesis

/-- A special character that no reference is made of does not occur in what is escaped. -/
theorem notMem_escape {specials : List Char} {char : Char} (special : char ∈ specials)
    (named : (referenceNames.lookup char).isSome = true)
    (absent : ∀ entry ∈ referenceNames, char ∉ reference entry.2) (text : List Char) :
    char ∉ escape specials text := by
  intro member
  obtain ⟨original, -, inside⟩ := List.mem_flatMap.mp member
  rcases escapeChar_cases specials original with plain | ⟨-, name, listed, escaped⟩
  · rw [plain, List.mem_singleton] at inside
    subst inside
    exact escapeChar_ne_self special named plain
  · rw [escaped] at inside
    exact absent _ listed inside

theorem length_le_escape (specials text : List Char) :
    text.length ≤ (escape specials text).length := by
  induction text with
  | nil => exact Nat.le_refl _
  | cons char text inductionHypothesis =>
    have positive : 0 < (escapeChar specials char).length := by
      rcases escapeChar_cases specials char with plain | ⟨-, name, -, escaped⟩
      · rw [plain]
        exact Nat.one_pos
      · rw [escaped]
        exact Nat.succ_pos _
    rw [escape] at inductionHypothesis
    rw [escape, List.flatMap_cons, List.length_append, List.length_cons]
    omega

/-- What is escaped begins with a plain text when the text itself does. -/
theorem isPrefix_escape_iff {specials start : List Char} (amp : '&' ∈ specials)
    (plain : ∀ char ∈ start, char ∉ specials) (text : List Char) :
    start <+: escape specials text ↔ start <+: text := by
  induction start generalizing text with
  | nil => exact iff_of_true List.nil_prefix List.nil_prefix
  | cons char start inductionHypothesis =>
    have later := inductionHypothesis fun other member => plain other (.tail _ member)
    cases text with
    | nil => exact Iff.rfl
    | cons first text =>
      rw [escape, List.flatMap_cons]
      rcases escapeChar_cases specials first with same | ⟨special, name, -, escaped⟩
      · rw [same, List.singleton_append, List.cons_prefix_cons, List.cons_prefix_cons]
        exact and_congr_right fun _ => later text
      · -- A reference begins with an ampersand, which is special itself.
        rw [escaped, reference, List.cons_append, List.cons_prefix_cons, List.cons_prefix_cons]
        refine iff_of_false (fun both => ?_) fun both => ?_
        · exact plain char List.mem_cons_self (both.1 ▸ amp)
        · exact plain char List.mem_cons_self (both.1 ▸ special)

/-- What is not changed by escaping has no special characters. -/
theorem escape_eq_self_iff {specials text : List Char} :
    escape specials text = text ↔ ∀ char ∈ text, escapeChar specials char = [char] := by
  constructor
  · intro same
    induction text with
    | nil => exact fun char member => absurd member List.not_mem_nil
    | cons char text inductionHypothesis =>
      rw [escape, List.flatMap_cons] at same
      rcases escapeChar_cases specials char with plain | ⟨-, name, -, escaped⟩
      · rw [plain] at same
        intro other member
        rcases List.mem_cons.mp member with rfl | later
        · exact plain
        · exact inductionHypothesis (List.cons.inj same).2 other later
      · -- A reference is longer than the character it stands for.
        have lengths := congrArg List.length same
        have more := length_le_escape specials text
        rw [escaped, List.length_append, List.length_cons, reference, List.length_cons,
          List.length_append, List.length_singleton] at lengths
        rw [escape] at more
        omega
  · intro plain
    induction text with
    | nil => rfl
    | cons char text inductionHypothesis =>
      rw [escape, List.flatMap_cons, plain char List.mem_cons_self, List.singleton_append]
      exact congrArg (char :: ·)
        (inductionHypothesis fun other member => plain other (.tail _ member))

/-- A plain text is the escape of itself only. -/
theorem escape_eq_iff {specials name : List Char} (amp : '&' ∈ specials)
    (plain : ∀ char ∈ name, char ∉ specials) (text : List Char) :
    escape specials text = name ↔ text = name := by
  constructor
  · intro same
    have whole : name <+: escape specials text := ⟨[], (List.append_nil name).trans same.symm⟩
    have start : name <+: text := (isPrefix_escape_iff amp plain text).mp whole
    have lengths := length_le_escape specials text
    rw [same] at lengths
    exact (start.eq_of_length_le lengths).symm
  · rintro rfl
    exact escape_eq_self_iff.mpr fun char member => escapeChar_of_notMem (plain char member)

/-! ### Tags -/

/-- A start tag with its attributes. -/
structure StartTag where
  name : List Char
  attributes : List (List Char × List Char)
  deriving DecidableEq

/-- The whitespace of HTML. -/
def isSpace (char : Char) : Bool :=
  char == '\t' || char == '\n' || char == '\x0C' || char == '\r' || char == ' '

/-- A character of the name of a tag or attribute, after the first. -/
def isNameChar (char : Char) : Bool :=
  !isSpace char && char != '/' && char != '>' && char != '=' && char.toLower == char

/-- A name of an attribute that a reader can find in a page. Only at its front it may have an
equals sign. -/
def IsName : List Char → Prop
  | [] => False
  | first :: rest =>
    (first = '=' ∨ isNameChar first = true) ∧ ∀ char ∈ rest, isNameChar char = true

/-- A name of a tag. -/
def IsTagName : List Char → Prop
  | [] => False
  | first :: rest =>
    (first.isAlpha = true ∧ first.toLower = first) ∧ ∀ char ∈ rest, isNameChar char = true

/-- An attribute, its value escaped. -/
def writeAttribute (escaped : List Char → List Char) (entry : List Char × List Char) :
    List Char :=
  ' ' :: (entry.1 ++ ('=' :: '"' :: (escaped entry.2 ++ ['"'])))

/-- A start tag as a text. -/
def StartTag.write (escaped : List Char → List Char) (tag : StartTag) : List Char :=
  '<' :: (tag.name ++ (tag.attributes.flatMap (writeAttribute escaped) ++ ['>']))

/-! ### Readers -/

/-- The states of a reader of start tags, with what it has read of the tag. -/
inductive Mode where
  | data
  | tagOpen
  | tagName (name : List Char)
  | beforeName (tag : StartTag)
  | attributeName (tag : StartTag) (name : List Char)
  | afterName (tag : StartTag) (name : List Char)
  | beforeValue (tag : StartTag) (name : List Char)
  | quoted (mark : Char) (tag : StartTag) (name value : List Char)
  | unquoted (tag : StartTag) (name value : List Char)
  | afterQuoted (tag : StartTag)
  | selfClosing (tag : StartTag)
  /-- Something that is not a start tag. -/
  | refused

/-- A reader, with the tags it has read. -/
structure Reader where
  mode : Mode
  tags : List StartTag

/-- An attribute is added to a tag unless there is one of its name. -/
def StartTag.add (references : References) (tag : StartTag) (name value : List Char) : StartTag :=
  if name ∈ tag.attributes.map Prod.fst then tag
  else { tag with attributes := tag.attributes ++ [(name, references.decode value)] }

namespace Reader

def emit (tags : List StartTag) (tag : StartTag) : Reader := ⟨.data, tags ++ [tag]⟩

/-- The state before the name of an attribute. -/
def readName (tags : List StartTag) (tag : StartTag) (char : Char) : Reader :=
  if isSpace char then ⟨.beforeName tag, tags⟩
  else if char = '/' then ⟨.selfClosing tag, tags⟩
  else if char = '>' then emit tags tag
  else ⟨.attributeName tag [char.toLower], tags⟩

/-- Read the next character. -/
def read (references : References) (reader : Reader) (char : Char) : Reader :=
  let tags := reader.tags
  match reader.mode with
  | .data => if char = '<' then ⟨.tagOpen, tags⟩ else ⟨.refused, tags⟩
  | .tagOpen => if char.isAlpha then ⟨.tagName [char.toLower], tags⟩ else ⟨.refused, tags⟩
  | .tagName name =>
    if isSpace char then ⟨.beforeName ⟨name, []⟩, tags⟩
    else if char = '/' then ⟨.selfClosing ⟨name, []⟩, tags⟩
    else if char = '>' then emit tags ⟨name, []⟩
    else ⟨.tagName (name ++ [char.toLower]), tags⟩
  | .beforeName tag => readName tags tag char
  | .attributeName tag name =>
    if isSpace char then ⟨.afterName tag name, tags⟩
    else if char = '/' then ⟨.selfClosing (tag.add references name []), tags⟩
    else if char = '>' then emit tags (tag.add references name [])
    else if char = '=' then ⟨.beforeValue tag name, tags⟩
    else ⟨.attributeName tag (name ++ [char.toLower]), tags⟩
  | .afterName tag name =>
    if isSpace char then ⟨.afterName tag name, tags⟩
    else if char = '/' then ⟨.selfClosing (tag.add references name []), tags⟩
    else if char = '=' then ⟨.beforeValue tag name, tags⟩
    else if char = '>' then emit tags (tag.add references name [])
    else ⟨.attributeName (tag.add references name []) [char.toLower], tags⟩
  | .beforeValue tag name =>
    if isSpace char then ⟨.beforeValue tag name, tags⟩
    else if char = '"' ∨ char = '\'' then ⟨.quoted char tag name [], tags⟩
    else if char = '>' then emit tags (tag.add references name [])
    else ⟨.unquoted tag name [char], tags⟩
  | .quoted mark tag name value =>
    if char = mark then ⟨.afterQuoted (tag.add references name value), tags⟩
    else ⟨.quoted mark tag name (value ++ [char]), tags⟩
  | .unquoted tag name value =>
    if isSpace char then ⟨.beforeName (tag.add references name value), tags⟩
    else if char = '>' then emit tags (tag.add references name value)
    else ⟨.unquoted tag name (value ++ [char]), tags⟩
  | .afterQuoted tag => readName tags tag char
  | .selfClosing tag => if char = '>' then emit tags tag else readName tags tag char
  | .refused => ⟨.refused, tags⟩

/-- Read a text. -/
def readAll (references : References) (reader : Reader) (text : List Char) : Reader :=
  text.foldl (read references) reader

end Reader

/-- The start tags that a text consists of, if it consists of start tags. -/
def startTags (references : References) (text : List Char) : Option (List StartTag) :=
  let reader := Reader.readAll references ⟨.data, []⟩ text
  match reader.mode with
  | .data => some reader.tags
  | _ => none

/-! ### What is written is read back -/

section RoundTrip

variable {references : References} {tags : List StartTag} {tag : StartTag}

theorem readAll_append (reader : Reader) (front back : List Char) :
    reader.readAll references (front ++ back) =
      (reader.readAll references front).readAll references back :=
  List.foldl_append

theorem isNameChar_iff {char : Char} :
    isNameChar char = true ↔
      isSpace char = false ∧ char ≠ '/' ∧ char ≠ '>' ∧ char ≠ '=' ∧ char.toLower = char := by
  simp [isNameChar, and_assoc]

/-- A text is read when each of its characters is put after those read before. -/
theorem readAll_extend (state : List Char → Reader) {text : List Char}
    (step : ∀ front, ∀ char ∈ text,
      (state front).read references char = state (front ++ [char])) (front : List Char) :
    (state front).readAll references text = state (front ++ text) := by
  induction text generalizing front with
  | nil =>
    rw [List.append_nil]
    rfl
  | cons char text inductionHypothesis =>
    have rest := inductionHypothesis (fun front other member => step front other (.tail _ member))
      (front ++ [char])
    rw [Reader.readAll, List.foldl_cons, step front char List.mem_cons_self]
    refine rest.trans ?_
    rw [List.append_assoc]
    rfl

/-- The name of a tag is read to its end. -/
theorem readAll_tagName {rest : List Char} (named : ∀ char ∈ rest, isNameChar char = true)
    (front : List Char) :
    Reader.readAll references ⟨.tagName front, tags⟩ rest = ⟨.tagName (front ++ rest), tags⟩ := by
  refine readAll_extend (fun front => ⟨.tagName front, tags⟩) (fun front char member => ?_) front
  obtain ⟨spaceless, noSlash, noEnd, -, lower⟩ := isNameChar_iff.mp (named char member)
  simp only [Reader.read, spaceless, noSlash, noEnd, lower, Bool.false_eq_true, if_false]

/-- The name of an attribute is read to its end. -/
theorem readAll_attributeName {rest : List Char}
    (named : ∀ char ∈ rest, isNameChar char = true) (front : List Char) :
    Reader.readAll references ⟨.attributeName tag front, tags⟩ rest =
      ⟨.attributeName tag (front ++ rest), tags⟩ := by
  refine readAll_extend (fun front => ⟨.attributeName tag front, tags⟩)
    (fun front char member => ?_) front
  obtain ⟨spaceless, noSlash, noEnd, noEquals, lower⟩ := isNameChar_iff.mp (named char member)
  simp only [Reader.read, spaceless, noSlash, noEnd, noEquals, lower, Bool.false_eq_true, if_false]

/-- A value is read up to its quotation mark. -/
theorem readAll_quoted {mark : Char} {value : List Char} (markless : mark ∉ value)
    (name front : List Char) :
    Reader.readAll references ⟨.quoted mark tag name front, tags⟩ value =
      ⟨.quoted mark tag name (front ++ value), tags⟩ := by
  refine readAll_extend (fun front => ⟨.quoted mark tag name front, tags⟩)
    (fun front char member => ?_) front
  have other : char ≠ mark := fun same => markless (same ▸ member)
  simp only [Reader.read, other, if_false]

/-- A reader is between the attributes of a tag: after a name or a value. -/
structure Reader.Between (references : References) (tags : List StartTag) (tag : StartTag)
    (reader : Reader) : Prop where
  space : reader.read references ' ' = ⟨.beforeName tag, tags⟩
  close : reader.read references '>' = Reader.emit tags tag

theorem between_tagName (name : List Char) :
    Reader.Between references tags ⟨name, []⟩ ⟨.tagName name, tags⟩ := ⟨rfl, rfl⟩

theorem between_afterQuoted : Reader.Between references tags tag ⟨.afterQuoted tag, tags⟩ :=
  ⟨rfl, rfl⟩

/-- The name of an attribute is read from its beginning. -/
theorem readAll_name {name : List Char} (valid : IsName name) :
    Reader.readAll references ⟨.beforeName tag, tags⟩ name =
      ⟨.attributeName tag name, tags⟩ := by
  cases name with
  | nil => exact absurd valid id
  | cons first rest =>
    have step : Reader.read references ⟨.beforeName tag, tags⟩ first =
        ⟨.attributeName tag [first], tags⟩ := by
      rcases valid.1 with rfl | named
      · rfl
      · obtain ⟨spaceless, noSlash, noEnd, -, lower⟩ := isNameChar_iff.mp named
        simp only [Reader.read, Reader.readName, spaceless, noSlash, noEnd, lower,
          Bool.false_eq_true, if_false]
    rw [Reader.readAll, List.foldl_cons, step]
    exact readAll_attributeName valid.2 [first]

/-- An attribute is read with its value. -/
theorem readAll_writeAttribute {escaped : List Char → List Char} {reader : Reader}
    (between : reader.Between references tags tag) {entry : List Char × List Char}
    (valid : IsName entry.1) (markless : '"' ∉ escaped entry.2) :
    reader.readAll references (writeAttribute escaped entry) =
      ⟨.afterQuoted (tag.add references entry.1 (escaped entry.2)), tags⟩ := by
  have start : reader.readAll references [' '] = ⟨.beforeName tag, tags⟩ := between.space
  have split : writeAttribute escaped entry =
      [' '] ++ (entry.1 ++ (['=', '"'] ++ (escaped entry.2 ++ ['"']))) := rfl
  rw [split, readAll_append, start, readAll_append, readAll_name valid, readAll_append]
  have value : Reader.readAll references ⟨.attributeName tag entry.1, tags⟩ ['=', '"'] =
      ⟨.quoted '"' tag entry.1 [], tags⟩ := rfl
  rw [value, readAll_append, readAll_quoted markless]
  rfl

/-- The attributes of a tag are read, if their names are different, and then its end. -/
theorem readAll_attributes {escaped : List Char → List Char}
    {attributes : List (List Char × List Char)} {reader : Reader}
    (between : reader.Between references tags tag)
    (decoded : ∀ value, references.decode (escaped value) = value)
    (markless : ∀ value, '"' ∉ escaped value) (valid : ∀ entry ∈ attributes, IsName entry.1)
    (distinct : ((tag.attributes ++ attributes).map Prod.fst).Nodup) :
    reader.readAll references (attributes.flatMap (writeAttribute escaped) ++ ['>']) =
      Reader.emit tags { tag with attributes := tag.attributes ++ attributes } := by
  induction attributes generalizing reader tag with
  | nil =>
    rw [List.append_nil]
    exact between.close
  | cons entry attributes inductionHypothesis =>
    have added : tag.add references entry.1 (escaped entry.2) =
        { tag with attributes := tag.attributes ++ [entry] } := by
      rw [StartTag.add, if_neg, decoded]
      rw [List.map_append, List.map_cons] at distinct
      exact fun member => (List.nodup_append.mp distinct).2.2 _ member _ List.mem_cons_self rfl
    rw [List.flatMap_cons, List.append_assoc, readAll_append,
      readAll_writeAttribute between (valid entry List.mem_cons_self) (markless _), added]
    refine Eq.trans (inductionHypothesis between_afterQuoted
      (fun other member => valid other (.tail _ member)) ?_) ?_
    · rw [List.append_assoc]
      exact distinct
    · rw [List.append_assoc]
      rfl

/-- A start tag that can be written: the names are names, and those of the attributes are
different. -/
structure StartTag.Valid (tag : StartTag) : Prop where
  name : IsTagName tag.name
  attributes : ∀ entry ∈ tag.attributes, IsName entry.1
  distinct : (tag.attributes.map Prod.fst).Nodup

/-- A start tag is read back. -/
theorem readAll_write {escaped : List Char → List Char}
    (decoded : ∀ value, references.decode (escaped value) = value)
    (markless : ∀ value, '"' ∉ escaped value) (valid : tag.Valid) :
    Reader.readAll references ⟨.data, tags⟩ (tag.write escaped) = ⟨.data, tags ++ [tag]⟩ := by
  obtain ⟨name, attributes⟩ := tag
  cases name with
  | nil => exact absurd valid.name id
  | cons first rest =>
    have opening : Reader.readAll references ⟨.data, tags⟩ ['<', first] =
        ⟨.tagName [first], tags⟩ := by
      obtain ⟨letter, lower⟩ := valid.name.1
      have step : Reader.read references ⟨.tagOpen, tags⟩ first = ⟨.tagName [first], tags⟩ := by
        simp only [Reader.read, letter, lower, if_true]
      exact step
    have split : StartTag.write escaped ⟨first :: rest, attributes⟩ =
        ['<', first] ++ (rest ++ (attributes.flatMap (writeAttribute escaped) ++ ['>'])) := rfl
    rw [split, readAll_append, opening, readAll_append, readAll_tagName valid.name.2]
    exact readAll_attributes (between_tagName _) decoded markless valid.attributes valid.distinct

/-- The start tags of a text that consists of written ones. -/
theorem startTags_write {escaped : List Char → List Char}
    (decoded : ∀ value, references.decode (escaped value) = value)
    (markless : ∀ value, '"' ∉ escaped value) (written : List StartTag)
    (valid : ∀ tag ∈ written, tag.Valid) :
    startTags references (written.flatMap (StartTag.write escaped)) = some written := by
  have run : ∀ tags : List StartTag,
      Reader.readAll references ⟨.data, tags⟩ (written.flatMap (StartTag.write escaped)) =
        ⟨.data, tags ++ written⟩ := by
    induction written with
    | nil =>
      intro tags
      rw [List.append_nil]
      rfl
    | cons tag written inductionHypothesis =>
      intro tags
      rw [List.flatMap_cons, readAll_append,
        readAll_write decoded markless (valid tag List.mem_cons_self),
        inductionHypothesis (fun other member => valid other (.tail _ member)),
        List.append_assoc]
      rfl
  rw [startTags, run]
  rfl

end RoundTrip

end Markup
