/-
This file determines what the searches for tags and attributes find in a page that was
serialised by a browser: start tags with quoted values in which certain characters are escaped.

The search for attributes does not know names and values apart. It finds the end of a name when
that is a key. A name in which it finds none is passed over, and then the value is searched as if
it were a part of the tag, which does no harm as long as no attribute begins in it. Which
characters are escaped makes no difference if the quotation mark is one of them.
-/

import Bagel.TagFetcher

namespace Bagel

namespace TagFetcher

/-! ### Elements -/

/-- An element of a head. -/
structure Element where
  kind : TagKind
  attributes : List (List Char × List Char)
  named : ∀ entry ∈ attributes, Markup.IsName entry.1
  distinct : (attributes.map Prod.fst).Nodup

/-- The characters that a serialiser escapes in a value. Older ones leave the brackets. -/
def specials (brackets : Bool) : List Char :=
  ['&', Char.ofNat 0xA0, '"'] ++ if brackets then ['<', '>'] else []

def escaped (brackets : Bool) (value : List Char) : List Char :=
  Markup.escape (specials brackets) value

def Element.startTag (element : Element) : Markup.StartTag :=
  ⟨element.kind.name, element.attributes⟩

/-- The element as it is serialised. -/
def Element.write (brackets : Bool) (element : Element) : List Char :=
  element.startTag.write (escaped brackets)

theorem isTagName_name (kind : TagKind) : Markup.IsTagName kind.name := by
  cases kind with
  | metaTag => exact ⟨by decide, List.all_eq_true.mp rfl⟩
  | linkTag => exact ⟨by decide, List.all_eq_true.mp rfl⟩

theorem Element.startTag_valid (element : Element) : element.startTag.Valid :=
  ⟨isTagName_name element.kind, element.named, element.distinct⟩

theorem quote_notMem_escaped (brackets : Bool) (value : List Char) :
    '"' ∉ escaped brackets value :=
  Markup.notMem_escape (List.mem_append_left _ (by decide)) (by decide) (by decide) value

theorem decode_escaped (references : Markup.References) (brackets : Bool) (value : List Char) :
    references.decode (escaped brackets value) = value :=
  Markup.decode_escape references (List.mem_append_left _ (by decide)) value

/-- What a browser reads in a head are the elements that were serialised. -/
theorem startTags_write (references : Markup.References) (brackets : Bool)
    (elements : List Element) :
    Markup.startTags references (elements.flatMap (Element.write brackets)) =
      some (elements.map Element.startTag) := by
  have texts : elements.flatMap (Element.write brackets) =
      (elements.map Element.startTag).flatMap (Markup.StartTag.write (escaped brackets)) := by
    rw [List.flatMap_map]
    rfl
  rw [texts]
  refine Markup.startTags_write (decode_escaped references brackets)
    (quote_notMem_escaped brackets) _ fun tag member => ?_
  obtain ⟨element, -, rfl⟩ := List.mem_map.mp member
  exact element.startTag_valid

/-! ### Keys in names -/

variable (words : WordClass)

/-- The key that is found in a name: the first of its ends that is a key. -/
def keyIn : List Char → Option (List Char)
  | [] => none
  | first :: rest =>
    if words.isWord first && rest.all (isKeyChar words) then some (first :: rest)
    else keyIn rest

/-- Behind a key are an equals sign and a value. The quotation mark at the end of the text may be
its beginning, whitespace may not. -/
def isAssigned : List Char → Bool
  | [] => false
  | equals :: rest => equals == '=' && !rest.head?.any isWhitespace

/-- Nowhere in a text are a key, an equals sign and a value. -/
def isQuiet : List Char → Bool
  | [] => true
  | first :: rest =>
    !(words.isWord first && isAssigned (rest.dropWhile (isKeyChar words))) && isQuiet rest

/-- Nothing is found in the value of an attribute without a key in its name. -/
def Searchable (brackets : Bool) (entry : List Char × List Char) : Prop :=
  keyIn words entry.1 = none → isQuiet words (escaped brackets entry.2) = true

/-- What is found of an attribute. -/
def readEntry (brackets : Bool) (entry : List Char × List Char) :
    Option (List Char × List Char) :=
  (keyIn words entry.1).map fun key => (lowercase key, escaped brackets entry.2)

/-- What is found of an element. -/
def Element.found (brackets : Bool) (element : Element) : List (List Char × List Char) :=
  element.attributes.filterMap (readEntry words brackets)

/-! ### The search for attributes -/

section Search

variable {words}

theorem isWord_eq_false {char : Char} (small : char.toNat < 128)
    (other : (char.isAlphanum || char == '_') = false) : words.isWord char = false :=
  (words.ascii char small).trans other

theorem isKeyChar_eq_false {char : Char} (small : char.toNat < 128)
    (other : (char.isAlphanum || char == '_') = false) (dash : (char == '-') = false) :
    isKeyChar words char = false := by
  rw [isKeyChar, isWord_eq_false small other, dash]
  rfl

theorem attributeAt_of_not_isWord {first : Char} (other : words.isWord first = false)
    (text : List Char) : attributeAt words (first :: text) = none := by
  rw [attributeAt, other]
  rfl

/-- There is no attribute without an equals sign behind the key. -/
theorem attributeAt_of_head {first : Char} {text : List Char}
    (other : (text.dropWhile (isKeyChar words)).head? ≠ some '=') :
    attributeAt words (first :: text) = none := by
  rw [attributeAt]
  split
  · split
    · rfl
    · next equals rest found =>
      rw [found] at other
      exact if_neg fun same => other (congrArg some same)
  · rfl

/-- What is taken up to a character that does not occur before. -/
theorem takeWhile_bne {mark : Char} {front : List Char} (absent : mark ∉ front)
    (rest : List Char) : (front ++ mark :: rest).takeWhile (· != mark) = front := by
  have passed : ∀ char ∈ front, (char != mark) = true := fun char member =>
    bne_iff_ne.mpr fun same => absent (same ▸ member)
  have stopped : (mark :: rest).takeWhile (· != mark) = [] := by
    rw [List.takeWhile_cons, bne_self_eq_false]
    rfl
  rw [List.takeWhile_append_of_pos passed, stopped, List.append_nil]

theorem valueAt_quoted {value : List Char} (markless : '"' ∉ value) (rest : List Char) :
    valueAt ('"' :: (value ++ '"' :: rest)) = some (value, value.length + 2) := by
  have shorter : value.length < (value ++ '"' :: rest).length := by
    rw [List.length_append]
    exact Nat.lt_add_of_pos_right (Nat.succ_pos _)
  rw [valueAt, quotedAt, takeWhile_bne markless, if_pos ⟨rfl, shorter⟩]
  rfl

/-- An attribute whose name is a key is found. -/
theorem attributeAt_key {first : Char} {name value : List Char}
    (isWord : words.isWord first = true) (key : name.all (isKeyChar words) = true)
    (markless : '"' ∉ value) (rest : List Char) :
    attributeAt words (first :: (name ++ '=' :: '"' :: (value ++ '"' :: rest))) =
      some ((lowercase (first :: name), value), name.length + value.length + 4) := by
  have keyChars := List.all_eq_true.mp key
  have equals : isKeyChar words '=' ≠ true :=
    Bool.eq_false_iff.mp (isKeyChar_eq_false (by decide) (by decide) (by decide))
  rw [attributeAt, if_pos isWord, List.dropWhile_append_of_pos keyChars,
    List.dropWhile_cons_of_neg equals, List.takeWhile_append_of_pos keyChars,
    List.takeWhile_cons_of_neg equals, List.append_nil]
  refine (if_pos rfl).trans ?_
  rw [valueAt_quoted markless, Option.map_some, List.length_cons]
  refine congrArg (fun length => some ((lowercase (first :: name), value), length)) ?_
  omega

/-- A name that is not a key is not found from its beginning. -/
theorem attributeAt_of_not_key {first : Char} {name : List Char}
    (other : (words.isWord first && name.all (isKeyChar words)) = false) (noEquals : '=' ∉ name)
    (rest : List Char) : attributeAt words (first :: (name ++ '=' :: rest)) = none := by
  cases isWord : words.isWord first with
  | false => exact attributeAt_of_not_isWord isWord _
  | true =>
    rw [isWord, Bool.true_and] at other
    refine attributeAt_of_head fun found => ?_
    cases ending : name.dropWhile (isKeyChar words) with
    | nil =>
      have keyChars := List.all_eq_true.mpr (List.dropWhile_eq_nil_iff.mp ending)
      rw [other] at keyChars
      cases keyChars
    | cons char tail =>
      rw [List.dropWhile_append, ending, List.isEmpty_cons, if_neg Bool.false_ne_true] at found
      have inside : char ∈ name :=
        (List.dropWhile_suffix _).subset (ending ▸ List.mem_cons_self)
      exact noEquals (Option.some.inj found ▸ inside)

theorem isSome_valueAt (first : Char) (text : List Char) :
    (valueAt (first :: text)).isSome = !isWhitespace first := by
  cases space : isWhitespace first with
  | true =>
    have double : first ≠ '"' := fun same => by
      rw [same] at space
      exact absurd space (by decide)
    have single : first ≠ '\'' := fun same => by
      rw [same] at space
      exact absurd space (by decide)
    have empty : (first :: text).takeWhile (!isWhitespace ·) = [] := by
      rw [List.takeWhile_cons, space]
      rfl
    rw [valueAt, quotedAt, quotedAt, bareAt, if_neg fun both => double both.1,
      if_neg fun both => single both.1, if_pos empty]
    rfl
  | false =>
    have present : (first :: text).takeWhile (!isWhitespace ·) ≠ [] := by
      rw [List.takeWhile_cons, space]
      exact List.cons_ne_nil _ _
    rw [valueAt, bareAt, if_neg present]
    cases quotedAt '"' (first :: text) <;> cases quotedAt '\'' (first :: text) <;> rfl

/-- Whether an attribute begins somewhere in a value does not depend on what comes after it. -/
theorem isSome_attributeAt (first : Char) (value rest : List Char) :
    (attributeAt words (first :: (value ++ '"' :: rest))).isSome =
      (words.isWord first && isAssigned (value.dropWhile (isKeyChar words))) := by
  cases isWord : words.isWord first with
  | false =>
    rw [attributeAt_of_not_isWord isWord]
    rfl
  | true =>
    have mark : isKeyChar words '"' ≠ true :=
      Bool.eq_false_iff.mp (isKeyChar_eq_false (by decide) (by decide) (by decide))
    rw [Bool.true_and]
    cases ending : value.dropWhile (isKeyChar words) with
    | nil =>
      -- The key ends at the quotation mark behind the value.
      have behind : (value ++ '"' :: rest).dropWhile (isKeyChar words) = '"' :: rest := by
        rw [List.dropWhile_append, ending, List.isEmpty_nil, if_pos rfl,
          List.dropWhile_cons_of_neg mark]
      have other : ((value ++ '"' :: rest).dropWhile (isKeyChar words)).head? ≠ some '=' := by
        rw [behind]
        exact fun found => absurd (Option.some.inj found) (by decide)
      rw [attributeAt_of_head other]
      rfl
    | cons equals tail =>
      have behind : (value ++ '"' :: rest).dropWhile (isKeyChar words) =
          equals :: (tail ++ '"' :: rest) := by
        rw [List.dropWhile_append, ending, List.isEmpty_cons, if_neg Bool.false_ne_true]
        rfl
      by_cases same : equals = '='
      · rw [attributeAt, if_pos isWord, behind]
        dsimp only
        rw [if_pos same, Option.isSome_map, isAssigned, beq_iff_eq.mpr same, Bool.true_and]
        cases tail with
        | nil => exact isSome_valueAt '"' rest
        | cons next tail => exact isSome_valueAt next _
      · have other : ((value ++ '"' :: rest).dropWhile (isKeyChar words)).head? ≠ some '=' := by
          rw [behind]
          exact fun found => same (Option.some.inj found)
        rw [attributeAt_of_head other, isAssigned, beq_false_of_ne same]
        rfl

/-- A value is quiet exactly when no attribute begins in it. -/
theorem isQuiet_iff {value rest : List Char} : isQuiet words value = true ↔
    ∀ back, back <:+ value → back ≠ [] → attributeAt words (back ++ '"' :: rest) = none := by
  induction value with
  | nil =>
    exact iff_of_true rfl fun back suffix present => absurd (List.suffix_nil.mp suffix) present
  | cons first value inductionHypothesis =>
    rw [isQuiet, Bool.and_eq_true_iff, inductionHypothesis, Bool.not_eq_true',
      ← isSome_attributeAt first value rest, Option.isSome_eq_false_iff, Option.isNone_iff_eq_none]
    constructor
    · rintro ⟨here, later⟩ back suffix present
      rcases List.suffix_cons_iff.mp suffix with rfl | shorter
      · exact here
      · exact later back shorter present
    · intro every
      exact ⟨every _ List.suffix_rfl (List.cons_ne_nil _ _), fun back suffix =>
        every back (suffix.trans (List.suffix_cons first value))⟩

/-- In a quiet value nothing is found. -/
theorem readAttributes_quiet {value : List Char} (quiet : isQuiet words value = true)
    (rest : List Char) :
    readAttributes words (value ++ '"' :: rest) = readAttributes words rest := by
  have missing : ∀ back, back <:+ value → back ≠ [] →
    attributeAt words (back ++ '"' :: rest) = none := isQuiet_iff.mp quiet
  clear quiet
  induction value with
  | nil =>
    exact Matches.find_of_none
      (attributeAt_of_not_isWord (isWord_eq_false (by decide) (by decide)) rest)
  | cons first value inductionHypothesis =>
    refine (Matches.find_of_none (missing _ List.suffix_rfl (List.cons_ne_nil _ _))).trans ?_
    exact inductionHypothesis fun back suffix =>
      missing back (suffix.trans (List.suffix_cons first value))

/-- What is found of a written attribute whose name has no equals sign. -/
theorem readAttributes_value {name value : List Char} (noEquals : '=' ∉ name)
    (markless : '"' ∉ value) (quiet : keyIn words name = none → isQuiet words value = true)
    (rest : List Char) :
    readAttributes words (name ++ '=' :: '"' :: (value ++ '"' :: rest)) =
      ((keyIn words name).map fun key => (lowercase key, value)).toList ++
        readAttributes words rest := by
  induction name with
  | nil =>
    have equals : words.isWord '=' = false := isWord_eq_false (by decide) (by decide)
    have mark : words.isWord '"' = false := isWord_eq_false (by decide) (by decide)
    exact (Matches.find_of_none (attributeAt_of_not_isWord equals _)).trans
      ((Matches.find_of_none (attributeAt_of_not_isWord mark _)).trans
        (readAttributes_quiet (quiet rfl) rest))
  | cons first name inductionHypothesis =>
    have later : '=' ∉ name := fun member => noEquals (.tail _ member)
    cases key : words.isWord first && name.all (isKeyChar words) with
    | true =>
      obtain ⟨isWord, keyChars⟩ := Bool.and_eq_true_iff.mp key
      rw [keyIn, if_pos key]
      have text : first :: (name ++ '=' :: '"' :: (value ++ '"' :: rest)) =
          first :: (name ++ '=' :: '"' :: (value ++ ['"'])) ++ rest := by
        simp only [List.cons_append, List.append_assoc, List.nil_append]
      have lengths : (first :: (name ++ '=' :: '"' :: (value ++ ['"']))).length =
          name.length + value.length + 4 := by
        simp only [List.length_cons, List.length_append, List.length_nil]
        omega
      have found := attributeAt_key isWord keyChars markless rest
      rw [text, ← lengths] at found
      rw [List.cons_append, text]
      exact Matches.find_of_some (List.cons_ne_nil _ _) found
    | false =>
      have skipped : keyIn words (first :: name) = keyIn words name := by
        rw [keyIn, key]
        rfl
      rw [skipped] at quiet ⊢
      have missing := attributeAt_of_not_key key later ('"' :: (value ++ '"' :: rest))
      exact (Matches.find_of_none missing).trans (inductionHypothesis later quiet)

/-- What is found of an attribute, and then of the rest. -/
theorem readAttributes_writeAttribute {brackets : Bool} {entry : List Char × List Char}
    (named : Markup.IsName entry.1) (searchable : Searchable words brackets entry)
    (rest : List Char) :
    readAttributes words (Markup.writeAttribute (escaped brackets) entry ++ rest) =
      (readEntry words brackets entry).toList ++ readAttributes words rest := by
  obtain ⟨name, value⟩ := entry
  have quiet : keyIn words name = none → isQuiet words (escaped brackets value) = true :=
    searchable
  have text : Markup.writeAttribute (escaped brackets) (name, value) ++ rest =
      ' ' :: (name ++ '=' :: '"' :: (escaped brackets value ++ '"' :: rest)) := by
    simp only [Markup.writeAttribute, List.cons_append, List.append_assoc, List.nil_append]
  have space : words.isWord ' ' = false := isWord_eq_false (by decide) (by decide)
  rw [text]
  refine (Matches.find_of_none (attributeAt_of_not_isWord space _)).trans ?_
  cases name with
  | nil => exact absurd named id
  | cons first tail =>
    have tailChars : '=' ∉ tail := fun member =>
      (Markup.isNameChar_iff.mp (named.2 '=' member)).2.2.2.1 rfl
    by_cases equals : first = '='
    · -- An equals sign at the front belongs to no key.
      subst equals
      have notWord : words.isWord '=' = false := isWord_eq_false (by decide) (by decide)
      have skipped : keyIn words ('=' :: tail) = keyIn words tail := by
        rw [keyIn, notWord]
        rfl
      rw [skipped] at quiet
      rw [readEntry, skipped]
      exact (Matches.find_of_none (attributeAt_of_not_isWord notWord _)).trans
        (readAttributes_value tailChars (quote_notMem_escaped brackets value) quiet rest)
    · have noEquals : '=' ∉ first :: tail := fun member =>
        (List.mem_cons.mp member).elim (fun same => equals same.symm) tailChars
      exact readAttributes_value noEquals (quote_notMem_escaped brackets value) quiet rest

/-- What is found of the attributes of an element. -/
theorem readAttributes_attributes {brackets : Bool} {attributes : List (List Char × List Char)}
    (named : ∀ entry ∈ attributes, Markup.IsName entry.1)
    (searchable : ∀ entry ∈ attributes, Searchable words brackets entry) :
    readAttributes words (attributes.flatMap (Markup.writeAttribute (escaped brackets))) =
      attributes.filterMap (readEntry words brackets) := by
  induction attributes with
  | nil => rfl
  | cons entry attributes inductionHypothesis =>
    have rest := inductionHypothesis (fun other member => named other (.tail _ member))
      fun other member => searchable other (.tail _ member)
    rw [List.flatMap_cons, readAttributes_writeAttribute (named entry List.mem_cons_self)
      (searchable entry List.mem_cons_self), rest, List.filterMap_cons]
    cases readEntry words brackets entry <;> rfl

end Search

/-! ### The search for tags -/

/-- No value of an attribute is written with a closing bracket. -/
def Closed (brackets : Bool) (element : Element) : Prop :=
  ∀ entry ∈ element.attributes, '>' ∉ escaped brackets entry.2

/-- A serialiser that escapes brackets writes none in a value. -/
theorem closed_of_brackets (element : Element) : Closed true element := fun entry _ =>
  Markup.notMem_escape (List.mem_append_right _ (by decide)) (by decide) (by decide) entry.2

/-- The attributes of an element as they are written. -/
def Element.attrStr (brackets : Bool) (element : Element) : List Char :=
  element.attributes.flatMap (Markup.writeAttribute (escaped brackets))

theorem Element.write_eq (brackets : Bool) (element : Element) :
    element.write brackets = '<' :: (element.kind.name ++ (element.attrStr brackets ++ ['>'])) :=
  rfl

/-- The attributes are set off from the name of the tag. -/
theorem eq_space_of_attrStr {brackets : Bool} {element : Element} {space : Char}
    {attrStr : List Char} (written : element.attrStr brackets = space :: attrStr) :
    ' ' = space := by
  cases attributes : element.attributes with
  | nil =>
    rw [Element.attrStr, attributes] at written
    cases written
  | cons entry rest =>
    rw [Element.attrStr, attributes, List.flatMap_cons] at written
    exact (List.cons.inj written).1

theorem notMem_attrStr {brackets : Bool} {element : Element} (closed : Closed brackets element) :
    '>' ∉ element.attrStr brackets := by
  intro inside
  obtain ⟨entry, member, written⟩ := List.mem_flatMap.mp inside
  have name : '>' ∉ entry.1 := by
    have named := element.named entry member
    cases text : entry.1 with
    | nil => exact List.not_mem_nil
    | cons first rest =>
      rw [text] at named
      have notEnd : ∀ char, Markup.isNameChar char = true → '>' ≠ char :=
        fun char valid same => (Markup.isNameChar_iff.mp valid).2.2.1 same.symm
      intro found
      rcases List.mem_cons.mp found with same | later
      · rcases named.1 with equals | valid
        · rw [equals] at same
          exact absurd same (by decide)
        · exact notEnd first valid same
      · exact notEnd _ (named.2 _ later) rfl
  have value := closed entry member
  simp only [Markup.writeAttribute, List.mem_cons, List.mem_append, List.not_mem_nil] at written
  rcases written with space | found | equals | mark | found | mark | absent
  · exact absurd space (by decide)
  · exact name found
  · exact absurd equals (by decide)
  · exact absurd mark (by decide)
  · exact value found
  · exact absurd mark (by decide)
  · exact absent

section Tags

theorem length_name (kind : TagKind) : kind.name.length = 4 := by cases kind <;> rfl

theorem kindAt_name (kind : TagKind) (rest : List Char) :
    kindAt (kind.name ++ rest) = some kind := by
  rw [kindAt, List.take_left' (length_name kind)]
  cases kind <;> decide

theorem drop_name (kind : TagKind) (rest : List Char) : (kind.name ++ rest).drop 4 = rest :=
  List.drop_left' (length_name kind)

/-- A tag with attributes is found with their text. -/
theorem tagAt_attributes (kind : TagKind) {attrStr : List Char} (closed : '>' ∉ attrStr)
    (rest : List Char) :
    tagAt ('<' :: (kind.name ++ ' ' :: (attrStr ++ '>' :: rest))) =
      some ((kind, attrStr), attrStr.length + 7) := by
  have shorter : attrStr.length < (attrStr ++ '>' :: rest).length := by
    rw [List.length_append]
    exact Nat.lt_add_of_pos_right (Nat.succ_pos _)
  rw [tagAt, if_pos rfl, kindAt_name, drop_name]
  dsimp only
  rw [takeWhile_bne closed]
  exact if_pos ⟨by decide, shorter⟩

theorem find_tagAt_attributes (kind : TagKind) {attrStr : List Char} (closed : '>' ∉ attrStr)
    (rest : List Char) :
    Matches.find tagAt ('<' :: (kind.name ++ ' ' :: (attrStr ++ '>' :: rest))) =
      (kind, attrStr) :: Matches.find tagAt rest := by
  have text : '<' :: (kind.name ++ ' ' :: (attrStr ++ '>' :: rest)) =
      '<' :: (kind.name ++ ' ' :: (attrStr ++ ['>'])) ++ rest := by
    simp only [List.cons_append, List.append_assoc, List.nil_append]
  have lengths : ('<' :: (kind.name ++ ' ' :: (attrStr ++ ['>']))).length =
      attrStr.length + 7 := by
    simp only [List.length_cons, List.length_append, List.length_nil, length_name]
    omega
  have found := tagAt_attributes kind closed rest
  rw [text, ← lengths] at found
  rw [text]
  exact Matches.find_of_some (List.cons_ne_nil _ _) found

/-- A tag without attributes is not found. -/
theorem tagAt_bare (kind : TagKind) (rest : List Char) :
    tagAt ('<' :: (kind.name ++ '>' :: rest)) = none := by
  rw [tagAt, if_pos rfl, kindAt_name, drop_name]
  exact if_neg fun both => absurd both.1 (by decide)

theorem tagAt_of_ne {first : Char} (other : first ≠ '<') (text : List Char) :
    tagAt (first :: text) = none := by
  rw [tagAt, if_neg other]

theorem find_tagAt_bare (kind : TagKind) (rest : List Char) :
    Matches.find tagAt ('<' :: (kind.name ++ '>' :: rest)) = Matches.find tagAt rest := by
  have bracketless : '<' ∉ kind.name ++ ['>'] := by cases kind <;> decide
  have passed := Matches.find_append_of_none
    (fun char member text => tagAt_of_ne (fun same => bracketless (same ▸ member)) text) rest
  rw [List.append_assoc] at passed
  exact (Matches.find_of_none (tagAt_bare kind rest)).trans passed

/-- What is mirrored of an element. -/
def Element.mirror (words : WordClass) (brackets : Bool) (element : Element) : Option HtmlTag :=
  safeTag element.kind (element.found words brackets)

/-- What is mirrored of the tags in a text. -/
def mirrored (words : WordClass) (text : List Char) : List HtmlTag :=
  (Matches.find tagAt text).filterMap fun found => safeTag found.1 (readAttributes words found.2)

variable {words}

/-- What is mirrored of a text that begins with an element. -/
theorem mirrored_write {brackets : Bool} {element : Element}
    (searchable : ∀ entry ∈ element.attributes, Searchable words brackets entry)
    (closed : Closed brackets element) (rest : List Char) :
    mirrored words (element.write brackets ++ rest) =
      (element.mirror words brackets).toList ++ mirrored words rest := by
  have noBracket := notMem_attrStr closed
  have safe : safeTag element.kind (readAttributes words (element.attrStr brackets)) =
      element.mirror words brackets :=
    congrArg (safeTag element.kind) (readAttributes_attributes element.named searchable)
  cases attributes : element.attrStr brackets with
  | nil =>
    -- A tag without whitespace after its name is passed over.
    have nothing : element.mirror words brackets = none := by
      have unread : readAttributes words [] = [] := Matches.find_nil
      rw [attributes, unread] at safe
      rw [← safe]
      cases element.kind <;> decide
    have text : element.write brackets ++ rest =
        '<' :: (element.kind.name ++ '>' :: rest) := by
      rw [element.write_eq, attributes]
      simp only [List.cons_append, List.append_assoc, List.nil_append]
    rw [nothing, text, mirrored, find_tagAt_bare]
    rfl
  | cons space attrStr =>
    obtain rfl := eq_space_of_attrStr attributes
    rw [attributes] at noBracket safe
    have text : element.write brackets ++ rest =
        '<' :: (element.kind.name ++ ' ' :: (attrStr ++ '>' :: rest)) := by
      rw [element.write_eq, attributes]
      simp only [List.cons_append, List.append_assoc, List.nil_append]
    have skipped : readAttributes words (' ' :: attrStr) = readAttributes words attrStr :=
      Matches.find_of_none
        (attributeAt_of_not_isWord (isWord_eq_false (by decide) (by decide)) attrStr)
    rw [skipped] at safe
    rw [text, mirrored, find_tagAt_attributes element.kind fun inside => noBracket (.tail _ inside),
      List.filterMap_cons, safe, mirrored]
    cases element.mirror words brackets <;> rfl

/-- What is mirrored of a text that consists of elements. -/
theorem mirrored_elements {brackets : Bool} {elements : List Element}
    (searchable : ∀ element ∈ elements, ∀ entry ∈ element.attributes,
      Searchable words brackets entry)
    (closed : ∀ element ∈ elements, Closed brackets element) :
    mirrored words (elements.flatMap (Element.write brackets)) =
      elements.filterMap (Element.mirror words brackets) := by
  induction elements with
  | nil => rfl
  | cons element elements inductionHypothesis =>
    have rest := inductionHypothesis (fun other member => searchable other (.tail _ member))
      fun other member => closed other (.tail _ member)
    rw [List.flatMap_cons, mirrored_write (searchable element List.mem_cons_self)
      (closed element List.mem_cons_self), rest, List.filterMap_cons]
    cases element.mirror words brackets <;> rfl

end Tags

/-! ### What is mirrored of an element -/

/-- The attributes of an element that are on the list. -/
def Element.listed (element : Element) : List (List Char × List Char) :=
  element.attributes.filter fun entry => safeAttributes.contains entry.1

theorem nodup_listed (element : Element) :
    (element.listed.map Prod.fst).Nodup :=
  (List.filter_sublist.map Prod.fst).nodup element.distinct

/-- What the names on the list are made of. -/
theorem safeAttributes_spec {name : List Char} (safe : name ∈ safeAttributes) :
    isAttrName name = true ∧ name.head? ≠ some '-' ∧ lowercase name = name ∧
      name.all Markup.isNameChar = true := by
  revert name
  decide

theorem isName_of_safe {name : List Char} (safe : name ∈ safeAttributes) :
    Markup.IsName name := by
  obtain ⟨valid, -, -, made⟩ := safeAttributes_spec safe
  have chars := List.all_eq_true.mp made
  cases name with
  | nil => cases valid
  | cons first rest =>
    exact ⟨.inr (chars first List.mem_cons_self), fun char member => chars char (.tail _ member)⟩

/-- The keys that decide about a tag are on the list. -/
theorem mem_safeAttributes_of_asked {key : List Char} :
    (isMetaNameKey key = true → key ∈ safeAttributes) ∧
      (isRelKey key = true → key ∈ safeAttributes) := by
  constructor
  · intro asked
    rcases Bool.or_eq_true_iff.mp asked with same | same
    · rw [beq_iff_eq.mp same]
      decide
    · rw [beq_iff_eq.mp same]
      decide
  · intro asked
    rw [beq_iff_eq.mp asked]
    decide

theorem isSafeKey_eq (kind : TagKind) (key : List Char) :
    isSafeKey kind key = safeAttributes.contains key := by
  cases kind with
  | metaTag => rfl
  | linkTag =>
    rw [isSafeKey, Bool.or_assoc, Bool.or_eq_left_iff_imp]
    intro same
    rcases Bool.or_eq_true_iff.mp same with href | rel
    · rw [beq_iff_eq.mp href]
      decide
    · rw [beq_iff_eq.mp rel]
      decide

theorem exists_of_firstValue {asked : List Char → Bool}
    {attributes : List (List Char × List Char)} (found : firstValue asked attributes ≠ []) :
    ∃ entry ∈ attributes, asked entry.1 = true := by
  cases first : attributes.find? fun attr => asked attr.1 with
  | none =>
    rw [firstValue, first] at found
    exact absurd rfl found
  | some entry =>
    exact ⟨entry, List.mem_of_find?_eq_some first,
      List.find?_some (p := fun attr : List Char × List Char => asked attr.1) first⟩

/-- A tag that is mirrored has an attribute that is kept. -/
theorem exists_safe_of_isSafeTag {kind : TagKind} {attributes : List (List Char × List Char)}
    (safe : isSafeTag kind attributes = true) :
    ∃ entry ∈ attributes, entry.1 ∈ safeAttributes := by
  cases kind with
  | metaTag =>
    have found : firstValue isMetaNameKey attributes ≠ [] := by
      intro empty
      rw [isSafeTag, empty] at safe
      cases safe
    obtain ⟨entry, member, asked⟩ := exists_of_firstValue found
    exact ⟨entry, member, mem_safeAttributes_of_asked.1 asked⟩
  | linkTag =>
    have found : firstValue isRelKey attributes ≠ [] := by
      intro empty
      rw [isSafeTag, empty] at safe
      exact absurd safe (by decide)
    obtain ⟨entry, member, asked⟩ := exists_of_firstValue found
    exact ⟨entry, member, mem_safeAttributes_of_asked.2 asked⟩

/-- What is mirrored of an element: what is found of the attributes on the list. -/
theorem mirror_eq (words : WordClass) (brackets : Bool) (element : Element) :
    element.mirror words brackets =
      if isSafeTag element.kind (element.found words brackets) then
        some ⟨element.kind, (element.found words brackets).filter fun attr =>
          safeAttributes.contains attr.1⟩
      else none := by
  rw [Element.mirror, safeTag]
  cases safe : isSafeTag element.kind (element.found words brackets) with
  | false => rfl
  | true =>
    obtain ⟨entry, member, listed⟩ := exists_safe_of_isSafeTag safe
    have present : entry ∈ (element.found words brackets).filter fun attr =>
        safeAttributes.contains attr.1 :=
      List.mem_filter.mpr ⟨member, List.contains_iff_mem.mpr listed⟩
    have keys : (fun attr : List Char × List Char => isSafeKey element.kind attr.1) =
        fun attr => safeAttributes.contains attr.1 :=
      funext fun attr => isSafeKey_eq element.kind attr.1
    rw [if_pos rfl, if_pos rfl, keys]
    refine if_neg fun empty => ?_
    rw [List.isEmpty_iff.mp empty] at present
    exact absurd present List.not_mem_nil

end TagFetcher

end Bagel
