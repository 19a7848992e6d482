/-
This file settles when the tags of a head with ordinary names keep their meaning.

A name of letters, digits, dashes and underscores is the key that is found in it. When all names
are like that, or at least not taken for one on the list that they are not, the attributes on the
list are found with their values as they were written, and tags are accepted for what they are:
no name on the lists has a character that is escaped. What is left is whether the values are
those of the origin's page. They are when a serialiser has nothing to escape in them.
-/

import Bagel.MirroredTags

namespace Bagel

namespace TagFetcher

/-! ### Legible attributes -/

/-- An attribute is not mistaken for another one that is on the list. -/
structure Legible (words : WordClass) (brackets : Bool) (entry : List Char × List Char) :
    Prop where
  key : ∀ key, keyIn words entry.1 = some key →
    lowercase key ∈ safeAttributes → lowercase key = entry.1
  searchable : Searchable words brackets entry

variable {words : WordClass}

theorem toNat_lt_of_isAlphanum {char : Char} (letter : char.isAlphanum = true) :
    char.toNat < 128 := by
  have codes : (char.isUpper = true ∨ char.isLower = true) ∨ char.isDigit = true := by
    rw [← Bool.or_eq_true_iff, ← Bool.or_eq_true_iff]
    exact letter
  rcases codes with (upper | lower) | digit
  · exact Nat.lt_of_le_of_lt (of_decide_eq_true upper).2 (by decide)
  · exact Nat.lt_of_le_of_lt (of_decide_eq_true (Bool.and_eq_true_iff.mp lower).2) (by decide)
  · exact Nat.lt_of_le_of_lt (of_decide_eq_true (Bool.and_eq_true_iff.mp digit).2) (by decide)

/-- The characters that the template lets into a name belong to keys. -/
theorem isWord_of_attrChar {char : Char}
    (valid : (char.isAlphanum || char == '-' || char == '_') = true) :
    words.isWord char = true ∨ char = '-' := by
  rcases Bool.or_eq_true_iff.mp valid with either | underscore
  · rcases Bool.or_eq_true_iff.mp either with letter | dash
    · refine .inl ?_
      rw [words.ascii char (toNat_lt_of_isAlphanum letter), letter]
      rfl
    · exact .inr (beq_iff_eq.mp dash)
  · refine .inl ?_
    rw [beq_iff_eq.mp underscore]
    exact words.ascii '_' (by decide)

/-- A name that the template lets pass is a key itself, unless a dash comes first. -/
theorem keyIn_of_isAttrName {name : List Char} (valid : isAttrName name = true)
    (start : name.head? ≠ some '-') : keyIn words name = some name := by
  obtain ⟨present, made⟩ := Bool.and_eq_true_iff.mp valid
  have chars := List.all_eq_true.mp made
  cases name with
  | nil => cases present
  | cons first rest =>
    have isWord : words.isWord first = true :=
      (isWord_of_attrChar (chars first List.mem_cons_self)).resolve_right
        fun dash => start (congrArg some dash)
    have key : rest.all (isKeyChar words) = true := by
      refine List.all_eq_true.mpr fun char member => ?_
      rw [isKeyChar, Bool.or_eq_true_iff, beq_iff_eq]
      exact isWord_of_attrChar (chars char (.tail _ member))
    rw [keyIn, isWord, key]
    rfl

/-- An attribute with such a name in lower case is legible, whatever its value. -/
theorem legible_of_isAttrName {entry : List Char × List Char}
    (valid : isAttrName entry.1 = true) (start : entry.1.head? ≠ some '-')
    (lower : lowercase entry.1 = entry.1) (brackets : Bool) : Legible words brackets entry where
  key := fun key found _ => by
    rw [keyIn_of_isAttrName valid start] at found
    rw [← Option.some.inj found]
    exact lower
  searchable := fun absent => by
    rw [keyIn_of_isAttrName valid start] at absent
    cases absent

theorem keyIn_of_safe {name : List Char} (safe : name ∈ safeAttributes) :
    keyIn words name = some name :=
  keyIn_of_isAttrName (safeAttributes_spec safe).1 (safeAttributes_spec safe).2.1

theorem readEntry_of_safe {entry : List Char × List Char} (safe : entry.1 ∈ safeAttributes)
    (brackets : Bool) :
    readEntry words brackets entry = some (entry.1, escaped brackets entry.2) := by
  rw [readEntry, keyIn_of_safe safe, Option.map_some, (safeAttributes_spec safe).2.2.1]

/-- What is found of other attributes is not on the list either. -/
theorem notMem_of_readEntry {brackets : Bool} {entry found : List Char × List Char}
    (legible : Legible words brackets entry) (other : entry.1 ∉ safeAttributes)
    (read : readEntry words brackets entry = some found) : found.1 ∉ safeAttributes := by
  obtain ⟨key, named, rfl⟩ := Option.map_eq_some_iff.mp read
  intro listed
  dsimp only at listed
  rw [legible.key key named listed] at listed
  exact other listed

/-! ### Tags that are accepted -/

/-- The names on the lists have no characters that are escaped. -/
theorem plain_safeNames (brackets : Bool) :
    ∀ name ∈ safeMetaPrefixes ++ (safeMetaNames ++ safeLinkRels),
      ∀ char ∈ name, char ∉ specials brackets := by
  have every : ∀ name ∈ safeMetaPrefixes ++ (safeMetaNames ++ safeLinkRels),
      name.all (fun char => !(specials true).contains char) = true := by decide +kernel
  intro name listed char member special
  have absent := List.all_eq_true.mp (every name listed) char member
  have present : (specials true).contains char = true := by
    rw [List.contains_iff_mem]
    cases brackets with
    | true => exact special
    | false => exact List.mem_append_left _ special
  rw [present] at absent
  cases absent

theorem amp_mem_specials (brackets : Bool) : '&' ∈ specials brackets :=
  List.mem_append_left _ (by decide)

/-- Escaping makes no difference to whether a text is one of some plain ones. -/
theorem contains_escaped {brackets : Bool} {names : List (List Char)}
    (plain : ∀ name ∈ names, ∀ char ∈ name, char ∉ specials brackets) (text : List Char) :
    names.contains (escaped brackets text) = names.contains text := by
  have same : ∀ name ∈ names, escaped brackets text = name ↔ text = name := fun name listed =>
    Markup.escape_eq_iff (amp_mem_specials brackets) (plain name listed) text
  rw [Bool.eq_iff_iff, List.contains_iff_mem, List.contains_iff_mem]
  constructor
  · intro listed
    rw [(same _ listed).mp rfl]
    exact listed
  · intro listed
    rw [(same _ listed).mpr rfl]
    exact listed

/-- Escaping makes no difference to the name of a meta tag that is mirrored. -/
theorem isSafeMetaName_escaped (brackets : Bool) (name : List Char) :
    isSafeMetaName (escaped brackets name) = isSafeMetaName name := by
  have plain := plain_safeNames brackets
  have empty : (escaped brackets name).isEmpty = name.isEmpty := by
    rw [Bool.eq_iff_iff, List.isEmpty_iff, List.isEmpty_iff]
    exact Markup.escape_eq_iff (amp_mem_specials brackets) (fun _ member => absurd member
      List.not_mem_nil) name
  have starts : safeMetaPrefixes.any (fun start => start.isPrefixOf (escaped brackets name)) =
      safeMetaPrefixes.any fun start => start.isPrefixOf name := by
    rw [Bool.eq_iff_iff, List.any_eq_true, List.any_eq_true]
    refine exists_congr fun start => and_congr_right fun listed => ?_
    rw [List.isPrefixOf_iff_prefix, List.isPrefixOf_iff_prefix]
    exact Markup.isPrefix_escape_iff (amp_mem_specials brackets)
      (plain start (List.mem_append_left _ listed)) name
  have names : safeMetaNames.contains (escaped brackets name) = safeMetaNames.contains name :=
    contains_escaped (fun other listed =>
      plain other (List.mem_append_right _ (List.mem_append_left _ listed))) name
  rw [isSafeMetaName, isSafeMetaName, empty, starts, names]

theorem safeLinkRels_escaped (brackets : Bool) (rel : List Char) :
    safeLinkRels.contains (escaped brackets rel) = safeLinkRels.contains rel :=
  contains_escaped (fun name listed =>
    plain_safeNames brackets name (List.mem_append_right _ (List.mem_append_right _ listed))) rel

theorem firstValue_cons (asked : List Char → Bool) (attr : List Char × List Char)
    (attributes : List (List Char × List Char)) :
    firstValue asked (attr :: attributes) =
      if asked attr.1 then attr.2 else firstValue asked attributes := by
  rw [firstValue, List.find?_cons]
  cases asked attr.1 <;> rfl

/-- The value that decides about a tag is found as it was written. -/
theorem firstValue_readEntry {brackets : Bool} {asked : List Char → Bool}
    (safeAsked : ∀ key, asked key = true → key ∈ safeAttributes)
    {attributes : List (List Char × List Char)}
    (legible : ∀ entry ∈ attributes, Legible words brackets entry) :
    firstValue asked (attributes.filterMap (readEntry words brackets)) =
      escaped brackets (firstValue asked attributes) := by
  induction attributes with
  | nil => rfl
  | cons entry attributes inductionHypothesis =>
    have rest := inductionHypothesis fun other member => legible other (.tail _ member)
    rw [List.filterMap_cons, firstValue_cons]
    by_cases safe : entry.1 ∈ safeAttributes
    · rw [readEntry_of_safe safe]
      refine (firstValue_cons asked _ _).trans ?_
      rw [rest]
      cases asked entry.1 <;> rfl
    · have notAsked : asked entry.1 ≠ true := fun same => safe (safeAsked _ same)
      rw [if_neg notAsked, ← rest]
      cases read : readEntry words brackets entry with
      | none => rfl
      | some found =>
        have other := notMem_of_readEntry (legible entry List.mem_cons_self) safe read
        refine (firstValue_cons asked _ _).trans (if_neg fun same => ?_)
        exact other (safeAsked _ same)

/-- Tags are accepted by what they are on the page. -/
theorem isSafeTag_readEntry {brackets : Bool} {attributes : List (List Char × List Char)}
    (legible : ∀ entry ∈ attributes, Legible words brackets entry) (kind : TagKind) :
    isSafeTag kind (attributes.filterMap (readEntry words brackets)) =
      isSafeTag kind attributes := by
  cases kind with
  | metaTag =>
    rw [isSafeTag, isSafeTag,
      firstValue_readEntry (fun _ asked => mem_safeAttributes_of_asked.1 asked) legible]
    exact isSafeMetaName_escaped brackets _
  | linkTag =>
    rw [isSafeTag, isSafeTag,
      firstValue_readEntry (fun _ asked => mem_safeAttributes_of_asked.2 asked) legible]
    exact safeLinkRels_escaped brackets _

/-! ### Values that are kept -/

/-- What is kept of the attributes that are found. -/
theorem filter_readEntry {brackets : Bool} {attributes : List (List Char × List Char)}
    (legible : ∀ entry ∈ attributes, Legible words brackets entry) :
    (attributes.filterMap (readEntry words brackets)).filter
        (fun attr => safeAttributes.contains attr.1) =
      (attributes.filter fun entry => safeAttributes.contains entry.1).map fun entry =>
        (entry.1, escaped brackets entry.2) := by
  induction attributes with
  | nil => rfl
  | cons entry attributes inductionHypothesis =>
    have rest := inductionHypothesis fun other member => legible other (.tail _ member)
    rw [List.filterMap_cons, List.filter_cons]
    by_cases safe : entry.1 ∈ safeAttributes
    · have listed : safeAttributes.contains entry.1 = true := List.contains_iff_mem.mpr safe
      rw [readEntry_of_safe safe, if_pos listed, List.map_cons, ← rest]
      exact List.filter_cons_of_pos listed
    · have unlisted : ¬ safeAttributes.contains entry.1 = true :=
        fun listed => safe (List.contains_iff_mem.mp listed)
      rw [if_neg unlisted, ← rest]
      cases read : readEntry words brackets entry with
      | none => rfl
      | some found =>
        have other := notMem_of_readEntry (legible entry List.mem_cons_self) safe read
        exact List.filter_cons_of_neg fun listed => other (List.contains_iff_mem.mp listed)

/-- The mirrored attributes of an element have no characters that are escaped. -/
def Plain (brackets : Bool) (element : Element) : Prop :=
  ∀ entry ∈ element.listed, ∀ char ∈ entry.2, char ∉ specials brackets

theorem escaped_eq_self_iff {brackets : Bool} {value : List Char} :
    escaped brackets value = value ↔ ∀ char ∈ value, char ∉ specials brackets := by
  have named : ∀ char ∈ specials brackets,
      (Markup.referenceNames.lookup char).isSome = true := by
    refine List.all_eq_true.mp ?_
    cases brackets <;> decide
  refine Markup.escape_eq_self_iff.trans (forall₂_congr fun char _ => ?_)
  exact ⟨fun plain special => Markup.escapeChar_ne_self special (named char special) plain,
    Markup.escapeChar_of_notMem⟩

/-- Legible attributes are faithful when nothing in them was escaped. -/
theorem faithful_iff_plain {brackets : Bool} {element : Element}
    (legible : ∀ entry ∈ element.attributes, Legible words brackets entry) :
    Faithful words brackets element ↔ Plain brackets element := by
  have attributes : (element.challengeTag words brackets).attributes =
      collectAttrs (element.listed.map fun entry => (entry.1, escaped brackets entry.2)) :=
    congrArg collectAttrs (filter_readEntry legible)
  have distinct : ((element.listed.map fun entry => (entry.1, escaped brackets entry.2)).map
      Prod.fst).Nodup := by
    rw [List.map_map]
    exact nodup_listed element
  rw [← challengeTag_perm_iff, attributes]
  refine ((Sorted.collect_perm distinct).congr_left _).trans ?_
  constructor
  · intro perm entry member
    have written : (entry.1, escaped brackets entry.2) ∈ element.listed :=
      perm.subset (List.mem_map.mpr ⟨entry, member, rfl⟩)
    have equal := List.inj_on_of_nodup_map (nodup_listed element) written member rfl
    exact escaped_eq_self_iff.mp (congrArg Prod.snd equal)
  · intro plain
    have unchanged : (element.listed.map fun entry => (entry.1, escaped brackets entry.2)) =
        element.listed := by
      refine (List.map_congr_left fun entry member => ?_).trans (List.map_id _)
      rw [escaped_eq_self_iff.mpr (plain entry member)]
      rfl
    exact (congrArg (List.Perm · element.listed) unchanged).mpr (List.Perm.refl _)

/-- When the names of a head are legible and no value is written with a closing bracket, the tags
keep their meaning exactly if nothing in the mirrored values had to be escaped. -/
theorem mirrored_iff_plain (references : Markup.References) {page : Page}
    (legible : ∀ element ∈ page.elements, ∀ entry ∈ element.attributes,
      Legible words page.brackets entry)
    (closed : ∀ element ∈ page.elements, Closed page.brackets element) :
    Mirrored references words page ↔ ∀ element ∈ page.elements,
      isSafeTag element.kind element.attributes = true → Plain page.brackets element := by
  rw [mirrored_iff_perm references
    (fun element member entry listed => (legible element member entry listed).searchable) closed]
  refine forall₂_congr fun element member => ?_
  rw [challengeTag_perm_iff, faithful_iff_plain (legible element member), Element.found,
    isSafeTag_readEntry (legible element member)]

end TagFetcher

end Bagel
