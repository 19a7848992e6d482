/-
This file settles when the tags on the challenge page mean what they mean on the origin's page.

The search for attributes takes values as they are written, references and all, and the template
escapes them once more. A browser decodes them once only, and sees on the challenge page what it
would see in the source of the origin's page. So a tag has its attributes again exactly if what is
found of them is right as it is written.

The head is found by its tags, which do not occur in it as long as no value is written with a
closing bracket. What the searches find in it is in `SerialisedTags`. Here follow the head, the
template, whose tags a browser reads back, and the comparison.
-/

import Bagel.SerialisedTags

namespace Bagel

namespace TagFetcher

/-! ### The head of a page -/

/-- A page whose head consists of elements, with the text before and after the head and the
attributes of the head itself. -/
structure Page where
  brackets : Bool
  before : List Char
  unopened : splitIgnoreCase headOpen before = none
  opening : List Char
  unclosed : '>' ∉ opening
  elements : List Element
  after : List Char

/-- The head as it is serialised. -/
def Page.head (page : Page) : List Char := page.elements.flatMap (Element.write page.brackets)

def Page.text (page : Page) : List Char :=
  page.before ++ (headOpen ++ (page.opening ++ '>' :: (page.head ++ (headClose ++ page.after))))

section Search

variable {needle front rest : List Char}

/-- Text in which an occurrence begins nowhere is passed over. -/
theorem splitIgnoreCase_append
    (absent : ∀ back, back <:+ front → back ≠ [] →
      startsWithIgnoreCase needle (back ++ rest) = false) :
    splitIgnoreCase needle (front ++ rest) =
      (splitIgnoreCase needle rest).map fun found => (front ++ found.1, found.2) := by
  induction front with
  | nil => exact Option.map_id_apply.symm
  | cons first front inductionHypothesis =>
    have here := absent _ List.suffix_rfl (List.cons_ne_nil first front)
    have later := inductionHypothesis fun back suffix =>
      absent back (suffix.trans (List.suffix_cons first front))
    rw [List.cons_append] at here ⊢
    rw [splitIgnoreCase, here, if_neg Bool.false_ne_true, later, Option.map_map]
    rfl

theorem splitIgnoreCase_here {text : List Char} (here : startsWithIgnoreCase needle text = true)
    (present : text ≠ []) : splitIgnoreCase needle text = some ([], text) := by
  cases text with
  | nil => exact absurd rfl present
  | cons first text => rw [splitIgnoreCase, if_pos here]

/-- Where no occurrence is found, none begins. -/
theorem startsWithIgnoreCase_of_none (missing : splitIgnoreCase needle front = none)
    {back : List Char} (suffix : back <:+ front) (present : back ≠ []) :
    startsWithIgnoreCase needle back = false := by
  induction front with
  | nil => exact absurd (List.suffix_nil.mp suffix) present
  | cons first front inductionHypothesis =>
    cases here : startsWithIgnoreCase needle (first :: front) with
    | true =>
      rw [splitIgnoreCase, if_pos here] at missing
      cases missing
    | false =>
      rw [splitIgnoreCase, here, if_neg Bool.false_ne_true, Option.map_eq_none_iff] at missing
      rcases List.suffix_cons_iff.mp suffix with rfl | later
      · exact here
      · exact inductionHypothesis missing later

theorem startsWithIgnoreCase_cons (letter first : Char) (needle text : List Char) :
    startsWithIgnoreCase (letter :: needle) (first :: text) =
      (first.toLower == letter && startsWithIgnoreCase needle text) := rfl

/-- An occurrence that begins before a character it does not have ends there. -/
theorem startsWithIgnoreCase_append {stop : Char} (lower : stop.toLower = stop)
    (absent : stop ∉ needle) (front rest : List Char) :
    startsWithIgnoreCase needle (front ++ stop :: rest) = startsWithIgnoreCase needle front := by
  induction needle generalizing front with
  | nil => rfl
  | cons letter needle inductionHypothesis =>
    obtain ⟨other, later⟩ := not_or.mp fun either => absent (List.mem_cons.mpr either)
    cases front with
    | nil =>
      rw [List.nil_append, startsWithIgnoreCase_cons, lower, beq_false_of_ne other]
      rfl
    | cons first front =>
      rw [List.cons_append, startsWithIgnoreCase_cons, startsWithIgnoreCase_cons,
        inductionHypothesis later]

/-- No other character becomes a closing bracket in lower case. -/
theorem eq_bracket_of_toLower {char : Char} (same : char.toLower = '>') : char = '>' := by
  cases upper : char.isUpper with
  | false =>
    have unchanged : char.toLower = char := dif_neg (of_decide_eq_false upper)
    exact unchanged.symm.trans same
  | true =>
    have bounds := of_decide_eq_true upper
    have code : char.val + ('a'.val - 'A'.val) = '>'.val :=
      congrArg Char.val ((dif_pos bounds).symm.trans same)
    have value : char.val = '>'.val - ('a'.val - 'A'.val) := by
      rw [← code, UInt32.add_sub_cancel]
    rw [value] at bounds
    exact absurd bounds (by decide)

/-- An occurrence of a text with a closing bracket at its end ends at the first one. -/
theorem eq_of_startsWithIgnoreCase (absent : '>' ∉ needle) (without : '>' ∉ front)
    (starts : startsWithIgnoreCase (needle ++ ['>']) (front ++ '>' :: rest) = true) :
    front.map Char.toLower = needle := by
  induction needle generalizing front with
  | nil =>
    cases front with
    | nil => rfl
    | cons first front =>
      obtain ⟨same, -⟩ := Bool.and_eq_true_iff.mp starts
      exact absurd (eq_bracket_of_toLower (beq_iff_eq.mp same)) fun equal =>
        without (equal ▸ List.mem_cons_self)
  | cons letter needle inductionHypothesis =>
    obtain ⟨other, later⟩ := not_or.mp fun either => absent (List.mem_cons.mpr either)
    cases front with
    | nil =>
      obtain ⟨same, -⟩ := Bool.and_eq_true_iff.mp starts
      exact absurd (beq_iff_eq.mp same) other
    | cons first front =>
      obtain ⟨same, tail⟩ := Bool.and_eq_true_iff.mp starts
      rw [List.map_cons, beq_iff_eq.mp same,
        inductionHypothesis later (fun member => without (.tail _ member)) tail]

end Search

/-- No head begins in a text before one. -/
theorem startsWithIgnoreCase_headOpen (first : Char) (back rest : List Char) :
    startsWithIgnoreCase headOpen (first :: back ++ (headOpen ++ rest)) =
      startsWithIgnoreCase headOpen (first :: back) := by
  have later : startsWithIgnoreCase "head".toList (back ++ '<' :: ("head".toList ++ rest)) =
      startsWithIgnoreCase "head".toList back :=
    startsWithIgnoreCase_append rfl (by decide) back _
  exact congrArg ((first.toLower == '<') && ·) later

/-- How the text of an element ends. -/
theorem exists_last_write {brackets : Bool} {element : Element}
    (closed : Closed brackets element) :
    ∃ front last, element.write brackets = front ++ [last] ++ ['>'] ∧ '>' ∉ front ++ [last] ∧
      last.toLower ≠ 'd' := by
  have nameless : '>' ∉ '<' :: element.kind.name := by cases element.kind <;> decide
  have without : '>' ∉ '<' :: element.kind.name ++ element.attrStr brackets := fun inside =>
    (List.mem_append.mp inside).elim nameless (notMem_attrStr closed)
  have text : element.write brackets =
      '<' :: element.kind.name ++ element.attrStr brackets ++ ['>'] := by
    rw [element.write_eq, List.cons_append, List.cons_append, List.append_assoc]
  rcases List.eq_nil_or_concat element.attributes with none | ⟨entries, entry, some⟩
  · have bare : element.attrStr brackets = [] := by
      rw [Element.attrStr, none]
      rfl
    rw [bare, List.append_nil] at text without
    cases kind : element.kind with
    | metaTag =>
      rw [kind] at text without
      exact ⟨"<met".toList, 'a', text, without, by decide⟩
    | linkTag =>
      rw [kind] at text without
      exact ⟨"<lin".toList, 'k', text, without, by decide⟩
  · have quoted : element.attrStr brackets =
        entries.flatMap (Markup.writeAttribute (escaped brackets)) ++
          ' ' :: (entry.1 ++ '=' :: '"' :: escaped brackets entry.2) ++ ['"'] := by
      rw [Element.attrStr, some, List.concat_eq_append, List.flatMap_append,
        List.flatMap_singleton, List.append_assoc]
      refine congrArg _ ?_
      simp only [Markup.writeAttribute, List.cons_append, List.append_assoc]
    rw [quoted, ← List.append_assoc] at text without
    exact ⟨_, '"', text, without, by decide⟩

/-- The end of a head occurs nowhere in an element. -/
theorem startsWithIgnoreCase_headClose {brackets : Bool} {element : Element}
    (closed : Closed brackets element) {back : List Char}
    (suffix : back <:+ element.write brackets) (present : back ≠ []) (rest : List Char) :
    startsWithIgnoreCase headClose (back ++ rest) = false := by
  obtain ⟨front, last, text, without, other⟩ := exists_last_write closed
  rw [text, List.suffix_concat_iff] at suffix
  rcases suffix with empty | ⟨back, rfl, suffix⟩
  · exact absurd empty present
  · refine Bool.eq_false_iff.mpr fun starts => ?_
    rw [List.append_assoc] at starts
    have inside : '>' ∉ back := fun member => without (suffix.subset member)
    have same : back.map Char.toLower = "</head".toList :=
      eq_of_startsWithIgnoreCase (by decide) inside starts
    rw [List.suffix_concat_iff] at suffix
    rcases suffix with rfl | ⟨back, rfl, -⟩
    · cases same
    · rw [List.map_append] at same
      have ends : back.map Char.toLower ++ [last.toLower] = "</hea".toList ++ ['d'] := same
      exact other (List.cons.inj (List.append_inj' ends rfl).2).1

/-- The elements reach up to the end of the head. -/
theorem splitIgnoreCase_headClose {brackets : Bool} {elements : List Element}
    (closed : ∀ element ∈ elements, Closed brackets element) (after : List Char) :
    splitIgnoreCase headClose (elements.flatMap (Element.write brackets) ++ (headClose ++ after)) =
      some (elements.flatMap (Element.write brackets), headClose ++ after) := by
  induction elements with
  | nil => exact splitIgnoreCase_here rfl (List.cons_ne_nil _ _)
  | cons element elements inductionHypothesis =>
    rw [List.flatMap_cons, List.append_assoc, splitIgnoreCase_append fun back suffix present =>
        startsWithIgnoreCase_headClose (closed element List.mem_cons_self) suffix present _,
      inductionHypothesis fun other member => closed other (.tail _ member)]
    rfl

/-- The head of a page is found. -/
theorem extractHead_text {page : Page}
    (closed : ∀ element ∈ page.elements, Closed page.brackets element) :
    extractHead page.text = some page.head := by
  have here : ∀ rest, splitIgnoreCase headOpen (headOpen ++ rest) =
      some ([], headOpen ++ rest) := fun rest => splitIgnoreCase_here rfl (List.cons_ne_nil _ _)
  have found : splitIgnoreCase headOpen page.text = some (page.before,
      headOpen ++ (page.opening ++ '>' :: (page.head ++ (headClose ++ page.after)))) := by
    rw [Page.text, splitIgnoreCase_append]
    · rw [here, Option.map_some, List.append_nil]
    · intro back suffix present
      cases back with
      | nil => exact absurd rfl present
      | cons first back =>
        exact (startsWithIgnoreCase_headOpen first back _).trans
          (startsWithIgnoreCase_of_none page.unopened suffix present)
  have inside :
      (headOpen ++ (page.opening ++ '>' :: (page.head ++ (headClose ++ page.after)))).dropWhile
        (· != '>') = '>' :: (page.head ++ (headClose ++ page.after)) := by
    have plain : ∀ char ∈ page.opening, (char != '>') = true := fun char member =>
      bne_iff_ne.mpr fun same => page.unclosed (same ▸ member)
    rw [List.dropWhile_append_of_pos (List.all_eq_true.mp rfl), List.dropWhile_append_of_pos plain,
      List.dropWhile_cons_of_neg (by decide)]
  rw [extractHead, found, Option.bind_eq_bind, Option.bind_some]
  dsimp only
  rw [inside, List.tail?_cons, Option.bind_eq_bind, Option.bind_some, Page.head,
    splitIgnoreCase_headClose closed]
  rfl

/-- What is mirrored of a page. -/
theorem extractTags_text {words : WordClass} (page : Page)
    (searchable : ∀ element ∈ page.elements, ∀ entry ∈ element.attributes,
      Searchable words page.brackets entry)
    (closed : ∀ element ∈ page.elements, Closed page.brackets element) :
    extractTags words page.text = page.elements.filterMap (Element.mirror words page.brackets) := by
  rw [extractTags, extractHead_text closed]
  exact mirrored_elements searchable closed

/-! ### The challenge page -/

/-- The maps of the tags of one kind. -/
def attrMaps (kind : TagKind) (tags : List HtmlTag) : List AttrMap :=
  (tags.filter (·.tag = kind)).map fun tag => collectAttrs tag.attrs

theorem attrMaps_cons (kind : TagKind) (tag : HtmlTag) (tags : List HtmlTag) :
    attrMaps kind (tag :: tags) =
      if tag.tag = kind then collectAttrs tag.attrs :: attrMaps kind tags
      else attrMaps kind tags := by
  rw [attrMaps, List.filter_cons]
  by_cases same : tag.tag = kind
  · rw [if_pos same, if_pos (decide_eq_true same)]
    rfl
  · rw [if_neg same, if_neg fun both => same (of_decide_eq_true both)]
    rfl

theorem tagsToTemplateValues_eq (tags : List HtmlTag) :
    tagsToTemplateValues tags = (attrMaps .metaTag tags, attrMaps .linkTag tags) := by
  have step : ∀ values : List AttrMap × List AttrMap, tags.foldl addTag values =
      (values.1 ++ attrMaps .metaTag tags, values.2 ++ attrMaps .linkTag tags) := by
    induction tags with
    | nil =>
      intro values
      exact congrArg₂ Prod.mk (List.append_nil _).symm (List.append_nil _).symm
    | cons tag tags inductionHypothesis =>
      intro values
      obtain ⟨kind, attrs⟩ := tag
      rw [List.foldl_cons, inductionHypothesis]
      cases kind with
      | metaTag => exact congrArg (·, _) (List.append_assoc _ _ _)
      | linkTag => exact congrArg (_, ·) (List.append_assoc _ _ _)
  exact step ([], [])

/-- The tags of one kind are rendered, in their order. -/
theorem challengeTags_eq (words : WordClass) (kind : TagKind) (htmlBody : List Char) :
    challengeTags words kind htmlBody =
      renderTags kind.name (attrMaps kind (extractTags words htmlBody)) := by
  cases kind with
  | metaTag => rw [challengeTags, tagsToTemplateValues_eq]
  | linkTag => rw [challengeTags, tagsToTemplateValues_eq]

/-- Rendered tags are start tags with their values escaped. -/
theorem renderTags_eq (name : List Char) {maps : List AttrMap}
    (named : ∀ attrs ∈ maps, ∀ attr ∈ attrs, isAttrName attr.1 = true) :
    renderTags name maps = (maps.map fun attrs => Markup.StartTag.mk name attrs).flatMap
      (Markup.StartTag.write (Markup.escape templateSpecials)) := by
  rw [renderTags, List.flatMap_map]
  refine List.flatMap_congr fun attrs member => ?_
  have entries : (attrs.flatMap fun attr => if isAttrName attr.1 then
        ' ' :: (attr.1 ++ ('=' :: '"' :: (Markup.escape templateSpecials attr.2 ++ ['"'])))
      else []) = attrs.flatMap (Markup.writeAttribute (Markup.escape templateSpecials)) :=
    List.flatMap_congr fun attr listed => if_pos (named attrs member attr listed)
  rw [entries]
  rfl

/-- The tag on the challenge page for an element. -/
def Element.challengeTag (words : WordClass) (brackets : Bool) (element : Element) :
    Markup.StartTag :=
  ⟨element.kind.name, collectAttrs ((element.found words brackets).filter fun attr =>
    safeAttributes.contains attr.1)⟩

/-- Whether an element is mirrored among the tags of one kind. -/
def Element.isMirrored (words : WordClass) (brackets : Bool) (kind : TagKind)
    (element : Element) : Bool :=
  element.kind == kind && isSafeTag element.kind (element.found words brackets)

/-- The elements of one kind are rendered in their order. -/
theorem attrMaps_mirror (words : WordClass) (brackets : Bool) (kind : TagKind)
    (elements : List Element) :
    (attrMaps kind (elements.filterMap (Element.mirror words brackets))).map
        (Markup.StartTag.mk kind.name) =
      (elements.filter (Element.isMirrored words brackets kind)).map
        (Element.challengeTag words brackets) := by
  induction elements with
  | nil => rfl
  | cons element elements inductionHypothesis =>
    have mirror := mirror_eq words brackets element
    cases safe : isSafeTag element.kind (element.found words brackets) with
    | false =>
      have unlisted : element.isMirrored words brackets kind = false := by
        rw [Element.isMirrored, safe, Bool.and_false]
      rw [safe, if_neg Bool.false_ne_true] at mirror
      rw [List.filterMap_cons_none mirror,
        List.filter_cons_of_neg (Bool.eq_false_iff.mp unlisted)]
      exact inductionHypothesis
    | true =>
      have listed : element.isMirrored words brackets kind = (element.kind == kind) := by
        rw [Element.isMirrored, safe, Bool.and_true]
      rw [safe, if_pos rfl] at mirror
      rw [List.filterMap_cons_some mirror]
      by_cases same : element.kind = kind
      · rw [List.filter_cons_of_pos (listed.trans (beq_iff_eq.mpr same)), attrMaps_cons,
          if_pos same]
        subst same
        exact congrArg (element.challengeTag words brackets :: ·) inductionHypothesis
      · rw [List.filter_cons_of_neg fun both => same (beq_iff_eq.mp (listed.symm.trans both)),
          attrMaps_cons, if_neg same]
        exact inductionHypothesis

theorem mem_safeAttributes_of_challengeTag {words : WordClass} {brackets : Bool}
    (element : Element) {attr : List Char × List Char}
    (listed : attr ∈ (element.challengeTag words brackets).attributes) :
    attr.1 ∈ safeAttributes :=
  List.contains_iff_mem.mp (List.mem_filter.mp (Sorted.mem_of_mem_collect listed)).2

theorem challengeTag_valid (words : WordClass) (brackets : Bool) (element : Element) :
    (element.challengeTag words brackets).Valid where
  name := isTagName_name element.kind
  attributes := fun _ member => isName_of_safe (mem_safeAttributes_of_challengeTag element member)
  distinct := (Sorted.ordered_collect _).nodup_keys

/-- What a browser reads on the challenge page. -/
theorem startTags_challengeTags (references : Markup.References) {words : WordClass} {page : Page}
    (searchable : ∀ element ∈ page.elements, ∀ entry ∈ element.attributes,
      Searchable words page.brackets entry)
    (closed : ∀ element ∈ page.elements, Closed page.brackets element) (kind : TagKind) :
    Markup.startTags references (challengeTags words kind page.text) =
      some ((page.elements.filter (Element.isMirrored words page.brackets kind)).map
        (Element.challengeTag words page.brackets)) := by
  have named : ∀ attrs ∈ attrMaps kind
        (page.elements.filterMap (Element.mirror words page.brackets)),
      ∀ attr ∈ attrs, isAttrName attr.1 = true := by
    intro attrs member attr listed
    have rendered := List.mem_map_of_mem (f := Markup.StartTag.mk kind.name) member
    rw [attrMaps_mirror] at rendered
    obtain ⟨element, -, same⟩ := List.mem_map.mp rendered
    have attributes : (element.challengeTag words page.brackets).attributes = attrs :=
      congrArg Markup.StartTag.attributes same
    rw [← attributes] at listed
    exact (safeAttributes_spec (mem_safeAttributes_of_challengeTag element listed)).1
  rw [challengeTags_eq, extractTags_text page searchable closed, renderTags_eq kind.name named,
    attrMaps_mirror]
  refine Markup.startTags_write (Markup.decode_escape references (by decide))
    (Markup.notMem_escape (by decide) (by decide) (by decide)) _ fun tag member => ?_
  obtain ⟨element, -, rfl⟩ := List.mem_map.mp member
  exact challengeTag_valid words page.brackets element

/-! ### The meaning of the tags -/

/-- A page with one of the elements only. -/
def Page.alone (page : Page) (element : Element) : Page := { page with elements := [element] }

/-- Whether an element of a page is accepted. -/
def Page.accepts (words : WordClass) (page : Page) (element : Element) : Bool :=
  !(extractTags words (page.alone element).text).isEmpty

/-- The tags on the challenge page are, for each kind, those of the accepted elements, with the
same attributes on the list and the same values, and there are no others. -/
def Mirrored (references : Markup.References) (words : WordClass) (page : Page) : Prop :=
  ∀ kind, ∃ tags, Markup.startTags references (challengeTags words kind page.text) = some tags ∧
    List.Forall₂ (fun element tag => tag.name = element.kind.name ∧
        tag.attributes.Perm element.listed)
      (page.elements.filter fun element => element.kind == kind && page.accepts words element) tags

/-- The last attribute in whose name a key is found has, as it is written, the value of the
attribute with that name; if there is no such attribute the key is not found. -/
def Faithful (words : WordClass) (brackets : Bool) (element : Element) : Prop :=
  ∀ key ∈ safeAttributes,
    (element.found words brackets).reverse.lookup key = element.attributes.lookup key

/-- Elements are accepted for the name that is found first. -/
theorem accepts_eq {words : WordClass} {page : Page} {element : Element}
    (searchable : ∀ entry ∈ element.attributes, Searchable words page.brackets entry)
    (closed : Closed page.brackets element) :
    page.accepts words element =
      isSafeTag element.kind (element.found words page.brackets) := by
  have found : extractTags words (page.alone element).text =
      [element].filterMap (Element.mirror words page.brackets) := by
    refine extractTags_text (page.alone element) ?_ ?_
    · intro other member
      rw [List.mem_singleton.mp member]
      exact searchable
    · intro other member
      rw [List.mem_singleton.mp member]
      exact closed
  rw [Page.accepts, found, List.filterMap_cons, mirror_eq]
  cases isSafeTag element.kind (element.found words page.brackets) <;> rfl

/-- The attributes of the rendered tag are those of the element when what is found last of each
name is right. -/
theorem challengeTag_perm_iff (words : WordClass) (brackets : Bool) (element : Element) :
    (element.challengeTag words brackets).attributes.Perm element.listed ↔
      Faithful words brackets element := by
  have rendered : ∀ key, (element.challengeTag words brackets).attributes.lookup key =
      if safeAttributes.contains key then (element.found words brackets).reverse.lookup key
      else none := by
    intro key
    refine (Sorted.lookup_collect _ key).trans ?_
    rw [← List.filter_reverse]
    exact Sorted.lookup_filter_keys _ _ key
  have own : ∀ key, element.listed.lookup key =
      if safeAttributes.contains key then element.attributes.lookup key else none :=
    Sorted.lookup_filter_keys _ _
  rw [Sorted.perm_iff_lookup (challengeTag_valid words brackets element).distinct
    (nodup_listed element)]
  refine forall_congr' fun key => ?_
  rw [rendered, own, ← List.contains_iff_mem]
  cases safeAttributes.contains key with
  | true => exact ⟨fun same _ => same, fun same => same rfl⟩
  | false => exact iff_of_true rfl fun absurd => by cases absurd

/-- The tags keep their meaning when those of the accepted elements have their attributes. -/
theorem mirrored_iff_perm (references : Markup.References) {words : WordClass} {page : Page}
    (searchable : ∀ element ∈ page.elements, ∀ entry ∈ element.attributes,
      Searchable words page.brackets entry)
    (closed : ∀ element ∈ page.elements, Closed page.brackets element) :
    Mirrored references words page ↔ ∀ element ∈ page.elements,
      isSafeTag element.kind (element.found words page.brackets) = true →
        (element.challengeTag words page.brackets).attributes.Perm element.listed := by
  have accepted : ∀ kind, (page.elements.filter fun element =>
      element.kind == kind && page.accepts words element) =
        page.elements.filter (Element.isMirrored words page.brackets kind) := fun kind =>
    List.filter_congr fun element member => by
      rw [accepts_eq (searchable element member) (closed element member), Element.isMirrored]
  have read := startTags_challengeTags references searchable closed
  have kinds : Mirrored references words page ↔ ∀ kind,
      ∀ element ∈ page.elements.filter (Element.isMirrored words page.brackets kind),
        (element.challengeTag words page.brackets).attributes.Perm element.listed := by
    refine forall_congr' fun kind => ?_
    rw [accepted kind, read kind]
    constructor
    · rintro ⟨tags, same, every⟩ element member
      rw [← Option.some.inj same, List.forall₂_map_right_iff, List.forall₂_same] at every
      exact (every element member).2
    · intro every
      refine ⟨_, rfl, ?_⟩
      rw [List.forall₂_map_right_iff, List.forall₂_same]
      exact fun element member => ⟨rfl, every element member⟩
  rw [kinds]
  constructor
  · intro every element member safe
    refine every element.kind element (List.mem_filter.mpr ⟨member, ?_⟩)
    rw [Element.isMirrored, safe, Bool.and_true]
    exact beq_self_eq_true _
  · intro every kind element member
    obtain ⟨listed, mirrored⟩ := List.mem_filter.mp member
    exact every element listed (Bool.and_eq_true_iff.mp mirrored).2

/-- When nothing is found in the values, and none of them is written with a closing bracket, the
tags keep their meaning exactly if the accepted elements are faithful. -/
theorem mirrored_iff_faithful (references : Markup.References) (words : WordClass) (page : Page)
    (searchable : ∀ element ∈ page.elements, ∀ entry ∈ element.attributes,
      Searchable words page.brackets entry)
    (closed : ∀ element ∈ page.elements, Closed page.brackets element) :
    Mirrored references words page ↔ ∀ element ∈ page.elements,
      isSafeTag element.kind (element.found words page.brackets) = true →
        Faithful words page.brackets element := by
  rw [mirrored_iff_perm references searchable closed]
  exact forall₃_congr fun element _ _ => challengeTag_perm_iff words page.brackets element

/-! ### A description with an ampersand -/

theorem described_named : ∀ entry ∈ [("name".toList, "description".toList),
    ("content".toList, "a & b".toList)], Markup.IsName entry.1 := by
  intro entry member
  rcases List.mem_pair.mp member with rfl | rfl
  · exact ⟨by decide, List.all_eq_true.mp rfl⟩
  · exact ⟨by decide, List.all_eq_true.mp rfl⟩

theorem described_distinct : ([("name".toList, "description".toList),
    ("content".toList, "a & b".toList)].map Prod.fst).Nodup := by decide

/-- A meta tag with an ampersand in its description. -/
def described : Element :=
  ⟨.metaTag, [("name".toList, "description".toList), ("content".toList, "a & b".toList)],
    described_named, described_distinct⟩

/-- A page with this tag. -/
def describedPage : Page := ⟨true, [], rfl, [], List.not_mem_nil, [described], []⟩

def asciiWords : WordClass := ⟨fun char => char.isAlphanum || char == '_', fun _ _ => rfl⟩

theorem described_searchable : ∀ element ∈ describedPage.elements,
    ∀ entry ∈ element.attributes, Searchable asciiWords describedPage.brackets entry := by
  intro element member entry listed absent
  rw [List.mem_singleton.mp member] at listed
  rcases List.mem_pair.mp listed with rfl | rfl
  · exact absurd absent (by decide)
  · exact absurd absent (by decide)

/-- The description is not the same on the challenge page. -/
theorem not_mirrored_described : ¬ Mirrored Markup.namedReferences asciiWords describedPage := by
  rw [mirrored_iff_perm _ described_searchable fun element _ => closed_of_brackets element]
  intro every
  have perm := every described List.mem_cons_self (by decide)
  have faithful := (challengeTag_perm_iff asciiWords true described).mp perm
  exact absurd (faithful "content".toList (by decide)) (by decide)

/-! ### A description without one -/

theorem undisturbed_named : ∀ entry ∈ [("name".toList, "description".toList),
    ("content".toList, "plain".toList), ("@".toList, "a= b".toList)],
      Markup.IsName entry.1 := by
  intro entry member
  rcases List.mem_cons.mp member with rfl | member
  · exact ⟨by decide, List.all_eq_true.mp rfl⟩
  · rcases List.mem_pair.mp member with rfl | rfl
    · exact ⟨by decide, List.all_eq_true.mp rfl⟩
    · exact ⟨by decide, List.all_eq_true.mp rfl⟩

theorem undisturbed_distinct : ([("name".toList, "description".toList),
    ("content".toList, "plain".toList), ("@".toList, "a= b".toList)].map Prod.fst).Nodup := by
  decide

/-- A meta tag with a plain description, and a value in which an attribute does not quite begin. -/
def undisturbed : Element :=
  ⟨.metaTag, [("name".toList, "description".toList), ("content".toList, "plain".toList),
    ("@".toList, "a= b".toList)], undisturbed_named, undisturbed_distinct⟩

/-- A page with this tag. -/
def undisturbedPage : Page := ⟨true, [], rfl, [], List.not_mem_nil, [undisturbed], []⟩

theorem undisturbed_searchable : ∀ element ∈ undisturbedPage.elements,
    ∀ entry ∈ element.attributes, Searchable asciiWords undisturbedPage.brackets entry := by
  intro element member entry listed absent
  rw [List.mem_singleton.mp member] at listed
  rcases List.mem_cons.mp listed with rfl | listed
  · exact absurd absent (by decide)
  · rcases List.mem_pair.mp listed with rfl | rfl
    · exact absurd absent (by decide)
    · decide

theorem mirrored_iff_faithful_undisturbed :
    isSafeTag .metaTag (undisturbed.found asciiWords true) = true ∧
      Mirrored Markup.namedReferences asciiWords undisturbedPage ∧
      (Mirrored Markup.namedReferences asciiWords undisturbedPage ↔
        ∀ element ∈ undisturbedPage.elements,
          isSafeTag element.kind (element.found asciiWords undisturbedPage.brackets) = true →
            Faithful asciiWords undisturbedPage.brackets element) := by
  have settled := mirrored_iff_faithful Markup.namedReferences asciiWords undisturbedPage
    undisturbed_searchable fun element _ => closed_of_brackets element
  refine ⟨by decide, settled.mpr fun element member _ => ?_, settled⟩
  rw [List.mem_singleton.mp member]
  exact fun key => by revert key; decide

end TagFetcher

end Bagel
