/-
This file models the paths of maze links and the pages that carry them: `path.rs` and
`render.rs`. A page is drawn word by word from a keystream, and so are the paths of its links. The
grammar of maze paths is what `parse_route` accepts, and whatever the keystream is, a path that is
drawn from it is in the grammar.

The words, the links and the markup are ASCII, so that lengths in bytes are lengths in characters.
-/

import Bagel.MazeTokens
import Bagel.Library.Parts

namespace Bagel

/-! ### Paths -/

def maxPathBytes : Nat := 192

def maxSegments : Nat := 8

def maxSegmentBytes : Nat := 32

structure ParsedRoute where
  token : List Char
  mazePath : List Char
  deriving DecidableEq

def isPathCharacter (character : Char) : Bool :=
  character.isLower || character.isDigit || character == '-'

def isPathSegment (segment : List Char) : Bool :=
  !segment.isEmpty && decide (segment.length ≤ maxSegmentBytes) && segment.all isPathCharacter

/-- `normalize_maze_path`. A path that is not ASCII is refused for its characters, whatever its
length in bytes. -/
def normalizeMazePath (raw : List Char) : Option (List Char) :=
  let path := if raw.getLast? = some '/' then raw.dropLast else raw
  if path.isEmpty ∨ maxPathBytes < path.length then none
  else
    let segments := path.splitOn '/'
    if segments.length ≤ maxSegments ∧ segments.all isPathSegment then some path else none

/-- `parse_route` -/
def parseRoute : List Char → Option ParsedRoute
  | '/' :: rest =>
    match Parts.splitOnce '/' rest with
    | some (token, rawPath) =>
      if token.isEmpty then none
      else (normalizeMazePath rawPath).map fun mazePath => ⟨token, mazePath⟩
    | none => none
  | _ => none

/-- A path that the grammar leaves as it is. -/
def IsMazePath (path : List Char) : Prop := normalizeMazePath path = some path

/-- Segments joined by slashes are a path, as long as they are few and each is short. -/
theorem isMazePath_intercalate {segments : List (List Char)} (present : segments ≠ [])
    (few : segments.length ≤ maxSegments)
    (good : ∀ segment ∈ segments, isPathSegment segment = true)
    (short : (['/'].intercalate segments).length ≤ maxPathBytes) :
    IsMazePath (['/'].intercalate segments) := by
  have whole : (['/'].intercalate segments).splitOn '/' = segments := by
    refine List.splitOn_intercalate '/' (fun segment member slash => ?_) present
    have valid := good segment member
    simp only [isPathSegment, Bool.and_eq_true, List.all_eq_true] at valid
    exact absurd (valid.2 '/' slash) (by decide)
  have nonempty : ∀ segment ∈ segments, segment ≠ [] := by
    rintro segment member rfl
    exact absurd (good [] member) (by decide)
  obtain ⟨last, listed, ends⟩ : ∃ last ∈ segments,
      (['/'].intercalate segments).getLast? = last.getLast? :=
    Parts.exists_getLast?_intercalate present nonempty
  have noSlash : ¬ (['/'].intercalate segments).getLast? = some '/' := by
    rw [ends]
    intro slash
    have valid := good last listed
    simp only [isPathSegment, Bool.and_eq_true, List.all_eq_true] at valid
    exact absurd (valid.2 '/' (List.mem_of_getLast? slash)) (by decide)
  have full : (['/'].intercalate segments).isEmpty = false := by
    rw [List.isEmpty_eq_false_iff]
    intro empty
    rw [empty] at ends
    exact nonempty last listed (List.getLast?_eq_none_iff.mp ends.symm)
  unfold IsMazePath normalizeMazePath
  dsimp only
  rw [if_neg noSlash, full, if_neg (by simpa using short), whole,
    if_pos ⟨few, List.all_eq_true.mpr good⟩]

/-- The route of a link is parsed into what it was made of. -/
theorem parseRoute_of_link {token path : List Char} (present : token ≠ []) (without : '/' ∉ token)
    (valid : IsMazePath path) :
    parseRoute ('/' :: (token ++ '/' :: path)) = some ⟨token, path⟩ := by
  have full : ¬ token.isEmpty = true := by simpa using present
  simp only [parseRoute, Parts.splitOnce_append without]
  rw [if_neg full, valid]
  rfl

/-! ### The keystream -/

/-- What a step that draws from a state can answer, whatever the state is. -/
def Yields {State Value : Type} (step : StateM State Value) (holds : Value → Prop) : Prop :=
  ∀ state, holds (step state).1

namespace Yields

variable {State Value Other : Type} {holds : Value → Prop} {holds' : Other → Prop}

theorem pure {value : Value} (certain : holds value) :
    Yields (Pure.pure value : StateM State Value) holds := fun _ => certain

theorem bind {step : StateM State Value} {next : Value → StateM State Other}
    (first : Yields step holds) (then' : ∀ value, holds value → Yields (next value) holds') :
    Yields (step >>= next) holds' := fun state => then' _ (first state) _

theorem trivial (step : StateM State Value) : Yields step fun _ => True := fun _ => True.intro

end Yields

/-- So many draws of the same kind. -/
def times {State Value : Type} (step : StateM State Value) : Nat → StateM State (List Value)
  | 0 => pure []
  | count + 1 => do
    let value ← step
    let values ← times step count
    return value :: values

theorem yields_times {State Value : Type} {step : StateM State Value} {holds : Value → Prop}
    (each : Yields step holds) (count : Nat) :
    Yields (times step count) fun values =>
      values.length = count ∧ ∀ value ∈ values, holds value := by
  induction count with
  | zero => exact Yields.pure ⟨rfl, fun _ member => absurd member List.not_mem_nil⟩
  | succ count inductionHypothesis =>
    refine each.bind fun value good => inductionHypothesis.bind fun values rest => ?_
    exact Yields.pure ⟨congrArg (· + 1) rest.1, List.forall_mem_cons.mpr ⟨good, rest.2⟩⟩

/-- `CORPUS` -/
def corpus : List String := [
  "archive", "article", "assembly", "atlas", "author", "balance", "battery", "border", "branch",
  "bridge", "cabinet", "canvas", "capital", "carbon", "catalog", "cellar", "chamber", "channel",
  "chapter", "charter", "circuit", "cistern", "climate", "colony", "column", "compass", "copper",
  "corridor", "cottage", "council", "courier", "crystal", "current", "cypress", "diagram",
  "dispatch", "domain", "drawer", "dynamo", "editor", "element", "engine", "estate", "fabric",
  "factory", "fallow", "feather", "ferry", "figure", "filament", "flint", "forge", "fortress",
  "fountain", "gallery", "garden", "garrison", "glacier", "granite", "hamlet", "harbor", "harvest",
  "hollow", "index", "ingot", "island", "journal", "junction", "keystone", "lantern", "ledger",
  "library", "lookout", "machine", "manual", "marble", "meadow", "meridian", "mineral", "monument",
  "morning", "mosaic", "notebook", "orchard", "outpost", "paper", "parcel", "passage", "pattern",
  "pillar", "pioneer", "portal", "prairie", "quarry", "record", "region", "register", "reserve",
  "river", "saddle", "satchel", "seaboard", "section", "sediment", "signal", "silver", "spindle",
  "station", "stone", "summit", "survey", "terrace", "textile", "timber", "tower", "traverse",
  "tribune", "tunnel", "valley", "vault", "vessel", "village", "vineyard", "wagon", "warehouse",
  "willow", "window", "workshop"]

structure HmacRng where
  key : List UInt8
  counter : Nat
  block : List UInt8
  used : Nat

namespace HmacRng

/-- `HmacRng::new` -/
def new (seed : List UInt8) : HmacRng := ⟨seed, 0, List.replicate 32 0, 32⟩

variable (crypto : MazeCrypto)

def nextU32 : StateM HmacRng Nat := fun rng =>
  let rng :=
    if 32 < rng.used + 4 then
      { rng with
        block := crypto.hmac (rng.key, Bytes.big 8 rng.counter)
        counter := rng.counter + 1
        used := 0 }
    else rng
  (Bytes.number ((rng.block.drop rng.used).take 4), { rng with used := rng.used + 4 })

def range (lo hiInclusive : Nat) : StateM HmacRng Nat := do
  let drawn ← nextU32 crypto
  return lo + drawn % (hiInclusive - lo + 1)

def word : StateM HmacRng (List Char) := do
  let index ← range crypto 0 (corpus.length - 1)
  return (corpus.getD index "").toList

theorem yields_range {lo hiInclusive : Nat} (ordered : lo ≤ hiInclusive) :
    Yields (range crypto lo hiInclusive) fun value => lo ≤ value ∧ value ≤ hiInclusive := by
  refine (Yields.trivial (nextU32 crypto)).bind fun drawn _ => Yields.pure ?_
  have small : drawn % (hiInclusive - lo + 1) < hiInclusive - lo + 1 :=
    Nat.mod_lt drawn (Nat.succ_pos _)
  omega

/-- A word of the corpus is short, and made of lower-case letters. -/
def IsWord (characters : List Char) : Prop :=
  characters ≠ [] ∧ characters.length ≤ 9 ∧ characters.all Char.isLower = true

theorem corpus_all : (corpus.all fun text => !text.toList.isEmpty &&
    decide (text.toList.length ≤ 9) && text.toList.all Char.isLower) = true := by
  decide +kernel

theorem yields_word : Yields (word crypto) IsWord := by
  refine (yields_range crypto (Nat.zero_le _)).bind fun index inside => Yields.pure ?_
  have present : 0 < corpus.length := List.length_pos_of_ne_nil (by simp [corpus])
  have within : index < corpus.length :=
    Nat.lt_of_le_of_lt inside.2 (Nat.sub_lt present Nat.one_pos)
  have listed : corpus.getD index "" ∈ corpus := by
    rw [List.getD_eq_getElem?_getD, List.getElem?_eq_getElem within, Option.getD_some]
    exact List.getElem_mem within
  have good := List.all_eq_true.mp corpus_all _ listed
  simp only [Bool.and_eq_true, Bool.not_eq_true', decide_eq_true_eq] at good
  exact ⟨List.isEmpty_eq_false_iff.mp good.1.1, good.1.2, good.2⟩

end HmacRng

/-! ### Links of a page -/

/-- The bounds of a page. Those of a configured maze are validated: at least one link and at most
64, at least 1024 bytes and at most a megabyte, and no lower bound above its upper one. -/
structure RenderBudget where
  minLinks : Nat
  maxLinks : Nat
  minBytes : Nat
  maxBytes : Nat

/-- `page_seed` -/
def pageSeed (crypto : MazeCrypto) (key pathBytes : List UInt8) : List UInt8 :=
  crypto.hmac (key, Bytes.bigFrame (Bytes.ofText "bagel maze render v1") ++
    Bytes.bigFrame pathBytes)

section Drawing

variable (crypto : MazeCrypto)

open HmacRng

/-- One segment of a path: a word, or two with a hyphen between them. -/
def pathSegment : StateM HmacRng (List Char) := do
  let first ← word crypto
  let joined ← range crypto 0 2
  if joined = 0 then
    let second ← word crypto
    return first ++ '-' :: second
  else return first

def generatePath : StateM HmacRng (List Char) := do
  let count ← range crypto 1 3
  let segments ← times (pathSegment crypto) count
  return ['/'].intercalate segments

def planLinks (seed : List UInt8) (budget : RenderBudget) : List (List Char) :=
  let step : StateM HmacRng (List (List Char)) := do
    let count ← range crypto budget.minLinks budget.maxLinks
    times (generatePath crypto) count
  (step (new seed)).1

theorem isPathCharacter_of_isWord {characters : List Char} (word : IsWord characters) :
    characters.all isPathCharacter = true := by
  refine List.all_eq_true.mpr fun character member => ?_
  have lower := List.all_eq_true.mp word.2.2 character member
  rw [isPathCharacter, lower]
  rfl

theorem isPathSegment_word {first : List Char} (word : IsWord first) :
    isPathSegment first = true ∧ first.length ≤ 19 := by
  have short : first.length ≤ maxSegmentBytes := word.2.1.trans (by decide)
  refine ⟨?_, word.2.1.trans (by decide)⟩
  rw [isPathSegment, List.isEmpty_eq_false_iff.mpr word.1, decide_eq_true short,
    isPathCharacter_of_isWord word]
  rfl

theorem isPathSegment_words {first second : List Char} (word : IsWord first)
    (word' : IsWord second) :
    isPathSegment (first ++ '-' :: second) = true ∧ (first ++ '-' :: second).length ≤ 19 := by
  have lengths : (first ++ '-' :: second).length = first.length + (second.length + 1) := by
    rw [List.length_append, List.length_cons]
  have bound : first.length ≤ 9 := word.2.1
  have bound' : second.length ≤ 9 := word'.2.1
  have short : (first ++ '-' :: second).length ≤ maxSegmentBytes := by
    rw [lengths, maxSegmentBytes]
    omega
  refine ⟨?_, by omega⟩
  rw [isPathSegment, decide_eq_true short, List.all_append, isPathCharacter_of_isWord word,
    List.all_cons, isPathCharacter_of_isWord word']
  cases first <;> rfl

theorem yields_pathSegment : Yields (pathSegment crypto) fun segment =>
    isPathSegment segment = true ∧ segment.length ≤ 19 := by
  refine (yields_word crypto).bind fun first word => ?_
  refine (Yields.trivial (range crypto 0 2)).bind fun joined _ => ?_
  split
  · exact (yields_word crypto).bind fun second word' => Yields.pure (isPathSegment_words word word')
  · exact Yields.pure (isPathSegment_word word)

/-- Every path that is drawn is in the grammar. -/
theorem yields_generatePath : Yields (generatePath crypto) IsMazePath := by
  refine (yields_range crypto (by decide : 1 ≤ 3)).bind fun count few => ?_
  refine (yields_times (yields_pathSegment crypto) count).bind fun segments drawn => ?_
  obtain ⟨long, good⟩ := drawn
  have present : segments ≠ [] := List.ne_nil_of_length_pos (by omega)
  have limited : segments.length ≤ 3 := by omega
  have short : (['/'].intercalate segments).length ≤ segments.length * (19 + 1) :=
    Parts.length_intercalate_le 19 fun segment member => (good segment member).2
  refine Yields.pure (isMazePath_intercalate present ?_ (fun segment member =>
    (good segment member).1) ?_)
  · exact limited.trans (by decide)
  · refine short.trans ((Nat.mul_le_mul_right _ limited).trans (by decide))

/-- There are as many links as the budget asks for. -/
theorem length_planLinks (budget : RenderBudget) (ordered : budget.minLinks ≤ budget.maxLinks)
    (seed : List UInt8) :
    budget.minLinks ≤ (planLinks crypto seed budget).length ∧
      (planLinks crypto seed budget).length ≤ budget.maxLinks := by
  have drawn : Yields (do
      let count ← range crypto budget.minLinks budget.maxLinks
      times (generatePath crypto) count) fun paths =>
        budget.minLinks ≤ paths.length ∧ paths.length ≤ budget.maxLinks := by
    refine (yields_range crypto ordered).bind fun count inside state => ?_
    rw [(yields_times (yields_generatePath crypto) count state).1]
    exact inside
  exact drawn (new seed)

theorem isMazePath_of_mem_planLinks {seed : List UInt8} {budget : RenderBudget} {path : List Char}
    (member : path ∈ planLinks crypto seed budget) : IsMazePath path := by
  have drawn : Yields (do
      let count ← range crypto budget.minLinks budget.maxLinks
      times (generatePath crypto) count) fun paths => ∀ path ∈ paths, IsMazePath path := by
    refine (Yields.trivial (range crypto budget.minLinks budget.maxLinks)).bind fun count _ => ?_
    exact fun state => (yields_times (yields_generatePath crypto) count state).2
  exact drawn (new seed) path member

end Drawing

/-! ### Pages -/

structure Anchor where
  href : List Char
  first : List Char
  second : List Char

/-- The sentences of a paragraph, each a list of words, and its link. -/
structure Paragraph where
  sentences : List (List (List Char))
  anchor : Option Anchor

structure MazePage where
  first : List Char
  second : List Char
  paragraphs : List Paragraph

def Anchor.html (anchor : Anchor) : List Char :=
  "<a href=\"".toList ++ anchor.href ++ "\">".toList ++ anchor.first ++ [' '] ++ anchor.second ++
    "</a>. ".toList

def Paragraph.html (paragraph : Paragraph) : List Char :=
  "<p>".toList ++
    (paragraph.sentences.flatMap fun words => [' '].intercalate words ++ ". ".toList) ++
    paragraph.anchor.elim [] Anchor.html ++ "</p>".toList

/-- What stands before the first paragraph. -/
def MazePage.head (first second : List Char) : List Char :=
  "<!doctype html><html><head><meta charset=\"utf-8\"><title>".toList ++ first ++ [' '] ++ second ++
    "</title></head><body>".toList

namespace MazePage

def html (page : MazePage) : List Char :=
  head page.first page.second ++ page.paragraphs.flatMap Paragraph.html ++
    "</body></html>".toList

/-- The links that a page carries. -/
def links (page : MazePage) : List (List Char) :=
  page.paragraphs.filterMap fun paragraph => paragraph.anchor.map Anchor.href

end MazePage

theorem Paragraph.length_html_pos (paragraph : Paragraph) : 0 < paragraph.html.length := by
  have opening : "<p>".toList ≠ [] := by decide
  refine List.length_pos_of_ne_nil (List.append_ne_nil_of_left_ne_nil ?_ _)
  exact List.append_ne_nil_of_left_ne_nil (List.append_ne_nil_of_left_ne_nil opening _) _

section Drawing

variable (crypto : MazeCrypto)

open HmacRng

/-- `push_sentence` -/
def sentence : StateM HmacRng (List (List Char)) := do
  let words ← range crypto 6 16
  times (word crypto) words

/-- One turn of the loop of `render_page`, in which the link is minted with `mintLink`. -/
def paragraph (mintLink : List Char → List Char) (linked : Bool) : StateM HmacRng Paragraph := do
  let count ← range crypto 2 5
  let sentences ← times (sentence crypto) count
  if linked then
    let path ← generatePath crypto
    let first ← word crypto
    let second ← word crypto
    return ⟨sentences, some ⟨mintLink path, first, second⟩⟩
  else return ⟨sentences, none⟩

/-- The loop of `render_page`, from a page of some length on. `mintLink` is told how many links are
left, as every link has a nonce of its own. -/
def paragraphs (mintLink : Nat → List Char → List Char) (target maxBytes linksLeft length : Nat)
    (rng : HmacRng) : List Paragraph :=
  if length < target ∨ 0 < linksLeft then
    let drawn := paragraph crypto (mintLink linksLeft) (0 < linksLeft) rng
    let length := length + drawn.1.html.length
    if maxBytes - 64 ≤ length then [drawn.1]
    else drawn.1 :: paragraphs mintLink target maxBytes (linksLeft - 1) length drawn.2
  else []
termination_by (target - length) + linksLeft
decreasing_by
  have longer := Paragraph.length_html_pos
    (paragraph crypto (mintLink linksLeft) (0 < linksLeft) rng).1
  omega

/-- `render_page` -/
def renderPage (seed : List UInt8) (budget : RenderBudget)
    (mintLink : Nat → List Char → List Char) : MazePage :=
  let drawn := (do
    let linkCount ← range crypto budget.minLinks budget.maxLinks
    let reserve := 128 * linkCount + 256
    let target ← range crypto budget.minBytes (max (budget.maxBytes - reserve) budget.minBytes)
    let first ← word crypto
    let second ← word crypto
    return (linkCount, target, first, second) : StateM HmacRng _) (new seed)
  let (linkCount, target, first, second) := drawn.1
  ⟨first, second, paragraphs crypto mintLink target budget.maxBytes linkCount
    (MazePage.head first second).length drawn.2⟩

variable {crypto} {mintLink : Nat → List Char → List Char}

theorem yields_paragraph (left : Nat) (linked : Bool) :
    Yields (paragraph crypto (mintLink left) linked) fun paragraph =>
      ∀ anchor ∈ paragraph.anchor, ∃ path, IsMazePath path ∧ anchor.href = mintLink left path := by
  refine (Yields.trivial (range crypto 2 5)).bind fun count _ => ?_
  refine (Yields.trivial (times (sentence crypto) count)).bind fun sentences _ => ?_
  split
  · refine (yields_generatePath crypto).bind fun path valid => ?_
    refine (Yields.trivial (word crypto)).bind fun first _ => ?_
    refine (Yields.trivial (word crypto)).bind fun second _ => Yields.pure ?_
    rintro anchor ⟨⟩
    exact ⟨path, valid, rfl⟩
  · exact Yields.pure fun anchor none => nomatch none

theorem exists_of_mem_paragraphs {target maxBytes linksLeft length : Nat} {rng : HmacRng}
    {paragraph : Paragraph}
    (member : paragraph ∈ paragraphs crypto mintLink target maxBytes linksLeft length rng)
    {anchor : Anchor} (present : paragraph.anchor = some anchor) :
    ∃ left path, IsMazePath path ∧ anchor.href = mintLink left path := by
  induction linksLeft, length, rng using paragraphs.induct crypto mintLink target maxBytes with
  | case1 linksLeft length rng goesOn drawn longer full =>
    rw [paragraphs, if_pos goesOn] at member
    dsimp only at member
    rw [if_pos full] at member
    cases List.mem_singleton.mp member
    exact ⟨linksLeft, yields_paragraph linksLeft _ rng anchor present⟩
  | case2 linksLeft length rng goesOn drawn longer room inductionHypothesis =>
    rw [paragraphs, if_pos goesOn] at member
    dsimp only at member
    rw [if_neg room] at member
    rcases List.mem_cons.mp member with rfl | later
    · exact ⟨linksLeft, yields_paragraph linksLeft _ rng anchor present⟩
    · exact inductionHypothesis later
  | case3 linksLeft length rng done =>
    rw [paragraphs, if_neg done] at member
    exact absurd member List.not_mem_nil

/-- Whatever is drawn, each link of a page was minted for a path in the grammar. -/
theorem exists_of_mem_links {seed : List UInt8} {budget : RenderBudget} {link : List Char}
    (member : link ∈ (renderPage crypto seed budget mintLink).links) :
    ∃ left path, IsMazePath path ∧ link = mintLink left path := by
  obtain ⟨paragraph, listed, carried⟩ := List.mem_filterMap.mp member
  obtain ⟨anchor, present, rfl⟩ := Option.map_eq_some_iff.mp carried
  exact exists_of_mem_paragraphs listed present

end Drawing

end Bagel
