/-
This file proves when the pages of a maze stay within their budget. A page is made of paragraphs
of random size, and it ends when it has reached its target and has all its links, or when it is
close to its upper bound. What is kept free for the links is a guess.

A paragraph without a link has 812 bytes at most, and one with a link 1023. A page is within its
budget, whatever is drawn, exactly when there is room for as many of the largest paragraphs as
there are links, the lower bound is that of a paragraph below the upper one, and there are at
least five links, so that the guess leaves room for the last paragraph.
-/

import Bagel.MazeLinks
import Mathlib.Algebra.Group.Action.Defs
import Mathlib.Algebra.Order.BigOperators.Group.Finset

namespace Bagel

/-! ### Sizes -/

/-- A sentence with the period and the blank that follow it. -/
def sentenceText (words : List (List Char)) : List Char :=
  [' '].intercalate words ++ ". ".toList

theorem sum_map_succ (texts : List (List Char)) :
    (texts.map fun text => text.length + 1).sum = (texts.map List.length).sum + texts.length := by
  rw [List.sum_map_add, List.map_const', List.sum_replicate, smul_eq_mul, Nat.mul_one]

theorem length_sentenceText {words : List (List Char)} (nonempty : words ≠ []) :
    (sentenceText words).length = (words.map List.length).sum + words.length + 1 := by
  have joined : ([' '].intercalate words).length + 1 =
      (words.map fun word => word.length + 1).sum := Parts.length_intercalate nonempty
  rw [sum_map_succ] at joined
  have period : ". ".toList.length = 2 := by decide
  rw [sentenceText, List.length_append, period]
  omega

theorem Anchor.length_html (anchor : Anchor) :
    anchor.html.length = anchor.href.length + anchor.first.length + anchor.second.length + 18 := by
  have sizes : ∀ front middle back : List Char, front.length = 9 → middle.length = 2 →
      back.length = 6 →
        (front ++ anchor.href ++ middle ++ anchor.first ++ [' '] ++ anchor.second ++ back).length =
          anchor.href.length + anchor.first.length + anchor.second.length + 18 := by
    intro front middle back nine two six
    simp only [List.length_append, List.length_singleton, nine, two, six]
    omega
  exact sizes _ _ _ (by decide) (by decide) (by decide)

theorem Paragraph.length_html (paragraph : Paragraph) :
    paragraph.html.length = (paragraph.sentences.map fun words => (sentenceText words).length).sum +
      paragraph.anchor.elim 0 (fun anchor => anchor.html.length) + 7 := by
  have front : "<p>".toList.length = 3 := by decide
  have back : "</p>".toList.length = 4 := by decide
  have link : (paragraph.anchor.elim [] Anchor.html).length =
      paragraph.anchor.elim 0 fun anchor => anchor.html.length := by
    cases paragraph.anchor <;> rfl
  have text : (paragraph.sentences.flatMap fun words =>
      [' '].intercalate words ++ ". ".toList).length =
        (paragraph.sentences.map fun words => (sentenceText words).length).sum :=
    List.length_flatMap
  rw [Paragraph.html, List.length_append, List.length_append, List.length_append, front, back,
    link, text]
  omega

theorem MazePage.length_head (first second : List Char) :
    (MazePage.head first second).length = first.length + second.length + 78 := by
  have sizes : ∀ front back : List Char, front.length = 56 → back.length = 21 →
      (front ++ first ++ [' '] ++ second ++ back).length = first.length + second.length + 78 := by
    intro front back long short
    simp only [List.length_append, List.length_singleton, long, short]
    omega
  exact sizes _ _ (by decide) (by decide)

theorem MazePage.length_html (page : MazePage) :
    page.html.length = (MazePage.head page.first page.second).length +
      (page.paragraphs.flatMap Paragraph.html).length + 14 := by
  have back : "</body></html>".toList.length = 14 := by decide
  rw [MazePage.html, List.length_append, List.length_append, back]

/-! ### Budgets -/

/-- What `validate_mazes` accepts. -/
structure RenderBudget.Valid (budget : RenderBudget) : Prop where
  someLinks : 1 ≤ budget.minLinks
  links : budget.minLinks ≤ budget.maxLinks
  fewLinks : budget.maxLinks ≤ 64
  someBytes : 1024 ≤ budget.minBytes
  bytes : budget.minBytes ≤ budget.maxBytes
  fewBytes : budget.maxBytes ≤ 1048576

/-- Links of the form that `serve_maze` mints: a prefix, a token and the path. -/
def MintsLinks (mintLink : Nat → List Char → List Char) : Prop :=
  ∃ routePrefix : List Char, routePrefix.length = 20 ∧ ∀ left path, ∃ token : List Char,
    token.length = tokenEncodedLen ∧
      mintLink left path = '/' :: (routePrefix ++ '/' :: (token ++ '/' :: path))

theorem MintsLinks.length {mintLink : Nat → List Char → List Char} (mints : MintsLinks mintLink)
    (left : Nat) (path : List Char) : (mintLink left path).length = path.length + 116 := by
  obtain ⟨routePrefix, twenty, links⟩ := mints
  obtain ⟨token, long, same⟩ := links left path
  have tokenLong : token.length = 93 := long
  rw [same]
  simp only [List.length_cons, List.length_append]
  omega

/-- The tokens of a server have one length. -/
theorem MazeCrypto.length_build {crypto : MazeCrypto} {keys : MazeKeys} {mazePath : List Char}
    {source : Option SourceNetwork} {expires : UInt64} {corruptTag : Bool} {nonce : Nonce} :
    (crypto.build keys mazePath source expires corruptTag nonce).length = tokenEncodedLen := by
  have tagLong : (if corruptTag then corrupt
      (crypto.computeTag keys.macKey (crypto.header keys source expires nonce) mazePath)
        else crypto.computeTag keys.macKey (crypto.header keys source expires nonce)
          mazePath).length = 16 := by
    split
    · exact (length_corrupt _).trans (length_computeTag _ _)
    · exact length_computeTag _ _
  unfold build
  dsimp only
  rw [Base32.length_encode, List.length_append, length_header, tagLong]
  rfl

/-- The closure that `render_maze` passes to `render_page` mints such links. -/
theorem MazeServer.mintsLinks (server : MazeServer) (runtime : MazeRuntime) (request : MazeRender)
    (now : UInt64) (nonces : Nat → Nonce) :
    MintsLinks fun left => server.mintLink runtime request now (nonces left) := by
  refine ⟨(server.keys request.host runtime).routePrefix.toList, ?_, fun left path => ?_⟩
  · rw [keys, MazeCrypto.deriveMazeKeys]
    dsimp only
    rw [String.toList_ofList, Base32.length_encode, List.length_take, server.crypto.length_expand]
    rfl
  · unfold mintLink
    dsimp only
    split
    · exact ⟨_, MazeCrypto.length_build, rfl⟩
    · exact ⟨_, MazeCrypto.length_build, rfl⟩

/-- A page within its budget. -/
structure MazePage.Within (budget : RenderBudget) (page : MazePage) : Prop where
  minBytes : budget.minBytes ≤ page.html.length
  maxBytes : page.html.length ≤ budget.maxBytes
  minLinks : budget.minLinks ≤ page.links.length
  maxLinks : page.links.length ≤ budget.maxLinks

/-- A budget with room for the largest paragraphs. -/
structure RenderBudget.Roomy (budget : RenderBudget) : Prop where
  links : 5 ≤ budget.minLinks
  largest : 110 + 1023 * budget.maxLinks ≤ budget.maxBytes
  apart : budget.minBytes + 825 ≤ budget.maxBytes

instance (budget : RenderBudget) : Decidable budget.Valid :=
  decidable_of_iff (1 ≤ budget.minLinks ∧ budget.minLinks ≤ budget.maxLinks ∧
      budget.maxLinks ≤ 64 ∧ 1024 ≤ budget.minBytes ∧ budget.minBytes ≤ budget.maxBytes ∧
        budget.maxBytes ≤ 1048576)
    ⟨fun ⟨first, second, third, fourth, fifth, sixth⟩ =>
      ⟨first, second, third, fourth, fifth, sixth⟩,
    fun ⟨first, second, third, fourth, fifth, sixth⟩ =>
      ⟨first, second, third, fourth, fifth, sixth⟩⟩

section Bounds

variable (crypto : MazeCrypto) {mintLink : Nat → List Char → List Char}

open HmacRng

/-! ### What is drawn is neither small nor large -/

theorem sum_map_le {Item : Type} {items : List Item} {measure : Item → Nat} {bound : Nat}
    (each : ∀ item ∈ items, measure item ≤ bound) :
    (items.map measure).sum ≤ items.length * bound := by
  have bounded := List.sum_le_card_nsmul (items.map measure) bound fun value listed => by
    obtain ⟨item, member, rfl⟩ := List.mem_map.mp listed
    exact each item member
  rwa [List.length_map, smul_eq_mul] at bounded

theorem le_sum_map {Item : Type} {items : List Item} {measure : Item → Nat} {bound : Nat}
    (each : ∀ item ∈ items, bound ≤ measure item) :
    items.length * bound ≤ (items.map measure).sum := by
  have bounded := List.card_nsmul_le_sum (items.map measure) bound fun value listed => by
    obtain ⟨item, member, rfl⟩ := List.mem_map.mp listed
    exact each item member
  rwa [List.length_map, smul_eq_mul] at bounded

theorem yields_sentence : Yields (sentence crypto) fun words =>
    13 ≤ (sentenceText words).length ∧ (sentenceText words).length ≤ 161 := by
  refine (yields_range crypto (by decide : 6 ≤ 16)).bind fun count inside => ?_
  intro state
  obtain ⟨long, words⟩ := yields_times (yields_word crypto) count state
  have nonempty : (times (word crypto) count state).1 ≠ [] :=
    List.ne_nil_of_length_pos (by omega)
  have small : ((times (word crypto) count state).1.map List.length).sum ≤ _ :=
    sum_map_le fun text member => (words text member).2.1
  have large : _ ≤ ((times (word crypto) count state).1.map List.length).sum :=
    le_sum_map fun text member => List.length_pos_of_ne_nil (words text member).1
  rw [length_sentenceText nonempty]
  omega

omit crypto in
/-- The text of a paragraph. -/
theorem length_sentences {sentences : List (List (List Char))} (some : 2 ≤ sentences.length)
    (few : sentences.length ≤ 5) (each : ∀ words ∈ sentences,
      13 ≤ (sentenceText words).length ∧ (sentenceText words).length ≤ 161) :
    26 ≤ (sentences.map fun words => (sentenceText words).length).sum ∧
      (sentences.map fun words => (sentenceText words).length).sum ≤ 805 := by
  have small : (sentences.map fun words => (sentenceText words).length).sum ≤ _ :=
    sum_map_le fun words member => (each words member).2
  have large : _ ≤ (sentences.map fun words => (sentenceText words).length).sum :=
    le_sum_map fun words member => (each words member).1
  omega

theorem yields_length_generatePath : Yields (generatePath crypto) fun path => path.length ≤ 59 := by
  refine (yields_range crypto (by decide : 1 ≤ 3)).bind fun count few => ?_
  refine (yields_times (yields_pathSegment crypto) count).bind fun segments drawn => ?_
  obtain ⟨long, good⟩ := drawn
  have nonempty : segments ≠ [] := List.ne_nil_of_length_pos (by omega)
  have joined : (['/'].intercalate segments).length + 1 =
      (segments.map fun segment => segment.length + 1).sum := Parts.length_intercalate nonempty
  have small : (segments.map fun segment => segment.length + 1).sum ≤ _ :=
    sum_map_le fun segment member => Nat.succ_le_succ (good segment member).2
  exact Yields.pure (by omega)

/-- A paragraph has a link if one is asked for, and its size is bounded. -/
theorem yields_length_paragraph (mints : MintsLinks mintLink) (left : Nat) (linked : Bool) :
    Yields (paragraph crypto (mintLink left) linked) fun paragraph =>
      paragraph.anchor.isSome = linked ∧ 33 ≤ paragraph.html.length ∧
        paragraph.html.length ≤ if linked then 1023 else 812 := by
  refine (yields_range crypto (by decide : 2 ≤ 5)).bind fun count inside => ?_
  refine (yields_times (yields_sentence crypto) count).bind fun sentences drawn => ?_
  obtain ⟨long, each⟩ := drawn
  have text := length_sentences (by omega) (by omega) each
  cases linked with
  | true =>
    refine (yields_length_generatePath crypto).bind fun path short => ?_
    refine (yields_word crypto).bind fun first word => ?_
    refine (yields_word crypto).bind fun second word' => Yields.pure ?_
    have bound : first.length ≤ 9 := word.2.1
    have bound' : second.length ≤ 9 := word'.2.1
    rw [Paragraph.length_html, Option.elim_some, Anchor.length_html, mints.length, if_pos rfl]
    dsimp only
    exact ⟨rfl, by omega, by omega⟩
  | false =>
    refine Yields.pure ?_
    rw [Paragraph.length_html, Option.elim_none, if_neg Bool.false_ne_true]
    dsimp only
    exact ⟨rfl, by omega, by omega⟩

/-! ### Pages with room -/

/-- The links of some paragraphs. -/
def linksOf (paragraphs : List Paragraph) : List (List Char) :=
  paragraphs.filterMap fun paragraph => paragraph.anchor.map Anchor.href

theorem length_linksOf_cons (paragraph : Paragraph) (rest : List Paragraph) :
    (linksOf (paragraph :: rest)).length =
      (if paragraph.anchor.isSome then 1 else 0) + (linksOf rest).length := by
  unfold linksOf
  rw [List.filterMap_cons]
  cases paragraph.anchor with
  | none => exact (Nat.zero_add _).symm
  | some anchor => exact Nat.add_comm _ 1

/-- What one turn of the loop preserves: there is room for the links that are left. -/
theorem room_step (mints : MintsLinks mintLink) {target maxBytes linksLeft length : Nat}
    (rng : HmacRng) (last : target + 825 ≤ maxBytes)
    (room : length + 1023 * linksLeft + 14 ≤ maxBytes)
    (goesOn : length < target ∨ 0 < linksLeft) :
    let drawn := (paragraph crypto (mintLink linksLeft) (0 < linksLeft) rng).1
    length + drawn.html.length + 1023 * (linksLeft - 1) + 14 ≤ maxBytes ∧
      (if drawn.anchor.isSome then 1 else 0) + (linksLeft - 1) = linksLeft := by
  obtain ⟨linked, -, size⟩ := yields_length_paragraph crypto mints linksLeft (0 < linksLeft) rng
  dsimp only
  rw [linked]
  by_cases some : 0 < linksLeft
  · rw [if_pos (decide_eq_true some)] at size
    rw [if_pos (decide_eq_true some)]
    omega
  · rw [if_neg (by simpa using some)] at size
    rw [if_neg (by simpa using some)]
    omega

/-- The loop keeps room for the largest paragraph of every link that is left, and it ends at its
target or close to the upper bound. -/
theorem paragraphs_within (mints : MintsLinks mintLink) {target maxBytes linksLeft length : Nat}
    (rng : HmacRng) (last : target + 825 ≤ maxBytes)
    (room : length + 1023 * linksLeft + 14 ≤ maxBytes) :
    let drawn := paragraphs crypto mintLink target maxBytes linksLeft length rng
    let total := length + (drawn.flatMap Paragraph.html).length
    (target ≤ total ∨ maxBytes - 64 ≤ total) ∧ total + 14 ≤ maxBytes ∧
      (linksOf drawn).length = linksLeft := by
  dsimp only
  induction linksLeft, length, rng using paragraphs.induct crypto mintLink target maxBytes with
  | case1 linksLeft length rng goesOn drawn longer full =>
    obtain ⟨fits, links⟩ : length + drawn.1.html.length + 1023 * (linksLeft - 1) + 14 ≤ maxBytes ∧
        (if drawn.1.anchor.isSome then 1 else 0) + (linksLeft - 1) = linksLeft :=
      room_step crypto mints rng last room goesOn
    rw [paragraphs, if_pos goesOn]
    dsimp only
    rw [if_pos full, length_linksOf_cons, List.flatMap_singleton]
    -- a page that ends early has no links left
    have noLinks : linksLeft - 1 = 0 := by omega
    have within : length + drawn.1.html.length + 14 ≤ maxBytes := by omega
    rw [noLinks] at links
    exact ⟨Or.inr full, within, links⟩
  | case2 linksLeft length rng goesOn drawn longer notFull inductionHypothesis =>
    obtain ⟨fits, links⟩ := room_step crypto mints rng last room goesOn
    obtain ⟨ends, within, rest⟩ := inductionHypothesis fits
    rw [paragraphs, if_pos goesOn]
    dsimp only
    rw [if_neg notFull, length_linksOf_cons, List.flatMap_cons, List.length_append,
      ← Nat.add_assoc, rest]
    exact ⟨ends, within, links⟩
  | case3 linksLeft length rng done =>
    rw [paragraphs, if_neg done]
    obtain ⟨reached, none⟩ := not_or.mp done
    have noLinks : linksLeft = 0 := Nat.eq_zero_of_not_pos none
    rw [List.flatMap_nil, List.length_nil, noLinks]
    exact ⟨Or.inl (Nat.le_of_not_lt reached), by omega, rfl⟩

/-- What is drawn before the first paragraph: the number of links, the target and the title. -/
def opening (budget : RenderBudget) : StateM HmacRng (Nat × Nat × List Char × List Char) := do
  let linkCount ← range crypto budget.minLinks budget.maxLinks
  let reserve := 128 * linkCount + 256
  let target ← range crypto budget.minBytes (max (budget.maxBytes - reserve) budget.minBytes)
  let first ← word crypto
  let second ← word crypto
  return (linkCount, target, first, second)

theorem renderPage_eq (seed : List UInt8) (budget : RenderBudget) :
    renderPage crypto seed budget mintLink =
      let drawn := opening crypto budget (new seed)
      ⟨drawn.1.2.2.1, drawn.1.2.2.2,
        paragraphs crypto mintLink drawn.1.2.1 budget.maxBytes drawn.1.1
        (MazePage.head drawn.1.2.2.1 drawn.1.2.2.2).length drawn.2⟩ := rfl

theorem yields_opening {budget : RenderBudget} (links : budget.minLinks ≤ budget.maxLinks) :
    Yields (opening crypto budget) fun drawn =>
      (budget.minLinks ≤ drawn.1 ∧ drawn.1 ≤ budget.maxLinks) ∧
        (budget.minBytes ≤ drawn.2.1 ∧
          drawn.2.1 ≤ max (budget.maxBytes - (128 * drawn.1 + 256)) budget.minBytes) ∧
            (MazePage.head drawn.2.2.1 drawn.2.2.2).length ≤ 96 := by
  refine (yields_range crypto links).bind fun linkCount some => ?_
  refine (yields_range crypto (Nat.le_max_right _ _)).bind fun target near => ?_
  refine (yields_word crypto).bind fun first word => ?_
  refine (yields_word crypto).bind fun second word' => Yields.pure ⟨some, near, ?_⟩
  have bound : first.length ≤ 9 := word.2.1
  have bound' : second.length ≤ 9 := word'.2.1
  rw [MazePage.length_head]
  dsimp only
  omega

/-- Whatever is drawn, a page of a roomy budget is within it. -/
theorem within_of_roomy (mints : MintsLinks mintLink) {budget : RenderBudget}
    (valid : budget.Valid) (roomy : budget.Roomy) (seed : List UInt8) :
    (renderPage crypto seed budget mintLink).Within budget := by
  have start := yields_opening crypto valid.links (new seed)
  rw [renderPage_eq]
  generalize opening crypto budget (new seed) = drawn at start ⊢
  obtain ⟨⟨linkCount, target, first, second⟩, rng⟩ := drawn
  obtain ⟨⟨some, few⟩, ⟨reached, near⟩, short⟩ := start
  dsimp only at some few reached near short ⊢
  have apart := roomy.apart
  have fiveLinks := roomy.links
  have largest := roomy.largest
  have last : target + 825 ≤ budget.maxBytes := by omega
  have room : (MazePage.head first second).length + 1023 * linkCount + 14 ≤ budget.maxBytes := by
    omega
  obtain ⟨ends, within, links⟩ := paragraphs_within crypto mints rng last room
  refine ⟨?_, ?_, ?_, ?_⟩
  · rw [MazePage.length_html]
    dsimp only
    omega
  · rw [MazePage.length_html]
    exact within
  · exact some.trans links.ge
  · exact links.le.trans few

end Bounds

end Bagel
