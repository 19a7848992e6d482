/-
This file proves that a budget without room for the largest paragraphs is not kept: some keystream
makes a page that leaves it. The sizes that can be drawn have no gaps, so that a page can be
brought to any length from which the largest paragraph takes it over its upper bound.

HMAC is not part of the program, and which numbers it yields for a seed is not known. What is
shown is that some function in its place yields the numbers of any script.
-/

import Bagel.Library.Script
import Bagel.PageBudgets
import Mathlib.Tactic.IntervalCases

namespace Bagel

open HmacRng Script

/-! ### Scripts of a keystream -/

/-- The number at a place of a script, and zeros behind its end. -/
def scriptBlock (script : List Nat) (counter : Nat) : List UInt8 :=
  (List.range 8).flatMap fun offset => Bytes.big 4 ((script.getD (8 * counter + offset) 0) % 2 ^ 32)

theorem length_scriptBlock (script : List Nat) (counter : Nat) :
    (scriptBlock script counter).length = 32 := by
  rw [scriptBlock, List.length_flatMap]
  simp only [Bytes.length_big]
  decide

/-- A function in the place of HMAC that yields a script for every key. -/
def scripted (script : List Nat) : MazeCrypto where
  hmac question := scriptBlock script (Bytes.number question.2)
  expand _ := List.replicate 32 0
  length_hmac _ := length_scriptBlock script _
  length_expand _ := List.length_replicate

/-- A part of equal parts. -/
theorem take_drop_flatten {Item : Type} {width : Nat} {parts : List (List Item)}
    (even : ∀ part ∈ parts, part.length = width) {index : Nat} (inside : index < parts.length) :
    (parts.flatten.drop (width * index)).take width = parts[index] := by
  induction parts generalizing index with
  | nil => exact absurd inside (Nat.not_lt_zero _)
  | cons part rest inductionHypothesis =>
    have long : part.length = width := even part List.mem_cons_self
    cases index with
    | zero => rw [Nat.mul_zero, List.drop_zero, List.flatten_cons, List.take_left' long]; rfl
    | succ index =>
      have further : width * (index + 1) = part.length + width * index := by
        rw [long, Nat.mul_succ, Nat.add_comm]
      rw [List.flatten_cons, further, List.drop_length_add_append, List.getElem_cons_succ]
      exact inductionHypothesis (fun other member => even other (List.mem_cons_of_mem _ member))
        (Nat.lt_of_succ_lt_succ inside)

theorem number_scriptBlock (script : List Nat) (counter : Nat) {offset : Nat} (inside : offset < 8)
    (small : script.getD (8 * counter + offset) 0 < 2 ^ 32) :
    Bytes.number (((scriptBlock script counter).drop (4 * offset)).take 4) =
      script.getD (8 * counter + offset) 0 := by
  have even : ∀ part ∈ (List.range 8).map fun offset =>
      Bytes.big 4 ((script.getD (8 * counter + offset) 0) % 2 ^ 32), part.length = 4 := by
    intro part listed
    obtain ⟨other, -, rfl⟩ := List.mem_map.mp listed
    exact Bytes.length_big 4 _
  have few : offset < ((List.range 8).map fun offset =>
      Bytes.big 4 ((script.getD (8 * counter + offset) 0) % 2 ^ 32)).length := by
    rw [List.length_map, List.length_range]
    exact inside
  rw [scriptBlock, List.flatMap_def, take_drop_flatten even few, List.getElem_map,
    List.getElem_range, Nat.mod_eq_of_lt small]
  exact Bytes.number_big small

/-- The generator has read the script up to a place. -/
def ReadTo (script : List Nat) (place : Nat) (rng : HmacRng) : Prop :=
  ∃ offset ≤ 8, rng.used = 4 * offset ∧ place + 8 = 8 * rng.counter + offset ∧
    (offset < 8 → rng.block = scriptBlock script (rng.counter - 1))

theorem readTo_new (script : List Nat) (seed : List UInt8) : ReadTo script 0 (new seed) :=
  ⟨8, le_rfl, rfl, rfl, fun absurdity => absurd absurdity (Nat.lt_irrefl 8)⟩

theorem nextU32_of_readTo {script : List Nat} {place : Nat} {rng : HmacRng}
    (readTo : ReadTo script place rng) (short : place < 2 ^ 64)
    (small : script.getD place 0 < 2 ^ 32) :
    (nextU32 (scripted script) rng).1 = script.getD place 0 ∧
      ReadTo script (place + 1) (nextU32 (scripted script) rng).2 := by
  obtain ⟨offset, within, used, reached, block⟩ := readTo
  unfold nextU32
  dsimp only
  rcases Nat.lt_or_ge offset 8 with inside | full
  · have more : ¬ 32 < rng.used + 4 := by omega
    have same : 8 * (rng.counter - 1) + offset = place := by omega
    rw [if_neg more, block inside, used]
    refine ⟨?_, offset + 1, inside, ?_, ?_, fun _ => rfl⟩
    · rw [number_scriptBlock script _ inside (by rwa [same]), same]
    · rw [Nat.mul_succ]
    · dsimp only
      omega
  · have empty : 32 < rng.used + 4 := by omega
    have same : 8 * rng.counter + 0 = place := by omega
    have counted : Bytes.number (Bytes.big 8 rng.counter) = rng.counter :=
      Bytes.number_big (by omega)
    rw [if_pos empty]
    have drawn : (scripted script).hmac (rng.key, Bytes.big 8 rng.counter) =
        scriptBlock script rng.counter := congrArg (scriptBlock script) counted
    rw [drawn]
    refine ⟨?_, 1, by decide, rfl, ?_, fun _ => rfl⟩
    · have read := number_scriptBlock script rng.counter (by decide : 0 < 8) (by rwa [same])
      rw [same] at read
      exact read
    · dsimp only
      omega

/-- The generator yields any script of numbers that fit into a word. -/
theorem supplies_scripted {script : List Nat} (short : script.length < 2 ^ 64)
    (small : ∀ number ∈ script, number < 2 ^ 32) (seed : List UInt8) :
    Supplies (nextU32 (scripted script)) (new seed) script := by
  have onwards : ∀ (rest : List Nat) (place : Nat) (rng : HmacRng), script.drop place = rest →
      ReadTo script place rng → Supplies (nextU32 (scripted script)) rng rest := by
    intro rest
    induction rest with
    | nil => exact fun _ _ _ _ => trivial
    | cons number rest inductionHypothesis =>
      intro place rng left readTo
      have inside : place < script.length := by
        refine Nat.lt_of_not_le fun beyond => ?_
        rw [List.drop_eq_nil_of_le beyond] at left
        cases left
      rw [List.drop_eq_getElem_cons inside] at left
      obtain ⟨here, later⟩ := List.cons.inj left
      have value : script.getD place 0 = number := by
        rw [List.getD_eq_getElem?_getD, List.getElem?_eq_getElem inside, Option.getD_some, here]
      obtain ⟨answered, next⟩ := nextU32_of_readTo readTo (inside.trans short) (by
        rw [value, ← here]
        exact small _ (List.getElem_mem inside))
      exact ⟨answered.trans value, inductionHypothesis (place + 1) _ later next⟩
  exact onwards script 0 (new seed) (List.drop_zero) (readTo_new script seed)

/-! ### What can be drawn -/

/-- What some keystream makes a step answer, at the cost of so many numbers. -/
abbrev CanDraw {Value : Type} (step : MazeCrypto → StateM HmacRng Value) (cost : Nat)
    (value : Value) : Prop := Can nextU32 (2 ^ 32) step cost value

theorem can_range {low high value : Nat} (above : low ≤ value) (below : value ≤ high)
    (small : high < 2 ^ 32) : CanDraw (fun crypto => range crypto low high) 1 value := by
  have drawn : CanDraw (fun crypto => range crypto low high) 1
      (low + (value - low) % (high - low + 1)) :=
    (Can.source (by omega : value - low < 2 ^ 32)).bind
      (fun _ drawn => pure (low + drawn % (high - low + 1))) (Can.pure _)
  rwa [Nat.mod_eq_of_lt (by omega), Nat.add_sub_cancel' above] at drawn

theorem can_word {index : Nat} (inside : index < 128) :
    CanDraw word 1 (corpus.getD index "").toList := by
  have long : corpus.length = 128 := rfl
  have drawn : CanDraw (fun crypto => range crypto 0 (corpus.length - 1)) 1 index :=
    can_range (Nat.zero_le _) (by omega) (by omega)
  exact drawn.bind (fun _ index => pure (corpus.getD index "").toList) (Can.pure _)

/-- Words of every length from five to nine. -/
theorem spans_word {size : Nat} (above : 5 ≤ size) (below : size ≤ 9) :
    ∃ text : List Char, text.length = size ∧ CanDraw word 1 text := by
  interval_cases size
  · exact ⟨_, by decide, can_word (by decide : 3 < 128)⟩
  · exact ⟨_, by decide, can_word (by decide : 4 < 128)⟩
  · exact ⟨_, by decide, can_word (by decide : 0 < 128)⟩
  · exact ⟨_, by decide, can_word (by decide : 2 < 128)⟩
  · exact ⟨_, by decide, can_word (by decide : 124 < 128)⟩

/-- A sum of parts that have bounds gives up one of them. -/
theorem exists_part {low high count total : Nat} (ordered : low ≤ high)
    (above : (count + 1) * low ≤ total) (below : total ≤ (count + 1) * high) :
    ∃ part, low ≤ part ∧ part ≤ high ∧ part ≤ total ∧ count * low ≤ total - part ∧
      total - part ≤ count * high := by
  have wider := Nat.mul_le_mul_left count ordered
  rw [Nat.succ_mul] at above below
  exact ⟨min high (total - count * low), by omega, Nat.min_le_left _ _, by omega, by omega,
    by omega⟩

/-- When one draw reaches every size between two bounds, so many draws reach every sum. -/
theorem spans_times {Value : Type} {step : MazeCrypto → StateM HmacRng Value}
    {measure : Value → Nat} {cost low high : Nat} (ordered : low ≤ high)
    (spans : ∀ size, low ≤ size → size ≤ high → ∃ value, measure value = size ∧
      CanDraw step cost value) (count : Nat) {total : Nat} (above : count * low ≤ total)
    (below : total ≤ count * high) :
    ∃ values : List Value, values.length = count ∧ (values.map measure).sum = total ∧
      CanDraw (fun crypto => times (step crypto) count) (count * cost) values := by
  induction count generalizing total with
  | zero =>
    refine ⟨[], rfl, ?_, (Can.pure []).mono (Nat.zero_le _)⟩
    rw [List.map_nil, List.sum_nil]
    omega
  | succ count inductionHypothesis =>
    obtain ⟨part, least, greatest, within, less, more⟩ := exists_part ordered above below
    obtain ⟨first, sized, draws⟩ := spans part least greatest
    obtain ⟨rest, long, sum, drawsRest⟩ := inductionHypothesis less more
    refine ⟨first :: rest, by rw [List.length_cons, long], ?_, ?_⟩
    · rw [List.map_cons, List.sum_cons, sized, sum]
      omega
    · have both := draws.bind (fun crypto value => times (step crypto) count >>= fun values =>
        pure (value :: values)) (drawsRest.bind (fun _ values => pure (first :: values))
          (Can.pure (first :: rest)))
      refine both.mono ?_
      rw [Nat.succ_mul]
      omega

/-- Sentences of every size that a sentence can have. -/
theorem spans_sentence {size : Nat} (above : 37 ≤ size) (below : size ≤ 161) :
    ∃ words : List (List Char), (sentenceText words).length = size ∧
      CanDraw sentence 17 words := by
  obtain ⟨count, some, few, fits, room⟩ : ∃ count, 6 ≤ count ∧ count ≤ 16 ∧
      count * 5 + count + 1 ≤ size ∧ size ≤ count * 9 + count + 1 :=
    ⟨min 16 ((size - 1) / 6), by omega, by omega, by omega, by omega⟩
  obtain ⟨words, long, sum, draws⟩ : ∃ words : List (List Char), words.length = count ∧
      (words.map List.length).sum = size - count - 1 ∧
        CanDraw (fun crypto => times (word crypto) count) (count * 1) words :=
    spans_times (by decide : 5 ≤ 9) (fun _ => spans_word) count (by omega) (by omega)
  refine ⟨words, ?_, ?_⟩
  · rw [length_sentenceText (List.ne_nil_of_length_pos (by omega)), sum, long]
    omega
  · have drawn := (can_range some few (by decide)).bind
      (fun crypto count => times (word crypto) count) draws
    exact drawn.mono (by omega)

/-- The text of a paragraph. -/
theorem spans_sentences {size : Nat} (above : 74 ≤ size) (below : size ≤ 805) :
    ∃ count sentences, 2 ≤ count ∧ count ≤ 5 ∧
      (sentences.map fun words => (sentenceText words).length).sum = size ∧
        CanDraw (fun crypto => times (sentence crypto) count) 85 sentences := by
  obtain ⟨count, some, few, fits, room⟩ : ∃ count, 2 ≤ count ∧ count ≤ 5 ∧
      count * 37 ≤ size ∧ size ≤ count * 161 :=
    ⟨min 5 (size / 37), by omega, by omega, by omega, by omega⟩
  obtain ⟨sentences, -, sum, draws⟩ := spans_times (by decide : 37 ≤ 161)
    (fun _ => spans_sentence) count fits room
  exact ⟨count, sentences, some, few, sum, draws.mono (by omega)⟩

/-- The longest path. -/
theorem can_longest_path : ∃ path : List Char, path.length = 59 ∧ CanDraw generatePath 10 path := by
  obtain ⟨text, nine, draws⟩ := spans_word (by decide : 5 ≤ 9) le_rfl
  have zero : CanDraw (fun crypto => range crypto 0 2) 1 0 :=
    can_range le_rfl (by decide) (by decide)
  have three : CanDraw (fun crypto => range crypto 1 3) 1 3 :=
    can_range (by decide) le_rfl (by decide)
  have second := draws.bind (fun _ second => pure (text ++ '-' :: second)) (Can.pure _)
  have segment : CanDraw pathSegment 3 (text ++ '-' :: text) :=
    draws.bind (fun crypto first => do
      let joined ← range crypto 0 2
      if joined = 0 then
        let second ← word crypto
        return first ++ '-' :: second
      else return first)
      (zero.bind (fun crypto joined => do
        if joined = 0 then
          let second ← word crypto
          return text ++ '-' :: second
        else return text) second)
  obtain ⟨segments, long, sum, drawn⟩ : ∃ segments : List (List Char), segments.length = 3 ∧
      (segments.map List.length).sum = 57 ∧
        CanDraw (fun crypto => times (pathSegment crypto) 3) (3 * 3) segments := by
    refine spans_times (le_refl 19) (fun size above below => ?_) 3 le_rfl le_rfl
    refine ⟨_, ?_, segment⟩
    rw [List.length_append, List.length_cons, nine]
    omega
  refine ⟨['/'].intercalate segments, ?_, three.bind (fun crypto count => do
    let segments ← times (pathSegment crypto) count
    return ['/'].intercalate segments)
      (drawn.bind (fun _ segments => pure (['/'].intercalate segments)) (Can.pure _))⟩
  have joined : (['/'].intercalate segments).length + 1 =
      (segments.map fun segment => segment.length + 1).sum :=
    Parts.length_intercalate (List.ne_nil_of_length_pos (by omega))
  rw [sum_map_succ, sum, long] at joined
  omega

/-- The sizes that a paragraph without or with a link can be given. -/
def leastSize (linked : Bool) : Nat := if linked then 292 else 81

def greatestSize (linked : Bool) : Nat := if linked then 1023 else 812

/-- What is drawn for a link, and the paragraph that carries it. -/
def linkedParagraph (mintLink : List Char → List Char) (sentences : List (List (List Char)))
    (crypto : MazeCrypto) : StateM HmacRng Paragraph := do
  let path ← generatePath crypto
  let first ← word crypto
  let second ← word crypto
  return ⟨sentences, some ⟨mintLink path, first, second⟩⟩

/-- Paragraphs of every such size. -/
theorem spans_paragraph {mintLink : Nat → List Char → List Char} (mints : MintsLinks mintLink)
    (left : Nat) (linked : Bool) {size : Nat} (above : leastSize linked ≤ size)
    (below : size ≤ greatestSize linked) :
    ∃ drawn : Paragraph, drawn.html.length = size ∧
      CanDraw (fun crypto => paragraph crypto (mintLink left) linked) 98 drawn := by
  cases linked with
  | true =>
    have above : 292 ≤ size := above
    have below : size ≤ 1023 := below
    obtain ⟨path, long, drawsPath⟩ := can_longest_path
    obtain ⟨text, nine, drawsWord⟩ := spans_word (by decide : 5 ≤ 9) le_rfl
    obtain ⟨count, sentences, some, few, sum, draws⟩ :=
      spans_sentences (by omega : 74 ≤ size - 218) (by omega)
    refine ⟨⟨sentences, Option.some ⟨mintLink left path, text, text⟩⟩, ?_, ?_⟩
    · rw [Paragraph.length_html, Option.elim_some, Anchor.length_html, mints.length]
      dsimp only
      omega
    · have counted : CanDraw (fun crypto => range crypto 2 5) 1 count :=
        can_range some few (by decide)
      have link : CanDraw (linkedParagraph (mintLink left) sentences) (10 + (1 + (1 + 0)))
          ⟨sentences, Option.some ⟨mintLink left path, text, text⟩⟩ :=
        drawsPath.bind (fun crypto path => do
            let first ← word crypto
            let second ← word crypto
            return Paragraph.mk sentences (Option.some ⟨mintLink left path, first, second⟩))
          (drawsWord.bind (fun crypto first => do
              let second ← word crypto
              return Paragraph.mk sentences (Option.some ⟨mintLink left path, first, second⟩))
            (drawsWord.bind (fun _ second =>
                pure (Paragraph.mk sentences (Option.some ⟨mintLink left path, text, second⟩)))
              (Can.pure _)))
      have rest := draws.bind
        (fun crypto sentences => linkedParagraph (mintLink left) sentences crypto) link
      exact counted.bind (fun crypto count => times (sentence crypto) count >>= fun sentences =>
        linkedParagraph (mintLink left) sentences crypto) rest
  | false =>
    have above : 81 ≤ size := above
    have below : size ≤ 812 := below
    obtain ⟨count, sentences, some, few, sum, draws⟩ :=
      spans_sentences (by omega : 74 ≤ size - 7) (by omega)
    refine ⟨⟨sentences, none⟩, ?_, ?_⟩
    · rw [Paragraph.length_html, Option.elim_none]
      dsimp only
      omega
    · have counted : CanDraw (fun crypto => range crypto 2 5) 1 count :=
        can_range some few (by decide)
      have rest := draws.bind (fun _ sentences => pure (Paragraph.mk sentences none)) (Can.pure _)
      exact (counted.bind (fun crypto count => times (sentence crypto) count >>= fun sentences =>
        pure (Paragraph.mk sentences none)) rest).mono (by decide : 1 + (85 + 0) ≤ 98)

/-! ### Pages of every length -/

section Loop

variable {mintLink : Nat → List Char → List Char} {target maxBytes : Nat}

/-- Some keystream makes the loop end at this length after so many paragraphs. -/
def Ends (mintLink : Nat → List Char → List Char) (target maxBytes linksLeft length total : Nat)
    (steps : Nat) : Prop :=
  ∃ script : List Nat, script.length ≤ steps * 98 ∧ (∀ number ∈ script, number < 2 ^ 32) ∧
    ∀ crypto rng rest, Supplies (nextU32 crypto) rng (script ++ rest) →
      length + ((paragraphs crypto mintLink target maxBytes linksLeft length rng).flatMap
        Paragraph.html).length = total

/-- The loop ends with a paragraph that comes close to the upper bound. -/
theorem Ends.last (mints : MintsLinks mintLink) {linksLeft length size : Nat}
    (goesOn : length < target ∨ 0 < linksLeft) (above : leastSize (0 < linksLeft) ≤ size)
    (below : size ≤ greatestSize (0 < linksLeft)) (full : maxBytes - 64 ≤ length + size) :
    Ends mintLink target maxBytes linksLeft length (length + size) 1 := by
  obtain ⟨drawn, sized, script, short, small, reads⟩ :=
    spans_paragraph mints linksLeft (0 < linksLeft) above below
  refine ⟨script, short, small, fun crypto rng rest supplies => ?_⟩
  obtain ⟨answered, -⟩ := reads crypto rng rest supplies
  rw [paragraphs, if_pos goesOn]
  dsimp only
  rw [answered, sized, if_pos full, List.flatMap_singleton, sized]

/-- The loop goes on after a paragraph that does not. -/
theorem Ends.step (mints : MintsLinks mintLink) {linksLeft length size total steps : Nat}
    (goesOn : length < target ∨ 0 < linksLeft) (above : leastSize (0 < linksLeft) ≤ size)
    (below : size ≤ greatestSize (0 < linksLeft)) (room : length + size < maxBytes - 64)
    (ends : Ends mintLink target maxBytes (linksLeft - 1) (length + size) total steps) :
    Ends mintLink target maxBytes linksLeft length total (steps + 1) := by
  obtain ⟨drawn, sized, script, short, small, reads⟩ :=
    spans_paragraph mints linksLeft (0 < linksLeft) above below
  obtain ⟨script', short', small', rest'⟩ := ends
  refine ⟨script ++ script', ?_, fun number listed => ?_, fun crypto rng rest supplies => ?_⟩
  · rw [List.length_append]
    omega
  · rcases List.mem_append.mp listed with early | late
    · exact small number early
    · exact small' number late
  · rw [List.append_assoc] at supplies
    obtain ⟨answered, left⟩ := reads crypto rng (script' ++ rest) supplies
    have later := rest' crypto _ rest left
    rw [paragraphs, if_pos goesOn]
    dsimp only
    rw [answered, sized, if_neg (Nat.not_le_of_lt room), List.flatMap_cons, List.length_append,
      sized, ← Nat.add_assoc]
    exact later

/-- Paragraphs with links bring the page to any length that their sizes add up to. -/
theorem Ends.linked (mints : MintsLinks mintLink) {linksLeft length total steps : Nat}
    (count : Nat) {gain : Nat} (enough : count ≤ linksLeft) (above : count * 292 ≤ gain)
    (below : gain ≤ count * 1023) (room : length + gain < maxBytes - 64)
    (ends : Ends mintLink target maxBytes (linksLeft - count) (length + gain) total steps) :
    Ends mintLink target maxBytes linksLeft length total (steps + count) := by
  induction count generalizing linksLeft length gain with
  | zero =>
    have nothing : gain = 0 := by omega
    rw [nothing] at ends
    exact ends
  | succ count inductionHypothesis =>
    have some : 0 < linksLeft := by omega
    have linked : decide (0 < linksLeft) = true := decide_eq_true some
    obtain ⟨size, least, greatest, within, less, more⟩ :=
      exists_part (by decide : 292 ≤ 1023) above below
    have split : length + size + (gain - size) = length + gain := by omega
    have fewer : linksLeft - 1 - count = linksLeft - (count + 1) := by omega
    refine Ends.step mints (Or.inr some) (by rwa [linked, leastSize, if_pos rfl])
      (by rwa [linked, greatestSize, if_pos rfl]) (by omega : length + size < maxBytes - 64) ?_
    refine inductionHypothesis (by omega) less more (by omega) ?_
    rw [split, fewer]
    exact ends

/-- So do paragraphs without links, as long as the target is not reached. -/
theorem Ends.unlinked (mints : MintsLinks mintLink) {length total steps : Nat} (count : Nat)
    {gain : Nat} (above : count * 81 ≤ gain) (below : gain ≤ count * 812)
    (room : length + gain < maxBytes - 64) (short : length + gain < target)
    (ends : Ends mintLink target maxBytes 0 (length + gain) total steps) :
    Ends mintLink target maxBytes 0 length total (steps + count) := by
  induction count generalizing length gain with
  | zero =>
    have nothing : gain = 0 := by omega
    rw [nothing] at ends
    exact ends
  | succ count inductionHypothesis =>
    obtain ⟨size, least, greatest, within, less, more⟩ :=
      exists_part (by decide : 81 ≤ 812) above below
    have split : length + size + (gain - size) = length + gain := by omega
    refine Ends.step mints (Or.inl (by omega)) least greatest
      (by omega : length + size < maxBytes - 64) ?_
    refine inductionHypothesis less more (by omega) (by omega) ?_
    rw [split]
    exact ends

/-- Without room for the largest paragraphs of all links, the loop can leave the budget with a
paragraph that has a link. -/
theorem ends_linked (mints : MintsLinks mintLink) {maxLinks : Nat} (some : 0 < maxLinks)
    (fewLinks : maxLinks ≤ 64) (bytes : 1024 ≤ maxBytes)
    (tight : maxBytes < 110 + 1023 * maxLinks) :
    ∃ total ≥ maxBytes - 13, ∃ steps ≤ 3000,
      Ends mintLink target maxBytes maxLinks 96 total steps := by
  by_cases small : maxBytes ≤ 1132
  · refine ⟨96 + 1023, by omega, 1, by decide, Ends.last mints (Or.inr some) ?_ ?_ (by omega)⟩
    · rw [decide_eq_true some, leastSize, if_pos rfl]
      decide
    · rw [decide_eq_true some, greatestSize, if_pos rfl]
  · obtain ⟨count, gain, fewer, above, below, room, near⟩ : ∃ count gain, count < maxLinks ∧
        count * 292 ≤ gain ∧ gain ≤ count * 1023 ∧ 96 + gain < maxBytes - 64 ∧
          maxBytes ≤ 96 + gain + 1036 :=
      ⟨(max 292 (maxBytes - 1132) + 1022) / 1023, max 292 (maxBytes - 1132), by omega, by omega,
        by omega, by omega, by omega⟩
    have left : 0 < maxLinks - count := Nat.sub_pos_of_lt fewer
    refine ⟨96 + gain + 1023, by omega, 1 + count, by omega,
      Ends.linked mints count fewer.le above below room (Ends.last mints (Or.inr left) ?_ ?_
        (by omega))⟩
    · rw [decide_eq_true left, leastSize, if_pos rfl]
      decide
    · rw [decide_eq_true left, greatestSize, if_pos rfl]

/-- When the target is close to the upper bound, it can be left with a paragraph that has none. -/
theorem ends_unlinked (mints : MintsLinks mintLink) {linksLeft : Nat} (some : 0 < linksLeft)
    (fewLinks : linksLeft ≤ 64) (few : maxBytes ≤ 1048576)
    (largest : 110 + 1023 * linksLeft ≤ maxBytes) (near : maxBytes ≤ target + 824)
    (above : 96 + 292 * linksLeft < target) :
    ∃ total ≥ maxBytes - 13, ∃ steps ≤ 3000,
      Ends mintLink target maxBytes linksLeft 96 total steps := by
  obtain ⟨gain, reached, early, close, enough⟩ : ∃ gain, maxBytes ≤ 96 + gain + 825 ∧
      96 + gain < target ∧ 96 + gain < maxBytes - 64 ∧ linksLeft * 292 ≤ gain :=
    ⟨max (maxBytes - 921) (292 * linksLeft), by omega, by omega, by omega, by omega⟩
  have last : Ends mintLink target maxBytes 0 (96 + gain) (96 + gain + 812) 1 :=
    Ends.last mints (Or.inl early) (by decide) (by decide) (by omega)
  have noneLeft : linksLeft - linksLeft = 0 := Nat.sub_self linksLeft
  by_cases onlyLinks : gain ≤ linksLeft * 1023
  · refine ⟨96 + gain + 812, by omega, 1 + linksLeft, by omega,
      Ends.linked mints linksLeft le_rfl enough onlyLinks close ?_⟩
    rw [noneLeft]
    exact last
  · obtain ⟨count, more, least, greatest, within, atLeast, atMost, limited⟩ :
        ∃ count more, count * 81 ≤ more ∧ more ≤ count * 812 ∧ more ≤ gain ∧
          linksLeft * 292 ≤ gain - more ∧ gain - more ≤ linksLeft * 1023 ∧ count ≤ 2000 :=
      ⟨(gain - linksLeft * 1023 + 811) / 812,
        max (81 * ((gain - linksLeft * 1023 + 811) / 812)) (gain - linksLeft * 1023), by omega,
        by omega, by omega, by omega, by omega, by omega⟩
    have whole : 96 + (gain - more) + more = 96 + gain := by omega
    refine ⟨96 + gain + 812, by omega, 1 + count + linksLeft, by omega,
      Ends.linked mints linksLeft le_rfl atLeast atMost (by omega) ?_⟩
    rw [noneLeft]
    refine Ends.unlinked mints count least greatest (by omega) (by omega) ?_
    rw [whole]
    exact last

end Loop

/-! ### The budgets that are kept -/

/-- Any number of links and any target in their ranges are drawn for some page, and the longest
title. -/
theorem can_opening {budget : RenderBudget} (valid : budget.Valid) {linkCount target : Nat}
    (some : budget.minLinks ≤ linkCount) (few : linkCount ≤ budget.maxLinks)
    (reached : budget.minBytes ≤ target)
    (near : target ≤ max (budget.maxBytes - (128 * linkCount + 256)) budget.minBytes) :
    ∃ text : List Char, text.length = 9 ∧
      CanDraw (fun crypto => opening crypto budget) 4 (linkCount, target, text, text) := by
  obtain ⟨text, nine, draws⟩ := spans_word (by decide : 5 ≤ 9) le_rfl
  have fewLinks := valid.fewLinks
  have bytes := valid.bytes
  have fewBytes := valid.fewBytes
  have counted : CanDraw (fun crypto => range crypto budget.minLinks budget.maxLinks) 1 linkCount :=
    can_range some few (by omega)
  have aimed : CanDraw (fun crypto => range crypto budget.minBytes
      (max (budget.maxBytes - (128 * linkCount + 256)) budget.minBytes)) 1 target :=
    can_range reached near (by omega)
  have title : CanDraw (fun crypto => do
      let first ← word crypto
      let second ← word crypto
      return (linkCount, target, first, second)) (1 + (1 + 0)) (linkCount, target, text, text) :=
    draws.bind (fun crypto first => do
        let second ← word crypto
        return (linkCount, target, first, second))
      (draws.bind (fun _ second => pure (linkCount, target, text, second)) (Can.pure _))
  exact ⟨text, nine, counted.bind (fun crypto linkCount => do
      let target ← range crypto budget.minBytes
        (max (budget.maxBytes - (128 * linkCount + 256)) budget.minBytes)
      let first ← word crypto
      let second ← word crypto
      return (linkCount, target, first, second))
    (aimed.bind (fun crypto target => do
      let first ← word crypto
      let second ← word crypto
      return (linkCount, target, first, second)) title)⟩

/-- Where the loop can leave the budget, some keystream makes a page that does, for every seed. -/
theorem exceeds_of_ends {mintLink : Nat → List Char → List Char} {budget : RenderBudget}
    (valid : budget.Valid) {linkCount target total steps : Nat}
    (some : budget.minLinks ≤ linkCount) (few : linkCount ≤ budget.maxLinks)
    (reached : budget.minBytes ≤ target)
    (near : target ≤ max (budget.maxBytes - (128 * linkCount + 256)) budget.minBytes)
    (beyond : total ≥ budget.maxBytes - 13) (brief : steps ≤ 3000)
    (ends : Ends mintLink target budget.maxBytes linkCount 96 total steps) :
    ∃ crypto, ∀ seed, budget.maxBytes < (renderPage crypto seed budget mintLink).html.length := by
  obtain ⟨text, nine, opens, short, small, reads⟩ := can_opening valid some few reached near
  obtain ⟨loops, short', small', total'⟩ := ends
  have within : (opens ++ loops).length < 2 ^ 64 := by
    rw [List.length_append]
    omega
  have words : ∀ number ∈ opens ++ loops, number < 2 ^ 32 := by
    intro number listed
    rcases List.mem_append.mp listed with early | late
    · exact small number early
    · exact small' number late
  refine ⟨scripted (opens ++ loops), fun seed => ?_⟩
  obtain ⟨answered, left⟩ := reads (scripted (opens ++ loops)) (new seed) loops
    (supplies_scripted within words seed)
  have ended := total' (scripted (opens ++ loops)) _ [] (by rwa [List.append_nil])
  have head : (MazePage.head text text).length = 96 := by rw [MazePage.length_head, nine]
  rw [renderPage_eq, MazePage.length_html]
  dsimp only
  rw [answered]
  dsimp only
  rw [head, ended]
  have large := valid.someBytes.trans valid.bytes
  omega

/-- A budget that is not roomy is left by some page. -/
theorem exceeds_of_not_roomy {mintLink : Nat → List Char → List Char} (mints : MintsLinks mintLink)
    {budget : RenderBudget} (valid : budget.Valid) (tight : ¬ budget.Roomy) :
    ∃ crypto, ∀ seed, budget.maxBytes < (renderPage crypto seed budget mintLink).html.length := by
  have someLinks := valid.someLinks
  have links := valid.links
  have fewLinks := valid.fewLinks
  have large := valid.someBytes.trans valid.bytes
  by_cases largest : 110 + 1023 * budget.maxLinks ≤ budget.maxBytes
  · -- few links reserve too little for the last paragraph, and so do close bounds
    have close : budget.minLinks ≤ 4 ∨ budget.maxBytes ≤ budget.minBytes + 824 := by
      by_contra neither
      exact tight ⟨by omega, largest, by omega⟩
    obtain ⟨total, beyond, steps, brief, ends⟩ :
        ∃ total ≥ budget.maxBytes - 13, ∃ steps ≤ 3000, Ends mintLink
          (max (budget.maxBytes - (128 * budget.minLinks + 256)) budget.minBytes) budget.maxBytes
            budget.minLinks 96 total steps :=
      ends_unlinked mints someLinks (links.trans fewLinks) valid.fewBytes (by omega) (by omega)
        (by omega)
    exact exceeds_of_ends valid le_rfl links (Nat.le_max_right _ _) le_rfl beyond brief ends
  · obtain ⟨total, beyond, steps, brief, ends⟩ :
        ∃ total ≥ budget.maxBytes - 13, ∃ steps ≤ 3000,
          Ends mintLink budget.minBytes budget.maxBytes budget.maxLinks 96 total steps :=
      ends_linked mints (someLinks.trans links) fewLinks large (Nat.lt_of_not_le largest)
    exact exceeds_of_ends valid links le_rfl le_rfl (Nat.le_max_right _ _) beyond brief ends

/-- Every page that can be drawn is within its budget exactly when the budget is roomy. -/
theorem RenderBudget.kept_iff_roomy {mintLink : Nat → List Char → List Char}
    (mints : MintsLinks mintLink) {budget : RenderBudget} (valid : budget.Valid) :
    (∀ crypto seed, seed.length = 32 → (renderPage crypto seed budget mintLink).Within budget) ↔
      budget.Roomy := by
  constructor
  · intro kept
    by_contra tight
    obtain ⟨crypto, exceeds⟩ := exceeds_of_not_roomy mints valid tight
    have within := (kept crypto (List.replicate 32 0) List.length_replicate).maxBytes
    exact absurd (exceeds _) (Nat.not_lt_of_le within)
  · exact fun roomy crypto seed _ => within_of_roomy crypto mints valid roomy seed

/-! ### A budget that no page keeps -/

/-- Every paragraph but the last leaves the page below its upper bound. -/
theorem few_paragraphs {mintLink : Nat → List Char → List Char} (mints : MintsLinks mintLink)
    (crypto : MazeCrypto) {target maxBytes linksLeft length : Nat} (rng : HmacRng) :
    let drawn := paragraphs crypto mintLink target maxBytes linksLeft length rng
    drawn.length ≤ 1 ∨ length + 33 * (drawn.length - 1) < maxBytes - 64 := by
  dsimp only
  induction linksLeft, length, rng using paragraphs.induct crypto mintLink target maxBytes with
  | case1 linksLeft length rng goesOn drawn longer full =>
    rw [paragraphs, if_pos goesOn]
    dsimp only
    rw [if_pos full]
    exact Or.inl le_rfl
  | case2 linksLeft length rng goesOn drawn longer notFull inductionHypothesis =>
    obtain ⟨-, size, -⟩ := yields_length_paragraph crypto mints linksLeft (0 < linksLeft) rng
    have grown : length + 33 ≤ longer := Nat.add_le_add_left size length
    have below : longer < maxBytes - 64 := Nat.lt_of_not_le notFull
    rw [paragraphs, if_pos goesOn]
    dsimp only
    rw [if_neg notFull, List.length_cons, Nat.add_sub_cancel]
    refine Or.inr ?_
    show length + 33 * (paragraphs crypto mintLink target maxBytes (linksLeft - 1) longer
      drawn.2).length < maxBytes - 64
    omega
  | case3 linksLeft length rng done =>
    rw [paragraphs, if_neg done]
    exact Or.inl (Nat.zero_le 1)

/-- What the upper bound leaves of the links. -/
theorem few_links {mintLink : Nat → List Char → List Char} (mints : MintsLinks mintLink)
    (crypto : MazeCrypto) (seed : List UInt8) (budget : RenderBudget) :
    let links := (renderPage crypto seed budget mintLink).links
    links.length ≤ 1 ∨ 33 * (links.length - 1) < budget.maxBytes - 64 := by
  dsimp only
  rw [renderPage_eq]
  generalize opening crypto budget (new seed) = drawn
  obtain ⟨⟨linkCount, target, first, second⟩, rng⟩ := drawn
  have few : _ ∨ (MazePage.head first second).length + 33 * ((paragraphs crypto mintLink target
      budget.maxBytes linkCount (MazePage.head first second).length rng).length - 1) <
        budget.maxBytes - 64 := few_paragraphs mints crypto rng
  have fewer : (MazePage.links ⟨first, second, paragraphs crypto mintLink target budget.maxBytes
      linkCount (MazePage.head first second).length rng⟩).length ≤ _ := List.length_filterMap_le _ _
  dsimp only at fewer ⊢
  omega

namespace SamplePages

/-- Links of the right form. -/
def mintLink (_ : Nat) (path : List Char) : List Char :=
  '/' :: (List.replicate 20 'a' ++ '/' :: (List.replicate 93 'b' ++ '/' :: path))

theorem mints : MintsLinks mintLink :=
  ⟨List.replicate 20 'a', List.length_replicate,
    fun _ _ => ⟨List.replicate 93 'b', List.length_replicate, rfl⟩⟩

/-- The budget of `pages_respect_link_and_byte_budgets` is kept whatever is drawn. -/
theorem tested_kept :
    (RenderBudget.mk 8 16 8192 32768).Valid ∧ ∀ crypto seed, seed.length = 32 →
      (renderPage crypto seed ⟨8, 16, 8192, 32768⟩ mintLink).Within ⟨8, 16, 8192, 32768⟩ :=
  ⟨by decide,
    (RenderBudget.kept_iff_roomy mints (by decide)).mpr ⟨by decide, by decide, by decide⟩⟩

/-- Sixty-four links do not fit into a page of a kilobyte, whatever is drawn. -/
theorem kilobyte_not_kept :
    (RenderBudget.mk 64 64 1024 1024).Valid ∧ MintsLinks mintLink ∧
      ∀ crypto seed, ¬ (renderPage crypto seed ⟨64, 64, 1024, 1024⟩ mintLink).Within
        ⟨64, 64, 1024, 1024⟩ := by
  refine ⟨by decide, mints, fun crypto seed within => ?_⟩
  have enough := within.minLinks
  have few := few_links mints crypto seed ⟨64, 64, 1024, 1024⟩
  dsimp only at enough few
  omega

end SamplePages

end Bagel
