/-
This file proves that addresses are read back from their texts. A numeral is read up to the
first character that is no digit, so an IPv4 address is read as its four octets. The groups of
an IPv6 address are read up to the double colon or the end, and the groups that the double
colon stands for are zeros, because the printer leaves out a run of zeros only.
-/

import Bagel.Hosts

namespace Bagel

namespace Parser

/-! ### Numerals -/

theorem digitValue_digitChar {radix digit : Nat} (few : radix ≤ 16) (small : digit < radix) :
    digitValue radix digit.digitChar = some digit := by
  have every : ∀ digit : Fin 16, digitValue 16 digit.val.digitChar = some digit.val := by decide
  have read := every ⟨digit, Nat.lt_of_lt_of_le small few⟩
  obtain ⟨found, -⟩ := Option.filter_eq_some_iff.mp read
  exact Option.filter_eq_some_iff.mpr ⟨found, decide_eq_true small⟩

theorem digits_cons {radix digit : Nat} (few : radix ≤ 16) (small : digit < radix)
    (count value : Nat) (rest : List Char) :
    digits radix count value (digit.digitChar :: rest) =
      digits radix (count + 1) (value * radix + digit) rest := by
  rw [digits, digitValue_digitChar few small]

/-- A numeral is read to its end. -/
theorem digits_toDigits {radix : Nat} (large : 1 < radix) (few : radix ≤ 16)
    (number count value : Nat) (rest : List Char) :
    digits radix count value (Nat.toDigits radix number ++ rest) =
      digits radix (count + (Nat.toDigits radix number).length)
        (value * radix ^ (Nat.toDigits radix number).length + number) rest := by
  induction number using Nat.strongRecOn generalizing count value rest with
  | ind number inductionHypothesis =>
    rw [Nat.toDigits_eq_if large]
    split
    · next below =>
      rw [List.singleton_append, digits_cons few below, List.length_singleton, pow_one]
    · next above =>
      have last : number % radix < radix := Nat.mod_lt _ (by omega)
      rw [List.append_assoc, inductionHypothesis _ (Nat.div_lt_self (by omega) large),
        List.singleton_append, digits_cons few last, List.length_append, List.length_singleton,
        Nat.add_assoc, pow_succ, ← Nat.mul_assoc, Nat.add_mul, Nat.add_assoc,
        Nat.div_add_mod']

/-- What follows a numeral. -/
def Ends (radix : Nat) (rest : List Char) : Prop :=
  ∀ head ∈ rest.head?, digitValue radix head = none

theorem digits_of_ends {radix : Nat} {rest : List Char} (ends : Ends radix rest)
    (count value : Nat) : digits radix count value rest = ((count, value), rest) := by
  cases rest with
  | nil => rfl
  | cons head rest =>
    rw [digits, ends head rfl]

theorem ends_nil (radix : Nat) : Ends radix [] := fun _ absent => nomatch absent

theorem ends_cons {radix : Nat} {head : Char} (ends : digitValue radix head = none)
    (rest : List Char) : Ends radix (head :: rest) := by
  intro other first
  rw [← Option.some.inj first]
  exact ends

/-- Only zero is written with a zero in front. -/
theorem eq_zero_of_head?_toDigits {radix number : Nat} (large : 1 < radix) (few : radix ≤ 16)
    (leading : (Nat.toDigits radix number).head? = some '0') : number = 0 := by
  induction number using Nat.strongRecOn with
  | ind number inductionHypothesis =>
    rw [Nat.toDigits_eq_if large] at leading
    split at leading
    · next below =>
      have zero : number.digitChar = Nat.digitChar 0 := Option.some.inj leading
      exact Decimal.digitChar_inj (Nat.lt_of_lt_of_le below few) (by decide) zero
    · next above =>
      rw [List.head?_append_of_ne_nil _ Nat.toDigits_ne_nil] at leading
      have quotient := inductionHypothesis _ (Nat.div_lt_self (by omega) large) leading
      have positive : 0 < number / radix := Nat.div_pos (by omega) (by omega)
      omega

/-- A number is read back from its numeral. -/
theorem number_toDigits {radix maxDigits limit value : Nat} {allowZeroPrefix : Bool}
    {rest : List Char} (large : 1 < radix) (few : radix ≤ 16)
    (short : (Nat.toDigits radix value).length ≤ maxDigits) (small : value < limit)
    (ends : Ends radix rest) :
    number radix maxDigits limit allowZeroPrefix (Nat.toDigits radix value ++ rest) =
      some (value, rest) := by
  have positive := Nat.length_toDigits_pos (b := radix) (n := value)
  have plain : (!allowZeroPrefix && (Nat.toDigits radix value ++ rest).head? == some '0' &&
      decide (1 < (Nat.toDigits radix value).length)) = false := by
    by_contra padded
    simp only [Bool.not_eq_false, Bool.and_eq_true, beq_iff_eq, decide_eq_true_eq] at padded
    obtain ⟨⟨-, leading⟩, long⟩ := padded
    rw [List.head?_append_of_ne_nil _ Nat.toDigits_ne_nil] at leading
    rw [eq_zero_of_head?_toDigits large few leading, Nat.toDigits_zero] at long
    exact absurd long (by decide)
  have read : digits radix 0 0 (Nat.toDigits radix value ++ rest) =
      (((Nat.toDigits radix value).length, value), rest) := by
    rw [digits_toDigits large few, digits_of_ends ends, Nat.zero_mul, Nat.zero_add, Nat.zero_add]
  rw [number, read]
  dsimp only
  rw [if_neg (by omega), plain, if_neg Bool.false_ne_true, if_pos small]

/-- What is read and what is left make the text, and only digits are read. -/
theorem digits_read (radix count value : Nat) (text : List Char) :
    ∃ read, text = read ++ (digits radix count value text).2 ∧
      ∀ character ∈ read, (digitValue radix character).isSome = true := by
  induction text generalizing count value with
  | nil => exact ⟨[], rfl, fun _ member => nomatch member⟩
  | cons head rest inductionHypothesis =>
    rw [digits]
    cases first : digitValue radix head with
    | none => exact ⟨[], rfl, fun _ member => nomatch member⟩
    | some digit =>
      obtain ⟨read, whole, numeric⟩ := inductionHypothesis (count + 1) (value * radix + digit)
      refine ⟨head :: read, congrArg (head :: ·) whole, List.forall_mem_cons.mpr ⟨?_, numeric⟩⟩
      rw [first]
      rfl

theorem number_read {radix maxDigits limit value : Nat} {allowZeroPrefix : Bool}
    {text rest : List Char}
    (parsed : number radix maxDigits limit allowZeroPrefix text = some (value, rest)) :
    ∃ read, text = read ++ rest ∧
      ∀ character ∈ read, (digitValue radix character).isSome = true := by
  rw [number] at parsed
  have left := digits_read radix 0 0 text
  generalize digits radix 0 0 text = parts at parsed left
  dsimp only at parsed
  split at parsed
  · cases parsed
  split at parsed
  · cases parsed
  split at parsed
  · cases parsed
    exact left
  · cases parsed

theorem number_suffix {radix maxDigits limit value : Nat} {allowZeroPrefix : Bool}
    {text rest : List Char}
    (parsed : number radix maxDigits limit allowZeroPrefix text = some (value, rest)) :
    rest <:+ text := by
  obtain ⟨read, whole, -⟩ := number_read parsed
  exact ⟨read, whole.symm⟩

/-- There is no number without a digit in front. -/
theorem number_of_ends {radix maxDigits limit : Nat} {allowZeroPrefix : Bool} {text : List Char}
    (ends : Ends radix text) : number radix maxDigits limit allowZeroPrefix text = none := by
  rw [number, digits_of_ends ends]
  exact if_pos (Or.inl rfl)

/-! ### IPv4 -/

theorem number_octet {octet : Nat} {rest : List Char} (small : octet < 256) (ends : Ends 10 rest) :
    number 10 3 256 false (Nat.toDigits 10 octet ++ rest) = some (octet, rest) := by
  refine number_toDigits (by decide) (by decide) ?_ small ends
  rw [Nat.length_toDigits_le_iff (by decide) (by decide)]
  exact small.trans (by decide)

/-- An address is read back from its four octets. -/
theorem ipv4_dottedQuad (address : BitVec 32) {rest : List Char} (ends : Ends 10 rest) :
    ipv4 ((dottedQuad address).toList ++ rest) = some (address, rest) := by
  have dot (rest : List Char) : Ends 10 ('.' :: rest) := ends_cons (by decide) rest
  have octet (start : Nat) : (address.extractLsb' start 8).toNat < 256 :=
    (address.extractLsb' start 8).isLt
  have text : (dottedQuad address).toList ++ rest =
      Nat.toDigits 10 (address.extractLsb' 24 8).toNat ++ '.' ::
        (Nat.toDigits 10 (address.extractLsb' 16 8).toNat ++ '.' ::
          (Nat.toDigits 10 (address.extractLsb' 8 8).toNat ++ '.' ::
            (Nat.toDigits 10 (address.extractLsb' 0 8).toNat ++ rest))) := by
    have mark : ".".toList = ['.'] := rfl
    simp only [dottedQuad, String.toList_intercalate, Decimal.toList_toString, List.intercalate,
      List.intersperse, List.map_cons, List.map_nil, List.flatten_cons, List.flatten_nil, mark,
      List.append_assoc, List.cons_append, List.nil_append]
  have whole : BitVec.ofNat 32 ((((address.extractLsb' 24 8).toNat * 256 +
      (address.extractLsb' 16 8).toNat) * 256 + (address.extractLsb' 8 8).toNat) * 256 +
        (address.extractLsb' 0 8).toNat) = address := by
    apply BitVec.eq_of_toNat_eq
    have bounded := address.isLt
    simp only [BitVec.extractLsb'_toNat, Nat.shiftRight_eq_div_pow, BitVec.toNat_ofNat]
    omega
  rw [text, ipv4]
  simp only [separated, given, if_pos, if_neg one_ne_zero, OfNat.ofNat_ne_zero, if_false,
    number_octet (octet _) (dot _), number_octet (octet _) ends, Option.bind_eq_bind,
    Option.bind_some, whole]
  rfl

theorem ipv4_of_ends {text : List Char} (ends : Ends 10 text) : ipv4 text = none := by
  rw [ipv4, number_of_ends ends]
  rfl

/-- There is no address without dots. -/
theorem ipv4_of_dotless {text : List Char} (dotless : '.' ∉ text) : ipv4 text = none := by
  rw [ipv4]
  cases first : number 10 3 256 false text with
  | none => rfl
  | some read =>
    obtain ⟨octet, rest⟩ := read
    have left := number_suffix first
    have undotted : given '.' rest = none := by
      cases rest with
      | nil => rfl
      | cons head rest =>
        have other : head ≠ '.' := fun same => dotless (left.subset (same ▸ List.mem_cons_self))
        rw [given, if_neg other]
    have stop : separated '.' 1 (number 10 3 256 false) rest = none := by
      rw [separated, if_neg one_ne_zero, undotted, Option.bind_eq_bind, Option.bind_none]
    rw [Option.bind_eq_bind, Option.bind_some]
    dsimp only
    rw [stop, Option.bind_none]

/-- The characters of an IPv4 address. -/
def IsQuadCharacter (character : Char) : Prop :=
  character = '.' ∨ (digitValue 10 character).isSome = true

theorem separated_octet_read {index value : Nat} {text rest : List Char} (later : index ≠ 0)
    (parsed : separated '.' index (number 10 3 256 false) text = some (value, rest)) :
    ∃ read, text = read ++ rest ∧ ∀ character ∈ read, IsQuadCharacter character := by
  rw [separated, if_neg later, Option.bind_eq_bind] at parsed
  cases text with
  | nil => cases parsed
  | cons head text =>
    rw [given] at parsed
    split at parsed
    · next dot =>
      rw [Option.bind_some] at parsed
      obtain ⟨read, whole, numeric⟩ := number_read parsed
      refine ⟨head :: read, congrArg (head :: ·) whole, List.forall_mem_cons.mpr ⟨.inl dot, ?_⟩⟩
      exact fun character member => .inr (numeric character member)
    · cases parsed

/-- Nothing but digits and dots is read of an address. -/
theorem ipv4_read {text rest : List Char} {address : BitVec 32}
    (parsed : ipv4 text = some (address, rest)) :
    ∃ read, text = read ++ rest ∧ ∀ character ∈ read, IsQuadCharacter character := by
  simp only [ipv4, Option.bind_eq_bind, Option.bind_eq_some_iff, Prod.exists] at parsed
  obtain ⟨_, one, first, _, two, second, _, three, third, _, four, fourth, same⟩ := parsed
  cases same
  obtain ⟨read, whole, numeric⟩ := number_read first
  obtain ⟨read', whole', quad⟩ := separated_octet_read (by decide) second
  obtain ⟨read'', whole'', quad'⟩ := separated_octet_read (by decide) third
  obtain ⟨last, ending, quad''⟩ := separated_octet_read (by decide) fourth
  refine ⟨read ++ (read' ++ (read'' ++ last)), ?_, ?_⟩
  · rw [whole, whole', whole'', ending, List.append_assoc, List.append_assoc, List.append_assoc]
  · intro character member
    simp only [List.mem_append] at member
    rcases member with member | member | member | member
    · exact .inr (numeric character member)
    · exact quad character member
    · exact quad' character member
    · exact quad'' character member

end Parser

theorem length_dottedQuad_le_fifteen (address : BitVec 32) :
    (dottedQuad address).toList.length ≤ 15 := by
  have octet (start : Nat) :
      (Nat.toDigits 10 (address.extractLsb' start 8).toNat).length ≤ 3 := by
    rw [Nat.length_toDigits_le_iff (by decide) (by decide)]
    exact (address.extractLsb' start 8).isLt.trans (by decide)
  have one := octet 24
  have two := octet 16
  have three := octet 8
  have four := octet 0
  simp only [dottedQuad, String.toList_intercalate, Decimal.toList_toString, List.intercalate,
    List.intersperse, List.map_cons, List.map_nil, List.flatten_cons, List.flatten_nil,
    List.length_append, List.length_nil]
  have dot : ".".toList.length = 1 := by decide
  omega

theorem parseIpv4_dottedQuad (address : BitVec 32) :
    parseIpv4 (dottedQuad address).toList = some address := by
  have read := Parser.ipv4_dottedQuad address (Parser.ends_nil 10)
  rw [List.append_nil] at read
  rw [parseIpv4, if_pos (length_dottedQuad_le_fifteen address), Parser.whole, read]

/-- An IPv4 address is written with digits and dots. -/
theorem isQuadCharacter_of_parseIpv4 {text : List Char} {address : BitVec 32}
    (parsed : parseIpv4 text = some address) :
    ∀ character ∈ text, Parser.IsQuadCharacter character := by
  rw [parseIpv4] at parsed
  split at parsed
  · unfold Parser.whole at parsed
    split at parsed
    · next read =>
      obtain ⟨prior, whole, quad⟩ := Parser.ipv4_read read
      rw [List.append_nil] at whole
      rwa [whole]
    · cases parsed
  · cases parsed

/-! ### The run that is left out -/

/-- All segments of a run are zero. -/
def IsZeroRun (values : List Nat) (run : Nat × Nat) : Prop :=
  ∀ index, run.1 ≤ index → index < run.1 + run.2 → values[index]? = some 0

theorem isZeroRun_empty (values : List Nat) (start : Nat) : IsZeroRun values (start, 0) :=
  fun _ from_ below => absurd below (Nat.not_lt.mpr from_)

/-- Whatever run is found, it is one of zeros. -/
theorem isZeroRun_longestZeroRun (values : List Nat) {todo : List Nat} {position : Nat}
    {current longest : Nat × Nat} (left : values.drop position = todo)
    (here : 0 < current.2 → current.1 + current.2 = position)
    (zeros : IsZeroRun values current) (best : IsZeroRun values longest) :
    IsZeroRun values (longestZeroRun position current longest todo) := by
  induction todo generalizing position current longest with
  | nil => exact best
  | cons segment rest inductionHypothesis =>
    have next : values.drop (position + 1) = rest := by
      rw [← List.drop_drop, left, List.drop_one, List.tail_cons]
    have at_position : values[position]? = some segment := by
      rw [← List.head?_drop, left, List.head?_cons]
    rw [longestZeroRun]
    split
    · next zero =>
      subst zero
      dsimp only
      have grown : IsZeroRun values
          (if current.2 = 0 then (position, 1) else (current.1, current.2 + 1)) := by
        split
        · intro index from_ below
          have same : index = position := by omega
          rw [same, at_position]
        · next some =>
          intro index from_ below
          have here := here (by omega)
          by_cases last : index = position
          · rw [last, at_position]
          · exact zeros index from_ (by dsimp only at below; omega)
      have reaches : 0 < (if current.2 = 0 then (position, 1) else (current.1, current.2 + 1)).2 →
          (if current.2 = 0 then (position, 1) else (current.1, current.2 + 1)).1 +
            (if current.2 = 0 then (position, 1) else (current.1, current.2 + 1)).2 =
              position + 1 := by
        intro _
        split
        · rfl
        · next some =>
          have here := here (by omega)
          dsimp only
          omega
      generalize (if current.2 = 0 then (position, 1) else (current.1, current.2 + 1)) = run at *
      refine inductionHypothesis next reaches grown ?_
      split
      · exact grown
      · exact best
    · exact inductionHypothesis next (fun positive => absurd positive (Nat.lt_irrefl 0))
        (isZeroRun_empty values 0) best

/-- A run of zeros is what stands between the front and the back. -/
theorem eq_of_isZeroRun {values : List Nat} {run : Nat × Nat} (some : 0 < run.2)
    (zeros : IsZeroRun values run) : run.1 + run.2 ≤ values.length ∧
      values.take run.1 ++ List.replicate run.2 0 ++ values.drop (run.1 + run.2) = values := by
  have last := zeros (run.1 + run.2 - 1) (by omega) (by omega)
  obtain ⟨within, -⟩ := List.getElem?_eq_some_iff.mp last
  have fits : run.1 + run.2 ≤ values.length := by omega
  refine ⟨fits, ?_⟩
  have middle : List.replicate run.2 0 = (values.drop run.1).take run.2 := by
    refine List.ext_getElem? fun index => ?_
    rw [List.getElem?_replicate, List.getElem?_take, List.getElem?_drop]
    split
    · next inside => rw [zeros (run.1 + index) (Nat.le_add_right _ _) (by omega)]
    · rfl
  rw [middle, ← List.drop_drop, List.append_assoc, List.take_append_drop, List.take_append_drop]

/-! ### IPv6 -/

namespace Parser

/-- The text of groups, with a colon in front of all but the first. -/
def groupsText : (index : Nat) → List Nat → List Char
  | _, [] => []
  | index, value :: rest =>
    (if index = 0 then [] else [':']) ++ (Nat.toDigits 16 value ++ groupsText (index + 1) rest)

theorem groupsText_succ (index : Nat) (values : List Nat) :
    groupsText (index + 1) values = groupsText 1 values := by
  induction values generalizing index with
  | nil => rfl
  | cons value rest inductionHypothesis =>
    rw [groupsText, groupsText, if_neg (Nat.succ_ne_zero index), if_neg one_ne_zero,
      inductionHypothesis (index + 1), inductionHypothesis 1]

theorem toList_hexSegments (values : List Nat) :
    (hexSegments values).toList = groupsText 0 values := by
  rw [hexSegments, String.toList_intercalate]
  have mark : ":".toList = [':'] := rfl
  induction values with
  | nil => rfl
  | cons value rest inductionHypothesis =>
    cases rest with
    | nil => simp [groupsText]
    | cons other rest =>
      rw [List.map_cons, List.map_cons] at inductionHypothesis ⊢
      rw [List.map_cons, List.map_cons, List.intercalate_cons_cons]
      rw [inductionHypothesis]
      rw [groupsText, groupsText, groupsText, if_pos rfl, if_neg (Nat.succ_ne_zero 0), mark,
        String.toList_ofList, groupsText_succ (0 + 1)]
      simp only [List.append_assoc, List.nil_append, List.singleton_append]

/-- Nothing but the double colon comes after the groups. -/
inductive Stops : List Char → Prop where
  | ended : Stops []
  | double (rest : List Char) : Stops (':' :: ':' :: rest)

theorem Stops.ends {rest : List Char} (stops : Stops rest) : Ends 16 rest := by
  cases stops with
  | ended => exact ends_nil 16
  | double rest => exact ends_cons (by decide) _

theorem separated_of_stops {rest : List Char} (stops : Stops rest) (index : Nat) :
    separated ':' index (number 16 4 65536 true) rest = none := by
  unfold separated
  split
  · exact number_of_ends stops.ends
  · cases stops with
    | ended => rfl
    | double rest =>
      rw [given, if_pos rfl, Option.bind_eq_bind, Option.bind_some]
      exact number_of_ends (ends_cons (by decide) _)

theorem separated_of_dotless {text : List Char} (dotless : '.' ∉ text) (index : Nat) :
    separated ':' index ipv4 text = none := by
  unfold separated
  split
  · exact ipv4_of_dotless dotless
  · cases text with
    | nil => rfl
    | cons head rest =>
      rw [given]
      split
      · rw [Option.bind_eq_bind, Option.bind_some]
        exact ipv4_of_dotless fun member => dotless (List.mem_cons_of_mem _ member)
      · rfl

theorem dot_notMem_groupsText (index : Nat) (values : List Nat) :
    '.' ∉ groupsText index values := by
  induction values generalizing index with
  | nil => exact List.not_mem_nil
  | cons value rest inductionHypothesis =>
    rw [groupsText, List.mem_append, List.mem_append, not_or, not_or]
    refine ⟨?_, fun member => ?_, inductionHypothesis (index + 1)⟩
    · split <;> decide
    · obtain ⟨digit, small, same⟩ := Decimal.exists_of_mem_toDigits (by decide) member
      have never : ∀ digit : Fin 16, '.' ≠ digit.val.digitChar := by decide
      exact never ⟨digit, small⟩ same

/-- What comes after a group. -/
theorem ends_groupsText {rest : List Char} (stops : Stops rest) (index : Nat)
    (values : List Nat) : Ends 16 (groupsText (index + 1) values ++ rest) := by
  cases values with
  | nil => exact stops.ends
  | cons value others =>
    rw [groupsText, if_neg (Nat.succ_ne_zero index)]
    exact ends_cons (by decide) _

/-- Groups are read back from their text. -/
theorem groups_groupsText {rest : List Char} (stops : Stops rest) (dotless : '.' ∉ rest)
    {values : List Nat} (small : ∀ value ∈ values, value < 65536) {room : Nat}
    (fits : values.length ≤ room) (index : Nat) :
    groups room index (groupsText index values ++ rest) = ((values, false), rest) := by
  induction values generalizing room index with
  | nil =>
    cases room with
    | zero => rfl
    | succ room =>
      rw [groupsText, List.nil_append, groups, separated_of_dotless dotless, ite_self]
      dsimp only
      rw [separated_of_stops stops]
  | cons value others inductionHypothesis =>
    obtain ⟨room, rfl⟩ : ∃ fewer, room = fewer + 1 :=
      Nat.exists_eq_add_one.mpr (Nat.lt_of_lt_of_le (Nat.succ_pos _) fits)
    obtain ⟨below, othersSmall⟩ := List.forall_mem_cons.mp small
    have undotted : '.' ∉ groupsText index (value :: others) ++ rest := by
      rw [List.mem_append, not_or]
      exact ⟨dot_notMem_groupsText index _, dotless⟩
    have read : separated ':' index (number 16 4 65536 true)
        (groupsText index (value :: others) ++ rest) =
          some (value, groupsText (index + 1) others ++ rest) := by
      have digits : number 16 4 65536 true
          (Nat.toDigits 16 value ++ (groupsText (index + 1) others ++ rest)) =
            some (value, groupsText (index + 1) others ++ rest) := by
        refine number_toDigits (by decide) (by decide) ?_ below (ends_groupsText stops index others)
        rw [Nat.length_toDigits_le_iff (by decide) (by decide)]
        exact below
      unfold separated
      split
      · next first =>
        rw [groupsText, if_pos first, List.nil_append, List.append_assoc]
        exact digits
      · next later =>
        rw [groupsText, if_neg later, List.append_assoc, List.append_assoc, List.singleton_append,
          given, if_pos rfl, Option.bind_eq_bind, Option.bind_some]
        exact digits
    rw [groups, separated_of_dotless undotted, ite_self]
    dsimp only
    rw [read]
    dsimp only
    rw [inductionHypothesis othersSmall (Nat.le_of_succ_le_succ fits)]

/-- An address is put together from its segments. -/
theorem ofGroups_segments (address : BitVec 128) : ofGroups (segments address) = address := by
  apply BitVec.eq_of_toNat_eq
  have bounded := address.isLt
  simp only [ofGroups, segments, List.map_cons, List.map_nil, List.foldl_cons, List.foldl_nil,
    BitVec.extractLsb'_toNat, Nat.shiftRight_eq_div_pow, BitVec.toNat_ofNat]
  have top : 0 * 65536 + address.toNat / 2 ^ 112 % 2 ^ 16 = address.toNat / 2 ^ 112 := by
    rw [Nat.zero_mul, Nat.zero_add]
    exact Nat.mod_eq_of_lt (Nat.div_lt_of_lt_mul bounded)
  -- A segment is put after the ones above it.
  have joined : ∀ above start, above = start + 16 →
      address.toNat / 2 ^ above * 65536 + address.toNat / 2 ^ start % 2 ^ 16 =
        address.toNat / 2 ^ start := by
    rintro _ start rfl
    rw [Nat.pow_add, ← Nat.div_div_eq_div_mul]
    exact Nat.div_add_mod' _ _
  rw [top, joined 112 96 rfl, joined 96 80 rfl, joined 80 64 rfl, joined 64 48 rfl,
    joined 48 32 rfl, joined 32 16 rfl, joined 16 0 rfl, Nat.pow_zero, Nat.div_one]
  exact Nat.mod_eq_of_lt bounded

/-- Groups with nothing left out. -/
theorem ipv6_hexSegments {values : List Nat} (small : ∀ value ∈ values, value < 65536)
    (eight : values.length = 8) :
    ipv6 (hexSegments values).toList = some (ofGroups values, []) := by
  have read := groups_groupsText Stops.ended List.not_mem_nil small (Nat.le_of_eq eight) 0
  rw [List.append_nil] at read
  rw [toList_hexSegments, ipv6, read]
  exact if_pos eight

/-- Groups around a double colon. -/
theorem ipv6_double {front back : List Nat} (small : ∀ value ∈ front ++ back, value < 65536)
    (few : front.length + back.length < 8) :
    ipv6 ((hexSegments front).toList ++ ':' :: ':' :: (hexSegments back).toList) =
      some (ofGroups (front ++ List.replicate (8 - front.length - back.length) 0 ++ back), []) := by
  have dotless : '.' ∉ ':' :: ':' :: groupsText 0 back := by
    simp only [List.mem_cons, not_or]
    exact ⟨by decide, by decide, dot_notMem_groupsText 0 back⟩
  have first := groups_groupsText (Stops.double (groupsText 0 back)) dotless
    (fun value member => small value (List.mem_append_left _ member))
    (show front.length ≤ 8 by omega) 0
  have second := groups_groupsText Stops.ended List.not_mem_nil
    (fun value member => small value (List.mem_append_right _ member))
    (show back.length ≤ 7 - front.length by omega) 0
  rw [List.append_nil] at second
  rw [toList_hexSegments, toList_hexSegments, ipv6, first]
  dsimp only
  rw [if_neg (by omega), if_neg Bool.false_ne_true, given, if_pos rfl, Option.bind_eq_bind,
    Option.bind_some]
  dsimp only
  rw [given, if_pos rfl, Option.bind_some]
  dsimp only
  rw [second]
  rfl

/-- An IPv4 address behind its mark. -/
theorem ipv6_mapped (address : BitVec 32) :
    ipv6 ("::ffff:" ++ dottedQuad address).toList =
      some (ofGroups [0, 0, 0, 0, 0, 65535, (address.extractLsb' 16 16).toNat,
        (address.extractLsb' 0 16).toNat], []) := by
  have text : ("::ffff:" ++ dottedQuad address).toList =
      ':' :: ':' :: ('f' :: 'f' :: 'f' :: 'f' :: (':' :: (dottedQuad address).toList)) := by
    rw [String.toList_append]
    rfl
  have colon (rest : List Char) : Ends 10 (':' :: rest) := ends_cons (by decide) rest
  have first (rest : List Char) : groups 8 0 (':' :: rest) = (([], false), ':' :: rest) := by
    rw [groups, if_pos (by decide), separated, if_pos rfl, ipv4_of_ends (colon rest)]
    dsimp only
    rw [separated, if_pos rfl, number_of_ends (ends_cons (by decide) rest)]
  have mark : number 16 4 65536 true ('f' :: 'f' :: 'f' :: 'f' :: ':' ::
      (dottedQuad address).toList) = some (65535, ':' :: (dottedQuad address).toList) := by
    have numeral : Nat.toDigits 16 65535 = ['f', 'f', 'f', 'f'] := by decide
    have ends : Ends 16 (':' :: (dottedQuad address).toList) := ends_cons (by decide) _
    have read : number 16 4 65536 true
        (Nat.toDigits 16 65535 ++ ':' :: (dottedQuad address).toList) =
          some (65535, ':' :: (dottedQuad address).toList) := by
      refine number_toDigits (by decide) (by decide) ?_ (by decide) ends
      rw [numeral]
      decide
    rw [numeral] at read
    exact read
  have quad : ipv4 (dottedQuad address).toList = some (address, []) := by
    have read := ipv4_dottedQuad address (ends_nil 10)
    rwa [List.append_nil] at read
  have second : groups 7 0 ('f' :: 'f' :: 'f' :: 'f' :: ':' :: (dottedQuad address).toList) =
      (([65535, (address.extractLsb' 16 16).toNat, (address.extractLsb' 0 16).toNat], true),
        []) := by
    rw [groups, if_pos (by decide), separated, if_pos rfl,
      ipv4_of_ends (ends_cons (by decide) _)]
    dsimp only
    rw [separated, if_pos rfl, mark]
    dsimp only
    rw [groups, if_pos (by decide), separated, if_neg (by decide), given, if_pos rfl,
      Option.bind_eq_bind, Option.bind_some]
    dsimp only
    rw [quad]
  rw [text, ipv6, first]
  dsimp only
  rw [if_neg (by decide), if_neg Bool.false_ne_true, given, if_pos rfl, Option.bind_eq_bind,
    Option.bind_some]
  dsimp only
  rw [given, if_pos rfl, Option.bind_some]
  dsimp only
  rw [List.length_nil, second]
  rfl

end Parser

/-- The three forms of the text of an IPv6 address: the dotted quad behind its mark, the groups
around a run of zeros that is left out, and all groups. -/
theorem colonHex_cases (address : BitVec 128) :
    (address.extractLsb' 32 96 = 0xffff#96 ∧
        colonHex address = "::ffff:" ++ dottedQuad (address.extractLsb' 0 32)) ∨
      (∃ front back, front.length + back.length < 8 ∧
        front ++ List.replicate (8 - front.length - back.length) 0 ++ back = segments address ∧
        (colonHex address).toList =
          (hexSegments front).toList ++ ':' :: ':' :: (hexSegments back).toList) ∨
      colonHex address = hexSegments (segments address) := by
  have eight : (segments address).length = 8 := rfl
  unfold colonHex
  split
  · next mapped => exact .inl ⟨mapped, rfl⟩
  · dsimp only
    split
    · next long =>
      have zeros : IsZeroRun (segments address)
          (longestZeroRun 0 (0, 0) (0, 0) (segments address)) :=
        isZeroRun_longestZeroRun (segments address) (by rw [List.drop_zero])
          (fun positive => absurd positive (Nat.lt_irrefl 0)) (isZeroRun_empty _ 0)
          (isZeroRun_empty _ 0)
      generalize longestZeroRun 0 (0, 0) (0, 0) (segments address) = run at long zeros
      obtain ⟨fits, whole⟩ := eq_of_isZeroRun (by omega) zeros
      have front : ((segments address).take run.1).length = run.1 :=
        List.length_take_of_le (by omega)
      have back : ((segments address).drop (run.1 + run.2)).length = 8 - (run.1 + run.2) :=
        List.length_drop
      have middle : 8 - ((segments address).take run.1).length -
          ((segments address).drop (run.1 + run.2)).length = run.2 := by omega
      have mark : "::".toList = [':', ':'] := rfl
      refine .inr (.inl ⟨(segments address).take run.1, (segments address).drop (run.1 + run.2),
        by omega, by rw [middle, whole], ?_⟩)
      rw [String.toList_append, String.toList_append, mark, List.append_assoc,
        List.cons_append, List.cons_append, List.nil_append]
    · exact .inr (.inr rfl)

namespace Parser

theorem ipv6_colonHex (address : BitVec 128) :
    ipv6 (colonHex address).toList = some (address, []) := by
  have small : ∀ value ∈ segments address, value < 65536 := fun value => lt_of_mem_segments
  rcases colonHex_cases address with ⟨mapped, text⟩ | ⟨front, back, few, whole, text⟩ | text
  · have same : ofGroups [0, 0, 0, 0, 0, 65535,
        ((address.extractLsb' 0 32).extractLsb' 16 16).toNat,
        ((address.extractLsb' 0 32).extractLsb' 0 16).toNat] = address := by
      have mark := congrArg BitVec.toNat mapped
      have bounded := address.isLt
      apply BitVec.eq_of_toNat_eq
      simp only [BitVec.extractLsb'_toNat, Nat.shiftRight_eq_div_pow, BitVec.toNat_ofNat] at mark
      simp only [ofGroups, List.foldl_cons, List.foldl_nil, BitVec.extractLsb'_toNat,
        Nat.shiftRight_eq_div_pow, BitVec.toNat_ofNat]
      omega
    rw [text, ipv6_mapped, same]
  · have kept : ∀ value ∈ front ++ back, value < 65536 := by
      intro value member
      refine small value (whole ▸ ?_)
      rcases List.mem_append.mp member with inFront | inBack
      · exact List.mem_append_left _ (List.mem_append_left _ inFront)
      · exact List.mem_append_right _ inBack
    rw [text, ipv6_double kept few, whole, ofGroups_segments]
  · rw [text, ipv6_hexSegments small rfl, ofGroups_segments]

/-- There is no IPv6 address without a colon. -/
theorem ipv6_of_colonless {text : List Char} (colonless : ':' ∉ text) : ipv6 text = none := by
  have ungiven {rest : List Char} (absent : ':' ∉ rest) : given ':' rest = none := by
    cases rest with
    | nil => rfl
    | cons head rest =>
      have other : head ≠ ':' := fun same => absent (same ▸ List.mem_cons_self)
      rw [given, if_neg other]
  have unseparated {Value : Type} {inner : Parser Value} {rest : List Char}
      (absent : ':' ∉ rest) : separated ':' 1 inner rest = none := by
    rw [separated, if_neg one_ne_zero, ungiven absent, Option.bind_eq_bind, Option.bind_none]
  cases quad : separated ':' 0 ipv4 text with
  | some read =>
    obtain ⟨address, rest⟩ := read
    have front : groups 8 0 text = (([(address.extractLsb' 16 16).toNat,
        (address.extractLsb' 0 16).toNat], true), rest) := by
      rw [groups, if_pos (by decide), quad]
    rw [ipv6, front]
    rfl
  | none =>
    cases first : separated ':' 0 (number 16 4 65536 true) text with
    | none =>
      have front : groups 8 0 text = (([], false), text) := by
        rw [groups, if_pos (by decide), quad]
        dsimp only
        rw [first]
      rw [ipv6, front]
      dsimp only
      rw [if_neg (by decide), if_neg Bool.false_ne_true, ungiven colonless]
      rfl
    | some read =>
      obtain ⟨group, rest⟩ := read
      rw [separated, if_pos rfl] at first
      have absent : ':' ∉ rest := fun member => colonless ((number_suffix first).subset member)
      have others : groups 7 1 rest = (([], false), rest) := by
        rw [groups, if_pos (by decide), unseparated absent, unseparated absent]
      have front : groups 8 0 text = (([group], false), rest) := by
        rw [groups, if_pos (by decide), quad]
        dsimp only
        rw [separated, if_pos rfl, first]
        dsimp only
        rw [others]
      rw [ipv6, front]
      dsimp only
      have one : [group].length ≠ 8 := by
        rw [List.length_singleton]
        decide
      rw [if_neg one, if_neg Bool.false_ne_true, ungiven absent]
      rfl

end Parser

theorem colon_mem_of_parseIpv6 {text : List Char} {address : BitVec 128}
    (parsed : parseIpv6 text = some address) : ':' ∈ text := by
  by_contra colonless
  rw [parseIpv6, Parser.whole, Parser.ipv6_of_colonless colonless] at parsed
  cases parsed

/-- No text is an address of both kinds. -/
theorem parseIpv4_of_colon {text : List Char} (colon : ':' ∈ text) : parseIpv4 text = none := by
  cases parsed : parseIpv4 text with
  | none => rfl
  | some address =>
    have quad := isQuadCharacter_of_parseIpv4 parsed ':' colon
    exact absurd quad (by unfold Parser.IsQuadCharacter; decide)

theorem length_colonHex_le (address : BitVec 128) : (colonHex address).toList.length ≤ 40 := by
  have small : ∀ value ∈ segments address, value < 65536 := fun value => lt_of_mem_segments
  have eight : (segments address).length = 8 := rfl
  rcases colonHex_cases address with ⟨-, text⟩ | ⟨front, back, few, whole, text⟩ | text
  · have mark : "::ffff:".toList.length = 7 := by decide
    have quad := length_dottedQuad_le (address.extractLsb' 0 32)
    rw [text, String.toList_append, List.length_append]
    omega
  · have frontShort : (hexSegments front).toList.length ≤ 5 * front.length :=
      length_hexSegments_le fun value member =>
        small value (whole ▸ List.mem_append_left _ (List.mem_append_left _ member))
    have backShort : (hexSegments back).toList.length ≤ 5 * back.length :=
      length_hexSegments_le fun value member =>
        small value (whole ▸ List.mem_append_right _ member)
    rw [text, List.length_append, List.length_cons, List.length_cons]
    omega
  · have short := length_hexSegments_le small
    rw [text]
    omega

theorem parseIpv6_colonHex (address : BitVec 128) :
    parseIpv6 (colonHex address).toList = some address := by
  rw [parseIpv6, Parser.whole, Parser.ipv6_colonHex]

/-- An address is read back from its text. -/
theorem parseIp_text (address : IpAddr) : parseIp address.text.toList = some address := by
  cases address with
  | v4 address =>
    rw [IpAddr.text, parseIp, parseIpv4_dottedQuad]
    rfl
  | v6 address =>
    have read := parseIpv6_colonHex address
    rw [IpAddr.text, parseIp, parseIpv4_of_colon (colon_mem_of_parseIpv6 read), read]
    rfl

/-- Two addresses never share a text. -/
theorem IpAddr.text_injective : Function.Injective IpAddr.text := by
  intro left right same
  have read := parseIp_text left
  rw [same, parseIp_text right] at read
  exact (Option.some.inj read).symm

/-! ### Addresses with something behind or around them -/

namespace Parser

theorem digits_append {radix : Nat} {more : List Char} (ends : Ends radix more)
    (count value : Nat) (text : List Char) : digits radix count value (text ++ more) =
      ((digits radix count value text).1, (digits radix count value text).2 ++ more) := by
  induction text generalizing count value with
  | nil => exact digits_of_ends ends count value
  | cons head rest inductionHypothesis =>
    rw [List.cons_append, digits, digits]
    cases digitValue radix head with
    | none => rfl
    | some digit => exact inductionHypothesis _ _

/-- What follows a number makes no difference to it. -/
theorem number_append {radix maxDigits limit value : Nat} {allowZeroPrefix : Bool}
    {text rest more : List Char} (ends : Ends radix more)
    (parsed : number radix maxDigits limit allowZeroPrefix text = some (value, rest)) :
    number radix maxDigits limit allowZeroPrefix (text ++ more) = some (value, rest ++ more) := by
  cases text with
  | nil =>
    rw [number_of_ends (ends_nil radix)] at parsed
    cases parsed
  | cons head text =>
    have first : (head :: text ++ more).head? = (head :: text).head? := rfl
    rw [number, digits_append ends, first]
    rw [number] at parsed
    generalize digits radix 0 0 (head :: text) = parts at parsed ⊢
    dsimp only at parsed ⊢
    split at parsed
    · cases parsed
    · next counted =>
      split at parsed
      · cases parsed
      · next plain =>
        split at parsed
        · next small =>
          cases parsed
          rw [if_neg counted, if_neg plain, if_pos small]
        · cases parsed

theorem separated_octet_append {index value : Nat} {text rest more : List Char}
    (later : index ≠ 0) (ends : Ends 10 more)
    (parsed : separated '.' index (number 10 3 256 false) text = some (value, rest)) :
    separated '.' index (number 10 3 256 false) (text ++ more) = some (value, rest ++ more) := by
  rw [separated, if_neg later, Option.bind_eq_bind] at parsed ⊢
  cases text with
  | nil => cases parsed
  | cons head text =>
    rw [given] at parsed
    split at parsed
    · next dot =>
      rw [Option.bind_some] at parsed
      rw [List.cons_append, given, if_pos dot, Option.bind_some]
      exact number_append ends parsed
    · cases parsed

theorem ipv4_append {text rest more : List Char} {address : BitVec 32} (ends : Ends 10 more)
    (parsed : ipv4 text = some (address, rest)) :
    ipv4 (text ++ more) = some (address, rest ++ more) := by
  simp only [ipv4, Option.bind_eq_bind, Option.bind_eq_some_iff, Prod.exists] at parsed ⊢
  obtain ⟨one, afterOne, first, two, afterTwo, second, three, afterThree, third, four, afterFour,
    fourth, last⟩ := parsed
  cases last
  exact ⟨one, afterOne ++ more, number_append ends first,
    two, afterTwo ++ more, separated_octet_append (by decide) ends second,
    three, afterThree ++ more, separated_octet_append (by decide) ends third,
    four, rest ++ more, separated_octet_append (by decide) ends fourth, rfl⟩

end Parser

theorem ipv4_of_parseIpv4 {text : List Char} {address : BitVec 32}
    (parsed : parseIpv4 text = some address) : Parser.ipv4 text = some (address, []) := by
  rw [parseIpv4, Parser.whole] at parsed
  split at parsed
  · split at parsed
    · next read =>
      cases parsed
      exact read
    · cases parsed
  · cases parsed

/-- An address with a dot behind it is no address. -/
theorem parseIpv4_with_dot {text : List Char} {address : BitVec 32}
    (parsed : parseIpv4 text = some address) : parseIpv4 (text ++ ['.']) = none := by
  have dotted : Parser.ipv4 (text ++ ['.']) = some (address, ['.']) :=
    Parser.ipv4_append (Parser.ends_cons (by decide) []) (ipv4_of_parseIpv4 parsed)
  rw [parseIpv4, Parser.whole, dotted]
  exact ite_self none

/-- An address with a port is no address. -/
theorem parseIp_with_port {text port : List Char} {address : BitVec 32}
    (parsed : parseIpv4 text = some address) : parseIp (text ++ ':' :: port) = none := by
  have whole : Parser.ipv4 text = some (address, []) := ipv4_of_parseIpv4 parsed
  have colon : ':' ∈ text ++ ':' :: port := List.mem_append_right _ List.mem_cons_self
  have front : Parser.groups 8 0 (text ++ ':' :: port) =
      (([(address.extractLsb' 16 16).toNat, (address.extractLsb' 0 16).toNat], true),
        ':' :: port) := by
    rw [Parser.groups, if_pos (by decide), Parser.separated, if_pos rfl,
      Parser.ipv4_append (Parser.ends_cons (by decide) port) whole]
    rfl
  have embedded : Parser.ipv6 (text ++ ':' :: port) = none := by
    rw [Parser.ipv6, front]
    rfl
  rw [parseIp, parseIpv4_of_colon colon, parseIpv6, Parser.whole, embedded]
  rfl

/-- An address in brackets is no address. -/
theorem parseIp_in_brackets (text : List Char) : parseIp ('[' :: text) = none := by
  have quad : parseIpv4 ('[' :: text) = none := by
    rw [parseIpv4, Parser.whole, Parser.ipv4_of_ends (Parser.ends_cons (by decide) text), ite_self]
  have front : Parser.groups 8 0 ('[' :: text) = (([], false), '[' :: text) := by
    rw [Parser.groups, if_pos (by decide), Parser.separated, if_pos rfl,
      Parser.ipv4_of_ends (Parser.ends_cons (by decide) text)]
    dsimp only
    rw [Parser.separated, if_pos rfl, Parser.number_of_ends (Parser.ends_cons (by decide) text)]
  have groups : Parser.ipv6 ('[' :: text) = none := by
    rw [Parser.ipv6, front]
    rfl
  rw [parseIp, quad, parseIpv6, Parser.whole, groups]
  rfl

end Bagel
