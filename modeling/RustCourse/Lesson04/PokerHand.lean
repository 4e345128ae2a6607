import RustCourse.Lib.Fallible
import RustCourse.Lib.Text

/-!
# Poker hands

`Hand::parse` of `lessons/04/exercises/tests/09_poker_hand_value.rs`.  The length of the
input is tested in bytes and the loop goes over characters, so the array of five cards behind
it is not there for every input that has passed the test.  It is there behind the loop: a
character that the loop accepts is one of thirteen, all of them ASCII.

## Strategy

A card is one of thirteen, so what `parse_card` does is a finite table (`deck`), and everything
about a character is decided by a run over the ASCII characters (`parseCard_ascii`).  The loop
over the characters succeeds exactly if every one of them is in the table.  The length is first
tested in bytes; that the characters are as many is a consequence of the loop and not of the
test (`len_of_denoted`), so the conversion to the array cannot panic behind it.
-/

namespace RustCourse.Lesson04

open Fallible Str

/-! ## Cards and hands -/

/-- A card, with the number of a numeric one. -/
inductive Card
  | numeric (value : UInt8)
  | jack
  | queen
  | king
  | ace
  deriving DecidableEq, Repr

/-- `Hand`, with the cards in the order of the text. -/
structure Hand where
  cards : Vector Card 5
  deriving DecidableEq, Repr

/-! ## The parser -/

/-- One turn of the loop of `parse`. -/
def parseCard (c : Char) : Except String Card :=
  match c with
  | 'A' => .ok .ace
  | 'K' => .ok .king
  | 'Q' => .ok .queen
  | 'J' => .ok .jack
  | 'T' => .ok (.numeric 10)
  | c =>
      if c.isDigit then
        let digit := UInt8.ofNat (c.toNat - '0'.toNat)
        if digit < 2 then .error ("Invalid card value " ++ toString digit.toNat)
        else .ok (.numeric digit)
      else .error ("Invalid card " ++ c.toString)

/-- The loop of `parse` over the characters. -/
def parseCards (input : Str) : Except String (List Card) :=
  input.foldlM (fun cards c => parseCard c >>= fun card => pure (cards ++ [card])) []

/-- `cards.try_into().unwrap()` -/
def toHand (cards : List Card) : Option Hand :=
  if h : cards.toArray.size = 5 then some ⟨⟨cards.toArray, h⟩⟩ else none

/-- `Hand::parse`, which is undefined where it panics. -/
def parse (input : Str) : Option (Except String Hand) :=
  if len input ≠ 5 then
    some (.error "Wrong hand length. It has to contain exactly 5 cards")
  else
    match parseCards input with
    | .error message => some (.error message)
    | .ok cards => (toHand cards).map .ok

/-! ## Cards and their characters -/

/-- The cards, each with the character that stands for it. -/
def deck : List (Char × Card) :=
  [('2', .numeric 2), ('3', .numeric 3), ('4', .numeric 4), ('5', .numeric 5), ('6', .numeric 6),
    ('7', .numeric 7), ('8', .numeric 8), ('9', .numeric 9), ('T', .numeric 10), ('J', .jack),
    ('Q', .queen), ('K', .king), ('A', .ace)]

/-- The character stands for the card. -/
def Denotes (c : Char) (card : Card) : Prop := deck.lookup c = some card

/-- The characters that stand for a card. -/
def symbols : List Char := deck.map Prod.fst

private theorem parseCard_ascii :
    ∀ n < 128, (parseCard (Char.ofNat n)).toOption = deck.lookup (Char.ofNat n) := by
  decide

private theorem toNat_lt_of_mem_symbols : ∀ c ∈ symbols, c.toNat < 128 := by
  have h : symbols.all fun c => c.toNat < 128 := by decide
  simpa only [List.all_eq_true, decide_eq_true_iff] using h

theorem lookup_eq_none {c : Char} (h : c ∉ symbols) : deck.lookup c = none := by
  rw [List.lookup_eq_none_iff]
  intro p hp
  rw [bne_iff_ne]
  rintro rfl
  exact h (List.mem_map_of_mem hp)

private theorem parseCard_of_le {c : Char} (h : 128 ≤ c.toNat) : (parseCard c).toOption = none := by
  have hdigit : c.isDigit = false := by
    rw [Char.isDigit, Bool.and_eq_false_iff]
    right
    rw [decide_eq_false_iff_not]
    intro hle
    have hle' : c.toNat ≤ 57 := hle
    omega
  unfold parseCard
  split
  · exact absurd h (by decide)
  · exact absurd h (by decide)
  · exact absurd h (by decide)
  · exact absurd h (by decide)
  · exact absurd h (by decide)
  · rw [hdigit]
    rfl

/-- The loop knows the cards by their characters. -/
theorem toOption_parseCard (c : Char) : (parseCard c).toOption = deck.lookup c := by
  by_cases hascii : c.toNat < 128
  · have h := parseCard_ascii c.toNat hascii
    rwa [Char.ofNat_toNat] at h
  · rw [parseCard_of_le (Nat.not_lt.mp hascii), lookup_eq_none]
    exact fun hmem => hascii (toNat_lt_of_mem_symbols c hmem)

theorem parseCard_iff {c : Char} {card : Card} : parseCard c = .ok card ↔ Denotes c card := by
  rw [Denotes, ← toOption_parseCard]
  cases parseCard c with
  | error message => simp [Except.toOption]
  | ok card' => simp [Except.toOption]

theorem exists_denotes_iff {c : Char} : (∃ card, Denotes c card) ↔ c ∈ symbols := by
  constructor
  · rintro ⟨card, hcard⟩
    by_contra hmem
    exact nomatch (lookup_eq_none hmem).symm.trans hcard
  · have h : symbols.all fun c => (deck.lookup c).isSome := by decide
    intro hmem
    exact Option.isSome_iff_exists.mp (List.all_eq_true.mp h c hmem)

/-- A character that stands for a card is one byte. -/
theorem utf8Size_of_denotes {c : Char} {card : Card} (h : Denotes c card) : c.utf8Size = 1 := by
  have hsizes : symbols.all fun c => c.utf8Size = 1 := by decide
  have hmem : c ∈ symbols := exists_denotes_iff.mp ⟨card, h⟩
  exact of_decide_eq_true (List.all_eq_true.mp hsizes c hmem)

/-! ## Hands -/

theorem parseCards_iff {input : Str} {cards : List Card} :
    parseCards input = .ok cards ↔ List.Forall₂ Denotes input cards := by
  rw [parseCards, foldlM_push]
  simp only [List.nil_append, exists_eq_left', parseCard_iff]

theorem exists_denoted_iff {input : Str} :
    (∃ cards, List.Forall₂ Denotes input cards) ↔ ∀ c ∈ input, c ∈ symbols := by
  induction input with
  | nil => exact iff_of_true ⟨[], .nil⟩ nofun
  | cons c input ih =>
      rw [List.forall_mem_cons, ← ih, ← exists_denotes_iff]
      constructor
      · rintro ⟨_, _ | ⟨hcard, hcards⟩⟩
        exact ⟨⟨_, hcard⟩, ⟨_, hcards⟩⟩
      · rintro ⟨⟨card, hcard⟩, ⟨cards, hcards⟩⟩
        exact ⟨card :: cards, .cons hcard hcards⟩

/-- In a text of cards there are as many bytes as characters. -/
theorem len_of_denoted {input : Str} {cards : List Card}
    (h : List.Forall₂ Denotes input cards) : len input = input.length := by
  apply len_eq_length
  intro c hc
  have hmem := exists_denoted_iff.mp ⟨cards, h⟩ c hc
  obtain ⟨card, hcard⟩ := exists_denotes_iff.mpr hmem
  exact utf8Size_of_denotes hcard

private theorem exists_toHand {cards : List Card} (h : cards.length = 5) :
    ∃ hand, toHand cards = some hand ∧ hand.cards.toList = cards :=
  ⟨_, dif_pos h, rfl⟩

/-- **`parse` accepts the hands of five cards, and never panics.** -/
theorem parse_accepts (input : Str) :
    ∃ result, parse input = some result ∧
      ((∃ hand, result = .ok hand) ↔ input.length = 5 ∧ ∀ c ∈ input, c ∈ symbols) ∧
      ∀ hand, result = .ok hand → List.Forall₂ Denotes input hand.cards.toList := by
  by_cases hlen : len input = 5
  · cases hparse : parseCards input with
    | error message =>
        refine ⟨.error message, ?_, iff_of_false nofun ?_, nofun⟩
        · rw [parse, if_neg (not_not.mpr hlen), hparse]
        · rintro ⟨-, hmem⟩
          obtain ⟨cards, hcards⟩ := exists_denoted_iff.mpr hmem
          exact nomatch hparse.symm.trans (parseCards_iff.mpr hcards)
    | ok cards =>
        have hcards := parseCards_iff.mp hparse
        have hlength : input.length = 5 := (len_of_denoted hcards).symm.trans hlen
        obtain ⟨hand, hhand, htoList⟩ := exists_toHand (hcards.length_eq.symm.trans hlength)
        refine ⟨.ok hand, ?_, iff_of_true ⟨hand, rfl⟩ ⟨hlength, ?_⟩, ?_⟩
        · rw [parse, if_neg (not_not.mpr hlen), hparse]
          show (toHand cards).map Except.ok = _
          rw [hhand, Option.map_some]
        · exact exists_denoted_iff.mp ⟨cards, hcards⟩
        · intro _ heq
          cases heq
          rwa [htoList]
  · refine ⟨_, if_pos hlen, iff_of_false nofun ?_, nofun⟩
    rintro ⟨hlength, hmem⟩
    obtain ⟨cards, hcards⟩ := exists_denoted_iff.mpr hmem
    exact hlen ((len_of_denoted hcards).trans hlength)

/-- Five bytes and three characters. -/
example : parse "Aéé".toList = some (.error "Invalid card é") := by decide

end RustCourse.Lesson04
