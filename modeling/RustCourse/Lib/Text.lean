import RustCourse.Lib.Lines
import Mathlib.Data.List.DropRight

/-!
# Texts

A `&str` as the list of its characters, with the functions of the standard library that
the parsers use.  `parseU8` is `u8::from_str`: digits, with one plus sign before them if
there is one.

## Strategy

A parser that cuts a trimmed text at its first space relies on two things: where the cut is
(`splitOnce_eq_some`), and that what was trimmed away makes no difference to the pieces
(`splitOnce_trim`).  Trimming takes white space away at both ends and the rest is a part of the
text, so characters that are no white space are what is looked for.  A number is recognised by
its digits, and `parseU8_ok` says which digits a text that is read as a `u8` consists of.
-/

namespace RustCourse

/-! ## Strings -/

/-- A `&str` -/
abbrev Str := List Char

namespace Str

/-- `str::len`, which counts bytes. -/
def len : Str → ℕ
  | [] => 0
  | c :: s => c.utf8Size + len s

/-- In an ASCII text every character is one byte. -/
theorem len_eq_length {s : Str} (h : ∀ c ∈ s, c.utf8Size = 1) : len s = s.length := by
  induction s with
  | nil => rfl
  | cons c s ih =>
      obtain ⟨hc, hs⟩ := List.forall_mem_cons.mp h
      rw [len, hc, ih hs, List.length_cons, Nat.add_comm]

/-- `char::is_whitespace`: the property `White_Space` of Unicode. -/
def isWhitespace (c : Char) : Bool :=
  let n := c.toNat
  (0x9 ≤ n && n ≤ 0xD) || n == 0x20 || n == 0x85 || n == 0xA0 || n == 0x1680 ||
    (0x2000 ≤ n && n ≤ 0x200A) || n == 0x2028 || n == 0x2029 || n == 0x202F || n == 0x205F ||
    n == 0x3000

/-- `str::trim` -/
def trim (s : Str) : Str := (s.dropWhile isWhitespace).rdropWhile isWhitespace

/-- `str::split_once` -/
def splitOnce (sep : Char) (s : Str) : Option (Str × Str) :=
  if sep ∈ s then some (Lines.firstLine sep s, Lines.afterLine sep s) else none

/-- `str::trim_end_matches` -/
def trimEndMatches (c : Char) (s : Str) : Str := s.rdropWhile (· == c)

theorem trimEndMatches_append (c : Char) (s : Str) :
    ∃ n, s = trimEndMatches c s ++ List.replicate n c := by
  refine ⟨(s.rtakeWhile (· == c)).length, ?_⟩
  have htail : s.rtakeWhile (· == c) = List.replicate (s.rtakeWhile (· == c)).length c :=
    List.eq_replicate_of_mem fun d hd => by simpa using List.mem_rtakeWhile_imp hd
  rw [← htail]
  exact List.rdropWhile_append_rtakeWhile.symm

theorem getLast?_trimEndMatches (c : Char) (s : Str) :
    (trimEndMatches c s).getLast? ≠ some c := by
  intro h
  have hne : trimEndMatches c s ≠ [] := by
    intro hnil
    rw [hnil] at h
    exact nomatch h
  have hlast := (List.getLast_eq_iff_getLast?_eq_some hne).mpr h
  exact List.rdropWhile_last_not _ s hne (beq_iff_eq.mpr hlast)

theorem trimEndMatches_replicate {c : Char} {s : Str} (h : s.getLast? ≠ some c) (n : ℕ) :
    trimEndMatches c (s ++ List.replicate n c) = s := by
  induction n with
  | zero =>
      rw [List.replicate_zero, List.append_nil]
      refine List.rdropWhile_eq_self_iff.mpr fun hne hlast => h ?_
      rw [List.getLast?_eq_some_getLast hne, beq_iff_eq.mp hlast]
  | succ n ih =>
      rw [List.replicate_succ', ← List.append_assoc]
      exact (List.rdropWhile_concat_pos (· == c) _ c (beq_self_eq_true c)).trans ih

/-! ## Trimming and splitting -/

section Split

variable {sep : Char} {s before after : Str}

theorem splitOnce_eq_some :
    splitOnce sep s = some (before, after) ↔ sep ∉ before ∧ s = before ++ sep :: after := by
  unfold splitOnce
  constructor
  · intro h
    split at h
    · next hmem =>
        cases h
        exact ⟨Lines.sep_notMem_firstLine sep s, Lines.firstLine_append_afterLine hmem⟩
    · exact nomatch h
  · rintro ⟨hbefore, rfl⟩
    rw [if_pos (by simp), Lines.firstLine_line hbefore, Lines.afterLine_line hbefore]

theorem splitOnce_eq_none : splitOnce sep s = none ↔ sep ∉ s := by
  unfold splitOnce
  split <;> simp_all

theorem rdropWhile_append_right {p : Char → Bool} (h : ∀ c ∈ after, p c) :
    (s ++ after).rdropWhile p = s.rdropWhile p := by
  rw [List.rdropWhile, List.reverse_append, List.dropWhile_append_of_pos (by simpa using h),
    List.rdropWhile]

theorem trim_append_right (h : ∀ c ∈ after, isWhitespace c) : trim (s ++ after) = trim s := by
  rw [trim, List.dropWhile_append]
  split
  · next hblank =>
      rw [List.isEmpty_iff] at hblank
      rw [List.dropWhile_eq_nil_iff.mpr h, trim, hblank]
  · rw [rdropWhile_append_right h, trim]

theorem trim_dropWhile (s : Str) : trim (s.dropWhile isWhitespace) = trim s := by
  rw [trim, List.dropWhile_idempotent, trim]

theorem trim_rdropWhile (s : Str) : trim (s.rdropWhile isWhitespace) = trim s := by
  conv_rhs => rw [← List.rdropWhile_append_rtakeWhile (p := isWhitespace) (l := s)]
  rw [trim_append_right fun c hc => List.mem_rtakeWhile_imp hc]

theorem trim_of_forall (h : ∀ c ∈ s, isWhitespace c = false) : trim s = s := by
  have hstart : s.dropWhile isWhitespace = s :=
    List.dropWhile_eq_self_iff.mpr fun hlt => by simp [h _ (List.getElem_mem hlt)]
  rw [trim, hstart]
  exact List.rdropWhile_eq_self_iff.mpr fun hne => by simp [h _ (List.getLast_mem hne)]

theorem dropWhile_around {p : Char → Bool} (hsep : p sep = false) :
    (before ++ sep :: after).dropWhile p = before.dropWhile p ++ sep :: after := by
  rw [List.dropWhile_append]
  split
  · next hblank =>
      rw [List.isEmpty_iff] at hblank
      rw [hblank, List.dropWhile_cons_of_neg (by simp [hsep]), List.nil_append]
  · rfl

/-- Trimming a text around a character of it trims what stands before it and behind it, each on
one side. -/
theorem trim_around (hsep : isWhitespace sep = false) :
    trim (before ++ sep :: after) =
      before.dropWhile isWhitespace ++ sep :: after.rdropWhile isWhitespace := by
  rw [trim, dropWhile_around hsep, List.rdropWhile, List.reverse_append, List.reverse_cons,
    List.append_assoc, List.singleton_append, dropWhile_around hsep, List.rdropWhile]
  simp

theorem mem_trim {c : Char} (hc : isWhitespace c = false) : c ∈ trim s ↔ c ∈ s := by
  constructor
  · intro h
    exact (List.dropWhile_sublist _).mem ((List.rdropWhile_prefix _ _).mem h)
  · intro h
    obtain ⟨before, after, rfl⟩ := List.append_of_mem h
    rw [trim_around hc]
    simp

/-- A text is split at the same place before and after it is trimmed. -/
theorem splitOnce_trim (hsep : isWhitespace sep = false) :
    splitOnce sep (trim s) = (splitOnce sep s).map fun parts =>
      (parts.1.dropWhile isWhitespace, parts.2.rdropWhile isWhitespace) := by
  cases h : splitOnce sep s with
  | none =>
      rw [Option.map_none, splitOnce_eq_none, mem_trim hsep]
      exact splitOnce_eq_none.mp h
  | some parts =>
      obtain ⟨before, after⟩ := parts
      obtain ⟨hbefore, rfl⟩ := splitOnce_eq_some.mp h
      rw [Option.map_some, splitOnce_eq_some]
      exact ⟨fun hmem => hbefore ((List.dropWhile_sublist _).mem hmem), trim_around hsep⟩

end Split

/-! ## `str::lines` -/

/-- `str::split_inclusive`: every piece keeps the separator that ends it. -/
def splitInclusive (sep : Char) : Str → List Str
  | [] => []
  | c :: s =>
      if c = sep then [c] :: splitInclusive sep s
      else match splitInclusive sep s with
        | [] => [[c]]
        | piece :: pieces => (c :: piece) :: pieces

/-- `str::strip_suffix`, for one character. -/
def stripSuffix (c : Char) (s : Str) : Option Str :=
  [c].isSuffixOf? s

/-- A line ends with a newline, with a carriage return before it or not. -/
def stripNewline (line : Str) : Str :=
  match stripSuffix '\n' line with
  | none => line
  | some line => (stripSuffix '\r' line).getD line

/-- `str::lines` -/
def lines (s : Str) : List Str := (splitInclusive '\n' s).map stripNewline

/-! ## `u8::from_str` -/

/-- Why a text is no number. -/
inductive IntErrorKind
  | empty
  | invalidDigit
  | posOverflow
  deriving DecidableEq, Repr

/-- `char::to_digit(10)` -/
def toDigit (c : Char) : Option ℕ :=
  if '0' ≤ c ∧ c ≤ '9' then some (c.toNat - '0'.toNat) else none

/-- The digits of a number, most significant first, behind digits of the value `n`. -/
def parseDigits (n : ℕ) : Str → Except IntErrorKind ℕ
  | [] => .ok n
  | c :: s =>
      match toDigit c with
      | none => .error .invalidDigit
      | some digit =>
          let n := 10 * n + digit
          if 255 < n then .error .posOverflow else parseDigits n s

/-- `input.parse::<u8>()` -/
def parseU8 (input : Str) : Except IntErrorKind UInt8 :=
  match input with
  | [] => .error .empty
  | ['+'] => .error .invalidDigit
  | '+' :: digits => UInt8.ofNat <$> parseDigits 0 digits
  | digits => UInt8.ofNat <$> parseDigits 0 digits

example : parseU8 "+042".toList = .ok 42 := by decide

theorem parseDigits_ok {n m : ℕ} {s : Str} (h : parseDigits n s = .ok m) :
    ∀ c ∈ s, '0' ≤ c ∧ c ≤ '9' := by
  induction s generalizing n with
  | nil => exact nofun
  | cons c s ih =>
      intro d hd
      by_cases hc : '0' ≤ c ∧ c ≤ '9'
      · simp only [parseDigits, toDigit, if_pos hc] at h
        split at h
        · exact nomatch h
        · rcases List.mem_cons.mp hd with rfl | hd
          · exact hc
          · exact ih h d hd
      · simp only [parseDigits, toDigit, if_neg hc] at h
        exact nomatch h

/-- A number consists of digits and at most a plus sign. -/
theorem parseU8_ok {s : Str} {n : UInt8} (h : parseU8 s = .ok n) :
    ∀ c ∈ s, c = '+' ∨ '0' ≤ c ∧ c ≤ '9' := by
  have hdigits : ∀ digits, UInt8.ofNat <$> parseDigits 0 digits = .ok n →
      ∀ c ∈ digits, '0' ≤ c ∧ c ≤ '9' := by
    intro digits hok
    cases hparse : parseDigits 0 digits with
    | error e =>
        rw [hparse] at hok
        exact nomatch hok
    | ok m => exact parseDigits_ok hparse
  unfold parseU8 at h
  split at h
  · exact nomatch h
  · exact nomatch h
  · exact fun c hc => (List.mem_cons.mp hc).imp_right (hdigits _ h c)
  · exact fun c hc => .inr (hdigits _ h c hc)

theorem not_whitespace_of_number {s : Str} {n : UInt8} (h : parseU8 s = .ok n) :
    ∀ c ∈ s, isWhitespace c = false := by
  intro c hc
  rcases parseU8_ok h c hc with rfl | ⟨hzero, hnine⟩
  · decide
  · have hlow : 48 ≤ c.toNat := hzero
    have hhigh : c.toNat ≤ 57 := hnine
    unfold isWhitespace
    grind

end Str

end RustCourse
