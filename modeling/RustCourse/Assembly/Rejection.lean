import RustCourse.Assembly.Grammar
import RustCourse.Assembly.Stage03

/-!
# What the parsers reject

Which error a line is rejected with is said here about the line itself: `Offends` has one
constructor for each complaint.  A text is rejected with the complaint about the first line
that offends, under the number of that line, and the message that is printed shows that line
as it stands in the text (`rejects_first_offence` for stage 03, `marks_first_offence` for
stage 04, where a line may offend because of the labels before it).

A destination that does not begin with `R` is reported as an expression that cannot be read,
though it cannot be written (`OffendsOperands.noRegister`).

## Strategy

As for acceptance, from the inside out: `OffendsOperands` for the operands, `Offends` for a
line, `FirstOffence` for a text.  Each lemma is an equivalence, an error with its quotation on
one side and the offence on the other, so the order in which the parser checks things is part
of the statement.  That a complaint quotes a part of its line is a fact about trimming and
cutting (`trim_within`).  Stage 04 knows the labels so far, and there the induction over the
lines carries them along.
-/

namespace RustCourse.Assembly

open Str Fallible

/-! ## What a complaint quotes -/

/-- What an error quotes. -/
def ParseErrorKind.quoted : ParseErrorKind → Str
  | .unknownCommand cmd => cmd
  | .unexpectedArgs args => args
  | .invalidReadableExpr expr => expr
  | .invalidWritableExpr expr => expr
  | .emptyLabel => []
  | .duplicatedLabel label => label

variable {T : Type} [Value T]

/-! ## Operands -/

/-- Neither a value nor a register. -/
def Unreadable (T : Type) [Value T] (s : Str) : Prop :=
  (∀ value : T, Value.parse (trim s) ≠ .ok value) ∧
    ∀ digits index, trim s = 'R' :: digits → parseU8 digits ≠ .ok index

/-- What is wrong with the operands of a `MOV`, an `ADD` or a `SUB`. -/
inductive OffendsOperands (T : Type) [Value T] (args : Str) : ParseErrorKind → Prop
  | noComma : ',' ∉ args → OffendsOperands T args (.unexpectedArgs (trim args))
  | source {d s : Str} : args = d ++ ',' :: s → ',' ∉ d → Unreadable T s →
      OffendsOperands T args (.invalidReadableExpr (trim s))
  | noRegister {d s : Str} : args = d ++ ',' :: s → ',' ∉ d → ¬ Unreadable T s →
      (trim d).head? ≠ some 'R' → OffendsOperands T args (.invalidReadableExpr (trim d))
  | noNumber {d s digits : Str} : args = d ++ ',' :: s → ',' ∉ d → ¬ Unreadable T s →
      trim d = 'R' :: digits → (∀ index, parseU8 digits ≠ .ok index) →
      OffendsOperands T args (.invalidWritableExpr (trim d))

theorem isPrefixOf?_R_eq_none {s : Str} : "R".toList.isPrefixOf? s = none ↔ s.head? ≠ some 'R' := by
  cases s with
  | nil => exact iff_of_true rfl nofun
  | cons c s =>
      have hfirst : "R".toList.isPrefixOf? (c :: s) = if 'R' == c then some s else none := rfl
      rw [hfirst, ite_eq_right_iff, List.head?_cons, ne_eq, Option.some.injEq, beq_iff_eq]
      simp [eq_comm]

theorem parseReadableExpr_eq_error {s : Str} {e : ParseErrorKind} :
    (parseReadableExpr s : Except ParseErrorKind (ReadableExpr T)) = .error e ↔
      Unreadable T s ∧ e = .invalidReadableExpr (trim s) := by
  unfold parseReadableExpr Unreadable
  dsimp only
  -- in the order of the source: a constant, the letter `R`, the index
  cases hvalue : (Value.parse (trim s) : Except String T) with
  | ok value => exact ⟨nofun, fun h => absurd rfl (h.1.1 value)⟩
  | error message =>
      cases hstrip : "R".toList.isPrefixOf? (trim s) with
      | none =>
          rw [isPrefixOf?_R_eq_none] at hstrip
          constructor
          · rintro ⟨⟩
            refine ⟨⟨nofun, fun digits index hdigits => absurd ?_ hstrip⟩, rfl⟩
            rw [hdigits]
            rfl
          · rintro ⟨-, rfl⟩
            rfl
      | some digits =>
          have hdigits := Stage04.isPrefixOf?_R.mp hstrip
          cases hindex : parseU8 digits with
          | ok index =>
              simp only [hindex]
              exact ⟨nofun, fun h => absurd hindex (h.1.2 digits index hdigits)⟩
          | error kind =>
              simp only [hindex]
              constructor
              · rintro ⟨⟩
                refine ⟨⟨nofun, fun digits' index hdigits' => ?_⟩, rfl⟩
                rw [hdigits, List.cons.injEq] at hdigits'
                rw [← hdigits'.2, hindex]
                exact nofun
              · rintro ⟨-, rfl⟩
                rfl

theorem exists_parseReadableExpr {s : Str} :
    (∃ expr : ReadableExpr T, parseReadableExpr s = .ok expr) ↔ ¬ Unreadable T s := by
  cases h : (parseReadableExpr s : Except ParseErrorKind (ReadableExpr T)) with
  | ok expr =>
      refine iff_of_true ⟨expr, rfl⟩ fun hunreadable => ?_
      have herror := parseReadableExpr_eq_error.mpr ⟨hunreadable, rfl⟩
      exact nomatch h.symm.trans herror
  | error e =>
      refine iff_of_false nofun (not_not_intro ?_)
      exact (parseReadableExpr_eq_error.mp h).1

theorem parseWritableExpr_eq_error {s : Str} {e : ParseErrorKind} :
    parseWritableExpr s = .error e ↔
      (trim s).head? ≠ some 'R' ∧ e = .invalidReadableExpr (trim s) ∨
        ∃ digits, trim s = 'R' :: digits ∧ (∀ index, parseU8 digits ≠ .ok index) ∧
          e = .invalidWritableExpr (trim s) := by
  unfold parseWritableExpr
  dsimp only
  -- first the letter `R`, then the index
  cases hstrip : "R".toList.isPrefixOf? (trim s) with
  | none =>
      rw [isPrefixOf?_R_eq_none] at hstrip
      constructor
      · rintro ⟨⟩
        exact .inl ⟨hstrip, rfl⟩
      · rintro (⟨-, rfl⟩ | ⟨digits, hdigits, -⟩)
        · rfl
        · rw [hdigits] at hstrip
          exact absurd rfl hstrip
  | some digits =>
      have hdigits := Stage04.isPrefixOf?_R.mp hstrip
      cases hindex : parseU8 digits with
      | ok index =>
          simp only [hindex]
          refine ⟨nofun, ?_⟩
          rintro (⟨hhead, -⟩ | ⟨digits', hdigits', hnone, -⟩)
          · rw [hdigits] at hhead
            exact absurd rfl hhead
          · rw [hdigits, List.cons.injEq] at hdigits'
            rw [← hdigits'.2] at hnone
            exact absurd hindex (hnone index)
      | error kind =>
          simp only [hindex]
          constructor
          · rintro ⟨⟩
            refine .inr ⟨digits, hdigits, fun index => ?_, rfl⟩
            rw [hindex]
            exact nofun
          · rintro (⟨hhead, -⟩ | ⟨-, -, -, rfl⟩)
            · rw [hdigits] at hhead
              exact absurd rfl hhead
            · rfl

theorem addLine_eq_error {α : Type} {n : ℕ} {x : Except ParseErrorKind α} {e : ParseError} :
    addLine n x = .error e ↔ x = .error e.error ∧ e.line = n := by
  rw [addLine, mapError_eq_error]
  constructor
  · rintro ⟨kind, rfl, rfl⟩
    exact ⟨rfl, rfl⟩
  · rintro ⟨h, rfl⟩
    exact ⟨e.error, h, rfl⟩

/-- **What `parse_dest_src` complains about.** -/
theorem parseDestSrc_eq_error {n : ℕ} {args : Str} {e : ParseError} :
    (parseDestSrc n args : Except ParseError (WritableExpr × ReadableExpr T)) = .error e ↔
      e.line = n ∧ OffendsOperands T args e.error := by
  obtain ⟨m, kind⟩ := e
  have hcomma : isWhitespace ',' = false := by decide
  unfold parseDestSrc
  dsimp only
  rw [splitOnce_trim hcomma]
  cases hsplit : splitOnce ',' args with
  | none =>
      have hnone := splitOnce_eq_none.mp hsplit
      constructor
      · rintro ⟨⟩
        exact ⟨rfl, .noComma hnone⟩
      · rintro ⟨rfl, hoffends⟩
        cases hoffends with
        | noComma => rfl
        | source hargs | noRegister hargs | noNumber hargs => simp [hargs] at hnone
  | some parts =>
      obtain ⟨d, s⟩ := parts
      obtain ⟨hd, hargs⟩ := splitOnce_eq_some.mp hsplit
      -- the cut is the one at the first comma
      have hcut : ∀ {d' s'}, args = d' ++ ',' :: s' → ',' ∉ d' → d' = d ∧ s' = s := by
        intro d' s' hargs' hd'
        have := hsplit.symm.trans (splitOnce_eq_some.mpr ⟨hd', hargs'⟩)
        rw [Option.some.injEq, Prod.mk.injEq] at this
        exact ⟨this.1.symm, this.2.symm⟩
      simp only [Option.map_some]
      have hsrc : (parseReadableExpr (s.rdropWhile isWhitespace) :
          Except ParseErrorKind (ReadableExpr T)) = parseReadableExpr s := by
        simp only [parseReadableExpr, trim_rdropWhile]
      rw [hsrc, Stage04.parseWritableExpr_congr (trim_dropWhile d), bind_eq_error,
        addLine_eq_error, parseReadableExpr_eq_error]
      constructor
      · rintro (⟨⟨hsource, rfl⟩, rfl⟩ | ⟨src, hsrc, hrest⟩)
        · exact ⟨rfl, .source hargs hd hsource⟩
        · have hsource : ¬ Unreadable T s :=
            exists_parseReadableExpr.mp ⟨src, mapError_eq_ok.mp hsrc⟩
          rcases bind_eq_error.mp hrest with hfails | ⟨dest, -, hreturn⟩
          · obtain ⟨hdest, hline⟩ := addLine_eq_error.mp hfails
            obtain rfl : m = n := hline
            rcases parseWritableExpr_eq_error.mp hdest with
              ⟨hhead, rfl⟩ | ⟨digits, hdigits, hnone, rfl⟩
            · exact ⟨rfl, .noRegister hargs hd hsource hhead⟩
            · exact ⟨rfl, .noNumber hargs hd hsource hdigits hnone⟩
          · cases hreturn
      · rintro ⟨hline, hoffends⟩
        obtain rfl : m = n := hline
        cases hoffends with
        | noComma hnone =>
            rw [hargs] at hnone
            simp at hnone
        | source hargs' hd' hsource =>
            obtain ⟨rfl, rfl⟩ := hcut hargs' hd'
            exact .inl ⟨⟨hsource, rfl⟩, rfl⟩
        | noRegister hargs' hd' hsource hhead =>
            obtain ⟨rfl, rfl⟩ := hcut hargs' hd'
            obtain ⟨src, hsrc⟩ := exists_parseReadableExpr.mpr hsource
            refine .inr ⟨src, mapError_eq_ok.mpr hsrc, bind_eq_error.mpr (.inl ?_)⟩
            exact addLine_eq_error.mpr ⟨parseWritableExpr_eq_error.mpr (.inl ⟨hhead, rfl⟩), rfl⟩
        | noNumber hargs' hd' hsource hdigits hnone =>
            obtain ⟨rfl, rfl⟩ := hcut hargs' hd'
            obtain ⟨src, hsrc⟩ := exists_parseReadableExpr.mpr hsource
            refine .inr ⟨src, mapError_eq_ok.mpr hsrc, bind_eq_error.mpr (.inl ?_)⟩
            refine addLine_eq_error.mpr ⟨parseWritableExpr_eq_error.mpr (.inr ?_), rfl⟩
            exact ⟨_, hdigits, hnone, rfl⟩

/-! ## Quotations -/

theorem trim_within (s : Str) : trim s <:+: s :=
  (List.rdropWhile_prefix _ _).isInfix.trans (List.dropWhile_suffix _).isInfix

theorem command_within (line : Str) : command line <:+: line := by
  unfold command
  refine List.IsInfix.trans ?_ (trim_within line)
  split
  · next hsplit =>
      rw [(splitOnce_eq_some.mp hsplit).2]
      exact (List.prefix_append _ _).isInfix
  · exact List.infix_rfl

theorem arguments_within (line : Str) : arguments line <:+: line := by
  unfold arguments
  split
  · next hsplit =>
      refine List.IsInfix.trans ?_ (trim_within line)
      rw [(splitOnce_eq_some.mp hsplit).2, List.append_cons]
      exact (List.suffix_append _ _).isInfix
  · exact List.nil_infix

/-- The complaint quotes a part of the operands. -/
theorem OffendsOperands.quoted_within {args : Str} {kind : ParseErrorKind}
    (h : OffendsOperands T args kind) : kind.quoted <:+: args := by
  cases h with
  | noComma => exact trim_within args
  | source hargs =>
      refine (trim_within _).trans ?_
      rw [hargs, List.append_cons]
      exact (List.suffix_append _ _).isInfix
  | noRegister hargs | noNumber hargs =>
      refine (trim_within _).trans ?_
      rw [hargs]
      exact (List.prefix_append _ _).isInfix

/-- The numbered lines around one of them. -/
theorem exists_zipIdx {ls : List Str} {n : ℕ} {line : Str} (h : ls[n]? = some line) :
    ∃ rest, ls.zipIdx = (ls.take n).zipIdx ++ (line, n) :: rest := by
  obtain ⟨hlt, rfl⟩ := List.getElem?_eq_some_iff.mp h
  have hsplit : ls = ls.take n ++ ls[n] :: ls.drop (n + 1) := by simp
  refine ⟨(ls.drop (n + 1)).zipIdx (n + 1), ?_⟩
  conv_lhs => rw [hsplit]
  rw [List.zipIdx_append, List.zipIdx_cons, List.length_take_of_le hlt.le, Nat.zero_add]

/-! ## Lines of stage 03 -/

namespace Stage03

/-- The commands of stage 03. -/
def mnemonics : List Str :=
  ["MOV".toList, "ADD".toList, "SUB".toList, "PRINT".toList]

/-- What is wrong with a line. -/
inductive Offends (T : Type) [Value T] (line : Str) : ParseErrorKind → Prop
  | operands {kind : ParseErrorKind} :
      command line ∈ ["MOV".toList, "ADD".toList, "SUB".toList] →
      OffendsOperands T (arguments line) kind → Offends T line kind
  | print : command line = "PRINT".toList → Unreadable T (arguments line) →
      Offends T line (.invalidReadableExpr (trim (arguments line)))
  | unknown : trim line ≠ [] → command line ∉ mnemonics →
      Offends T line (.unknownCommand (command line))

theorem parseInstruction_eq_error {n : ℕ} {line : Str} {e : ParseError} :
    (parseInstruction n (command line) (arguments line) :
        Option (Except ParseError (Instruction T))) = some (.error e) ↔
      command line ∈ mnemonics ∧ e.line = n ∧ Offends T line e.error := by
  unfold parseInstruction
  by_cases hoperands : command line ∈ ["MOV".toList, "ADD".toList, "SUB".toList]
  · -- the three arms complain about their operands only
    have hknown : command line ∈ mnemonics := by
      simp only [mnemonics, List.mem_cons, List.not_mem_nil, or_false] at hoperands ⊢
      tauto
    have hiff : e.line = n ∧ Offends T line e.error ↔
        e.line = n ∧ OffendsOperands T (arguments line) e.error := by
      refine and_congr_right fun _ => ⟨fun h => ?_, .operands hoperands⟩
      generalize e.error = kind at h
      cases h with
      | operands _ h => exact h
      | print hprint =>
          rw [hprint] at hoperands
          exact absurd hoperands (by decide)
      | unknown _ hunknown => exact absurd hknown hunknown
    rw [and_iff_right hknown, hiff, ← parseDestSrc_eq_error]
    simp only [List.mem_cons, List.not_mem_nil, or_false] at hoperands
    split_ifs with hmov hadd hsub hprint
    · rw [Option.some.injEq]
      exact bind_eq_error_of_ok fun _ => ⟨_, rfl⟩
    · rw [Option.some.injEq]
      exact bind_eq_error_of_ok fun _ => ⟨_, rfl⟩
    · rw [Option.some.injEq]
      exact bind_eq_error_of_ok fun _ => ⟨_, rfl⟩
    · tauto
    · tauto
  · simp only [List.mem_cons, List.not_mem_nil, or_false, not_or] at hoperands
    rw [if_neg hoperands.1, if_neg hoperands.2.1, if_neg hoperands.2.2]
    split_ifs with hprint
    · rw [Option.some.injEq]
      refine (bind_eq_error_of_ok fun _ => ⟨_, rfl⟩).trans ?_
      rw [addLine_eq_error, parseReadableExpr_eq_error]
      constructor
      · rintro ⟨⟨hexpr, hkind⟩, hline⟩
        rw [hkind]
        exact ⟨by rw [hprint]; decide, hline, .print hprint hexpr⟩
      · rintro ⟨hknown, hline, h⟩
        generalize e.error = kind at h
        cases h with
        | operands h =>
            rw [hprint] at h
            exact absurd h (by decide)
        | print _ hexpr => exact ⟨⟨hexpr, rfl⟩, hline⟩
        | unknown _ hunknown => exact absurd hknown hunknown
    -- an unknown command makes no instruction, and is not rejected here
    · refine iff_of_false nofun fun h => ?_
      simp only [mnemonics, List.mem_cons, List.not_mem_nil, or_false] at h
      tauto

private theorem parseInstruction_eq_none {n : ℕ} {command args : Str} :
    (parseInstruction n command args : Option (Except ParseError (Instruction T))) = none ↔
      command ∉ mnemonics := by
  unfold parseInstruction
  split_ifs <;> simp_all [mnemonics]

theorem not_offends_blank {line : Str} {kind : ParseErrorKind} (hblank : trim line = []) :
    ¬ Offends T line kind := by
  intro h
  have hcommand := Stage04.command_blank hblank
  cases h with
  | operands h =>
      rw [hcommand] at h
      exact absurd h (by decide)
  | print h =>
      rw [hcommand] at h
      exact absurd h (by decide)
  | unknown h => exact h hblank

/-- **What a line is rejected with.** -/
theorem parseLine_eq_error {program : Program T} {n : ℕ} {line : Str} {e : ParseError} :
    parseLine program (line, n) = .error e ↔ e.line = n ∧ Offends T line e.error := by
  by_cases hblank : trim line = []
  · have hok : parseLine program (line, n) = .ok program := by
      simp [parseLine, hblank, pure, Except.pure]
    rw [hok]
    exact iff_of_false nofun fun h => not_offends_blank hblank h.2
  · cases hresult : (parseInstruction n (command line) (arguments line) :
      Option (Except ParseError (Instruction T))) with
    | some result =>
        -- a line with a mnemonic is rejected by the arm of that mnemonic
        have hknown : command line ∈ mnemonics := by
          by_contra hunknown
          rw [parseInstruction_eq_none.mpr hunknown] at hresult
          cases hresult
        have hline : parseLine program (line, n) = (do
            let instruction ← result
            return { program with instructions := program.instructions ++ [instruction] }) := by
          simp [parseLine, hblank, hresult]
        rw [hline]
        refine (bind_eq_error_of_ok fun _ => ⟨_, rfl⟩).trans ?_
        rw [← Option.some.injEq, ← hresult, parseInstruction_eq_error, and_iff_right hknown]
    | none =>
        -- any other line is rejected for its command
        have hunknown := parseInstruction_eq_none.mp hresult
        have hline : parseLine program (line, n) = .error (.unknownCmd n (command line)) := by
          simp only [parseLine, List.isEmpty_iff, hblank, hresult, if_false]
          rfl
        rw [hline]
        constructor
        · rintro ⟨⟩
          exact ⟨rfl, .unknown hblank hunknown⟩
        · obtain ⟨m, kind⟩ := e
          rintro ⟨hm, h⟩
          obtain rfl : m = n := hm
          cases h with
          | operands h =>
              refine absurd ?_ hunknown
              simp only [mnemonics, List.mem_cons, List.not_mem_nil, or_false] at h ⊢
              tauto
          | print h => exact absurd (by rw [h]; decide) hunknown
          | unknown => rfl

theorem Offends.quoted_within {line : Str} {kind : ParseErrorKind} (h : Offends T line kind) :
    kind.quoted <:+: line := by
  cases h with
  | operands _ h => exact h.quoted_within.trans (arguments_within line)
  | print => exact (trim_within _).trans (arguments_within line)
  | unknown => exact command_within line

/-! ## Texts of stage 03 -/

/-- `format!` of an error in `annotate_error`; stage 03 has no errors about labels. -/
def reason : ParseErrorKind → Str
  | .unknownCommand cmd => "Unknown command ".toList ++ cmd
  | .unexpectedArgs args => "Unexpected args ".toList ++ args
  | .invalidReadableExpr expr => "Invalid readable expression ".toList ++ expr
  | .invalidWritableExpr expr => "Invalid writable expression ".toList ++ expr
  | .emptyLabel | .duplicatedLabel _ => []

/-- The line under its number, and what is wrong with it. -/
def located (n : ℕ) (line reason : Str) : Str :=
  "Line ".toList ++ (toString n).toList ++ ": ".toList ++ line ++ '\n' :: reason

/-- The line with the error in it, and the reason below the part that is quoted. -/
def annotateError (input : Str) (error : ParseError) : Str :=
  match (lines input)[error.line]? with
  | some line => located (error.line + 1) line (reason error.error)
  | none => "Error at unknown line".toList

/-- Line `n` offends, and no line before it. -/
structure FirstOffence (T : Type) [Value T] (text : Str) (n : ℕ) (line : Str)
    (kind : ParseErrorKind) : Prop where
  here : (lines text)[n]? = some line
  offends : Offends T line kind
  earlier : ∀ before ∈ (lines text).take n, ∀ kind, ¬ Offends T before kind

/-- The loop gets past lines that do not offend. -/
theorem exists_foldlM_parseLine {ls : List Str} {n : ℕ} {program : Program T} :
    (∃ program', (ls.zipIdx n).foldlM parseLine program = .ok program') ↔
      ∀ line ∈ ls, ∀ kind, ¬ Offends T line kind := by
  induction ls generalizing n program with
  | nil => exact iff_of_true ⟨program, rfl⟩ nofun
  | cons line ls ih =>
      rw [List.zipIdx_cons, List.foldlM_cons, List.forall_mem_cons]
      cases hline : parseLine program (line, n) with
      | error e =>
          refine iff_of_false nofun fun h => ?_
          exact h.1 _ (parseLine_eq_error.mp hline).2
      | ok next =>
          refine (@ih (n + 1) next).trans ⟨fun h => ⟨fun kind hoffends => ?_, h⟩, And.right⟩
          have hfails := (@parseLine_eq_error _ _ program n line ⟨n, kind⟩).mpr ⟨rfl, hoffends⟩
          exact nomatch hline.symm.trans hfails

theorem parseProgram_eq_error {text : Str} {e : ParseError} :
    (parseProgram text : Except ParseError (Program T)) = .error e ↔
      ∃ line, FirstOffence T text e.line line e.error := by
  rw [parseProgram, foldlM_eq_error]
  constructor
  · rintro ⟨done, item, rest, program, hlines, hdone, herror⟩
    obtain ⟨before, tail, hbefore, rfl, htail⟩ := List.zipIdx_eq_append_iff.mp hlines
    obtain ⟨line, after, rfl, rfl, rfl⟩ := List.zipIdx_eq_cons_iff.mp htail.symm
    obtain ⟨hnumber, hoffends⟩ := parseLine_eq_error.mp herror
    rw [Nat.zero_add] at hnumber
    refine ⟨line, ?_, hoffends, ?_⟩
    · rw [hbefore, hnumber]
      simp
    · rw [hbefore, hnumber, List.take_left]
      exact exists_foldlM_parseLine.mp ⟨program, hdone⟩
  · rintro ⟨line, hline, hoffends, hearlier⟩
    obtain ⟨program, hdone⟩ := (@exists_foldlM_parseLine T _ _ 0 ⟨[]⟩).mpr hearlier
    obtain ⟨rest, hrest⟩ := exists_zipIdx hline
    exact ⟨_, (line, e.line), rest, program, hrest, hdone, parseLine_eq_error.mpr ⟨rfl, hoffends⟩⟩

/-- **A text is rejected with the complaint about the first line that offends**, which quotes a
part of it, and the message shows that line under its number. -/
theorem rejects_first_offence (text : Str) (e : ParseError) :
    (parseProgram text : Except ParseError (Program T)) = .error e ↔
      ∃ line, FirstOffence T text e.line line e.error ∧ e.error.quoted <:+: line ∧
        annotateError text e = located (e.line + 1) line (reason e.error) := by
  refine parseProgram_eq_error.trans (exists_congr fun line => ?_)
  constructor
  · intro h
    refine ⟨h, h.offends.quoted_within, ?_⟩
    rw [annotateError, h.here]
  · exact And.left

end Stage03

/-! ## Lines of stage 04 -/

namespace Stage04

variable {T : Type} [Value T]

/-- What is wrong with a line behind others. -/
inductive Offends (T : Type) [Value T] (before : List Str) (line : Str) : ParseErrorKind → Prop
  | operands {kind : ParseErrorKind} :
      command line ∈ ["MOV".toList, "ADD".toList, "SUB".toList] →
      OffendsOperands T (arguments line) kind → Offends T before line kind
  | print : command line = "PRINT".toList → Unreadable T (arguments line) →
      Offends T before line (.invalidReadableExpr (trim (arguments line)))
  | jumpIfNotZero : command line = "JNZ".toList →
      Unreadable T (Lines.firstLine ',' (arguments line)) →
      Offends T before line (.invalidReadableExpr (trim (Lines.firstLine ',' (arguments line))))
  | emptyLabel {n : ℕ} : command line = List.replicate (n + 1) ':' →
      Offends T before line .emptyLabel
  | duplicatedLabel {name earlier : Str} : DefinesLabel line name → earlier ∈ before →
      DefinesLabel earlier name → Offends T before line (.duplicatedLabel name)
  | unknown : trim line ≠ [] → command line ∉ mnemonics → (command line).getLast? ≠ some ':' →
      Offends T before line (.unknownCommand (command line))

variable {before : List Str} {line : Str} {n : ℕ} {e : ParseError}

theorem liftM_eq_error {α : Type} {x : Except ParseError α} :
    (liftM x : Except ParseFailure α) = .error (.error e) ↔ x = .error e := by
  refine mapError_eq_error.trans ?_
  simp

/-- The complaints about operands are those of a line that holds an instruction. -/
theorem offends_iff_of_known (hknown : command line ∈ mnemonics) {kind : ParseErrorKind} :
    Offends T before line kind ↔
      command line ∈ ["MOV".toList, "ADD".toList, "SUB".toList] ∧
          OffendsOperands T (arguments line) kind ∨
        command line = "PRINT".toList ∧ Unreadable T (arguments line) ∧
          kind = .invalidReadableExpr (trim (arguments line)) ∨
        command line = "JNZ".toList ∧ Unreadable T (Lines.firstLine ',' (arguments line)) ∧
          kind = .invalidReadableExpr (trim (Lines.firstLine ',' (arguments line))) := by
  constructor
  · intro h
    cases h with
    | operands hcommand h => exact .inl ⟨hcommand, h⟩
    | print hcommand h => exact .inr (.inl ⟨hcommand, h, rfl⟩)
    | jumpIfNotZero hcommand h => exact .inr (.inr ⟨hcommand, h, rfl⟩)
    | @emptyLabel n hcommand =>
        have hcolon : (command line).getLast? = some ':' := by
          rw [hcommand, List.replicate_succ', List.getLast?_concat]
        simp only [mnemonics, List.mem_cons, List.not_mem_nil, or_false] at hknown
        rcases hknown with h | h | h | h | h <;>
          · rw [h] at hcolon
            exact absurd hcolon (by decide)
    | duplicatedLabel hlabel =>
        exact absurd hknown (of_decide_eq_false hlabel.not_holdsInstruction)
    | unknown _ hunknown => exact absurd hknown hunknown
  · rintro (⟨hcommand, h⟩ | ⟨hcommand, h, rfl⟩ | ⟨hcommand, h, rfl⟩)
    · exact .operands hcommand h
    · exact .print hcommand h
    · exact .jumpIfNotZero hcommand h

theorem parseInstruction_eq_error :
    (parseInstruction n (command line) (arguments line) :
        Option (Except ParseFailure (Instruction T))) = some (.error (.error e)) ↔
      command line ∈ mnemonics ∧ e.line = n ∧ Offends T before line e.error := by
  by_cases hknown : command line ∈ mnemonics
  · rw [and_iff_right hknown, offends_iff_of_known hknown]
    by_cases hoperands : command line ∈ ["MOV".toList, "ADD".toList, "SUB".toList]
    · have hprint : command line ≠ "PRINT".toList := fun h => by
        rw [h] at hoperands
        exact absurd hoperands (by decide)
      have hjump : command line ≠ "JNZ".toList := fun h => by
        rw [h] at hoperands
        exact absurd hoperands (by decide)
      simp only [hoperands, hprint, hjump, true_and, false_and, or_false]
      rw [← parseDestSrc_eq_error]
      unfold parseInstruction
      simp only [List.mem_cons, List.not_mem_nil, or_false] at hoperands
      split_ifs with hmov hadd hsub
      · rw [Option.some.injEq]
        exact (bind_eq_error_of_ok fun _ => ⟨_, rfl⟩).trans liftM_eq_error
      · rw [Option.some.injEq]
        exact (bind_eq_error_of_ok fun _ => ⟨_, rfl⟩).trans liftM_eq_error
      · rw [Option.some.injEq]
        exact (bind_eq_error_of_ok fun _ => ⟨_, rfl⟩).trans liftM_eq_error
      · tauto
    · simp only [hoperands, false_and, false_or]
      have hrest : command line = "PRINT".toList ∨ command line = "JNZ".toList := by
        simp only [mnemonics, List.mem_cons, List.not_mem_nil, or_false] at hknown hoperands
        tauto
      rcases hrest with hcommand | hcommand
      · have hjump : "PRINT".toList ≠ "JNZ".toList := by decide
        simp only [hcommand, hjump, true_and, false_and, or_false]
        rw [parseInstruction, if_neg (by decide), if_neg (by decide), if_neg (by decide),
          if_pos rfl, Option.some.injEq]
        refine ((bind_eq_error_of_ok fun _ => ⟨_, rfl⟩).trans liftM_eq_error).trans ?_
        rw [addLine_eq_error, parseReadableExpr_eq_error, and_comm]
      · have hprint : "JNZ".toList ≠ "PRINT".toList := by decide
        simp only [hcommand, hprint, true_and, false_and, false_or]
        have hfirst : ∀ {s : Str}, (addLine n (parseReadableExpr s) :
            Except ParseError (ReadableExpr T)) = .error e ↔
              e.line = n ∧ Unreadable T s ∧ e.error = .invalidReadableExpr (trim s) := by
          intro s
          rw [addLine_eq_error, parseReadableExpr_eq_error, and_comm]
        rw [← hfirst]
        by_cases hcomma : ',' ∈ arguments line
        · have hargs := Lines.firstLine_append_afterLine hcomma
          have hsep := Lines.sep_notMem_firstLine ',' (arguments line)
          generalize Lines.firstLine ',' (arguments line) = s at hargs hsep ⊢
          rw [hargs, jump_of_comma hsep, Option.some.injEq]
          exact (bind_eq_error_of_ok fun _ => ⟨_, rfl⟩).trans liftM_eq_error
        · rw [Lines.firstLine_of_notMem hcomma, jump_of_no_comma hcomma, Option.some.injEq]
          refine bind_eq_error.trans ((or_iff_left ?_).trans liftM_eq_error)
          -- the panic is not an `Err`
          rintro ⟨src, -, h⟩
          cases h
  · rw [parseInstruction_eq_none_iff.mpr hknown]
    refine iff_of_false ?_ fun h => hknown h.1
    rintro ⟨⟩

theorem not_offends_blank {kind : ParseErrorKind} (hblank : trim line = []) :
    ¬ Offends T before line kind := by
  intro h
  have hcommand := command_blank hblank
  cases h with
  | operands h | print h | jumpIfNotZero h =>
      rw [hcommand] at h
      exact absurd h (by decide)
  | emptyLabel h =>
      rw [hcommand, List.replicate_succ] at h
      cases h
  | duplicatedLabel h => exact not_definesLabel_blank hblank h
  | unknown h => exact h hblank

/-- The first word is made of colons only. -/
theorem colons_iff {s : Str} :
    (∃ n, s = List.replicate (n + 1) ':') ↔ s.getLast? = some ':' ∧ trimEndMatches ':' s = [] := by
  constructor
  · rintro ⟨n, rfl⟩
    refine ⟨by rw [List.replicate_succ', List.getLast?_concat], ?_⟩
    have hall := trimEndMatches_replicate (c := ':') (s := []) nofun (n + 1)
    rwa [List.nil_append] at hall
  · rintro ⟨hcolon, hempty⟩
    obtain ⟨n, hn⟩ := trimEndMatches_append ':' s
    rw [hempty, List.nil_append] at hn
    cases n with
    | zero =>
        rw [hn] at hcolon
        cases hcolon
    | succ n => exact ⟨n, hn⟩

/-- The complaints about a line that holds no instruction. -/
theorem offends_iff_of_unknown (hunknown : command line ∉ mnemonics) (hblank : trim line ≠ [])
    {kind : ParseErrorKind} :
    Offends T before line kind ↔
      (∃ n, command line = List.replicate (n + 1) ':') ∧ kind = .emptyLabel ∨
        (∃ name, DefinesLabel line name ∧ (∃ earlier ∈ before, DefinesLabel earlier name) ∧
          kind = .duplicatedLabel name) ∨
        (command line).getLast? ≠ some ':' ∧ kind = .unknownCommand (command line) := by
  constructor
  · intro h
    cases h with
    | operands h =>
        refine absurd ?_ hunknown
        simp only [mnemonics, List.mem_cons, List.not_mem_nil, or_false] at h ⊢
        tauto
    | print h | jumpIfNotZero h => exact absurd (by rw [h]; decide) hunknown
    | emptyLabel h => exact .inl ⟨⟨_, h⟩, rfl⟩
    | duplicatedLabel h hmem hearlier => exact .inr (.inl ⟨_, h, ⟨_, hmem, hearlier⟩, rfl⟩)
    | unknown _ _ h => exact .inr (.inr ⟨h, rfl⟩)
  · rintro (⟨⟨n, h⟩, rfl⟩ | ⟨name, h, ⟨earlier, hmem, hearlier⟩, rfl⟩ | ⟨h, rfl⟩)
    · exact .emptyLabel h
    · exact .duplicatedLabel h hmem hearlier
    · exact .unknown hblank hunknown h

/-- **What a line is rejected with**, by a parser that knows the labels of the lines before. -/
theorem parseLine_eq_error {program : Program T}
    (hlabels : ∀ name, name ∈ program.labels ↔ ∃ earlier ∈ before, DefinesLabel earlier name) :
    parseLine program (line, n) = .error (.error e) ↔
      e.line = n ∧ Offends T before line e.error := by
  by_cases hblank : trim line = []
  · rw [parseLine_blank hblank]
    exact iff_of_false nofun fun h => not_offends_blank hblank h.2
  · cases hresult : (parseInstruction n (command line) (arguments line) :
      Option (Except ParseFailure (Instruction T))) with
    | some result =>
        have hknown : command line ∈ mnemonics := by
          by_contra hunknown
          rw [parseInstruction_eq_none_iff.mpr hunknown] at hresult
          cases hresult
        rw [parseLine_some hblank hresult]
        refine (bind_eq_error_of_ok fun _ => ⟨_, rfl⟩).trans ?_
        rw [← Option.some.injEq, ← hresult, @parseInstruction_eq_error _ _ before,
          and_iff_right hknown]
    | none =>
        have hunknown := parseInstruction_eq_none_iff.mp hresult
        obtain ⟨m, kind⟩ := e
        rw [parseLine_none hblank hresult, offends_iff_of_unknown hunknown hblank, colons_iff]
        simp only [← hlabels]
        simp only [definesLabel_iff]
        have hsame : ∀ {kind'}, (.error (.error ⟨n, kind'⟩) : Except ParseFailure (Program T)) =
            .error (.error ⟨m, kind⟩) ↔ m = n ∧ kind = kind' := by
          intro kind'
          rw [Except.error.injEq, ParseFailure.error.injEq, ParseError.mk.injEq, eq_comm (a := n),
            eq_comm (a := kind')]
        split_ifs with hcolon hempty hnew
        · rw [hsame]
          simp [hcolon, hempty]
        · rw [hsame]
          simp [hcolon, hempty, hnew]
        · simp [hcolon, hempty, hnew]
        · rw [ParseError.unknownCmd, hsame]
          simp [hcolon]

theorem Offends.quoted_within {kind : ParseErrorKind} (h : Offends T before line kind) :
    kind.quoted <:+: line := by
  cases h with
  | operands _ h => exact h.quoted_within.trans (arguments_within line)
  | print => exact (trim_within _).trans (arguments_within line)
  | jumpIfNotZero =>
      refine (trim_within _).trans (List.IsInfix.trans ?_ (arguments_within line))
      exact (List.take_prefix _ _).isInfix
  | emptyLabel => exact List.nil_infix
  | duplicatedLabel hlabel =>
      obtain ⟨-, -, n, hcommand⟩ := hlabel
      refine List.IsInfix.trans ?_ (command_within line)
      rw [hcommand]
      exact (List.prefix_append _ _).isInfix
  | unknown => exact command_within line

/-! ## Texts of stage 04 -/

/-- How a line is shown that is wrong; `debug` is the `Debug` of an error. -/
def marked (debug : ParseError → Str) (error : ParseError) (line : Str) (index : ℕ) : Str :=
  "> ".toList ++ line ++ "\nLine ".toList ++ (toString index).toList ++ ": ".toList ++ debug error

/-- The whole text, with the error behind the line it is in. -/
def annotateLine (debug : ParseError → Str) (input : Str) (error : ParseError) : Str :=
  ['\n'].intercalate ((lines input).zipIdx.map fun (line, index) =>
    if index = error.line then marked debug error line index else line)

/-- Line `n` offends, and the lines before it can be read. -/
structure FirstOffence (T : Type) [Value T] (text : Str) (n : ℕ) (line : Str)
    (kind : ParseErrorKind) : Prop where
  here : (lines text)[n]? = some line
  offends : Offends T ((lines text).take n) line kind
  earlier : Readable T ((lines text).take n)

private theorem mem_labels_of_foldlM {ls : List Str} {program : Program T}
    (h : ls.zipIdx.foldlM parseLine ⟨[], ∅⟩ = .ok program) (name : Str) :
    name ∈ program.labels ↔ ∃ earlier ∈ ls, DefinesLabel earlier name := by
  have hpositions : Positions ls program := by
    have hall := foldlM_induction
      (motive := fun done program => Positions (done.map Prod.fst) program) h .nil
      fun done item acc acc' hacc hitem => by
        rw [List.map_append]
        exact hacc.accepts (parseLine_eq_ok.mp hitem)
    rwa [List.zipIdx_map_fst] at hall
  rw [Finmap.mem_iff]
  constructor
  · rintro ⟨n, hn⟩
    obtain ⟨before, earlier, after, rfl, hlabel, -⟩ := (hpositions.labels name n).mp hn
    exact ⟨earlier, by simp, hlabel⟩
  · rintro ⟨earlier, hmem, hlabel⟩
    obtain ⟨before, after, rfl⟩ := List.append_of_mem hmem
    exact ⟨_, (hpositions.labels name _).mpr ⟨before, earlier, after, rfl, hlabel, rfl⟩⟩

theorem parseProgram_eq_error {text : Str} :
    (parseProgram text : Except ParseFailure (Program T)) = .error (.error e) ↔
      ∃ line, FirstOffence T text e.line line e.error := by
  rw [parseProgram, foldlM_eq_error]
  constructor
  · rintro ⟨done, item, rest, program, hlines, hdone, herror⟩
    obtain ⟨before, tail, hbefore, rfl, htail⟩ := List.zipIdx_eq_append_iff.mp hlines
    obtain ⟨line, after, rfl, rfl, rfl⟩ := List.zipIdx_eq_cons_iff.mp htail.symm
    obtain ⟨hnumber, hoffends⟩ := (parseLine_eq_error (mem_labels_of_foldlM hdone)).mp herror
    rw [Nat.zero_add] at hnumber
    have htake : (lines text).take e.line = before := by
      rw [hbefore, hnumber, List.take_left]
    refine ⟨line, ?_, ?_, ?_⟩
    · rw [hbefore, hnumber]
      simp
    · rwa [htake]
    · rw [htake]
      exact exists_foldlM_parseLine.mp ⟨program, hdone⟩
  · rintro ⟨line, hline, hoffends, hearlier⟩
    obtain ⟨program, hdone⟩ := exists_foldlM_parseLine (n := 0).mpr hearlier
    obtain ⟨rest, hrest⟩ := exists_zipIdx hline
    exact ⟨_, (line, e.line), rest, program, hrest, hdone,
      (parseLine_eq_error (mem_labels_of_foldlM hdone)).mpr ⟨rfl, hoffends⟩⟩

/-- Lines with other numbers are not marked. -/
theorem map_zipIdx_of_ne {ls : List Str} {k m : ℕ} (mark : Str → ℕ → Str)
    (h : m < k ∨ k + ls.length ≤ m) :
    ((ls.zipIdx k).map fun (line, index) => if index = m then mark line index else line) = ls := by
  induction ls generalizing k with
  | nil => rfl
  | cons line ls ih =>
      rw [List.length_cons] at h
      have hk : k ≠ m := by omega
      have hline : (if k = m then mark line k else line) = line := if_neg hk
      rw [List.zipIdx_cons, List.map_cons, ih (by omega)]
      exact congrArg (· :: ls) hline

/-- The line that is wrong is marked, and no other. -/
theorem annotateLine_eq {debug : ParseError → Str} {text : Str}
    (h : (lines text)[e.line]? = some line) :
    annotateLine debug text e = ['\n'].intercalate ((lines text).take e.line ++
      marked debug e line e.line :: (lines text).drop (e.line + 1)) := by
  obtain ⟨hlt, rfl⟩ := List.getElem?_eq_some_iff.mp h
  have hsplit : lines text =
      (lines text).take e.line ++ (lines text)[e.line] :: (lines text).drop (e.line + 1) := by simp
  have hlength : ((lines text).take e.line).length = e.line := List.length_take_of_le hlt.le
  unfold annotateLine
  conv_lhs => rw [hsplit]
  rw [List.zipIdx_append, List.zipIdx_cons, List.map_append, List.map_cons, hlength, Nat.zero_add,
    map_zipIdx_of_ne (marked debug e) (.inr (by omega)),
    map_zipIdx_of_ne (marked debug e) (.inl (by omega))]
  simp

/-- **A text is rejected with the complaint about the first line that offends**, which quotes a
part of it, and of the text that is printed it is this line that is marked. -/
theorem marks_first_offence (text : Str) (e : ParseError) :
    (parseProgram text : Except ParseFailure (Program T)) = .error (.error e) ↔
      ∃ line, FirstOffence T text e.line line e.error ∧ e.error.quoted <:+: line ∧
        ∀ debug, annotateLine debug text e = ['\n'].intercalate ((lines text).take e.line ++
          marked debug e line e.line :: (lines text).drop (e.line + 1)) := by
  refine parseProgram_eq_error.trans (exists_congr fun line => ?_)
  constructor
  · intro h
    exact ⟨h, h.offends.quoted_within, fun debug => annotateLine_eq h.here⟩
  · exact And.left

end Stage04

end RustCourse.Assembly
