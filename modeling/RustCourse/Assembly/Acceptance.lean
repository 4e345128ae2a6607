import RustCourse.Assembly.Grammar

/-!
# The grammar of stage 04 and what the parser accepts beyond it

`WellFormed` is the grammar of a line as a text, for constants that are `u8`s.  The parser
accepts every text of the grammar and reads what it denotes, but it also accepts lines with
something in them that it does not read (`Surplus`): what stands behind a label, colons
behind the first one, what stands behind the second comma of a jump, and a jump to something
that no line can define.  These are all (`denotes_iff`), and the parser follows the grammar
on the texts without them, and on those that it refuses for another reason
(`follows_grammar_iff`).

## Strategy

`Assembly/Grammar` says what the parser reads from a line (`Denotes`), in the words of the
parser.  Here a line of the grammar or with a surplus is shown to denote something, and
conversely (`denotes_iff`); a cut at the first space, comma or colon is unique, which tells the
two kinds apart (`not_surplus_of_wellFormed`).  What holds of lines is then carried to texts by
`parseProgram_eq_ok`.
-/

namespace RustCourse.Assembly.Stage04

open Str Fallible

/-! ## The grammar -/

/-- A `u8` or an `R` and a `u8`, with blanks around it. -/
inductive OperandOf (s : Str) : ReadableExpr UInt8 → Prop
  | constant {value : UInt8} : parseU8 (trim s) = .ok value → OperandOf s (.constant value)
  | register {digits : Str} {index : UInt8} : trim s = 'R' :: digits →
      parseU8 digits = .ok index → OperandOf s (.register index)

/-- The text is a register, which the writable expression is, up to blanks. -/
inductive RegisterOf (s : Str) : WritableExpr → Prop
  | register {digits : Str} {index : UInt8} : trim s = 'R' :: digits →
      parseU8 digits = .ok index → RegisterOf s (.register index)

/-- What a line can define as a label. -/
structure LabelName (name : Str) : Prop where
  nonempty : name ≠ []
  oneWord : ' ' ∉ name
  noColon : name.getLast? ≠ some ':'

/-- A line of the grammar, trimmed, and what it holds. -/
inductive WellFormed : Str → Item UInt8 → Prop
  | blank : WellFormed [] .blank
  | set {d s : Str} {dest : WritableExpr} {src : ReadableExpr UInt8} :
      RegisterOf d dest → OperandOf s src →
      WellFormed ("MOV ".toList ++ d ++ ',' :: s) (.instruction (.set dest src))
  | add {d s : Str} {dest : WritableExpr} {src : ReadableExpr UInt8} :
      RegisterOf d dest → OperandOf s src →
      WellFormed ("ADD ".toList ++ d ++ ',' :: s) (.instruction (.add dest src))
  | sub {d s : Str} {dest : WritableExpr} {src : ReadableExpr UInt8} :
      RegisterOf d dest → OperandOf s src →
      WellFormed ("SUB ".toList ++ d ++ ',' :: s) (.instruction (.sub dest src))
  | print {s : Str} {expr : ReadableExpr UInt8} : OperandOf s expr →
      WellFormed ("PRINT ".toList ++ s) (.instruction (.print expr))
  | jumpIfNotZero {s l : Str} {src : ReadableExpr UInt8} :
      OperandOf s src → ',' ∉ l → LabelName (trim l) →
      WellFormed ("JNZ ".toList ++ s ++ ',' :: l) (.instruction (.jumpIfNotZero src (trim l)))
  | label {name : Str} : LabelName name → WellFormed (name ++ [':']) (.label name)

/-- A line with more than the grammar has, or with a jump that can have no target, and what
there is without that. -/
inductive Surplus : Str → Item UInt8 → Prop
  | behindLabel {name rest : Str} {n : ℕ} : LabelName name →
      Surplus (name ++ List.replicate (n + 1) ':' ++ ' ' :: rest) (.label name)
  | colons {name : Str} {n : ℕ} : LabelName name →
      Surplus (name ++ List.replicate (n + 2) ':') (.label name)
  | behindTarget {s l r : Str} {src : ReadableExpr UInt8} : OperandOf s src → ',' ∉ l →
      Surplus ("JNZ ".toList ++ s ++ ',' :: l ++ ',' :: r)
        (.instruction (.jumpIfNotZero src (trim l)))
  | noTarget {s l : Str} {src : ReadableExpr UInt8} : OperandOf s src → ',' ∉ l →
      ¬ LabelName (trim l) →
      Surplus ("JNZ ".toList ++ s ++ ',' :: l) (.instruction (.jumpIfNotZero src (trim l)))

/-- Every line of the text is one of the grammar, and no label is defined twice. -/
def InGrammar (text : Str) (items : List (Item UInt8)) : Prop :=
  List.Forall₂ (fun line item => WellFormed (trim line) item) (lines text) items ∧
    (labelsOf items).Nodup

/-- The same, where lines may have a surplus. -/
def InLooseGrammar (text : Str) (items : List (Item UInt8)) : Prop :=
  List.Forall₂ (fun line item => WellFormed (trim line) item ∨ Surplus (trim line) item)
      (lines text) items ∧
    (labelsOf items).Nodup

/-! ## Operands -/

theorem parseWritableExpr_iff {s : Str} {dest : WritableExpr} :
    parseWritableExpr s = .ok dest ↔ RegisterOf s dest := by
  rw [parseWritableExpr_eq_ok]
  constructor
  · rintro ⟨digits, index, hdigits, hindex, rfl⟩
    exact .register hdigits hindex
  · rintro ⟨hdigits, hindex⟩
    exact ⟨_, _, hdigits, hindex, rfl⟩

theorem parse_u8_eq_ok {s : Str} {value : UInt8} :
    (Value.parse s : Except String UInt8) = .ok value ↔ parseU8 s = .ok value :=
  mapError_eq_ok

/-- No constant starts with an `R`. -/
theorem parseU8_R (digits : Str) (value : UInt8) : parseU8 ('R' :: digits) ≠ .ok value := by
  intro h
  rcases parseU8_ok h 'R' List.mem_cons_self with hplus | ⟨-, hnine⟩
  · exact absurd hplus (by decide)
  · exact absurd hnine (by decide)

theorem parseReadableExpr_iff {s : Str} {expr : ReadableExpr UInt8} :
    parseReadableExpr s = .ok expr ↔ OperandOf s expr := by
  constructor
  · intro h
    unfold parseReadableExpr at h
    dsimp only at h
    split at h
    · next value hvalue =>
        cases h
        exact .constant (parse_u8_eq_ok.mp hvalue)
    · split at h
      · exact nomatch h
      · next digits hdigits =>
          split at h
          · next index hindex =>
              cases h
              exact .register (isPrefixOf?_R.mp hdigits) hindex
          · exact nomatch h
  · intro h
    cases h with
    | constant hvalue => simp only [parseReadableExpr, parse_u8_eq_ok.mpr hvalue]
    | @register digits index hdigits hindex =>
        -- a register is not read as a constant
        cases hvalue : (Value.parse (trim s) : Except String UInt8) with
        | ok value =>
            rw [hdigits, parse_u8_eq_ok] at hvalue
            exact absurd hvalue (parseU8_R digits value)
        | error e => simp only [parseReadableExpr, hvalue, isPrefixOf?_R.mpr hdigits, hindex]

theorem OperandOf.comma_notMem {s : Str} {expr : ReadableExpr UInt8} (h : OperandOf s expr) :
    ',' ∉ s := by
  cases h with
  | constant hvalue =>
      rw [← mem_trim (by decide)]
      exact comma_notMem_number hvalue
  | register hdigits hindex =>
      exact comma_notMem_register (parseWritableExpr_iff.mpr (.register hdigits hindex))

theorem OperandOf.ne_nil {s : Str} {expr : ReadableExpr UInt8} (h : OperandOf s expr) :
    s ≠ [] := by
  rintro rfl
  cases h with
  | constant hvalue => exact nomatch hvalue
  | register hdigits hindex => exact nomatch hdigits

/-! ## Words -/

/-- A line with a space is cut at the first one. -/
theorem line_of_space {line : Str} (h : ' ' ∈ trim line) :
    trim line = command line ++ ' ' :: arguments line := by
  cases hsplit : splitOnce ' ' (trim line) with
  | none => exact absurd h (splitOnce_eq_none.mp hsplit)
  | some parts =>
      rw [command, arguments, hsplit]
      exact (splitOnce_eq_some.mp hsplit).2

theorem line_of_arguments {line : Str} (h : arguments line ≠ []) :
    trim line = command line ++ ' ' :: arguments line := by
  refine line_of_space (by_contra fun hspace => h ?_)
  rw [arguments, splitOnce_eq_none.mpr hspace]

theorem command_of_line {line w rest : Str} (hw : ' ' ∉ w)
    (h : trim line = w ++ ' ' :: rest) : command line = w ∧ arguments line = rest := by
  have hsplit : splitOnce ' ' (trim line) = some (w, rest) :=
    splitOnce_eq_some.mpr ⟨hw, h⟩
  rw [command, arguments, hsplit]
  exact ⟨rfl, rfl⟩

theorem command_of_word {line : Str} (h : ' ' ∉ trim line) :
    command line = trim line ∧ arguments line = [] := by
  rw [command, arguments, splitOnce_eq_none.mpr h]
  exact ⟨rfl, rfl⟩

private theorem space_notMem_command (line : Str) : ' ' ∉ command line := by
  cases hsplit : splitOnce ' ' (trim line) with
  | none =>
      rw [command, hsplit]
      exact splitOnce_eq_none.mp hsplit
  | some parts =>
      rw [command, hsplit]
      exact (splitOnce_eq_some.mp hsplit).1

theorem space_notMem_label {name : Str} (h : LabelName name) (n : ℕ) :
    ' ' ∉ name ++ List.replicate n ':' := by
  rw [List.mem_append, List.mem_replicate]
  rintro (hname | ⟨-, hcolon⟩)
  · exact h.oneWord hname
  · exact absurd hcolon (by decide)

theorem LabelName.of_definesLabel {line name : Str} (h : DefinesLabel line name) :
    LabelName name := by
  obtain ⟨hempty, hcolon, n, hcommand⟩ := h
  refine ⟨hempty, fun hspace => ?_, hcolon⟩
  exact space_notMem_command line (hcommand ▸ List.mem_append_left _ hspace)

/-! ## Lines -/

/-- What the parser reads from a line is what the grammar says, or the line has a surplus. -/
theorem wellFormed_or_surplus {line : Str} {item : Item UInt8} (h : Denotes line item) :
    WellFormed (trim line) item ∨ Surplus (trim line) item := by
  cases h with
  | blank hblank =>
      rw [hblank]
      exact .inl .blank
  | set hcommand hargs hdest hsrc =>
      rw [line_of_arguments (by simp [hargs]), hcommand, hargs]
      exact .inl (.set (parseWritableExpr_iff.mp hdest) (parseReadableExpr_iff.mp hsrc))
  | add hcommand hargs hdest hsrc =>
      rw [line_of_arguments (by simp [hargs]), hcommand, hargs]
      exact .inl (.add (parseWritableExpr_iff.mp hdest) (parseReadableExpr_iff.mp hsrc))
  | sub hcommand hargs hdest hsrc =>
      rw [line_of_arguments (by simp [hargs]), hcommand, hargs]
      exact .inl (.sub (parseWritableExpr_iff.mp hdest) (parseReadableExpr_iff.mp hsrc))
  | print hcommand hexpr =>
      rw [parseReadableExpr_iff] at hexpr
      rw [line_of_arguments hexpr.ne_nil, hcommand]
      exact .inl (.print hexpr)
  | @jumpIfNotZero s rest src hcommand hargs hs hsrc =>
      rw [parseReadableExpr_iff] at hsrc
      rw [line_of_arguments (by simp [hargs]), hcommand, hargs]
      -- what stands behind a second comma is not read
      by_cases hcomma : ',' ∈ rest
      · right
        have hfirst := Lines.sep_notMem_firstLine ',' rest
        have hsurplus := Surplus.behindTarget (r := Lines.afterLine ',' rest) hsrc hfirst
        rw [List.append_assoc, List.cons_append,
          ← Lines.firstLine_append_afterLine hcomma] at hsurplus
        exact hsurplus
      · rw [Lines.firstLine_of_notMem hcomma]
        by_cases hname : LabelName (trim rest)
        · exact .inl (.jumpIfNotZero hsrc hcomma hname)
        · exact .inr (.noTarget hsrc hcomma hname)
  | @label name hlabel =>
      have hname := LabelName.of_definesLabel hlabel
      obtain ⟨-, -, n, hcommand⟩ := hlabel
      -- nor is what stands behind a label, or the colons behind its first one
      by_cases hspace : ' ' ∈ trim line
      · rw [line_of_space hspace, hcommand]
        exact .inr (.behindLabel hname)
      · rw [← (command_of_word hspace).1, hcommand]
        cases n with
        | zero => exact .inl (.label hname)
        | succ n => exact .inr (.colons hname)

private theorem denotes_of_wellFormed {line : Str} {item : Item UInt8}
    (h : WellFormed (trim line) item) : Denotes line item := by
  generalize htrim : trim line = t at h
  cases h with
  | blank => exact .blank htrim
  -- the mnemonic is what stands before the first space
  | set hdest hsrc =>
      obtain ⟨hcommand, hargs⟩ := command_of_line (w := "MOV".toList) (by decide) htrim
      exact .set hcommand hargs (parseWritableExpr_iff.mpr hdest) (parseReadableExpr_iff.mpr hsrc)
  | add hdest hsrc =>
      obtain ⟨hcommand, hargs⟩ := command_of_line (w := "ADD".toList) (by decide) htrim
      exact .add hcommand hargs (parseWritableExpr_iff.mpr hdest) (parseReadableExpr_iff.mpr hsrc)
  | sub hdest hsrc =>
      obtain ⟨hcommand, hargs⟩ := command_of_line (w := "SUB".toList) (by decide) htrim
      exact .sub hcommand hargs (parseWritableExpr_iff.mpr hdest) (parseReadableExpr_iff.mpr hsrc)
  | print hexpr =>
      obtain ⟨hcommand, hargs⟩ := command_of_line (w := "PRINT".toList) (by decide) htrim
      refine .print hcommand (parseReadableExpr_iff.mpr ?_)
      rw [hargs]
      exact hexpr
  | @jumpIfNotZero s l src hsrc hcomma hname =>
      obtain ⟨hcommand, hargs⟩ := command_of_line (w := "JNZ".toList) (by decide) htrim
      have hdenotes := Denotes.jumpIfNotZero hcommand hargs hsrc.comma_notMem
        (parseReadableExpr_iff.mpr hsrc)
      rwa [Lines.firstLine_of_notMem hcomma] at hdenotes
  | @label name hname =>
      have hspace : ' ' ∉ trim line := htrim ▸ space_notMem_label hname 1
      have hcommand := (command_of_word hspace).1.trans htrim
      exact .label ⟨hname.nonempty, hname.noColon, 0, hcommand⟩

private theorem denotes_of_surplus {line : Str} {item : Item UInt8} (h : Surplus (trim line) item) :
    Denotes line item := by
  generalize htrim : trim line = t at h
  cases h with
  | @behindLabel name rest n hname =>
      obtain ⟨hcommand, -⟩ := command_of_line (space_notMem_label hname (n + 1)) htrim
      exact .label ⟨hname.nonempty, hname.noColon, n, hcommand⟩
  | @colons name n hname =>
      have hspace : ' ' ∉ trim line := htrim ▸ space_notMem_label hname (n + 2)
      have hcommand := (command_of_word hspace).1.trans htrim
      exact .label ⟨hname.nonempty, hname.noColon, n + 1, hcommand⟩
  | @behindTarget s l r src hsrc hcomma =>
      rw [List.append_assoc, List.cons_append] at htrim
      obtain ⟨hcommand, hargs⟩ := command_of_line (w := "JNZ".toList) (by decide) htrim
      have hdenotes := Denotes.jumpIfNotZero hcommand hargs hsrc.comma_notMem
        (parseReadableExpr_iff.mpr hsrc)
      rwa [Lines.firstLine_line hcomma] at hdenotes
  | @noTarget s l src hsrc hcomma hname =>
      obtain ⟨hcommand, hargs⟩ := command_of_line (w := "JNZ".toList) (by decide) htrim
      have hdenotes := Denotes.jumpIfNotZero hcommand hargs hsrc.comma_notMem
        (parseReadableExpr_iff.mpr hsrc)
      rwa [Lines.firstLine_of_notMem hcomma] at hdenotes

/-- **What the parser reads from a line is what the grammar says, up to a surplus.** -/
theorem denotes_iff {line : Str} {item : Item UInt8} :
    Denotes line item ↔ WellFormed (trim line) item ∨ Surplus (trim line) item := by
  constructor
  · exact wellFormed_or_surplus
  · rintro (hwell | hsurplus)
    · exact denotes_of_wellFormed hwell
    · exact denotes_of_surplus hsurplus

/-! ## A surplus is not in the grammar -/

/-- A text is cut at its first separator. -/
theorem cut_unique {sep : Char} {s s' r r' : Str} (hs : sep ∉ s) (hs' : sep ∉ s')
    (h : s ++ sep :: r = s' ++ sep :: r') : s = s' ∧ r = r' := by
  have hsplit : splitOnce sep (s ++ sep :: r) = some (s, r) := splitOnce_eq_some.mpr ⟨hs, rfl⟩
  rw [splitOnce_eq_some.mpr ⟨hs', h⟩] at hsplit
  cases hsplit
  exact ⟨rfl, rfl⟩

/-- What the first word of a line of the grammar is, if it is not the only one. -/
theorem WellFormed.of_space {t w r : Str} {item : Item UInt8} (h : WellFormed t item)
    (hw : ' ' ∉ w) (ht : t = w ++ ' ' :: r) :
    w ∈ mnemonics ∧ (w = "JNZ".toList → ∃ s l src, r = s ++ ',' :: l ∧
      OperandOf s src ∧ ',' ∉ l ∧ LabelName (trim l)) := by
  cases h with
  | blank => simp at ht
  | @set d s dest src _ _ =>
      obtain ⟨rfl, -⟩ := cut_unique (s := "MOV".toList) (r := d ++ ',' :: s) (by decide) hw ht
      exact ⟨by decide, fun h => absurd h (by decide)⟩
  | @add d s dest src _ _ =>
      obtain ⟨rfl, -⟩ := cut_unique (s := "ADD".toList) (r := d ++ ',' :: s) (by decide) hw ht
      exact ⟨by decide, fun h => absurd h (by decide)⟩
  | @sub d s dest src _ _ =>
      obtain ⟨rfl, -⟩ := cut_unique (s := "SUB".toList) (r := d ++ ',' :: s) (by decide) hw ht
      exact ⟨by decide, fun h => absurd h (by decide)⟩
  | @print s expr _ =>
      obtain ⟨rfl, -⟩ := cut_unique (s := "PRINT".toList) (r := s) (by decide) hw ht
      exact ⟨by decide, fun h => absurd h (by decide)⟩
  | @jumpIfNotZero s l src hsrc hcomma hname =>
      obtain ⟨rfl, rfl⟩ := cut_unique (s := "JNZ".toList) (r := s ++ ',' :: l) (by decide) hw ht
      exact ⟨by decide, fun _ => ⟨s, l, src, rfl, hsrc, hcomma, hname⟩⟩
  | @label name hname =>
      have hspace := space_notMem_label hname 1
      rw [List.replicate_one, ht] at hspace
      exact absurd (by simp) hspace

theorem WellFormed.of_word {t : Str} {item : Item UInt8} (h : WellFormed t item)
    (hspace : ' ' ∉ t) : t = [] ∨ ∃ name, LabelName name ∧ t = name ++ [':'] := by
  cases h with
  | blank => exact .inl rfl
  | label hname => exact .inr ⟨_, hname, rfl⟩
  | set | add | sub | print | jumpIfNotZero => exact absurd (by simp) hspace

private theorem not_surplus_of_wellFormed {t : Str} {item item' : Item UInt8}
    (h : WellFormed t item) : ¬ Surplus t item' := by
  intro hsurplus
  cases hsurplus with
  -- a line of the grammar with a space in it begins with a mnemonic
  | @behindLabel name rest n hname =>
      obtain ⟨hmnemonic, -⟩ := h.of_space (space_notMem_label hname (n + 1)) rfl
      have hlast : ∀ w ∈ mnemonics, w.getLast? ≠ some ':' := by decide
      refine hlast _ hmnemonic ?_
      rw [List.replicate_succ', ← List.append_assoc, List.getLast?_concat]
  | @colons name n hname =>
      rcases h.of_word (space_notMem_label hname (n + 2)) with hnil | ⟨name', hname', heq⟩
      · exact hname.nonempty (List.append_eq_nil_iff.mp hnil).1
      · -- the names are the same, so one colon is as many as two
        have htrim := congrArg (trimEndMatches ':') heq
        rw [← List.replicate_one, trimEndMatches_replicate hname.noColon,
          trimEndMatches_replicate hname'.noColon] at htrim
        subst htrim
        have hlength := congrArg List.length heq
        simp at hlength
  -- the operands are cut at the same comma in both readings
  | @behindTarget s l r src hsrc hcomma =>
      obtain ⟨-, htarget⟩ := h.of_space (w := "JNZ".toList) (r := s ++ ',' :: l ++ ',' :: r)
        (by decide) (by simp)
      obtain ⟨s', l', src', heq, hsrc', hcomma', -⟩ := htarget rfl
      rw [List.append_assoc, List.cons_append] at heq
      obtain ⟨-, rfl⟩ := cut_unique hsrc.comma_notMem hsrc'.comma_notMem heq
      exact hcomma' (by simp)
  | @noTarget s l src hsrc hcomma hname =>
      obtain ⟨-, htarget⟩ := h.of_space (w := "JNZ".toList) (r := s ++ ',' :: l)
        (by decide) (by simp)
      obtain ⟨s', l', src', heq, hsrc', -, hname'⟩ := htarget rfl
      obtain ⟨-, rfl⟩ := cut_unique hsrc.comma_notMem hsrc'.comma_notMem heq
      exact hname hname'

/-! ## The parser and its grammar -/

/-- The parser follows the grammar on a text: it accepts the text exactly if that is one of the
grammar, and the instructions are those of the lines. -/
def FollowsGrammar (text : Str) : Prop :=
  ((∃ program : Program UInt8, parseProgram text = .ok program) ↔ ∃ items, InGrammar text items) ∧
    ∀ program : Program UInt8, parseProgram text = .ok program →
      ∃ items, InGrammar text items ∧ program.instructions = instructionsOf items

theorem parseProgram_iff_loose {text : Str} {program : Program UInt8} :
    parseProgram text = .ok program ↔ ∃ items, InLooseGrammar text items ∧
      program = items.foldl Program.append ⟨[], ∅⟩ := by
  rw [parseProgram_eq_ok]
  simp only [InLooseGrammar, ← denotes_iff, and_assoc]

theorem InGrammar.loose {text : Str} {items : List (Item UInt8)} (h : InGrammar text items) :
    InLooseGrammar text items :=
  ⟨h.1.imp fun _ _ => .inl, h.2⟩

theorem InGrammar.not_surplus {text : Str} {items : List (Item UInt8)}
    (h : InGrammar text items) : ∀ line ∈ lines text, ∀ item, ¬ Surplus (trim line) item := by
  have hlines : List.Forall₂ (fun line item =>
      (∀ item', ¬ Surplus (trim line) item') ∧ WellFormed (trim line) item) (lines text) items :=
    h.1.imp fun _ _ hwell => ⟨fun _ => not_surplus_of_wellFormed hwell, hwell⟩
  exact ((List.forall₂_and_left _ _).mp hlines).1

theorem InLooseGrammar.inGrammar {text : Str} {items : List (Item UInt8)}
    (h : InLooseGrammar text items)
    (hclean : ∀ line ∈ lines text, ∀ item, ¬ Surplus (trim line) item) : InGrammar text items := by
  have hlines := (List.forall₂_and_left _ _).mpr ⟨hclean, h.1⟩
  exact ⟨hlines.imp fun _ item hline => hline.2.resolve_right (hline.1 item), h.2⟩

/-- **The parser follows its grammar on a text, exactly if that is not a text of the grammar up to
a surplus that one of its lines has.** -/
theorem follows_grammar_iff (text : Str) :
    FollowsGrammar text ↔ ∀ items, InLooseGrammar text items →
      ∀ line ∈ lines text, ∀ item, ¬ Surplus (trim line) item := by
  constructor
  · rintro ⟨haccepts, -⟩ items hloose
    obtain ⟨items', hgrammar⟩ := haccepts.mp ⟨_, parseProgram_iff_loose.mpr ⟨items, hloose, rfl⟩⟩
    exact hgrammar.not_surplus
  · intro hclean
    -- what is accepted is of the grammar, line by line
    have hsound : ∀ program : Program UInt8, parseProgram text = .ok program →
        ∃ items, InGrammar text items ∧ program.instructions = instructionsOf items := by
      intro program hparse
      obtain ⟨items, hloose, rfl⟩ := parseProgram_iff_loose.mp hparse
      refine ⟨items, hloose.inGrammar (hclean items hloose), ?_⟩
      rw [instructions_foldl_append, List.nil_append]
    refine ⟨⟨?_, ?_⟩, hsound⟩
    · rintro ⟨program, hparse⟩
      obtain ⟨items, hgrammar, -⟩ := hsound program hparse
      exact ⟨items, hgrammar⟩
    · -- the parser is complete, always
      rintro ⟨items, hgrammar⟩
      exact ⟨_, parseProgram_iff_loose.mpr ⟨items, hgrammar.loose, rfl⟩⟩

/-- An instruction behind a label is accepted and is not an instruction of the program. -/
theorem instruction_behind_label :
    parseProgram "a: PRINT 1".toList = .ok (⟨[], Finmap.insert "a".toList 0 ∅⟩ : Program UInt8) ∧
      ¬ FollowsGrammar "a: PRINT 1".toList := by
  refine ⟨rfl, fun h => ?_⟩
  obtain ⟨items, hgrammar⟩ := h.1.mp ⟨_, rfl⟩
  have hname : LabelName "a".toList := ⟨by decide, by decide, by decide⟩
  have hsurplus : Surplus "a: PRINT 1".toList _ := .behindLabel (n := 0) hname
  exact hgrammar.not_surplus "a: PRINT 1".toList (by decide) _ hsurplus

end RustCourse.Assembly.Stage04
