import RustCourse.Assembly.Labels

/-!
# What the parser of stage 04 reads

The lines that `parse_program` accepts, said without its loop: `Denotes` relates a line to
the item that is read from it.  A text is accepted when every line denotes something and no
label is defined twice (`parseProgram_eq_ok`), and the parser panics at a jump without a
label, if it gets there (`parseProgram_total_iff`).

## Strategy

From the inside out: an operand, the two operands around a comma, an instruction, a line.  For
each there is a lemma that says when the parser returns a result and which one.  The loop over
the lines carries the program so far, and with it the labels that are taken; what it adds for
a list of items is `instructionsOf` and `labelsOf`, whatever was there before.  For the panics
the same is done with the one line that makes `next().unwrap()` fail.
-/

namespace RustCourse.Assembly.Stage04

open Str Fallible

variable {T : Type} [Value T]

/-! ## Operands -/

theorem isPrefixOf?_R {s rest : Str} : "R".toList.isPrefixOf? s = some rest ↔ s = 'R' :: rest :=
  List.isPrefixOf?_eq_some_iff_append_eq.trans eq_comm

/-- A register is an `R` and its number. -/
theorem parseWritableExpr_eq_ok {s : Str} {dest : WritableExpr} :
    parseWritableExpr s = .ok dest ↔
      ∃ digits index, trim s = 'R' :: digits ∧ parseU8 digits = .ok index ∧
        dest = .register index := by
  unfold parseWritableExpr
  constructor
  · intro h
    dsimp only at h
    split at h
    · exact nomatch h
    · next digits hdigits =>
        split at h
        · next index hindex =>
            cases h
            exact ⟨digits, index, isPrefixOf?_R.mp hdigits, hindex, rfl⟩
        · exact nomatch h
  · rintro ⟨digits, index, hdigits, hindex, rfl⟩
    simp only [isPrefixOf?_R.mpr hdigits, hindex]

theorem comma_notMem_number {s : Str} {n : UInt8} (h : parseU8 s = .ok n) : ',' ∉ s := by
  intro hmem
  rcases parseU8_ok h ',' hmem with hplus | ⟨hzero, -⟩
  · exact absurd hplus (by decide)
  · exact absurd hzero (by decide)

theorem comma_notMem_register {s : Str} {dest : WritableExpr}
    (h : parseWritableExpr s = .ok dest) : ',' ∉ s := by
  obtain ⟨digits, index, hdigits, hindex, -⟩ := parseWritableExpr_eq_ok.mp h
  rw [← mem_trim (by decide), hdigits, List.mem_cons, not_or]
  exact ⟨by decide, comma_notMem_number hindex⟩

/-- Blanks around an operand mean nothing. -/
theorem parseWritableExpr_congr {s s' : Str} (htrim : trim s' = trim s) :
    parseWritableExpr s' = parseWritableExpr s := by
  simp only [parseWritableExpr, htrim]

private theorem parseReadableExpr_congr {s s' : Str} (htrim : trim s' = trim s) :
    (parseReadableExpr s' : Except ParseErrorKind (ReadableExpr T)) = parseReadableExpr s := by
  simp only [parseReadableExpr, htrim]

/-- The operands of `MOV`, `ADD` and `SUB`. -/
theorem parseDestSrc_eq_ok {n : ℕ} {args : Str} {dest : WritableExpr} {src : ReadableExpr T} :
    parseDestSrc n args = .ok (dest, src) ↔
      ∃ d s, args = d ++ ',' :: s ∧ parseWritableExpr d = .ok dest ∧
        parseReadableExpr s = .ok src := by
  have hcomma : isWhitespace ',' = false := by decide
  unfold parseDestSrc
  dsimp only
  rw [splitOnce_trim hcomma]
  constructor
  · intro h
    cases hsplit : splitOnce ',' args with
    | none =>
        rw [hsplit] at h
        exact nomatch h
    | some parts =>
        obtain ⟨d, s⟩ := parts
        obtain ⟨hd, rfl⟩ := splitOnce_eq_some.mp hsplit
        simp only [hsplit, Option.map_some, bind_eq_ok, pure_eq_ok, addLine, mapError_eq_ok] at h
        obtain ⟨src', hsrc, dest', hdest, heq⟩ := h
        cases heq
        -- the parsers of the operands trim once more
        rw [parseReadableExpr_congr (trim_rdropWhile s)] at hsrc
        rw [parseWritableExpr_congr (trim_dropWhile d)] at hdest
        exact ⟨d, s, rfl, hdest, hsrc⟩
  · rintro ⟨d, s, rfl, hdest, hsrc⟩
    have hsplit : splitOnce ',' (d ++ ',' :: s) = some (d, s) :=
      splitOnce_eq_some.mpr ⟨comma_notMem_register hdest, rfl⟩
    simp only [hsplit, Option.map_some, bind_eq_ok, pure_eq_ok, addLine, mapError_eq_ok]
    refine ⟨src, ?_, dest, ?_, rfl⟩
    · rwa [parseReadableExpr_congr (trim_rdropWhile s)]
    · rwa [parseWritableExpr_congr (trim_dropWhile d)]

/-! ## Lines -/

/-- What a line may hold. -/
inductive Item (T : Type)
  | blank
  | instruction (instruction : Instruction T)
  | label (name : Str)

/-- The item that is read from a line. -/
inductive Denotes (line : Str) : Item T → Prop
  | blank : trim line = [] → Denotes line .blank
  | set {d s : Str} {dest : WritableExpr} {src : ReadableExpr T} :
      command line = "MOV".toList → arguments line = d ++ ',' :: s →
      parseWritableExpr d = .ok dest → parseReadableExpr s = .ok src →
      Denotes line (.instruction (.set dest src))
  | add {d s : Str} {dest : WritableExpr} {src : ReadableExpr T} :
      command line = "ADD".toList → arguments line = d ++ ',' :: s →
      parseWritableExpr d = .ok dest → parseReadableExpr s = .ok src →
      Denotes line (.instruction (.add dest src))
  | sub {d s : Str} {dest : WritableExpr} {src : ReadableExpr T} :
      command line = "SUB".toList → arguments line = d ++ ',' :: s →
      parseWritableExpr d = .ok dest → parseReadableExpr s = .ok src →
      Denotes line (.instruction (.sub dest src))
  | print {expr : ReadableExpr T} :
      command line = "PRINT".toList → parseReadableExpr (arguments line) = .ok expr →
      Denotes line (.instruction (.print expr))
  /-- what stands behind a second comma is not read -/
  | jumpIfNotZero {s rest : Str} {src : ReadableExpr T} :
      command line = "JNZ".toList → arguments line = s ++ ',' :: rest → ',' ∉ s →
      parseReadableExpr s = .ok src →
      Denotes line (.instruction (.jumpIfNotZero src (trim (Lines.firstLine ',' rest))))
  | label {name : Str} : DefinesLabel line name → Denotes line (.label name)

/-- A jump whose only operand can be read. -/
def LacksLabel (T : Type) [Value T] (line : Str) : Prop :=
  command line = "JNZ".toList ∧ ',' ∉ arguments line ∧
    ∃ src : ReadableExpr T, parseReadableExpr (arguments line) = .ok src

private theorem splitOn_comma (args : Str) :
    ∃ more, args.splitOn ',' = Lines.firstLine ',' args :: more := by
  by_cases hcomma : ',' ∈ args
  · have hsplit := List.splitOn_append_cons_self_of_not_mem
      (Lines.sep_notMem_firstLine ',' args) (Lines.afterLine ',' args)
    rw [← Lines.firstLine_append_afterLine hcomma] at hsplit
    exact ⟨_, hsplit⟩
  · exact ⟨[], by rw [List.splitOn_eq_singleton hcomma, Lines.firstLine_of_notMem hcomma]⟩

/-! ## Instructions -/

/-- The arm of `JNZ`, by the number of commas. -/
theorem parseInstruction_jnz (n : ℕ) (args : Str) :
    (parseInstruction n "JNZ".toList args : Option (Except ParseFailure (Instruction T))) =
      some (do
        let (arg, args) ← nextUnwrap (args.splitOn ',')
        let src ← addLine n (parseReadableExpr arg)
        let (label, _) ← nextUnwrap args
        return .jumpIfNotZero src (trim label)) := by
  rw [parseInstruction, if_neg (by decide), if_neg (by decide), if_neg (by decide),
    if_neg (by decide), if_pos rfl]

theorem jump_of_comma {n : ℕ} {s rest : Str} (hs : ',' ∉ s) :
    (parseInstruction n "JNZ".toList (s ++ ',' :: rest) :
        Option (Except ParseFailure (Instruction T))) =
      some (do
        let src ← addLine n (parseReadableExpr s)
        return .jumpIfNotZero src (trim (Lines.firstLine ',' rest))) := by
  obtain ⟨more, hmore⟩ := splitOn_comma rest
  rw [parseInstruction_jnz, List.splitOn_append_cons_self_of_not_mem hs, hmore]
  rfl

theorem jump_of_no_comma {n : ℕ} {args : Str} (h : ',' ∉ args) :
    (parseInstruction n "JNZ".toList args : Option (Except ParseFailure (Instruction T))) =
      some (do
        let (_ : ReadableExpr T) ← addLine n (parseReadableExpr args)
        .error .panic) := by
  rw [parseInstruction_jnz, List.splitOn_eq_singleton h]
  rfl

/-- **The parser reads what a line denotes.** -/
theorem parseInstruction_eq_ok {n : ℕ} {line : Str} {instruction : Instruction T} :
    parseInstruction n (command line) (arguments line) = some (.ok instruction) ↔
      Denotes line (.instruction instruction) := by
  constructor
  · intro h
    -- a jump takes its operands from an iterator, the others have `parse_dest_src`
    by_cases hjump : command line = "JNZ".toList
    · rw [hjump] at h
      by_cases hcomma : ',' ∈ arguments line
      · have hargs := Lines.firstLine_append_afterLine hcomma
        have hfirst := Lines.sep_notMem_firstLine ',' (arguments line)
        rw [hargs, jump_of_comma hfirst, Option.some.injEq, bind_eq_ok] at h
        obtain ⟨src, hsrc, h⟩ := h
        cases h
        exact .jumpIfNotZero hjump hargs hfirst (mapError_eq_ok.mp (mapError_eq_ok.mp hsrc))
      -- without a comma the second `next().unwrap()` panics
      · rw [jump_of_no_comma hcomma, Option.some.injEq, bind_eq_ok] at h
        obtain ⟨src, -, h⟩ := h
        exact nomatch h
    · unfold parseInstruction at h
      split_ifs at h with hmov hadd hsub hprint
      all_goals rw [Option.some.injEq, bind_eq_ok] at h
      · obtain ⟨⟨dest, src⟩, hoperands, h⟩ := h
        cases h
        obtain ⟨d, s, hargs, hdest, hsrc⟩ := parseDestSrc_eq_ok.mp (mapError_eq_ok.mp hoperands)
        exact .set hmov hargs hdest hsrc
      · obtain ⟨⟨dest, src⟩, hoperands, h⟩ := h
        cases h
        obtain ⟨d, s, hargs, hdest, hsrc⟩ := parseDestSrc_eq_ok.mp (mapError_eq_ok.mp hoperands)
        exact .add hadd hargs hdest hsrc
      · obtain ⟨⟨dest, src⟩, hoperands, h⟩ := h
        cases h
        obtain ⟨d, s, hargs, hdest, hsrc⟩ := parseDestSrc_eq_ok.mp (mapError_eq_ok.mp hoperands)
        exact .sub hsub hargs hdest hsrc
      · obtain ⟨expr, hexpr, h⟩ := h
        cases h
        exact .print hprint (mapError_eq_ok.mp (mapError_eq_ok.mp hexpr))
  · intro h
    cases h with
    | set hcommand hargs hdest hsrc =>
        rw [hcommand, parseInstruction, if_pos rfl, Option.some.injEq, bind_eq_ok]
        exact ⟨_, mapError_eq_ok.mpr (parseDestSrc_eq_ok.mpr ⟨_, _, hargs, hdest, hsrc⟩), rfl⟩
    | add hcommand hargs hdest hsrc =>
        rw [hcommand, parseInstruction, if_neg (by decide), if_pos rfl, Option.some.injEq,
          bind_eq_ok]
        exact ⟨_, mapError_eq_ok.mpr (parseDestSrc_eq_ok.mpr ⟨_, _, hargs, hdest, hsrc⟩), rfl⟩
    | sub hcommand hargs hdest hsrc =>
        rw [hcommand, parseInstruction, if_neg (by decide), if_neg (by decide), if_pos rfl,
          Option.some.injEq, bind_eq_ok]
        exact ⟨_, mapError_eq_ok.mpr (parseDestSrc_eq_ok.mpr ⟨_, _, hargs, hdest, hsrc⟩), rfl⟩
    | print hcommand hexpr =>
        rw [hcommand, parseInstruction, if_neg (by decide), if_neg (by decide),
          if_neg (by decide), if_pos rfl, Option.some.injEq, bind_eq_ok]
        exact ⟨_, mapError_eq_ok.mpr (mapError_eq_ok.mpr hexpr), rfl⟩
    | jumpIfNotZero hcommand hargs hfirst hsrc =>
        rw [hcommand, hargs, jump_of_comma hfirst, Option.some.injEq, bind_eq_ok]
        exact ⟨_, mapError_eq_ok.mpr (mapError_eq_ok.mpr hsrc), rfl⟩

/-! ## Panics -/

theorem bind_eq_panic {α β : Type} {x : Except ParseError α} {f : α → Except ParseFailure β} :
    (liftM x >>= f) = .error .panic ↔ ∃ a, x = .ok a ∧ f a = .error .panic := by
  cases x with
  | error e => exact ⟨nofun, nofun⟩
  | ok a => exact ⟨fun h => ⟨a, rfl, h⟩, fun ⟨_, heq, h⟩ => by cases heq; exact h⟩

/-- **Only a jump without a label panics.** -/
theorem parseInstruction_eq_panic {n : ℕ} {line : Str} :
    (parseInstruction n (command line) (arguments line) :
        Option (Except ParseFailure (Instruction T))) = some (.error .panic) ↔
      LacksLabel T line := by
  by_cases hjump : command line = "JNZ".toList
  · rw [hjump]
    by_cases hcomma : ',' ∈ arguments line
    · rw [Lines.firstLine_append_afterLine hcomma,
        jump_of_comma (Lines.sep_notMem_firstLine ',' (arguments line)), Option.some.injEq,
        bind_eq_panic]
      exact ⟨fun ⟨_, _, h⟩ => (nomatch h), fun h => absurd hcomma h.2.1⟩
    · rw [jump_of_no_comma hcomma, Option.some.injEq, bind_eq_panic]
      constructor
      · rintro ⟨src, hsrc, -⟩
        exact ⟨hjump, hcomma, src, mapError_eq_ok.mp hsrc⟩
      · rintro ⟨-, -, src, hsrc⟩
        exact ⟨src, mapError_eq_ok.mpr hsrc, rfl⟩
  · refine ⟨fun h => ?_, fun h => absurd h.1 hjump⟩
    -- the other arms have no `unwrap`
    unfold parseInstruction at h
    split_ifs at h
    all_goals
      rw [Option.some.injEq, bind_eq_panic] at h
      obtain ⟨_, -, h⟩ := h
      exact nomatch h

/-! ## Texts -/

namespace Item

/-- The instruction on the line, if there is one. -/
def instruction? : Item T → Option (Instruction T)
  | instruction i => some i
  | blank | label _ => none

/-- The label that the line defines. -/
def label? : Item T → Option Str
  | label name => some name
  | blank | instruction _ => none

end Item

/-- The program with one line more. -/
def Program.append (program : Program T) : Item T → Program T
  | .blank => program
  | .instruction i => { program with instructions := program.instructions ++ [i] }
  | .label name =>
      { program with labels := program.labels.insert name program.instructions.length }

theorem accepts_iff {program program' : Program T} {line : Str} {n : ℕ} :
    Accepts program line n program' ↔
      ∃ item, Denotes line item ∧ (∀ name ∈ item.label?, name ∉ program.labels) ∧
        program' = program.append item := by
  constructor
  · intro h
    cases h with
    | blank hblank => exact ⟨.blank, .blank hblank, nofun, rfl⟩
    | @instruction i hblank hinstruction =>
        exact ⟨.instruction i, parseInstruction_eq_ok.mp hinstruction, nofun, rfl⟩
    | label hblank hinstruction hcolon hempty hnew =>
        refine ⟨.label _, .label (definesLabel_iff.mpr ⟨hcolon, rfl, hempty⟩), ?_, rfl⟩
        rintro name ⟨⟩
        exact hnew
  · rintro ⟨item, hdenotes, hnew, rfl⟩
    cases item with
    | blank =>
        cases hdenotes with
        | blank hblank => exact .blank hblank
    | instruction i =>
        have hinstruction := parseInstruction_eq_ok (n := n).mpr hdenotes
        -- a blank line has no command
        refine .instruction (fun hblank => ?_) hinstruction
        rw [command_blank hblank, parseInstruction_eq_none_iff.mpr (by decide)] at hinstruction
        exact nomatch hinstruction
    | label name =>
        cases hdenotes with
        | label hlabel =>
            obtain ⟨hcolon, rfl, hempty⟩ := definesLabel_iff.mp hlabel
            refine .label (fun hblank => ?_) ?_ hcolon hempty (hnew _ rfl)
            · exact not_definesLabel_blank hblank hlabel
            · refine parseInstruction_eq_none_iff.mpr ?_
              exact of_decide_eq_false hlabel.not_holdsInstruction

/-- The instructions of a list of items, in their order. -/
def instructionsOf (items : List (Item T)) : List (Instruction T) :=
  items.filterMap Item.instruction?

/-- The labels that the lines define, in their order. -/
def labelsOf (items : List (Item T)) : List Str :=
  items.filterMap Item.label?

omit [Value T] in
private theorem instructionsOf_cons (item : Item T) (items : List (Item T)) :
    instructionsOf (item :: items) = item.instruction?.toList ++ instructionsOf items := by
  cases item <;> rfl

omit [Value T] in
theorem labelsOf_cons (item : Item T) (items : List (Item T)) :
    labelsOf (item :: items) = item.label?.toList ++ labelsOf items := by
  cases item <;> rfl

omit [Value T] in
private theorem nodup_labelsOf_cons {item : Item T} {items : List (Item T)} :
    (labelsOf (item :: items)).Nodup ↔
      (∀ name ∈ item.label?, name ∉ labelsOf items) ∧ (labelsOf items).Nodup := by
  rw [labelsOf_cons]
  cases item with
  | blank | instruction i => simp [Item.label?]
  | label name => simp [Item.label?]

omit [Value T] in
private theorem mem_append_labels {program : Program T} {item : Item T} {name : Str} :
    name ∈ (program.append item).labels ↔ name ∈ item.label? ∨ name ∈ program.labels := by
  cases item with
  | blank => simp [Program.append, Item.label?]
  | instruction i => simp [Program.append, Item.label?]
  | label name' => simp [Program.append, Item.label?, eq_comm]

omit [Value T] in
theorem instructions_foldl_append (items : List (Item T)) (program : Program T) :
    (items.foldl Program.append program).instructions =
      program.instructions ++ instructionsOf items := by
  induction items generalizing program with
  | nil => simp [instructionsOf]
  | cons item items ih =>
      rw [List.foldl_cons, ih, instructionsOf_cons]
      cases item <;> simp [Program.append, Item.instruction?]

/-! ## What the parser makes of a text -/

/-- **The loop of the parser**, from a program that has been read so far: every line denotes an
item, and the labels are new. -/
theorem foldlM_parseLine_eq_ok {ls : List Str} {n : ℕ} {program program' : Program T} :
    (ls.zipIdx n).foldlM parseLine program = .ok program' ↔
      ∃ items, List.Forall₂ Denotes ls items ∧ (labelsOf items).Nodup ∧
        (∀ name ∈ labelsOf items, name ∉ program.labels) ∧
        program' = items.foldl Program.append program := by
  -- by induction on the lines, for every program read so far
  induction ls generalizing n program with
  | nil =>
      constructor
      · rintro ⟨⟩
        exact ⟨[], .nil, .nil, nofun, rfl⟩
      · rintro ⟨items, hdenotes, -, -, rfl⟩
        cases hdenotes
        rfl
  | cons line ls ih =>
      rw [List.zipIdx_cons, List.foldlM_cons, bind_eq_ok]
      constructor
      · rintro ⟨next, hline, hrest⟩
        obtain ⟨item, hitem, hnew, rfl⟩ := accepts_iff.mp (parseLine_eq_ok.mp hline)
        obtain ⟨items, hdenotes, hnodup, hfresh, rfl⟩ := ih.mp hrest
        -- behind this line its label is taken
        have hfresh' : ∀ name ∈ labelsOf items, name ∉ item.label? ∧ name ∉ program.labels := by
          intro name hname
          simpa [mem_append_labels, not_or] using hfresh name hname
        refine ⟨item :: items, .cons hitem hdenotes, ?_, ?_, rfl⟩
        · exact nodup_labelsOf_cons.mpr ⟨fun name hname hmem => (hfresh' name hmem).1 hname, hnodup⟩
        · intro name hname
          rw [labelsOf_cons, List.mem_append, Option.mem_toList] at hname
          rcases hname with hname | hname
          · exact hnew name hname
          · exact (hfresh' name hname).2
      · rintro ⟨items, hdenotes, hnodup, hfresh, rfl⟩
        cases hdenotes with
        | @cons _ item _ items hitem hdenotes =>
            rw [labelsOf_cons] at hfresh
            obtain ⟨hother, hnodup⟩ := nodup_labelsOf_cons.mp hnodup
            refine ⟨program.append item,
              parseLine_eq_ok.mpr (accepts_iff.mpr ⟨item, hitem, ?_, rfl⟩),
              ih.mpr ⟨items, hdenotes, hnodup, ?_, rfl⟩⟩
            · intro name hname
              exact hfresh name (List.mem_append_left _ (Option.mem_toList.mpr hname))
            · intro name hname
              rw [mem_append_labels, not_or]
              exact ⟨fun hmem => hother name hmem hname,
                hfresh name (List.mem_append_right _ hname)⟩

/-- The lines of a text that is accepted. -/
def Readable (T : Type) [Value T] (ls : List Str) : Prop :=
  ∃ items : List (Item T), List.Forall₂ Denotes ls items ∧ (labelsOf items).Nodup

/-- **What is accepted, and as which program.** -/
theorem parseProgram_eq_ok {text : Str} {program : Program T} :
    parseProgram text = .ok program ↔
      ∃ items, List.Forall₂ Denotes (lines text) items ∧ (labelsOf items).Nodup ∧
        program = items.foldl Program.append ⟨[], ∅⟩ := by
  refine foldlM_parseLine_eq_ok.trans ?_
  simp [Finmap.notMem_empty]

theorem exists_foldlM_parseLine {ls : List Str} {n : ℕ} :
    (∃ program : Program T, (ls.zipIdx n).foldlM parseLine ⟨[], ∅⟩ = .ok program) ↔
      Readable T ls := by
  constructor
  · rintro ⟨program, h⟩
    obtain ⟨items, hdenotes, hnodup, -⟩ := foldlM_parseLine_eq_ok.mp h
    exact ⟨items, hdenotes, hnodup⟩
  · rintro ⟨items, hdenotes, hnodup⟩
    have hfresh : ∀ name ∈ labelsOf items, name ∉ (⟨[], ∅⟩ : Program T).labels := by
      simp [Finmap.notMem_empty]
    exact ⟨_, foldlM_parseLine_eq_ok.mpr ⟨items, hdenotes, hnodup, hfresh, rfl⟩⟩

/-! ## The parser is total but for one kind of line -/

private theorem parseLine_eq_panic {program : Program T} {line : Str} {n : ℕ} :
    parseLine program (line, n) = .error .panic ↔ LacksLabel T line := by
  rw [← parseInstruction_eq_panic (n := n)]
  by_cases hblank : trim line = []
  · rw [parseLine_blank hblank, command_blank hblank,
      parseInstruction_eq_none_iff.mpr (by decide)]
    exact ⟨nofun, nofun⟩
  · cases hresult : parseInstruction (T := T) n (command line) (arguments line) with
    | some result =>
        rw [parseLine_some hblank hresult, Option.some.injEq]
        cases result with
        | error failure => exact ⟨fun h => by cases h; rfl, fun h => by cases h; rfl⟩
        | ok instruction => exact ⟨nofun, nofun⟩
    | none =>
        rw [parseLine_none hblank hresult]
        refine ⟨fun h => ?_, nofun⟩
        split_ifs at h <;> exact nomatch h

private theorem parseProgram_eq_panic {text : Str} :
    (parseProgram text : Except ParseFailure (Program T)) = .error .panic ↔
      ∃ before line after, lines text = before ++ line :: after ∧ Readable T before ∧
        LacksLabel T line := by
  rw [parseProgram, foldlM_eq_error]
  constructor
  · rintro ⟨done, item, rest, program, hlines, hdone, hpanic⟩
    obtain ⟨before, tail, hbefore, rfl, htail⟩ := List.zipIdx_eq_append_iff.mp hlines
    obtain ⟨line, after, rfl, rfl, rfl⟩ := List.zipIdx_eq_cons_iff.mp htail.symm
    exact ⟨before, line, after, hbefore, exists_foldlM_parseLine.mp ⟨program, hdone⟩,
      parseLine_eq_panic.mp hpanic⟩
  · rintro ⟨before, line, after, hlines, hbefore, hlacks⟩
    obtain ⟨program, hdone⟩ := exists_foldlM_parseLine (n := 0).mpr hbefore
    refine ⟨before.zipIdx, (line, before.length), after.zipIdx (before.length + 1), program, ?_,
      hdone, parseLine_eq_panic.mpr hlacks⟩
    rw [hlines, List.zipIdx_append, List.zipIdx_cons, Nat.zero_add]

/-- **The parser never panics, exactly if no line that it gets to is a jump without a label.** -/
theorem parseProgram_total_iff (T : Type) [Value T] (text : Str) :
    (parseProgram text : Except ParseFailure (Program T)) ≠ .error .panic ↔
      ∀ before line after, lines text = before ++ line :: after → Readable T before →
        ¬ LacksLabel T line := by
  rw [ne_eq, parseProgram_eq_panic]
  simp only [not_exists, not_and]

/-- A jump without a label. -/
theorem parseProgram_panics :
    (parseProgram "JNZ R0".toList : Except ParseFailure (Program UInt8)) = .error .panic :=
  rfl

end RustCourse.Assembly.Stage04
