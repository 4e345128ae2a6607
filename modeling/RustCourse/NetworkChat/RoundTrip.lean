import RustCourse.NetworkChat.Reader

/-!
# What the network chat codec loses

A read of the socket that hands out the newline of a line may hand out more behind it, and that
is lost (`Spills`).  The messages get through nevertheless if what is lost makes no difference:
no other newline is lost, and the line that has lost its front is still read as its message
(`Harmless`).  `reads_back_iff` says that the condition is exact.

Every call of `read` that returns a message takes a newline (`count_le_of_readAll`), so where
one is lost there are too few of them.  Where none is, the calls and the lines go together, and
the proof goes from line to line; `line` is what is left of the first one.
-/

namespace RustCourse.NetworkChat.Stage02

open Lines MessageReader

variable {T : Type*} {encode : T → List UInt8} {decode : List UInt8 → Option T}
  {pieces rest init : List (List UInt8)} {line text front behind : List UInt8}

/-! ## Spilling -/

/-- A read hands out `behind` together with the newline that is preceded by `ended` others. -/
def Spills (pieces : List (List UInt8)) (ended : ℕ) (behind : List UInt8) : Prop :=
  ∃ before front after, pieces = before ++ (front ++ newline :: behind) :: after ∧
    ended = (before.flatten ++ front).count newline

/-- No newline is spilled, and a line without what is spilled of it is still read as its
message. -/
def Harmless (encode : T → List UInt8) (decode : List UInt8 → Option T) (msgs : List T)
    (pieces : List (List UInt8)) : Prop :=
  ∀ ended behind, Spills pieces ended behind → newline ∉ behind ∧
    ∀ msg, msgs[ended + 1]? = some msg → decode ((encode msg).drop behind.length) = some msg

private theorem not_spills_nil {ended : ℕ} : ¬ Spills [] ended behind := by
  rintro ⟨before, front, after, heq, -⟩
  simp at heq

theorem spills_cons_iff {piece : List UInt8} {ended : ℕ} :
    Spills (piece :: pieces) ended behind ↔
      (∃ front, piece = front ++ newline :: behind ∧ ended = front.count newline) ∨
        ∃ later, ended = piece.count newline + later ∧ Spills pieces later behind := by
  constructor
  · rintro ⟨before, front, after, heq, rfl⟩
    cases before with
    | nil =>
        cases heq
        exact .inl ⟨front, rfl, rfl⟩
    | cons first before =>
        cases heq
        refine .inr ⟨_, ?_, before, front, after, rfl, rfl⟩
        rw [List.flatten_cons, List.append_assoc, List.count_append]
  · rintro (⟨front, rfl, rfl⟩ | ⟨later, rfl, before, front, after, rfl, rfl⟩)
    · exact ⟨[], front, pieces, rfl, rfl⟩
    · refine ⟨piece :: before, front, after, rfl, ?_⟩
      simp only [List.flatten_cons, List.count_append, Nat.add_assoc]

/-- **What is spilled** behind the first line, by the read of its newline, and later. -/
theorem spills_iff {ended : ℕ} {behind' : List UInt8} (hinit : newline ∉ init.flatten ++ front)
    (hbehind : newline ∉ behind) :
    Spills (init ++ (front ++ newline :: behind) :: rest) ended behind' ↔
      ended = 0 ∧ behind' = behind ∨ ∃ later, ended = later + 1 ∧ Spills rest later behind' := by
  induction init with
  | nil =>
      have hfront : newline ∉ front := by simpa using hinit
      have hcount : (front ++ newline :: behind).count newline = 1 := by
        rw [List.count_append, List.count_cons_self, List.count_eq_zero.mpr hfront,
          List.count_eq_zero.mpr hbehind]
      rw [List.nil_append, spills_cons_iff, hcount]
      refine or_congr ?_ (exists_congr fun later => by rw [Nat.add_comm])
      constructor
      · rintro ⟨front', heq, rfl⟩
        have hfront' : newline ∉ front' := by
          rw [heq, List.count_append, List.count_cons_self] at hcount
          exact List.count_eq_zero.mp (by omega)
        obtain ⟨rfl, rfl⟩ := line_unique hfront hfront' heq
        exact ⟨List.count_eq_zero.mpr hfront, rfl⟩
      · rintro ⟨rfl, rfl⟩
        exact ⟨front, rfl, (List.count_eq_zero.mpr hfront).symm⟩
  | cons piece init ih =>
      rw [List.flatten_cons, List.append_assoc, List.mem_append, not_or] at hinit
      rw [List.cons_append, spills_cons_iff, List.count_eq_zero.mpr hinit.1, ← ih hinit.2]
      simp only [Nat.zero_add, exists_eq_left']
      refine or_iff_right ?_
      rintro ⟨front', rfl, -⟩
      exact hinit.1 (by simp)

/-- The condition, line by line. -/
theorem harmless_iff {msg : T} {msgs : List T} (hinit : newline ∉ init.flatten ++ front) :
    Harmless encode decode (msg :: msgs) (init ++ (front ++ newline :: behind) :: rest) ↔
      newline ∉ behind ∧
        (∀ next, msgs.head? = some next →
          decode ((encode next).drop behind.length) = some next) ∧
        Harmless encode decode msgs rest := by
  by_cases hbehind : newline ∈ behind
  · refine iff_of_false (fun h => ?_) fun h => h.1 hbehind
    exact (h 0 behind ⟨init, front, rest, rfl, (List.count_eq_zero.mpr hinit).symm⟩).1 hbehind
  · simp only [Harmless, spills_iff hinit hbehind, hbehind, not_false_iff, true_and]
    constructor
    · intro h
      refine ⟨fun next hnext => ?_, fun later behind' hspills => ?_⟩
      · rw [List.head?_eq_getElem?] at hnext
        exact (h 0 behind (.inl ⟨rfl, rfl⟩)).2 next hnext
      · exact h (later + 1) behind' (.inr ⟨later, rfl, hspills⟩)
    · rintro ⟨hnext, hlater⟩ ended behind' (⟨rfl, rfl⟩ | ⟨later, rfl, hspills⟩)
      · refine ⟨hbehind, fun next hmem => hnext next ?_⟩
        rwa [List.head?_eq_getElem?]
      · exact hlater later behind' hspills

/-- Nothing is lost where every read ends with a newline at the latest. -/
theorem harmless_of_aligned {msgs : List T} (hinverts : ∀ msg, decode (encode msg) = some msg)
    (h : ∀ ended behind, Spills pieces ended behind → behind = []) :
    Harmless encode decode msgs pieces := by
  intro ended behind hspills
  obtain rfl := h ended behind hspills
  exact ⟨List.not_mem_nil, fun msg _ => hinverts msg⟩

/-! ## Calls -/

private theorem suffix_of_call {got : Option (ChatResult T)} (h : Call decode [] pieces got rest) :
    rest <:+ pieces := by
  cases h with
  | ended => exact List.nil_suffix
  | full => exact List.suffix_append _ _
  | @line init last =>
      rw [List.append_cons]
      exact List.suffix_append _ _

/-- A call that returns a message takes a newline. -/
theorem count_le_of_call {got : Option (ChatResult T)} (h : Call decode [] pieces got rest) :
    (if got.isSome then 1 else 0) + rest.flatten.count newline ≤
      pieces.flatten.count newline := by
  cases h with
  | ended => exact Nat.zero_le _
  | @full taken =>
      rw [List.flatten_append, List.count_append]
      simp
  | @line init last _ _ hlast =>
      have hpos := List.count_pos_iff.mpr hlast
      simp only [Option.isSome_some, if_true, List.flatten_append, List.flatten_cons,
        List.count_append]
      omega

private theorem count_le_of_readAll {calls : ℕ} {r : MessageReader}
    {gots : List (Option (ChatResult T))}
    (h : readAll decode calls r (pieces.map .ok) = some gots)
    (hpieces : ∀ piece ∈ pieces, piece ≠ []) :
    gots.countP Option.isSome ≤ pieces.flatten.count newline := by
  induction calls generalizing r pieces gots with
  | zero =>
      cases h
      exact Nat.zero_le _
  | succ calls ih =>
      obtain ⟨⟨got, r', socket⟩, hread, hcalls⟩ := Option.bind_eq_some_iff.mp h
      obtain ⟨gots', hgots', rfl⟩ := Option.map_eq_some_iff.mp hcalls
      obtain ⟨rest, rfl, hcall⟩ := call_of_read hread hpieces
      have hrest := ih hgots' fun p hp => hpieces p ((suffix_of_call hcall).mem hp)
      have hfirst := count_le_of_call hcall
      rw [List.countP_cons]
      omega

/-- **The call that reads a line.** -/
theorem first_of_call {got : Option (ChatResult T)} (h : Call decode [] pieces got rest)
    (hsplit : pieces.flatten = line ++ newline :: text) (hline : newline ∉ line)
    (hfits : line.length < bufferSize) :
    got = some (parse decode line) ∧ ∃ init front behind,
      pieces = init ++ (front ++ newline :: behind) :: rest ∧ line = init.flatten ++ front ∧
        behind ++ rest.flatten = text := by
  cases h with
  | ended hnone =>
      refine absurd ?_ hnone
      rw [List.nil_append, hsplit]
      simp
  | @full taken _ hnone hfull =>
      rw [List.nil_append] at hnone hfull
      rw [List.flatten_append] at hsplit
      obtain ⟨left, rfl, -⟩ := exists_of_append_eq hsplit hnone
      rw [List.length_append] at hfits
      omega
  | @line init last _ hnone hlast =>
      rw [List.nil_append] at hnone ⊢
      have hcut := firstLine_append_afterLine hlast
      generalize hfront : firstLine newline last = front at hcut
      generalize afterLine newline last = behind at hcut
      subst hcut
      have hnone' : newline ∉ init.flatten ++ front := by
        rw [List.mem_append, not_or, ← hfront]
        exact ⟨hnone, sep_notMem_firstLine _ _⟩
      rw [List.flatten_append, List.flatten_cons, ← List.append_assoc, ← List.append_assoc,
        List.append_assoc (_ ++ front), List.cons_append] at hsplit
      obtain ⟨rfl, rfl⟩ := line_unique hnone' hline hsplit
      refine ⟨?_, init, front, behind, rfl, rfl, rfl⟩
      rw [← List.append_assoc, firstLine_line hnone']

/-! ## The round trip -/

/-- The results for messages that get through. -/
def results (msgs : List T) : List (Option (ChatResult T)) :=
  msgs.map (fun msg => some (.ok msg)) ++ [none]

private theorem countP_results (msgs : List T) :
    (results msgs).countP Option.isSome = msgs.length := by
  rw [results, List.countP_append, List.countP_map, List.countP_eq_length.mpr (by simp)]
  rfl

private theorem parse_eq_ok {msg : T} : parse decode line = .ok msg ↔ decode line = some msg := by
  unfold parse
  cases decode line with
  | none => simp
  | some got => simp

/-- The first of successive calls, and what it leaves to the others. -/
theorem first_of_readAll {calls : ℕ} {r : MessageReader} {gots : List (Option (ChatResult T))}
    (h : readAll decode (calls + 1) r (pieces.map .ok) = some gots)
    (hpieces : ∀ piece ∈ pieces, piece ≠ [])
    (hsplit : pieces.flatten = line ++ newline :: text) (hline : newline ∉ line)
    (hfits : line.length < bufferSize) :
    ∃ gots' r' init front behind rest, gots = some (parse decode line) :: gots' ∧
      readAll decode calls r' (rest.map .ok) = some gots' ∧ (∀ piece ∈ rest, piece ≠ []) ∧
      pieces = init ++ (front ++ newline :: behind) :: rest ∧ line = init.flatten ++ front ∧
      behind ++ rest.flatten = text := by
  obtain ⟨⟨got, r', socket⟩, hread, hcalls⟩ := Option.bind_eq_some_iff.mp h
  obtain ⟨gots', hgots', rfl⟩ := Option.map_eq_some_iff.mp hcalls
  obtain ⟨rest, rfl, hcall⟩ := call_of_read hread hpieces
  have hrest : ∀ piece ∈ rest, piece ≠ [] :=
    fun piece hmem => hpieces piece ((suffix_of_call hcall).mem hmem)
  obtain ⟨rfl, init, front, behind, hcut⟩ := first_of_call hcall hsplit hline hfits
  exact ⟨gots', r', init, front, behind, rest, rfl, hgots', hrest, hcut⟩

private theorem eq_nil_of_flatten (h : pieces.flatten = [])
    (hpieces : ∀ piece ∈ pieces, piece ≠ []) : pieces = [] := by
  rw [List.eq_nil_iff_forall_not_mem]
  exact fun piece hmem => hpieces piece hmem (List.flatten_eq_nil_iff.mp h piece hmem)

/-- Line by line, where `line` is what is left of the first one. -/
theorem reads_iff (hencode : ∀ msg, newline ∉ encode msg) {msgs : List T} {msg : T}
    {r : MessageReader} {gots : List (Option (ChatResult T))}
    (h : readAll decode (msgs.length + 2) r (pieces.map .ok) = some gots)
    (hpieces : ∀ piece ∈ pieces, piece ≠ [])
    (hsplit : pieces.flatten = line ++ newline :: unlines newline (msgs.map encode))
    (hline : newline ∉ line) (hfits : line.length < bufferSize)
    (hmsgs : ∀ next ∈ msgs, (encode next).length < bufferSize) :
    gots = results (msg :: msgs) ↔
      decode line = some msg ∧ Harmless encode decode (msg :: msgs) pieces := by
  -- on the messages: a call reads one line and drops what the piece holds behind it
  induction msgs generalizing msg line pieces r gots with
  | nil =>
      obtain ⟨gots', r', init, front, behind, rest, rfl, hcalls, hrest, rfl, rfl, htext⟩ :=
        first_of_readAll h hpieces hsplit hline hfits
      rw [List.map_nil, unlines_nil, List.append_eq_nil_iff] at htext
      obtain ⟨rfl, hflatten⟩ := htext
      obtain rfl := eq_nil_of_flatten hflatten hrest
      have hgots' : gots' = [none] := (Option.some.inj hcalls).symm
      rw [harmless_iff hline, hgots', results, List.map_singleton, List.singleton_append,
        List.cons.injEq, Option.some.injEq, parse_eq_ok]
      refine and_congr_right fun _ => iff_of_true rfl ⟨List.not_mem_nil, nofun, ?_⟩
      exact fun ended behind hspills => absurd hspills not_spills_nil
  | cons next msgs ih =>
      obtain ⟨gots', r', init, front, behind, rest, rfl, hcalls, hrest, rfl, rfl, htext⟩ :=
        first_of_readAll h hpieces hsplit hline hfits
      obtain ⟨hnext, hlater⟩ := List.forall_mem_cons.mp hmsgs
      rw [harmless_iff hline, results, List.map_cons, List.cons_append, List.cons.injEq,
        Option.some.injEq, parse_eq_ok]
      refine and_congr_right fun _ => ?_
      change gots' = results (next :: msgs) ↔ _
      by_cases hbehind : newline ∈ behind
      · -- one newline less than there are messages to come
        refine iff_of_false (fun hgots' => ?_) fun h => h.1 hbehind
        have hle := count_le_of_readAll hcalls hrest
        have htotal := congrArg (List.count newline) htext
        have hlines : (unlines newline ((next :: msgs).map encode)).count newline =
            (next :: msgs).length := by
          rw [count_unlines (by simp [hencode]), List.length_map]
        rw [hgots', countP_results] at hle
        rw [List.count_append, hlines] at htotal
        have hpos := List.count_pos_iff.mpr hbehind
        omega
      -- what is dropped is the front of the next message, so the rest is read as its line
      · rw [List.map_cons, unlines_cons] at htext
        obtain ⟨left, hleft, hflatten⟩ := exists_of_append_eq htext hbehind
        have hmem : newline ∉ left := fun hmem => hencode next (by simp [hleft, hmem])
        have hlength : left.length < bufferSize := by
          rw [hleft, List.length_append] at hnext
          omega
        have hdrop : (encode next).drop behind.length = left := by
          rw [hleft, List.drop_left]
        rw [ih hcalls hrest hflatten hmem hlength hlater]
        simp [hbehind, hdrop]

/-- **The messages get through, exactly if what is spilled makes no difference.**  The pieces are
what the reads of the socket hand out, to one call more than there are messages. -/
theorem reads_back_iff {msgs : List T} {gots : List (Option (ChatResult T))}
    (hinverts : ∀ msg, decode (encode msg) = some msg) (hencode : ∀ msg, newline ∉ encode msg)
    (hfits : ∀ msg ∈ msgs, (encode msg).length + 1 ≤ bufferSize)
    (hsplit : pieces.flatten = sendAll encode msgs) (hpieces : ∀ piece ∈ pieces, piece ≠ [])
    (hreads : readAll decode (msgs.length + 1) .new (pieces.map .ok) = some gots) :
    gots = results msgs ↔ Harmless encode decode msgs pieces := by
  rw [sendAll_eq] at hsplit
  cases msgs with
  | nil =>
      obtain rfl := eq_nil_of_flatten hsplit hpieces
      have hgots : gots = [none] := (Option.some.inj hreads).symm
      exact iff_of_true hgots fun ended behind hspills => absurd hspills not_spills_nil
  | cons msg msgs =>
      obtain ⟨hfirst, hlater⟩ := List.forall_mem_cons.mp hfits
      rw [List.map_cons, unlines_cons] at hsplit
      rw [reads_iff hencode hreads hpieces hsplit (hencode msg) hfirst hlater]
      exact and_iff_right (hinverts msg)

/-! ## A codec -/

/-- `serde_json::to_vec` on a unit, `null`. -/
def encodeUnit (_ : Unit) : List UInt8 := [110, 117, 108, 108]

/-- `serde_json::from_slice` for a unit, on what `to_vec` writes. -/
def decodeUnit (line : List UInt8) : Option Unit :=
  if line = encodeUnit () then some () else none

private theorem decodeUnit_encodeUnit (msg : Unit) : decodeUnit (encodeUnit msg) = some msg := rfl

private theorem newline_notMem_encodeUnit (msg : Unit) : newline ∉ encodeUnit msg := by
  show newline ∉ [110, 117, 108, 108]
  decide

/-- Two lines in three reads, of which none goes over a newline. -/
theorem reads_back_iff_three :
    Harmless encodeUnit decodeUnit [(), ()]
      [[110, 117], [108, 108, 10], [110, 117, 108, 108, 10]] := by
  have hreads : readAll decodeUnit ([(), ()].length + 1) .new
      ([[110, 117], [108, 108, 10], [110, 117, 108, 108, 10]].map .ok) =
        some (results [(), ()]) := rfl
  exact (reads_back_iff decodeUnit_encodeUnit newline_notMem_encodeUnit (by decide) (by decide)
    (by decide) hreads).mp rfl

/-- Two lines in one read: the second one is lost. -/
theorem not_reads_back_one :
    ∃ (pieces : List (List UInt8)) (gots : List (Option (ChatResult Unit))),
    pieces.flatten = sendAll encodeUnit [(), ()] ∧
      readAll decodeUnit 3 .new (pieces.map .ok) = some gots ∧ gots ≠ results [(), ()] :=
  ⟨[[110, 117, 108, 108, 10, 110, 117, 108, 108, 10]], [some (.ok ()), none, none], by decide, rfl,
    by decide⟩

end RustCourse.NetworkChat.Stage02
