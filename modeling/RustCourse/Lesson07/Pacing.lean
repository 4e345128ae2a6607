import RustCourse.Lesson07.Pipeline

/-!
# The pace of `fork_join`

Only the receives from the lines make the gatherer wait for an item.  With at least one
line, what it puts out belongs to items that came in (`Paced`).  The builder also accepts
`n_lines = 0`: then the loop over the lines is empty, and the gatherer joins empty vectors
without an end, unless that panics.

## Strategy

With lines, every stage is paced because a row needs an item on each of the lines
(`exists_row_of_joined`), and a composition of paced stages is paced.  Without lines a run is
built in which the gatherer joins empty vectors as often as one likes (`exists_idle_run`),
unless joining nothing panics; the rest of the pipeline is run behind it.
-/

namespace RustCourse.Lesson07

open Dataflow Transition

variable {I O L U : Type}

/-! ## Pace -/

/-- Not more was put out than came in, and everything was joined from the results of one item. -/
def Paced (f : O → ℕ → Outcome L) (nLines : ℕ) (join : List L → Outcome U) (ins : List O)
    (outs : List U) : Prop :=
  outs.length ≤ ins.length ∧
    ∀ u ∈ outs, ∃ x ∈ ins, ∃ row, IsRow f nLines x row ∧ join row = .ret u

theorem Outcome.all_eq_ret_iff {α : Type} {calls : List (Outcome α)} {results : List α} :
    all calls = .ret results ↔ calls = results.map .ret := by
  constructor
  · intro h
    induction calls generalizing results with
    | nil =>
        cases h
        rfl
    | cons call rest ih =>
        cases call with
        | panic => exact nomatch h
        | ret result =>
            cases hrest : all rest with
            | panic => simp [all, hrest] at h
            | ret results' =>
                simp only [all, hrest, map_ret, ret.injEq] at h
                rw [← h, ih hrest, List.map_cons]
  · rintro rfl
    exact all_map_ret results

namespace Paced

variable {f : O → ℕ → Outcome L} {nLines : ℕ} {join : List L → Outcome U} {ins ins' : List O}
  {outs outs' : List U}

theorem mono (h : Paced f nLines join ins outs) (hins : ins <+: ins') (houts : outs' <+: outs) :
    Paced f nLines join ins' outs' := by
  refine ⟨houts.length_le.trans (h.1.trans hins.length_le), fun u hu => ?_⟩
  obtain ⟨x, hx, hrow⟩ := h.2 u (houts.subset hu)
  exact ⟨x, hins.subset hx, hrow⟩

private theorem isRow_of_all {x : O} {row : List L}
    (h : Outcome.all ((List.range nLines).map (f x)) = .ret row) : IsRow f nLines x row := by
  have hcalls := Outcome.all_eq_ret_iff.mp h
  refine ⟨by simpa using (congrArg List.length hcalls).symm, fun k y hy => ?_⟩
  have hentry := congrArg (·[k]?) hcalls
  simp only [List.getElem?_map, hy, Option.map_some] at hentry
  obtain ⟨line, hline, hcall⟩ := Option.map_eq_some_iff.mp hentry
  obtain ⟨hlt, rfl⟩ := List.getElem?_eq_some_iff.mp hline
  rwa [List.getElem_range] at hcall

private theorem exists_row_of_joined {x : O} {result : Option U}
    (h : joined f nLines join x = .ret result) :
    ∃ row u, IsRow f nLines x row ∧ join row = .ret u ∧ result = some u := by
  rw [joined] at h
  cases hall : Outcome.all ((List.range nLines).map (f x)) with
  | panic => simp [hall, Outcome.bind] at h
  | ret row =>
      cases hjoin : join row with
      | panic => simp [hall, Outcome.bind, hjoin] at h
      | ret u =>
          simp only [hall, Outcome.bind, hjoin, Outcome.map_ret, Outcome.ret.injEq] at h
          exact ⟨row, u, isRow_of_all hall, hjoin, h.symm⟩

/-- What `fork_join` puts out as a loop. -/
theorem emitted_joined (f : O → ℕ → Outcome L) (nLines : ℕ) (join : List L → Outcome U)
    (xs : List O) : Paced f nLines join xs (emitted (joined f nLines join) xs) := by
  induction xs with
  | nil => exact ⟨le_rfl, by simp⟩
  | cons x rest ih =>
      cases hx : joined f nLines join x with
      | panic =>
          simp only [emitted, hx]
          exact ⟨Nat.zero_le _, by simp⟩
      | ret result =>
          obtain ⟨row, u, hrow, hjoin, rfl⟩ := exists_row_of_joined hx
          simp only [emitted, hx]
          refine ⟨Nat.succ_le_succ ih.1, fun v hv => ?_⟩
          rcases List.mem_cons.mp hv with rfl | hv
          · exact ⟨x, List.mem_cons_self, row, hrow, hjoin⟩
          · obtain ⟨y, hy, hrow⟩ := ih.2 v hv
            exact ⟨y, List.mem_cons_of_mem _ hy, hrow⟩

end Paced

/-! ## No lines -/

namespace ForkJoin

variable {Line : Component (O × ℕ) L} {join : List L → Outcome U}

/-- A gatherer that has put out nothing and never will. -/
def Silent : Gatherer L U → Prop
  | .gathering outputs => outputs = []
  | .sending _ => False
  | .exiting _ _ => True

theorem Silent.step (hjoin : join [] = .panic) {outs : List (Signal U)}
    {s s' : State O U Line 0} {l : Exchange O U} (h : items outs = [] ∧ Silent s.gatherer)
    (hstep : Step Line join s l s') :
    items (outs ++ l.2.toList) = [] ∧ Silent s'.gatherer := by
  obtain ⟨houts, hsilent⟩ := h
  cases hstep with
  | receive | recvFails | dropReceiver | dropSender => exact ⟨by simpa using houts, hsilent⟩
  | joinPanics => exact ⟨by simpa using houts, trivial⟩
  | @distribute _ _ _ k | @distributeFails _ _ _ k | @dropLineSender _ _ _ k | @work _ _ _ k
  | @gather _ _ _ _ k | @gatherFails _ _ _ k | @dropLineReceiver _ _ _ k => exact k.elim0
  | @join d lines acc u hacc hret =>
      obtain rfl : acc = [] := hsilent
      rw [hjoin] at hret
      exact nomatch hret
  | send | sendFails => exact hsilent.elim

/-- Without lines the gatherer dies on the first empty vector, if that makes `join` panic. -/
theorem silent_of_panic (hjoin : join [] = .panic) {trace : List (State O U Line 0 × Exchange O U)}
    {s : State O U Line 0} (hrun : (lines Line 0 join).Runs trace s) :
    items (outputs trace) = [] := by
  have hsilent : items (outputs trace) = [] ∧ Silent s.gatherer := by
    refine hrun.invariantTrace (I := fun trace s =>
      items (outputs trace) = [] ∧ Silent s.gatherer) ?_ ?_
    · exact ⟨rfl, (rfl : ([] : List L) = [])⟩
    · intro trace s l s' _ h hstep
      simpa using Silent.step hjoin h hstep
  exact hsilent.1

/-- Without lines the gatherer joins an empty vector before any item has come in. -/
theorem exists_idle_run {u : U} (hjoin : join [] = .ret u) :
    ∃ trace s, (lines Line 0 join).Runs trace s ∧ inputs trace = [] ∧
      outputs trace = [.item u] :=
  ⟨_, _, .snoc (.snoc .nil (.join rfl hjoin)) .send, rfl, rfl⟩

private theorem exists_idle_run_channel {u : U} (hjoin : join [] = .ret u) (queueSize : ℕ) :
    ∃ trace s, ((lines Line 0 join).seq (syncChannel U queueSize)).Runs trace s ∧
      inputs trace = [] ∧ outputs trace = [.item u] := by
  have hjoined : ((lines Line 0 join).seq (syncChannel U queueSize)).Runs _ _ :=
    .single (.left (.join rfl hjoin))
  cases queueSize with
  | zero => exact ⟨_, _, .snoc hjoined (.both .send (.handOver rfl)), rfl, rfl⟩
  | succ queueSize =>
      have hsent := hjoined.snoc (.both .send (.send (Nat.succ_pos queueSize)))
      exact ⟨_, _, .snoc hsent (.right .recv), rfl, rfl⟩

/-- A run that takes nothing in does not need what is in front of it. -/
theorem exists_run_behind (P : Component I O) {C : Component O U}
    {trace : List (C.State × Exchange O U)} {s : C.State} (hrun : C.Runs trace s)
    (hidle : inputs trace = []) :
    ∃ trace', (P.seq C).Runs trace' (P.init, s) ∧ inputs trace' = [] ∧
      outputs trace' = outputs trace := by
  induction hrun with
  | nil => exact ⟨[], .nil, rfl, rfl⟩
  | @snoc trace s s' l _ hstep ih =>
      obtain ⟨i, o⟩ := l
      rw [inputs_snoc, List.append_eq_nil_iff, Option.toList_eq_nil_iff] at hidle
      obtain ⟨hidle, rfl⟩ := hidle
      obtain ⟨trace', hrun', hin, hout⟩ := ih hidle
      exact ⟨_, hrun'.snoc (.right hstep), by simp [hin], by simp [hout]⟩

end ForkJoin

/-! ## With and without lines -/

variable (f : O → ℕ → Outcome L) (nLines : ℕ) (join : List L → Outcome U) (queueSize : ℕ)

/-- The stage takes its items from the pipeline so far, and the new channel hands them on. -/
theorem paced_of_stage
    (h : ∀ trace s, (ForkJoin.lines (ForkJoin.worker queueSize f) nLines join).Runs trace s →
      Paced f nLines join (items (inputs trace)) (items (outputs trace)))
    {trace : List (((FactorioBuilder.new O queueSize).forkJoin f nLines join).pipeline.State ×
      Exchange O U)} {s : ((FactorioBuilder.new O queueSize).forkJoin f nLines join).pipeline.State}
    (hrun : ((FactorioBuilder.new O queueSize).forkJoin f nLines join).pipeline.Runs trace s) :
    Paced f nLines join (items (inputs trace)) (items (outputs trace)) := by
  obtain ⟨first, second, hfirst, hsecond, hin, hshared, hout⟩ := Component.runs_of_seq hrun
  obtain ⟨stage, last, hstage, hlast, hin', hshared', hout'⟩ := Component.runs_of_seq hsecond
  have hreceived : items (inputs stage) <+: items (inputs trace) := by
    have hforward := (FactorioBuilder.new_implements O queueSize).items hfirst
    rw [hshared, ← hin', hin] at hforward
    exact hforward
  have hhanded : items (outputs trace) <+: items (outputs stage) := by
    have hforward := (syncChannel_implements _).items hlast
    rw [← hshared', hout', hout] at hforward
    exact hforward
  exact (h stage _ hstage).mono hreceived hhanded

private theorem exists_empty_join {nLines : ℕ} {join : List L → Outcome U}
    (h : ¬ (1 ≤ nLines ∨ join [] = .panic)) : nLines = 0 ∧ ∃ u, join [] = .ret u := by
  rw [not_or, Nat.not_le, Nat.lt_one_iff] at h
  obtain ⟨rfl, hjoin⟩ := h
  cases hempty : join [] with
  | panic => exact absurd hempty hjoin
  | ret u => exact ⟨rfl, u, rfl⟩

/-- **`fork_join` is paced by its input**, as a stage and behind the first channel, exactly if it
has a line or `join` panics on the empty vector. -/
theorem fork_join_paced_iff :
    ((∀ trace s, (ForkJoin.lines (ForkJoin.worker queueSize f) nLines join).Runs trace s →
        Paced f nLines join (items (inputs trace)) (items (outputs trace))) ↔
      1 ≤ nLines ∨ join [] = .panic) ∧
    ((∀ trace s, ((FactorioBuilder.new O queueSize).forkJoin f nLines join).pipeline.Runs trace s →
        Paced f nLines join (items (inputs trace)) (items (outputs trace))) ↔
      1 ≤ nLines ∨ join [] = .panic) := by
  have hstage (h : 1 ≤ nLines ∨ join [] = .panic) : ∀ trace s,
      (ForkJoin.lines (ForkJoin.worker queueSize f) nLines join).Runs trace s →
      Paced f nLines join (items (inputs trace)) (items (outputs trace)) := by
    intro trace s hrun
    by_cases hlines : 1 ≤ nLines
    · have hemitted := (ForkJoin.lines_implements (ForkJoin.worker_implements queueSize f)
        hlines).items hrun
      exact (Paced.emitted_joined f nLines join _).mono (List.prefix_refl _) hemitted
    · obtain rfl : nLines = 0 := by omega
      have hsilent := ForkJoin.silent_of_panic (h.resolve_left hlines) hrun
      have hnothing : Paced f 0 join (items (inputs trace)) [] := ⟨Nat.zero_le _, nofun⟩
      exact hnothing.mono (List.prefix_refl _) (List.prefix_nil.mpr hsilent)
  -- one item for no item is one too many
  have hidle {ins : List (Signal O)} {outs : List (Signal U)} {u : U} (hins : ins = [])
      (houts : outs = [.item u]) : ¬ Paced f nLines join (items ins) (items outs) := by
    subst hins houts
    exact fun h => Nat.not_succ_le_zero 0 h.1
  constructor
  · refine ⟨fun h => ?_, hstage⟩
    by_contra hcond
    obtain ⟨rfl, u, hempty⟩ := exists_empty_join hcond
    obtain ⟨trace, s, hrun, hins, houts⟩ := ForkJoin.exists_idle_run hempty
    exact hidle hins houts (h trace s hrun)
  · refine ⟨fun h => ?_, fun h trace s hrun => ?_⟩
    · by_contra hcond
      obtain ⟨rfl, u, hempty⟩ := exists_empty_join hcond
      obtain ⟨trace, s, hrun, hins, houts⟩ := ForkJoin.exists_idle_run_channel hempty queueSize
      obtain ⟨trace', hrun', hins', houts'⟩ := ForkJoin.exists_run_behind
        (FactorioBuilder.new O queueSize).pipeline hrun hins
      exact hidle hins' (houts'.trans houts) (h trace' _ hrun')
    · exact paced_of_stage f nLines join queueSize (hstage h) hrun

/-- An idle pipeline without lines puts out the number of results it has joined. -/
theorem idle_pipeline_emits :
    ∃ trace s, ((FactorioBuilder.new ℕ 1).forkJoin (fun x line => .ret (x + line)) 0
        fun results => .ret results.length).pipeline.Runs trace s ∧
      items (inputs trace) = [] ∧ items (outputs trace) = [0] := by
  obtain ⟨trace, s, hrun, hins, houts⟩ := @ForkJoin.exists_idle_run_channel ℕ ℕ ℕ
    (ForkJoin.worker 1 fun x line => .ret (x + line)) (fun results => .ret results.length) 0 rfl 1
  obtain ⟨trace', hrun', hins', houts'⟩ := ForkJoin.exists_run_behind
    (FactorioBuilder.new ℕ 1).pipeline hrun hins
  exact ⟨trace', _, hrun', congrArg items hins', congrArg items (houts'.trans houts)⟩

end RustCourse.Lesson07
