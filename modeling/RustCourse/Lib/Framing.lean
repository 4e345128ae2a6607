import Mathlib.Data.List.Basic
import Mathlib.Logic.Function.Basic

/-!
# Frames that threads write piece by piece

Threads write frames to sinks, each one in as many pieces as it likes.  What a thread
writes at the moment is its job: a sink and a message.  As long as no two threads have a job
at the same sink, every sink gets whole frames, and a piece of the frame that is being
written to it (`Framed.result`).

The jobs come from outside: a program says who writes what, and changes it when a frame is
complete or a write has failed.  So the rules are about a thread that writes a piece
(`Framed.put`), one that finishes its job (`Framed.finish`), and one that had none
(`Framed.start`).

## Strategy

For every sink the bytes on it are the frames that are finished and a front of the frame that
is being written, if there is one (`Whole`).  A piece makes the front longer, the last piece
turns it into a frame, and a job that starts has an empty front.  A job that failed leaves its
front behind and breaks the sink, and nothing is said of a sink that broke.  A thread does not
touch the sinks of the others (`whole_of_other`).
-/

namespace RustCourse.Framing

variable {T C M α : Type*}

/-! ## Sinks -/

/-- What was written to the sinks. -/
structure Sinks (T C α : Type*) where
  sent : C → List α
  /-- a write to the sink has failed -/
  broken : C → Bool
  /-- how much of its frame a thread has written -/
  progress : T → ℕ

namespace Sinks

/-- Nothing was written. -/
def empty : Sinks T C α := ⟨fun _ => [], fun _ => false, fun _ => 0⟩

variable [DecidableEq T] [DecidableEq C] (k : Sinks T C α)

/-- Thread `t` writes the next `n` elements of its frame. -/
def put (t : T) (c : C) (frame : List α) (n : ℕ) : Sinks T C α where
  sent := Function.update k.sent c (k.sent c ++ (frame.drop (k.progress t)).take n)
  broken := k.broken
  progress := Function.update k.progress t (k.progress t + n)

/-- The write of thread `t` ends. -/
def finish (t : T) (c : C) (ok : Bool) : Sinks T C α where
  sent := k.sent
  broken := if ok then k.broken else Function.update k.broken c true
  progress := Function.update k.progress t 0

end Sinks

/-! ## The invariant -/

/-- No two threads have a job at the same sink. -/
def Exclusive (job : T → Option (C × M)) : Prop :=
  ∀ t u c msg msg', job t = some (c, msg) → job u = some (c, msg') → t = u

/-- What a sink that did not break has got: whole frames, and the part of the frame that is
being written. -/
structure Whole (frame : M → List α) (job : T → Option (C × M)) (k : Sinks T C α) (c : C)
    (msgs : List M) : Prop where
  idle : (∀ t msg, job t ≠ some (c, msg)) → k.sent c = msgs.flatMap frame
  busy : ∀ t msg, job t = some (c, msg) →
    k.sent c = msgs.flatMap frame ++ (frame msg).take (k.progress t)

/-- What is on every sink is whole frames, and a part of one at most. -/
structure Framed (frame : M → List α) (job : T → Option (C × M)) (k : Sinks T C α) : Prop where
  unstarted : ∀ t, job t = none → k.progress t = 0
  fits : ∀ t c msg, job t = some (c, msg) → k.progress t ≤ (frame msg).length
  whole : ∀ c, k.broken c = false → ∃ msgs, Whole frame job k c msgs

namespace Framed

variable {frame : M → List α} {job job' : T → Option (C × M)} {k : Sinks T C α} {t : T} {c : C}
  {msg : M}

theorem empty : Framed frame (fun _ => none : T → Option (C × M)) Sinks.empty :=
  ⟨fun _ _ => rfl, fun _ _ _ h => (nomatch h),
    fun _ _ => ⟨[], fun _ => rfl, fun _ _ h => (nomatch h)⟩⟩

/-- What is known of a sink stays true while a thread writes a piece of its frame. -/
theorem whole_of_put [DecidableEq T] [DecidableEq C] {d : C} {msgs : List M}
    (h : Whole frame job k d msgs) (hexclusive : Exclusive job) (hjob : job t = some (c, msg))
    (n : ℕ) : Whole frame job (k.put t c (frame msg) n) d msgs := by
  refine ⟨fun hidle => ?_, fun u msg' hu => ?_⟩
  · have hne : d ≠ c := by
      rintro rfl
      exact hidle t msg hjob
    simpa [Sinks.put, hne] using h.idle hidle
  · by_cases hsame : u = t
    · subst hsame
      cases hjob.symm.trans hu
      simp only [Sinks.put, Function.update_self, h.busy u msg hu, List.append_assoc,
        List.append_cancel_left_eq]
      rw [← List.take_add]
    · have hne : d ≠ c := by
        rintro rfl
        exact hsame (hexclusive u t d msg' msg hu hjob)
      simpa [Sinks.put, hne, hsame] using h.busy u msg' hu

/-- A thread writes a piece of its frame. -/
theorem put [DecidableEq T] [DecidableEq C] (h : Framed frame job k)
    (hexclusive : Exclusive job) (hjob : job t = some (c, msg)) {n : ℕ}
    (hn : k.progress t + n ≤ (frame msg).length) :
    Framed frame job (k.put t c (frame msg) n) := by
  refine ⟨fun u hu => ?_, fun u d msg' hu => ?_, fun d hd => ?_⟩
  · have hne : u ≠ t := by
      rintro rfl
      simp [hjob] at hu
    simp [Sinks.put, hne, h.unstarted u hu]
  · by_cases hne : u = t
    · subst hne
      cases hjob.symm.trans hu
      simpa [Sinks.put] using hn
    · simpa [Sinks.put, hne] using h.fits u d msg' hu
  · obtain ⟨msgs, hwhole⟩ := h.whole d hd
    exact ⟨msgs, whole_of_put hwhole hexclusive hjob n⟩

/-- What is known of a sink stays true if a thread without a job there gets another job. -/
theorem whole_of_other {d : C} {msgs : List M} (h : Whole frame job k d msgs)
    (hexclusive : Exclusive job') (hothers : ∀ u, u ≠ t → job' u = job u)
    (helsewhere : ∀ msg, job t ≠ some (d, msg)) {progress : T → ℕ}
    (hprogress : ∀ u, u ≠ t → progress u = k.progress u) (hstart : progress t = 0)
    {broken : C → Bool} :
    Whole frame job' ⟨k.sent, broken, progress⟩ d msgs := by
  refine ⟨fun hidle => ?_, fun u msg hu => ?_⟩
  · apply h.idle
    intro u msg hu
    by_cases hsame : u = t
    · exact helsewhere msg (hsame ▸ hu)
    · exact hidle u msg ((hothers u hsame).trans hu)
  · by_cases hsame : u = t
    · subst hsame
      have hidle : k.sent d = msgs.flatMap frame := by
        apply h.idle
        intro v msg' hv
        by_cases heq : v = u
        · exact helsewhere msg' (heq ▸ hv)
        · exact heq (hexclusive v u d msg' msg ((hothers v heq).trans hv) hu)
      simpa [hstart] using hidle
    · simpa [hprogress u hsame] using h.busy u msg ((hothers u hsame).symm.trans hu)

/-- A thread without a job gets one. -/
theorem start (h : Framed frame job k) (hexclusive : Exclusive job') (hjob : job t = none)
    (hothers : ∀ u, u ≠ t → job' u = job u) : Framed frame job' k := by
  refine ⟨fun u hu => ?_, fun u d msg hu => ?_, fun d hd => ?_⟩
  · by_cases hsame : u = t
    · exact hsame ▸ h.unstarted t hjob
    · exact h.unstarted u ((hothers u hsame).symm.trans hu)
  · by_cases hsame : u = t
    · subst hsame
      simp [h.unstarted u hjob]
    · exact h.fits u d msg ((hothers u hsame).symm.trans hu)
  · obtain ⟨msgs, hwhole⟩ := h.whole d hd
    exact ⟨msgs, whole_of_other hwhole hexclusive hothers (by simp [hjob]) (fun _ _ => rfl)
      (h.unstarted t hjob)⟩

/-- A sink that did not break gets one more whole frame when a thread finishes its job there. -/
theorem whole_of_finish [DecidableEq T] [DecidableEq C] {d : C} {msgs : List M}
    (h : Whole frame job k d msgs) (hbefore : Exclusive job) (hexclusive : Exclusive job')
    (hjob : job t = some (c, msg)) (hothers : ∀ u, u ≠ t → job' u = job u) {ok : Bool}
    (hcomplete : ok = true → k.progress t = (frame msg).length)
    (hd : (k.finish t c ok).broken d = false) :
    Whole frame job' (k.finish t c ok) d (if d = c then msgs ++ [msg] else msgs) := by
  by_cases hsink : d = c
  · subst hsink
    have hok : ok = true := by
      by_contra hfailed
      simp [Sinks.finish, hfailed] at hd
    have hsent : k.sent d = (msgs ++ [msg]).flatMap frame := by
      simp [h.busy t msg hjob, hcomplete hok]
    rw [if_pos rfl]
    refine ⟨fun _ => hsent, fun u msg' hu => ?_⟩
    have hsame : u = t := by
      by_contra hne
      exact hne (hbefore u t d msg' msg ((hothers u hne).symm.trans hu) hjob)
    simpa [Sinks.finish, hsame] using hsent
  · have helsewhere : ∀ msg', job t ≠ some (d, msg') := by
      intro msg' hother
      cases hjob.symm.trans hother
      exact hsink rfl
    rw [if_neg hsink]
    exact whole_of_other h hexclusive hothers helsewhere (fun u hu => Function.update_of_ne hu ..)
      (Function.update_self ..)

/-- A sink that did not break in the end had not broken before. -/
theorem intact_of_finish [DecidableEq T] [DecidableEq C] {d : C} {ok : Bool}
    (hd : (k.finish t c ok).broken d = false) : k.broken d = false := by
  cases ok with
  | true => exact hd
  | false =>
      by_cases hsink : d = c
      · simp [Sinks.finish, hsink] at hd
      · simpa [Sinks.finish, hsink] using hd

/-- A thread finishes its job, which it may only claim to have done when the frame is
complete, and may get another one. -/
theorem finish [DecidableEq T] [DecidableEq C] (h : Framed frame job k)
    (hbefore : Exclusive job) (hexclusive : Exclusive job') (hjob : job t = some (c, msg))
    (hothers : ∀ u, u ≠ t → job' u = job u) {ok : Bool}
    (hcomplete : ok = true → k.progress t = (frame msg).length) :
    Framed frame job' (k.finish t c ok) := by
  refine ⟨fun u hu => ?_, fun u d msg' hu => ?_, fun d hd => ?_⟩
  · by_cases hsame : u = t
    · simp [Sinks.finish, hsame]
    · simpa [Sinks.finish, hsame] using h.unstarted u ((hothers u hsame).symm.trans hu)
  · by_cases hsame : u = t
    · simp [Sinks.finish, hsame]
    · simpa [Sinks.finish, hsame] using h.fits u d msg' ((hothers u hsame).symm.trans hu)
  · obtain ⟨msgs, hwhole⟩ := h.whole d (intact_of_finish hd)
    exact ⟨_, whole_of_finish hwhole hbefore hexclusive hjob hothers hcomplete hd⟩

/-- **Frames do not interleave**: a sink that did not break has got whole frames, and a proper
prefix of the one that a thread is writing to it. -/
theorem result (h : Framed frame job k) (hc : k.broken c = false) :
    ∃ (msgs : List M) (part : List α), k.sent c = msgs.flatMap frame ++ part ∧
      (part ≠ [] → ∃ t msg, job t = some (c, msg) ∧ part <+: frame msg ∧ part ≠ frame msg) := by
  obtain ⟨msgs, hwhole⟩ := h.whole c hc
  by_cases hbusy : ∃ t msg, job t = some (c, msg)
  · obtain ⟨t, msg, hjob⟩ := hbusy
    by_cases hcomplete : (frame msg).take (k.progress t) = frame msg
    · refine ⟨msgs ++ [msg], [], ?_, fun hne => absurd rfl hne⟩
      simp [hwhole.busy t msg hjob, hcomplete]
    · exact ⟨msgs, _, hwhole.busy t msg hjob,
        fun _ => ⟨t, msg, hjob, List.take_prefix _ _, hcomplete⟩⟩
  · refine ⟨msgs, [], ?_, fun hne => absurd rfl hne⟩
    simpa using hwhole.idle (by simpa using hbusy)

end Framed

end RustCourse.Framing
