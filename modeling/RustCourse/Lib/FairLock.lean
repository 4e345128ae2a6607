import Mathlib.Data.List.Basic
import Mathlib.Data.List.Nodup
import Mathlib.Data.List.TakeWhile
import Mathlib.Tactic.Basic

/-!
# Fair locks

A fair lock serves its parties in the order of their requests.  Everybody who asked for
it and has not given it back stands in one line, and who holds it can be read off the
line: an exclusive request is admitted once it stands first, and a shared one once no
exclusive request stands before it.  So a party that is admitted stays so until it leaves
(`Admits.request`, `Admits.release`), and mutual exclusion is a fact about lists
(`Admits.shared`).

A mutex is a fair lock with exclusive requests only.

## Strategy

A party that is admitted is told from the line by what stands before it: nothing, or nothing
exclusive.  A request goes to the end of the line and a release takes one party out, and
neither puts anybody before a party that was there.  `Changed` is what one step of a program
does to a lock, so a program is connected to it by one lemma.
-/

namespace RustCourse

/-! ## Locks -/

/-- What a party asks a lock for. -/
inductive Mode
  | shared
  | exclusive
  deriving DecidableEq, Repr

/-- A fair lock: its parties, in the order of their requests, each of them once. -/
structure FairLock (ι : Type*) where
  line : List (ι × Mode)
  nodup : (line.map Prod.fst).Nodup

namespace FairLock

variable {ι : Type*}

/-- The lock that nobody wants. -/
def free : FairLock ι := ⟨[], List.nodup_nil⟩

@[simp] theorem line_free : (free : FairLock ι).line = [] := rfl

/-- A party stands in the line in one mode. -/
theorem mode_unique {lock : FairLock ι} {t : ι} {mode mode' : Mode}
    (h : (t, mode) ∈ lock.line) (h' : (t, mode') ∈ lock.line) : mode = mode' :=
  congrArg Prod.snd (List.inj_on_of_nodup_map lock.nodup h h' rfl)

variable [DecidableEq ι]

/-- `t` goes to the end of the line, unless it stands in it. -/
def request (lock : FairLock ι) (t : ι) (mode : Mode) : FairLock ι :=
  if h : t ∈ lock.line.map Prod.fst then lock
  else
    { line := lock.line ++ [(t, mode)]
      nodup := by
        rw [List.map_append]
        exact List.Nodup.append lock.nodup (List.nodup_singleton t) (by simpa using h) }

/-- `t` leaves the line: it gives the lock back, or does not want it any more. -/
def release (lock : FairLock ι) (t : ι) : FairLock ι where
  line := lock.line.filter fun party => party.1 ≠ t
  nodup := lock.nodup.sublist (List.filter_sublist.map Prod.fst)

/-- Those who stand before `t`. -/
def ahead (lock : FairLock ι) (t : ι) : List (ι × Mode) :=
  lock.line.takeWhile fun party => party.1 ≠ t

/-- **`t` can have the lock.** -/
def Admits (lock : FairLock ι) (t : ι) : Prop :=
  (t, Mode.exclusive) ∈ lock.line ∧ lock.ahead t = [] ∨
    (t, Mode.shared) ∈ lock.line ∧ ∀ party ∈ lock.ahead t, party.2 = .shared

instance (lock : FairLock ι) (t : ι) : Decidable (lock.Admits t) := by
  unfold Admits
  infer_instance

variable {lock : FairLock ι} {t u : ι} {mode mode' : Mode}

/-! ## The line -/

theorem line_request (h : ∀ mode', (t, mode') ∉ lock.line) :
    (lock.request t mode).line = lock.line ++ [(t, mode)] := by
  have hnew : t ∉ lock.line.map Prod.fst := by
    rw [List.mem_map]
    rintro ⟨⟨_, mode'⟩, hparty, rfl⟩
    exact h mode' hparty
  rw [request, dif_neg hnew]

theorem mem_request (h : ∀ mode', (t, mode') ∉ lock.line) :
    (u, mode') ∈ (lock.request t mode).line ↔
      (u, mode') ∈ lock.line ∨ u = t ∧ mode' = mode := by
  rw [line_request h]
  simp

theorem mem_release : (u, mode) ∈ (lock.release t).line ↔ (u, mode) ∈ lock.line ∧ u ≠ t := by
  simp [release]

/-! ## Who stands before whom -/

theorem mem_line_of_ahead {party : ι × Mode} (h : party ∈ lock.ahead t) : party ∈ lock.line :=
  (List.takeWhile_prefix _).sublist.subset h

section TakeWhile

variable {α : Type*} {p : α → Bool} {a : α} {xs ys : List α}

theorem length_takeWhile_lt (ha : a ∈ xs) (hstop : p a = false) :
    (xs.takeWhile p).length < xs.length := by
  have hinitial : xs.takeWhile p <+: xs := List.takeWhile_prefix p
  have hne : (xs.takeWhile p).length ≠ xs.length := by
    intro hlength
    have hkept : a ∈ xs.takeWhile p := by rwa [hinitial.eq_of_length hlength]
    rw [List.mem_takeWhile_imp hkept] at hstop
    cases hstop
  have := hinitial.length_le
  omega

theorem takeWhile_append_of_stop (ha : a ∈ xs) (hstop : p a = false) :
    (xs ++ ys).takeWhile p = xs.takeWhile p := by
  have := length_takeWhile_lt ha hstop
  rw [List.takeWhile_append, if_neg (by omega)]

end TakeWhile

/-- A request changes nothing for those who stand in the line. -/
theorem ahead_request (h : ∀ mode', (t, mode') ∉ lock.line) (hu : (u, mode') ∈ lock.line) :
    (lock.request t mode).ahead u = lock.ahead u := by
  rw [ahead, ahead, line_request h]
  exact takeWhile_append_of_stop hu (by simp)

theorem ahead_release (h : u ≠ t) :
    (lock.release t).ahead u = (lock.ahead u).filter fun party => party.1 ≠ t := by
  have hstop : (fun party : ι × Mode => !decide (party.1 ≠ t) || decide (party.1 ≠ u)) =
      fun party => decide (party.1 ≠ u) := by
    funext party
    by_cases hparty : party.1 = t
    · simp [hparty, h.symm]
    · simp [hparty]
  rw [ahead, release, List.takeWhile_filter, hstop, ahead]

/-- Those who stand before `t` have fewer before them. -/
theorem length_ahead_lt (h : (u, mode) ∈ lock.ahead t) :
    (lock.ahead u).length < (lock.ahead t).length := by
  have hsplit : lock.ahead u = (lock.ahead t).takeWhile fun party => party.1 ≠ u := by
    conv_lhs => rw [ahead, ← List.takeWhile_append_dropWhile (p := (·.1 ≠ t)) (l := lock.line)]
    exact takeWhile_append_of_stop h (by simp)
  rw [hsplit]
  exact length_takeWhile_lt h (by simp)

theorem first_ahead {rest : List (ι × Mode)} (h : lock.line = (u, mode) :: rest) (hne : u ≠ t) :
    (u, mode) ∈ lock.ahead t := by
  rw [ahead, h, List.takeWhile_cons_of_pos (by simpa using hne)]
  exact List.mem_cons_self

/-- If nobody stands before `t`, it stands before everybody else. -/
theorem ahead_of_first (ht : (t, mode) ∈ lock.line) (hfirst : lock.ahead t = []) (h : t ≠ u) :
    (t, mode) ∈ lock.ahead u := by
  unfold ahead at hfirst
  cases hline : lock.line with
  | nil => simp [hline] at ht
  | cons party rest =>
      obtain ⟨first, mode'⟩ := party
      rw [hline] at hfirst
      by_cases hparty : first = t
      · subst hparty
        obtain rfl : mode = mode' := mode_unique ht (by simp [hline])
        exact first_ahead hline h
      · rw [List.takeWhile_cons_of_pos (by simpa using hparty)] at hfirst
        cases hfirst

/-! ## Who is admitted -/

/-- Whoever stands first is admitted. -/
theorem admits_of_first {rest : List (ι × Mode)} (h : lock.line = (t, mode) :: rest) :
    lock.Admits t := by
  have hmem : (t, mode) ∈ lock.line := by simp [h]
  have hahead : lock.ahead t = [] := by simp [ahead, h]
  cases mode with
  | exclusive => exact .inl ⟨hmem, hahead⟩
  | shared => exact .inr ⟨hmem, by simp [hahead]⟩

namespace Admits

theorem mem (h : lock.Admits t) : ∃ mode, (t, mode) ∈ lock.line := by
  rcases h with ⟨hmem, -⟩ | ⟨hmem, -⟩
  · exact ⟨_, hmem⟩
  · exact ⟨_, hmem⟩

/-- A request of another party takes nothing away. -/
theorem request (h : lock.Admits t) (hu : ∀ mode', (u, mode') ∉ lock.line) :
    (lock.request u mode).Admits t := by
  obtain ⟨mode', hmem⟩ := h.mem
  have hahead : (lock.request u mode).ahead t = lock.ahead t := ahead_request hu hmem
  rw [Admits, hahead, mem_request hu, mem_request hu]
  exact h.imp (fun h => ⟨.inl h.1, h.2⟩) fun h => ⟨.inl h.1, h.2⟩

/-- Nor does another party that leaves. -/
theorem release (h : lock.Admits t) (hne : t ≠ u) : (lock.release u).Admits t := by
  rw [Admits, ahead_release hne, mem_release, mem_release]
  rcases h with ⟨hmem, hahead⟩ | ⟨hmem, hahead⟩
  · exact .inl ⟨⟨hmem, hne⟩, by simp [hahead]⟩
  · exact .inr ⟨⟨hmem, hne⟩, fun party hparty => hahead party (List.mem_of_mem_filter hparty)⟩

/-- **Mutual exclusion**: of two parties that are admitted, both share the lock. -/
theorem shared (h : lock.Admits t) (h' : lock.Admits u) (hne : t ≠ u) :
    (t, Mode.shared) ∈ lock.line := by
  rcases h with ⟨hmem, hfirst⟩ | ⟨hmem, -⟩
  · have hahead : (t, Mode.exclusive) ∈ lock.ahead u := ahead_of_first hmem hfirst hne
    rcases h' with ⟨-, hnil⟩ | ⟨-, hshared⟩
    · simp [hnil] at hahead
    · cases hshared _ hahead
  · exact hmem

end Admits

/-! ## What one party does to a lock -/

/-- `t` leaves the lock alone, or asks for it, or leaves its line. -/
inductive Changed (lock : FairLock ι) (t : ι) : FairLock ι → Prop
  | same : Changed lock t lock
  | requested {mode : Mode} (h : ∀ mode', (t, mode') ∉ lock.line) :
      Changed lock t (lock.request t mode)
  | released : Changed lock t (lock.release t)

namespace Changed

variable {lock' : FairLock ι}

theorem mem_iff (h : Changed lock t lock') (hu : u ≠ t) :
    (u, mode) ∈ lock'.line ↔ (u, mode) ∈ lock.line := by
  cases h with
  | same => rfl
  | requested hnew => simp [mem_request hnew, hu]
  | released => simp [mem_release, hu]

theorem admits (h : Changed lock t lock') (hu : u ≠ t) (hadmits : lock.Admits u) :
    lock'.Admits u := by
  cases h with
  | same => exact hadmits
  | requested hnew => exact hadmits.request hnew
  | released => exact hadmits.release hu

end Changed

end FairLock

end RustCourse
