import Mathlib.Data.List.Forall2
import Chronology.Domain.Error

/-!
# Reading computations that can fail

Most functions of the library run in `Except`, one step after another. A proof about such a
function reads its success backwards: the whole succeeded exactly when each step did, with the
values each step passed on. The lemmas here say so once, for binds, for errors carried from one
layer to the next, and for results that must fit a word, so that later proofs take a computation
apart with `obtain` instead of unfolding the monad.
-/

namespace Chronology

variable {ε ε' α β : Type}

@[simp] theorem except_pure_eq (a : α) : (pure a : Except ε α) = .ok a := rfl

@[simp] theorem except_throw_eq (e : ε) : (throw e : Except ε α) = .error e := rfl

@[simp] theorem except_ok_bind (a : α) (f : α → Except ε β) : (Except.ok a >>= f) = f a := rfl

@[simp] theorem except_error_bind (e : ε) (f : α → Except ε β) :
    (Except.error e >>= f) = .error e := rfl

/-- A sequence succeeds when its first step does and the rest succeeds on that step's value. -/
theorem bind_eq_ok {x : Except ε α} {f : α → Except ε β} {b : β} :
    (x >>= f) = .ok b ↔ ∃ a, x = .ok a ∧ f a = .ok b := by
  cases x <;> simp

/-- A sequence fails when its first step does, or when the first step succeeds and the rest fails
on its value. -/
theorem bind_eq_error {x : Except ε α} {f : α → Except ε β} {e : ε} :
    (x >>= f) = .error e ↔ x = .error e ∨ ∃ a, x = .ok a ∧ f a = .error e := by
  cases x <;> simp

theorem map_eq_ok {x : Except ε α} {f : α → β} {b : β} :
    (f <$> x) = .ok b ↔ ∃ a, x = .ok a ∧ f a = b := by
  cases x <;> simp [Functor.map, Except.map]

@[simp] theorem mapError_eq_ok {x : Except ε α} {f : ε → ε'} {a : α} :
    x.mapError f = .ok a ↔ x = .ok a := by
  cases x <;> simp [Except.mapError]

theorem mapError_eq_error {x : Except ε α} {f : ε → ε'} {e : ε'} :
    x.mapError f = .error e ↔ ∃ e₀, x = .error e₀ ∧ f e₀ = e := by
  cases x <;> simp [Except.mapError]

@[simp] theorem liftCal_eq_ok {x : Except CalendarError α} {a : α} : liftCal x = .ok a ↔ x = .ok a :=
  mapError_eq_ok

@[simp] theorem liftPat_eq_ok {x : Except PatternError α} {a : α} : liftPat x = .ok a ↔ x = .ok a :=
  mapError_eq_ok

@[simp] theorem liftCalendar_eq_ok {x : Except CalendarError α} {a : α} :
    liftCalendar x = .ok a ↔ x = .ok a :=
  mapError_eq_ok

/-- A traversal succeeds exactly when each step does, each element giving the value beside it. -/
theorem mapM_eq_ok {f : α → Except ε β} {xs : List α} {ys : List β} :
    xs.mapM f = .ok ys ↔ List.Forall₂ (fun x y => f x = .ok y) xs ys := by
  induction xs generalizing ys with
  | nil => cases ys <;> simp
  | cons x xs ih =>
    rw [List.mapM_cons]
    cases ys <;> simp [bind_eq_ok, ih]

/-- A traversal whose every step succeeds succeeds. -/
theorem mapM_ok_of_forall {f : α → Except ε β} {xs : List α} (h : ∀ x ∈ xs, ∃ y, f x = .ok y) :
    ∃ ys, xs.mapM f = .ok ys := by
  induction xs with
  | nil => exact ⟨[], rfl⟩
  | cons x xs ih =>
    obtain ⟨y, hy⟩ := h x List.mem_cons_self
    obtain ⟨ys, hys⟩ := ih fun x' hx' => h x' (List.mem_cons_of_mem x hx')
    exact ⟨y :: ys, mapM_eq_ok.2 (.cons hy (mapM_eq_ok.1 hys))⟩

/-- A loop of checks succeeds exactly when every check does. -/
theorem forM_eq_ok {f : α → Except ε Unit} {xs : List α} :
    xs.forM f = .ok () ↔ ∀ x ∈ xs, f x = .ok () := by
  induction xs with
  | nil => simp [List.forM]
  | cons x xs ih =>
    show (f x >>= fun _ => xs.forM f) = _ ↔ _
    simp only [bind_eq_ok, ih, List.mem_cons, forall_eq_or_imp]
    constructor
    · rintro ⟨⟨⟩, hx, hs⟩
      exact ⟨hx, hs⟩
    · rintro ⟨hx, hs⟩
      exact ⟨_, hx, hs⟩

namespace Word

/-- A checked result is the exact value, and it fits. -/
@[simp] theorem within_eq_ok {e : ε} {x y : Int} : within e x = .ok y ↔ Fits x ∧ x = y := by
  unfold within
  split <;> simp_all

/-- A checked result is refused, with the error it was given, exactly when it does not fit. -/
theorem within_eq_error {e e' : ε} {x : Int} : within e x = .error e' ↔ ¬ Fits x ∧ e' = e := by
  unfold within
  split <;> simp_all [eq_comm]

/-- A checked count from zero is the count up to the top of the word and the error above it. -/
theorem within_of_nonneg (e : ε) {x : Int} (h : 0 ≤ x) :
    within e x = if x ≤ max then .ok x else .error e := by
  by_cases hx : x ≤ max
  · rw [within_of_fits e ⟨by simp only [min]; omega, hx⟩, if_pos hx]
  · rw [within_of_not_fits e (fun hf => hx hf.2), if_neg hx]

end Word

end Chronology
