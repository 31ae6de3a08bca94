import Mathlib.Data.Nat.Find
import Mathlib.Order.Basic

/-!
# Programs that poll a device

A program and a device take steps together; a schedule says at which steps the device
completes what it is doing.  A program that polls stays where it is until then, so it goes
on if and only if the schedule lets the device complete.
-/

namespace EmbeddedKernel.Library

variable {τ : Type*}

/-- The states met under a schedule. -/
def course (step : τ → Bool → τ) (schedule : ℕ → Bool) (x : τ) : ℕ → τ
  | 0 => x
  | n + 1 => step (course step schedule x n) (schedule n)

/-- The schedule lets the device complete at time `i` or later. -/
def CompletesFrom (schedule : ℕ → Bool) (i : ℕ) : Prop := ∃ j, i ≤ j ∧ schedule j = true

variable {step : τ → Bool → τ} {schedule schedule' : ℕ → Bool} {x y : τ} {P Q : τ → Prop} {i : ℕ}

theorem course_congr {n : ℕ} (h : ∀ i < n, schedule i = schedule' i) :
    course step schedule x n = course step schedule' x n := by
  induction n with
  | zero => rfl
  | succ n ih =>
      rw [course, course, ih fun i hi => h i (Nat.lt_succ_of_lt hi), h n (Nat.lt_succ_self n)]

/-- A state that no step leaves. -/
theorem course_absorbed (hy : ∀ b, step y b = y) {n m : ℕ} (hnm : n ≤ m)
    (hn : course step schedule x n = y) : course step schedule x m = y := by
  induction m, hnm using Nat.le_induction with
  | base => exact hn
  | succ m _ ih => rw [course, ih, hy]

/-- Without a completion, a state that waits for one stays. -/
theorem course_stuck (hwait : step y false = y) (hi : course step schedule x i = y)
    (hnever : ¬CompletesFrom schedule i) {j : ℕ} (hij : i ≤ j) :
    course step schedule x j = y := by
  induction j, hij using Nat.le_induction with
  | base => exact hi
  | succ j hij ih =>
      have hfalse : schedule j = false := by
        by_contra hne
        exact hnever ⟨j, hij, by simpa using hne⟩
      rw [course, ih, hfalse, hwait]

/-- The course comes to a state with `Q` at time `i` or later. -/
def Eventually (step : τ → Bool → τ) (schedule : ℕ → Bool) (x : τ) (i : ℕ) (Q : τ → Prop) : Prop :=
  ∃ j, i ≤ j ∧ Q (course step schedule x j)

theorem Eventually.now (h : Q (course step schedule x i)) : Eventually step schedule x i Q :=
  ⟨i, le_refl i, h⟩

theorem Eventually.trans (h : Eventually step schedule x i P)
    (hnext : ∀ j, i ≤ j → P (course step schedule x j) → Eventually step schedule x j Q) :
    Eventually step schedule x i Q := by
  obtain ⟨j, hij, hP⟩ := h
  obtain ⟨k, hjk, hQ⟩ := hnext j hij hP
  exact ⟨k, hij.trans hjk, hQ⟩

theorem Eventually.of_step (h : Q (step (course step schedule x i) (schedule i))) :
    Eventually step schedule x i Q :=
  ⟨i + 1, Nat.le_succ i, h⟩

/-- A state that waits moves on at the first completion. -/
theorem Eventually.of_wait (hi : course step schedule x i = y) (hwait : step y false = y)
    (hcompletes : CompletesFrom schedule i) :
    Eventually step schedule x i fun z => z = step y true := by
  classical
  let j := Nat.find hcompletes
  obtain ⟨hij, htrue⟩ : i ≤ j ∧ schedule j = true := Nat.find_spec hcompletes
  have hstay : ∀ k, i ≤ k → k ≤ j → course step schedule x k = y := by
    intro k hik
    induction k, hik using Nat.le_induction with
    | base => exact fun _ => hi
    | succ k hik ih =>
        intro hkj
        have hfalse : schedule k = false := by
          by_contra hne
          exact Nat.find_min hcompletes (m := k) hkj ⟨hik, by simpa using hne⟩
        rw [course, ih (Nat.le_of_succ_le hkj), hfalse, hwait]
  refine ⟨j + 1, hij.trans (Nat.le_succ j), ?_⟩
  rw [course, hstay j hij (le_refl j), htrue]

end EmbeddedKernel.Library
