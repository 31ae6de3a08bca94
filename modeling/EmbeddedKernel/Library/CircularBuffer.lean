import Mathlib

/-!
# Circular buffers

The `i`-th entry appended to a buffer of `N` slots goes to the slot `i % N`, so
the slots always hold the last `N` entries.  What it means for a slot to hold an
entry is left open.
-/

namespace EmbeddedKernel.Library

variable {α : Type*} {N : ℕ} {holds holds' : ℕ → α → Prop} {xs : List α}

/-- The slots hold the last `N` entries of a list of appended entries. -/
def Window (N : ℕ) (holds : ℕ → α → Prop) (xs : List α) : Prop :=
  ∀ i (hi : i < xs.length), xs.length ≤ i + N → holds (i % N) (xs.get ⟨i, hi⟩)

theorem window_nil : Window N holds [] := by
  intro i hi
  cases hi

/-- Entries less than a lap apart are in different slots. -/
theorem slot_ne {i j : ℕ} (hlt : i < j) (hlap : j < i + N) : i % N ≠ j % N := by
  intro heq
  have hdvd : N ∣ j - i := (Nat.modEq_iff_dvd' hlt.le).mp heq
  have hle : N ≤ j - i := Nat.le_of_dvd (by omega) hdvd
  omega

/-- The slots hold the last `N` entries, except perhaps for the slot of the next entry. -/
def WindowButNext (N : ℕ) (holds : ℕ → α → Prop) (xs : List α) : Prop :=
  ∀ i (hi : i < xs.length), xs.length < i + N → holds (i % N) (xs.get ⟨i, hi⟩)

theorem Window.butNext (h : Window N holds xs) : WindowButNext N holds xs :=
  fun i hi hwindow => h i hi hwindow.le

/-- The next slot does not count. -/
theorem WindowButNext.congr (h : WindowButNext N holds xs)
    (hkept : ∀ p < N, p ≠ xs.length % N → ∀ a, holds p a → holds' p a) :
    WindowButNext N holds' xs := by
  intro i hi hwindow
  have hslot : i % N < N := Nat.mod_lt i (by omega)
  exact hkept _ hslot (slot_ne hi hwindow) _ (h i hi hwindow)

/-- Appending an entry to the next slot, with the other slots kept. -/
theorem WindowButNext.concat {x : α} (h : WindowButNext N holds xs)
    (hnew : holds' (xs.length % N) x)
    (hkept : ∀ p < N, p ≠ xs.length % N → ∀ a, holds p a → holds' p a) :
    Window N holds' (xs ++ [x]) := by
  intro i hi hwindow
  rw [List.length_append, List.length_singleton] at hi hwindow
  rcases Nat.lt_succ_iff_lt_or_eq.mp hi with hlt | rfl
  · have hget : (xs ++ [x]).get ⟨i, by simpa using hi⟩ = xs.get ⟨i, hlt⟩ := by
      simp [List.getElem_append_left hlt]
    rw [hget]
    exact h.congr hkept i hlt (by omega)
  · simpa using hnew

theorem Window.concat {x : α} (h : Window N holds xs) (hnew : holds' (xs.length % N) x)
    (hkept : ∀ p < N, p ≠ xs.length % N → ∀ a, holds p a → holds' p a) :
    Window N holds' (xs ++ [x]) :=
  h.butNext.concat hnew hkept

/-- The slots that no entry has gone to yet. -/
theorem unused_iff {n p : ℕ} (hp : p < N) : (∀ i < n, i % N ≠ p) ↔ n ≤ p := by
  constructor
  · intro h
    by_contra hlt
    exact h p (by omega) (Nat.mod_eq_of_lt hp)
  · intro hle i hi heq
    rw [Nat.mod_eq_of_lt (by omega)] at heq
    omega

/-- Entries that follow each other are in slots that follow each other, up to the last slot. -/
theorem Window.slots {i n : ℕ} (h : Window N holds xs) (hend : i + n ≤ xs.length)
    (hwindow : xs.length ≤ i + N) (hslots : i % N + n ≤ N) {j : ℕ}
    (hj : j < ((xs.drop i).take n).length) :
    holds (i % N + j) (((xs.drop i).take n).get ⟨j, hj⟩) := by
  have hjn : j < n := by
    rw [List.length_take] at hj
    omega
  have hslot : (i + j) % N = i % N + j := by
    rw [Nat.add_mod, Nat.mod_eq_of_lt (show j < N by omega), Nat.mod_eq_of_lt (by omega)]
  have hheld := h (i + j) (by omega) (by omega)
  rw [hslot] at hheld
  simpa using hheld

end EmbeddedKernel.Library
