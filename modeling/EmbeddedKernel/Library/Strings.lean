import Mathlib.Algebra.Group.Defs
import Mathlib.Data.List.Basic
import Mathlib.Data.Nat.Find
import Mathlib.Logic.Function.Basic
import Mathlib.Tactic.SplitIfs

/-!
# Strings in memory

A string is what a memory holds up to the first zero.  Functions on strings walk along
the memory, one value after the other, until they meet it; as there may be none, they
have fuel for the positions they look at.
-/

namespace EmbeddedKernel.Library

variable {α : Type*} [Zero α] {m : ℕ → α} {i n : ℕ}

/-- The first zero is at `n`. -/
structure EndsAt (m : ℕ → α) (n : ℕ) : Prop where
  zero : m n = 0
  nonzero : ∀ i < n, m i ≠ 0

theorem EndsAt.unique {n' : ℕ} (h : EndsAt m n) (h' : EndsAt m n') : n = n' := by
  rcases lt_trichotomy n n' with hlt | heq | hgt
  · exact (h'.nonzero n hlt h.zero).elim
  · exact heq
  · exact (h.nonzero n' hgt h'.zero).elim

/-- A string ends among the first `k` positions if there is a zero among them. -/
theorem exists_endsAt_iff {k : ℕ} : (∃ n < k, EndsAt m n) ↔ ∃ i < k, m i = 0 := by
  classical
  constructor
  · rintro ⟨n, hn, hend⟩
    exact ⟨n, hn, hend.zero⟩
  · rintro ⟨i, hi, hzero⟩
    have hex : ∃ i, m i = 0 := ⟨i, hzero⟩
    refine ⟨Nat.find hex, lt_of_le_of_lt (Nat.find_min' hex hzero) hi, Nat.find_spec hex, ?_⟩
    exact fun j hj => Nat.find_min hex hj

/-- The first `k` values, split at the end of the string. -/
theorem EndsAt.map_range {k : ℕ} (h : EndsAt m n) (hk : n < k) :
    ∃ rest, (List.range k).map m = (List.range n).map m ++ 0 :: rest := by
  obtain ⟨r, rfl⟩ : ∃ r, k = n + (r + 1) := ⟨k - n - 1, by omega⟩
  refine ⟨(List.range' (n + 1) r).map m, ?_⟩
  rw [List.range_eq_range' (n := n + (r + 1)), ← List.range'_append_1, ← List.range_eq_range',
    Nat.zero_add, List.range'_succ, List.map_append, List.map_cons, h.zero]

variable [DecidableEq α]

theorem EndsAt.takeWhile_map_range {k : ℕ} (h : EndsAt m n) (hk : n < k) :
    ((List.range k).map m).takeWhile (· ≠ 0) = (List.range n).map m := by
  obtain ⟨rest, hrest⟩ := h.map_range hk
  have hnonzero : ∀ a ∈ (List.range n).map m, decide (a ≠ 0) = true := by
    intro a ha
    obtain ⟨i, hi, rfl⟩ := List.mem_map.mp ha
    exact decide_eq_true (h.nonzero i (List.mem_range.mp hi))
  rw [hrest, List.takeWhile_append_of_pos hnonzero]
  simp

/-- Looking for the end of a string from position `i` on, as `strlen` does. -/
def stringEnd (m : ℕ → α) : ℕ → ℕ → Option ℕ
  | 0, _ => none
  | fuel + 1, i => if m i = 0 then some i else stringEnd m fuel (i + 1)

/-- Copying a string from position `i` on, as `strcpy` does: the number of values put, the
zero included, and the destination. -/
def stringCopy (src : ℕ → α) : ℕ → ℕ → (ℕ → α) → Option (ℕ × (ℕ → α))
  | 0, _, _ => none
  | fuel + 1, i, dst =>
      let dst := Function.update dst i (src i)
      if src i = 0 then some (i + 1, dst) else stringCopy src fuel (i + 1) dst

theorem stringEnd_eq_some_iff {fuel : ℕ} :
    stringEnd m fuel i = some n ↔
      i ≤ n ∧ n < i + fuel ∧ m n = 0 ∧ ∀ j, i ≤ j → j < n → m j ≠ 0 := by
  induction fuel generalizing i with
  | zero =>
      refine iff_of_false (by simp [stringEnd]) ?_
      rintro ⟨hle, hlt, -⟩
      omega
  | succ fuel ih =>
      rw [stringEnd]
      split_ifs with hzero
      · rw [Option.some.injEq]
        constructor
        · rintro rfl
          exact ⟨le_rfl, by omega, hzero, fun j _ _ => by omega⟩
        · rintro ⟨hle, -, -, hnonzero⟩
          by_contra hne
          exact hnonzero i le_rfl (by omega) hzero
      · rw [ih]
        constructor
        · rintro ⟨hle, hlt, hend, hnonzero⟩
          refine ⟨by omega, by omega, hend, fun j hj hjn => ?_⟩
          rcases Nat.eq_or_lt_of_le hj with rfl | hlt
          · exact hzero
          · exact hnonzero j hlt hjn
        · rintro ⟨hle, hlt, hend, hnonzero⟩
          have hne : i ≠ n := by
            rintro rfl
            exact hzero hend
          exact ⟨by omega, by omega, hend, fun j hj => hnonzero j (by omega)⟩

/-- The walk finds the end if it has fuel for the positions up to it. -/
theorem stringEnd_zero_iff {fuel : ℕ} :
    stringEnd m fuel 0 = some n ↔ n < fuel ∧ EndsAt m n := by
  rw [stringEnd_eq_some_iff]
  constructor
  · rintro ⟨-, hlt, hzero, hnonzero⟩
    exact ⟨by omega, hzero, fun j hj => hnonzero j (Nat.zero_le j) hj⟩
  · rintro ⟨hlt, hend⟩
    exact ⟨Nat.zero_le n, by omega, hend.zero, fun j _ hj => hend.nonzero j hj⟩

/-- The copy takes as long as the search for the end and changes the positions up to it. -/
theorem stringCopy_eq (src : ℕ → α) (fuel i : ℕ) (dst : ℕ → α) :
    stringCopy src fuel i dst = (stringEnd src fuel i).map fun n =>
      (n + 1, fun j => if i ≤ j ∧ j ≤ n then src j else dst j) := by
  induction fuel generalizing i dst with
  | zero => rfl
  | succ fuel ih =>
      simp only [stringCopy, stringEnd]
      split_ifs with hzero
      · simp only [Option.map_some, Option.some.injEq, Prod.mk.injEq, true_and]
        funext j
        by_cases hj : j = i
        · subst hj
          simp
        · rw [Function.update_of_ne hj, if_neg (by omega)]
      · rw [ih]
        cases hend : stringEnd src fuel (i + 1) with
        | none => rfl
        | some n =>
            have hle : i + 1 ≤ n := (stringEnd_eq_some_iff.mp hend).1
            simp only [Option.map_some, Option.some.injEq, Prod.mk.injEq, true_and]
            funext j
            by_cases hj : j = i
            · subst hj
              rw [if_neg (by omega), if_pos (by omega), Function.update_self]
            · rw [Function.update_of_ne hj]
              exact if_congr (by omega) rfl rfl

end EmbeddedKernel.Library
