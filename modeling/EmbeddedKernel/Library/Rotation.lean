import Mathlib

/-!
# Rotation among members that may join at any time

Members are numbered in the order they join.  A pass gives a turn to the members
present when it starts, the latest first; `pending` members, those with the
smallest numbers, still have theirs to come.  A member that joins during a pass
waits for the next one.  The number of turns of a member in any stretch of a run
is determined by the number of passes that start in it, up to the position of the
member in the pass at both ends.
-/

namespace EmbeddedKernel.Library

/-- The number of members, and of those with a turn to come in this pass. -/
structure Rotation where
  members : ℕ
  pending : ℕ
  deriving DecidableEq

namespace Rotation

/-- One step, with the member whose turn it is. -/
inductive Step : Rotation → Option ℕ → Rotation → Prop
  | stay (r : Rotation) : Step r none r
  | join (n p : ℕ) : Step ⟨n, p⟩ none ⟨n + 1, p⟩
  | turn (n p : ℕ) : Step ⟨n, p + 1⟩ (some p) ⟨n, p⟩
  | restart (n : ℕ) : Step ⟨n + 1, 0⟩ (some n) ⟨n + 1, n⟩

/-- Any number of steps, with the turns in their order. -/
inductive Steps (r : Rotation) : List ℕ → Rotation → Prop
  | refl : Steps r [] r
  | tail {w : List ℕ} {t : Option ℕ} {r' r'' : Rotation} (hs : Steps r w r')
      (hstep : Step r' t r'') : Steps r (w ++ t.toList) r''

/-- 1 if the turn of `y` in this pass is to come, else 0. -/
def due (r : Rotation) (y : ℕ) : ℕ := if y < r.pending then 1 else 0

/-- `passes` passes start between `r` and `r'`, and the turns in between are `w`. -/
structure Accounted (r : Rotation) (w : List ℕ) (r' : Rotation) (passes : ℕ) : Prop where
  pending_le : r'.pending ≤ r'.members
  grows : r.members ≤ r'.members
  present : ∀ y < r.members, w.count y + r'.due y = passes + r.due y
  joined : ∀ y, r.members ≤ y → w.count y + r'.due y ≤ passes
  absent : ∀ y, r'.members ≤ y → w.count y = 0

variable {r r' r'' : Rotation} {w : List ℕ} {passes : ℕ}

theorem Accounted.refl (h : r.pending ≤ r.members) : Accounted r [] r 0 where
  pending_le := h
  grows := le_refl _
  present := by simp
  joined := by
    intro y hy
    have hlt : ¬y < r.pending := by omega
    simp [due, hlt]
  absent := by simp

/-- A turn is one that was to come and now is not. -/
theorem count_turn (w : List ℕ) (p y : ℕ) :
    (w ++ (some p).toList).count y + (if y < p then 1 else 0) =
      w.count y + if y < p + 1 then 1 else 0 := by
  rw [List.count_append, Option.toList_some, List.count_singleton]
  by_cases hy : y = p
  · simp [hy]
  · have hbeq : (p == y) = false := by simpa using Ne.symm hy
    simp only [hbeq, Bool.false_eq_true, if_false, Nat.add_zero]
    split_ifs <;> omega

theorem Accounted.step {t : Option ℕ} (h : Accounted r w r' passes) (hstep : Step r' t r'') :
    ∃ passes', Accounted r (w ++ t.toList) r'' passes' := by
  obtain ⟨hle, hgrows, hpresent, hjoined, habsent⟩ := h
  cases hstep with
  | stay => exact ⟨passes, by simpa using ⟨hle, hgrows, hpresent, hjoined, habsent⟩⟩
  | join n p =>
      simp only [due] at hle hgrows hpresent hjoined habsent
      refine ⟨passes, ?_⟩
      constructor
      · simp only
        omega
      · simp only
        omega
      · simpa [due] using hpresent
      · simpa [due] using hjoined
      · intro y hy
        simpa using habsent y (by simp only at hy; omega)
  | turn n p =>
      simp only [due] at hle hgrows hpresent hjoined habsent
      refine ⟨passes, ?_⟩
      constructor
      · simp only
        omega
      · exact hgrows
      · intro y hy
        simp only [due]
        rw [count_turn]
        exact hpresent y hy
      · intro y hy
        simp only [due]
        rw [count_turn]
        exact hjoined y hy
      · intro y hy
        have hne : p ≠ y := by
          simp only at hy
          omega
        simpa [hne] using habsent y hy
  | restart n =>
      simp only [due] at hle hgrows hpresent hjoined habsent
      refine ⟨passes + 1, ?_⟩
      have hcount : ∀ y < n + 1, (w ++ (some n).toList).count y + (if y < n then 1 else 0) =
          w.count y + 1 := by
        intro y hy
        rw [count_turn, if_pos hy]
      have hout : ∀ y, n + 1 ≤ y → (w ++ (some n).toList).count y = 0 := by
        intro y hy
        have hne : n ≠ y := by omega
        simpa [hne] using habsent y hy
      constructor
      · simp only
        omega
      · exact hgrows
      · intro y hy
        simp only [due]
        rw [hcount y (by omega)]
        have hold := hpresent y hy
        simp only [Nat.not_lt_zero, if_false] at hold
        omega
      · intro y hy
        simp only [due]
        by_cases hyn : y < n + 1
        · rw [hcount y hyn]
          have hold := hjoined y hy
          omega
        · rw [hout y (by omega)]
          split_ifs <;> omega
      · exact hout

/-- The accounts of a whole run. -/
theorem Steps.accounted (h : Steps r w r') (hle : r.pending ≤ r.members) :
    ∃ passes, Accounted r w r' passes := by
  induction h with
  | refl => exact ⟨0, Accounted.refl hle⟩
  | tail _ hstep ih =>
      obtain ⟨passes, hacc⟩ := ih
      exact hacc.step hstep

/-- Between a turn of `x` and its next one, every other member that was there at the first
of them has exactly one turn, and nobody has two. -/
theorem Steps.turns_between {x y : ℕ} (h : Steps r w r') (hle : r.pending ≤ r.members)
    (hfirst : r.pending = x) (hx : x < r.members) (hsecond : Step r' (some x) r'')
    (hnot : x ∉ w) (hne : y ≠ x) : (y < r.members → w.count y = 1) ∧ w.count y ≤ 1 := by
  obtain ⟨passes, -, hgrows, hpresent, hjoined, -⟩ := h.accounted hle
  have hself := hpresent x hx
  rw [List.count_eq_zero_of_not_mem hnot] at hself
  have hboth : (y < r.members → w.count y = 1) ∧ (r.members ≤ y → w.count y ≤ 1) := by
    constructor
    · intro hy
      have hother := hpresent y hy
      cases hsecond with
      | turn n p =>
          simp only [due] at hself hother
          split_ifs at hself hother <;> omega
      | restart n =>
          simp only [due] at hself hother hgrows
          split_ifs at hself hother <;> omega
    · intro hy
      have hother := hjoined y hy
      cases hsecond with
      | turn n p =>
          simp only [due] at hself hother
          split_ifs at hself hother <;> omega
      | restart n =>
          simp only [due] at hself hother
          split_ifs at hself hother <;> omega
  refine ⟨hboth.1, ?_⟩
  rcases lt_or_ge y r.members with hy | hy
  · exact (hboth.1 hy).le
  · exact hboth.2 hy

/-- Until a member that has just joined gets its first turn, nobody has two. -/
theorem Steps.turns_before_first {x y : ℕ} (h : Steps r w r') (hx : r.members = x + 1)
    (hpending : r.pending ≤ x) (hnot : x ∉ w) : w.count y ≤ 1 := by
  obtain ⟨passes, -, -, hpresent, hjoined, -⟩ := h.accounted (by omega)
  have hself := hpresent x (by omega)
  rw [List.count_eq_zero_of_not_mem hnot] at hself
  rcases lt_or_ge y r.members with hy | hy
  · have hother := hpresent y hy
    simp only [due] at hself hother
    split_ifs at hself hother <;> omega
  · have hother := hjoined y hy
    simp only [due] at hself hother
    split_ifs at hself hother <;> omega

/-! ## Shares -/

/-- Nobody has two turns more than a member that was there from the beginning. -/
theorem Steps.count_le {x : ℕ} (h : Steps r w r') (hle : r.pending ≤ r.members)
    (hx : x < r.members) (y : ℕ) : w.count y ≤ w.count x + 1 := by
  obtain ⟨passes, -, -, hpresent, hjoined, -⟩ := h.accounted hle
  have hself := hpresent x hx
  rcases lt_or_ge y r.members with hy | hy
  · have hother := hpresent y hy
    simp only [due] at hself hother
    split_ifs at hself hother <;> omega
  · have hother := hjoined y hy
    simp only [due] at hself hother
    split_ifs at hself hother <;> omega

/-- The turns, counted by member. -/
theorem Steps.length_eq (h : Steps r w r') (hle : r.pending ≤ r.members) :
    w.length = ∑ y ∈ Finset.range r'.members, w.count y := by
  obtain ⟨passes, -, -, -, -, habsent⟩ := h.accounted hle
  have hmem : ∀ y ∈ (w : Multiset ℕ), y ∈ Finset.range r'.members := by
    intro y hy
    rw [Finset.mem_range]
    by_contra hout
    have hzero := habsent y (by omega)
    exact List.count_eq_zero.mp hzero (Multiset.mem_coe.mp hy)
  have hcard := Multiset.sum_count_eq_card hmem
  simpa using hcard.symm

/-- A member that was there from the beginning has its share of the turns. -/
theorem Steps.length_lt {x : ℕ} (h : Steps r w r') (hle : r.pending ≤ r.members)
    (hx : x < r.members) : w.length < r'.members * (w.count x + 1) := by
  obtain ⟨passes, -, hgrows, -⟩ := h.accounted hle
  calc w.length = ∑ y ∈ Finset.range r'.members, w.count y := h.length_eq hle
    _ < ∑ _y ∈ Finset.range r'.members, (w.count x + 1) := by
        apply Finset.sum_lt_sum
        · exact fun y _ => h.count_le hle hx y
        · exact ⟨x, Finset.mem_range.mpr (hx.trans_le hgrows), Nat.lt_succ_self _⟩
    _ = r'.members * (w.count x + 1) := by
        rw [Finset.sum_const, Finset.card_range, smul_eq_mul]

/-- Nobody has more than a share among those that were there from the beginning. -/
theorem Steps.mul_count_lt {x : ℕ} (h : Steps r w r') (hle : r.pending ≤ r.members)
    (hx : x < r.members) : r.members * w.count x < w.length + r.members := by
  obtain ⟨passes, -, hgrows, -⟩ := h.accounted hle
  calc r.members * w.count x = ∑ _y ∈ Finset.range r.members, w.count x := by
        rw [Finset.sum_const, Finset.card_range, smul_eq_mul]
    _ < ∑ y ∈ Finset.range r.members, (w.count y + 1) := by
        apply Finset.sum_lt_sum
        · exact fun y hy => h.count_le hle (Finset.mem_range.mp hy) x
        · exact ⟨x, Finset.mem_range.mpr hx, Nat.lt_succ_self _⟩
    _ = (∑ y ∈ Finset.range r.members, w.count y) + r.members := by
        rw [Finset.sum_add_distrib, Finset.sum_const, Finset.card_range, smul_eq_mul, mul_one]
    _ ≤ (∑ y ∈ Finset.range r'.members, w.count y) + r.members := by
        apply Nat.add_le_add_right
        apply Finset.sum_le_sum_of_subset
        exact Finset.range_subset_range.mpr hgrows
    _ = w.length + r.members := by rw [← h.length_eq hle]

/-! ## Waiting -/

/-- The turns of others since the last turn of `x`, if the members of today were all there
then. -/
def since (r : Rotation) (x : ℕ) : ℕ :=
  if x < r.pending then x + (r.members - r.pending) else x - r.pending

theorem since_lt {x : ℕ} (hle : r.pending ≤ r.members) (hx : x < r.members) :
    r.since x < r.members := by
  unfold since
  split_ifs <;> omega

theorem Step.since_other {x y : ℕ} (h : Step r (some y) r') (hle : r.pending ≤ r.members)
    (hne : x ≠ y) (hx : x < r.members) : r'.since x = r.since x + 1 := by
  cases h with
  | turn n p =>
      simp only at hle
      simp only [since]
      split_ifs <;> omega
  | restart n =>
      simp only at hx
      simp only [since]
      split_ifs <;> omega

theorem Step.since_none {x : ℕ} (h : Step r none r') : r.since x ≤ r'.since x := by
  cases h with
  | stay => exact le_refl _
  | join n p =>
      simp only [since]
      split_ifs <;> omega

end Rotation

end EmbeddedKernel.Library
