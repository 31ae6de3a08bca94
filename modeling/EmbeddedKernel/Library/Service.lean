import EmbeddedKernel.Library.Run

/-!
# Work that is served in rounds

Work is offered over time and a server takes some of it in every round.  If the work
offered in every window of rounds is bounded by the rate of the server and a burst, then
so is the work that waits, and all work is served after a bounded number of rounds.
-/

namespace EmbeddedKernel.Library

/-- The states of a run of `N` steps. -/
def IsRun {σ ι ε : Type*} (step : σ → ι → Except ε σ) (good : σ → ι → Prop) (run : ℕ → σ)
    (N : ℕ) : Prop :=
  ∀ n < N, ∃ l, good (run n) l ∧ step (run n) l = .ok (run (n + 1))

theorem IsRun.reaches {σ ι ε : Type*} {step : σ → ι → Except ε σ} {good : σ → ι → Prop}
    {run : ℕ → σ} {N : ℕ} (h : IsRun step good run N) {n : ℕ} (hn : n ≤ N) :
    Reaches step good (run 0) (run n) := by
  induction n with
  | zero => exact .start
  | succ n ih =>
      obtain ⟨l, hgood, hstep⟩ := h n hn
      exact (ih (Nat.le_of_succ_le hn)).next hgood hstep

/-- What a number that falls with every step bounds: the steps until the goal. -/
theorem IsRun.within {σ ι ε : Type*} {step : σ → ι → Except ε σ} {good : σ → ι → Prop}
    {run : ℕ → σ} {N : ℕ} (h : IsRun step good run N) (goal : σ → Prop) (left : σ → ℕ)
    (hgoal : ∀ n ≤ N, left (run n) = 0 → goal (run n))
    (hfall : ∀ n < N, ∀ l, step (run n) l = .ok (run (n + 1)) → left (run n) ≠ 0 →
      left (run (n + 1)) < left (run n)) {n k : ℕ} (hk : left (run n) ≤ k) (hn : n + k ≤ N) :
    ∃ i ≤ k, goal (run (n + i)) := by
  induction k generalizing n with
  | zero => exact ⟨0, le_refl 0, hgoal n hn (Nat.le_zero.mp hk)⟩
  | succ k ih =>
      by_cases hzero : left (run n) = 0
      · exact ⟨0, Nat.zero_le _, hgoal n (by omega) hzero⟩
      · obtain ⟨l, -, hstep⟩ := h n (by omega)
        have hless := hfall n (by omega) l hstep hzero
        obtain ⟨i, hi, hreached⟩ := @ih (n + 1) (by omega) (by omega)
        refine ⟨i + 1, by omega, ?_⟩
        rwa [← Nat.add_assoc, Nat.add_right_comm]

section Execute

variable {σ ι ε : Type*} {step : σ → ι → Except ε σ} {good : σ → ι → Prop} {s t : σ}

theorem execute_append (step : σ → ι → Except ε σ) (s : σ) (xs ys : List ι) :
    execute step s (xs ++ ys) = execute step s xs >>= fun u => execute step u ys := by
  induction xs generalizing s with
  | nil => rfl
  | cons x xs ih =>
      rw [List.cons_append, execute, execute]
      cases step s x with
      | error e => rfl
      | ok u => exact ih u

/-- The states on the way through a list of labels that are all executed. -/
theorem isRun_of_execute {ls : List ι} (hgood : ∀ u, ∀ l ∈ ls, good u l)
    (h : execute step s ls = .ok t) :
    IsRun step good (fun n => after step s (ls.take n)) ls.length := by
  intro n hn
  have hsplit : ls = ls.take n ++ ls[n] :: ls.drop (n + 1) := by
    rw [List.getElem_cons_drop, List.take_append_drop]
  rw [hsplit, execute_append] at h
  obtain ⟨u, hu, hrest⟩ := bind_eq_ok.mp h
  obtain ⟨v, hv, -⟩ := bind_eq_ok.mp hrest
  have hnext : execute step s (ls.take (n + 1)) = .ok v := by
    rw [List.take_succ_eq_append_getElem hn, execute_append, hu, ok_bind, execute, hv]
    rfl
  refine ⟨ls[n], hgood _ _ (List.getElem_mem hn), ?_⟩
  simp only [after, hu, hnext, hv]

end Execute

variable {offered served rounds : ℕ → ℕ} {rate burst N n m : ℕ}

theorem le_of_steps {f : ℕ → ℕ} (hstep : ∀ n < N, f n ≤ f (n + 1)) {i j : ℕ} (hij : i ≤ j)
    (hj : j ≤ N) : f i ≤ f j := by
  induction j, hij using Nat.le_induction with
  | base => exact le_refl _
  | succ j _ ih => exact (ih (Nat.le_of_succ_le hj)).trans (hstep j hj)

/-- In every window the work offered is at most the rate for each round, and the burst. -/
def Loaded (offered rounds : ℕ → ℕ) (rate burst N : ℕ) : Prop :=
  ∀ i j, i ≤ j → j ≤ N → offered j + rate * rounds i ≤ offered i + rate * rounds j + burst

/-- Since some time, whose work has been served by now, the server has taken its rate in every
round but one. -/
def ServedAt (offered served rounds : ℕ → ℕ) (rate n : ℕ) : Prop :=
  ∃ i ≤ n, offered i ≤ served n ∧ offered i + rate * rounds n ≤ served n + rate * rounds i + rate

theorem ServedAt.backlog (h : ServedAt offered served rounds rate n)
    (hload : Loaded offered rounds rate burst N) (hn : n ≤ N) :
    offered n ≤ served n + burst + rate := by
  obtain ⟨i, hi, -, hserved⟩ := h
  have hwindow := hload i n hi hn
  omega

/-- What is offered up to time `n` is served when enough rounds have passed. -/
theorem ServedAt.delay (h : ServedAt offered served rounds rate m)
    (hload : Loaded offered rounds rate burst N) (hnm : n ≤ m) (hm : m ≤ N)
    (hmono : ∀ i j, i ≤ j → j ≤ N → offered i ≤ offered j)
    (hrounds : rate * rounds n + burst + rate ≤ rate * rounds m) : offered n ≤ served m := by
  obtain ⟨i, hi, hdone, hserved⟩ := h
  rcases Nat.le_total n i with hni | hin
  · exact (hmono n i hni (hi.trans hm)).trans hdone
  · have hwindow := hload i n hin (hnm.trans hm)
    omega

end EmbeddedKernel.Library
