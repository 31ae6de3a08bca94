import EmbeddedKernel.Timer.Model

/-!
# Frozen timers

`isExpired` does not look at `frozen`, and every `Freeze` starts the frozen span
again.  So between a `Freeze` and the next `Thaw` the timer goes on as far as
`isExpired` is concerned, and the `Thaw` takes off only the time since the last
`Freeze`.
-/

namespace EmbeddedKernel.Timer

open Library

/-- A call made while the timer is frozen, with the time that passes before it. -/
inductive FrozenCall
  | isExpired (d : ℕ)
  | freeze (d : ℕ)
  deriving DecidableEq

namespace FrozenCall

def labels : FrozenCall → List Label
  | .isExpired d => [.wait d]
  | .freeze d => [.wait d, .freeze]

/-- The state in which, or after which, the call is made. -/
def perform (s : System) (c : FrozenCall) : System := after System.step s c.labels

/-- If the call is `isExpired`, it returns `answer`. -/
def Returns (answer : Bool) (s : System) (c : FrozenCall) : Prop :=
  match c with
  | .isExpired _ => (c.perform s).expired = answer
  | .freeze _ => True

/-- The times of the calls of `isExpired`, if the first call follows at time `o`. -/
def queries : ℕ → List FrozenCall → List ℕ
  | _, [] => []
  | o, .isExpired d :: calls => (o + d) :: queries (o + d) calls
  | o, .freeze d :: calls => queries (o + d) calls

/-- The time of the last `Freeze`, if it is `f` before the calls. -/
def lastFreeze : ℕ → ℕ → List FrozenCall → ℕ
  | _, f, [] => f
  | o, f, .isExpired d :: calls => lastFreeze (o + d) f calls
  | o, _, .freeze d :: calls => lastFreeze (o + d) (o + d) calls

end FrozenCall

/-- From a `Freeze` in the state `s` on the timer stands still: each `isExpired` returns what
it would have returned then, and after a `Thaw`, `d` ms after the last call, `millis()-tmr` is
what it was then. -/
def StandsStill (s : System) (calls : List FrozenCall) (d : ℕ) : Prop :=
  let frozen := after System.step s [.freeze]
  Throughout FrozenCall.perform (FrozenCall.Returns s.expired) frozen calls ∧
    (after System.step (calls.foldl FrozenCall.perform frozen) [.wait d, .thaw]).elapsed =
      s.elapsed

/-- A query `q` ms after `millis()-tmr` was `elapsed` that falls on the same side of the timeout
as that value.  A timer that had not expired stays so for the rest of its time, and again once
`millis()-tmr` has wrapped; one that had expired stays so up to the wrap, and is so again when
its time has passed after it. -/
def SameSide (time elapsed q : ℕ) : Prop :=
  if elapsed ≤ time then q % 2 ^ 32 ≤ time - elapsed ∨ 2 ^ 32 - elapsed ≤ q % 2 ^ 32
  else q % 2 ^ 32 < 2 ^ 32 - elapsed ∨ 2 ^ 32 - elapsed + time < q % 2 ^ 32

theorem sameSide_iff {time elapsed : ℕ} (htime : time < 2 ^ 32) (helapsed : elapsed < 2 ^ 32)
    (q : ℕ) :
    SameSide time elapsed q ↔ (time < (elapsed + q) % 2 ^ 32 ↔ time < elapsed) := by
  unfold SameSide
  split_ifs <;> omega

/-- The state `u` at time `o` after the first `Freeze`, with the last one at time `f`. -/
structure Interval (s : System) (o f : ℕ) (u : System) : Prop where
  elapsed : u.elapsed = (s.elapsed + o) % 2 ^ 32
  time : u.timer.time = s.timer.time
  frozen : u.timer.frozen = 1
  sinceFreeze : u.sinceFreeze = (o - f) % 2 ^ 32
  le : f ≤ o

variable {s u : System} {o f : ℕ}

theorem sinceFreeze_wait (s : System) (d : ℕ) :
    (s.wait d).sinceFreeze = (s.sinceFreeze + d) % 2 ^ 32 := by
  simp only [System.sinceFreeze, System.wait, UInt32.toNat_sub, toNat_millis]
  omega

theorem interval_freeze (s : System) : Interval s 0 0 (after System.step s [.freeze]) := by
  have hlt := s.elapsed_lt
  refine ⟨?_, rfl, rfl, ?_, le_rfl⟩
  · exact (Nat.mod_eq_of_lt hlt).symm
  · simp [System.sinceFreeze, after, execute, System.step, OSTimer.freezeAt]

theorem Interval.wait (h : Interval s o f u) (d : ℕ) : Interval s (o + d) f (u.wait d) := by
  have hle := h.le
  refine ⟨?_, h.time, h.frozen, ?_, by omega⟩
  · rw [System.elapsed_wait, h.elapsed]
    omega
  · rw [sinceFreeze_wait, h.sinceFreeze]
    omega

theorem Interval.perform_isExpired (h : Interval s o f u) (d : ℕ) :
    Interval s (o + d) f ((FrozenCall.isExpired d).perform u) := h.wait d

theorem Interval.perform_freeze (h : Interval s o f u) (d : ℕ) :
    Interval s (o + d) (o + d) ((FrozenCall.freeze d).perform u) := by
  have hwait := h.wait d
  refine ⟨hwait.elapsed, hwait.time, rfl, ?_, le_rfl⟩
  have hzero : ((FrozenCall.freeze d).perform u).sinceFreeze = 0 := by
    simp [FrozenCall.perform, FrozenCall.labels, System.sinceFreeze, after, execute, System.step,
      OSTimer.freezeAt]
  rw [hzero, Nat.sub_self, Nat.zero_mod]

theorem Interval.expired_iff (h : Interval s o f u) :
    u.expired = true ↔ s.timer.time.toNat < (s.elapsed + o) % 2 ^ 32 := by
  rw [System.expired_iff, h.elapsed, h.time]

theorem Interval.elapsed_thaw (h : Interval s o f u) (d : ℕ) :
    (after System.step u [.wait d, .thaw]).elapsed = (s.elapsed + f) % 2 ^ 32 := by
  have hwait := h.wait d
  have hstep : (u.wait d).step .thaw = .ok (after System.step u [.wait d, .thaw]) := rfl
  have hle := hwait.le
  rw [System.elapsed_thaw hstep, hwait.frozen, if_neg (by decide), hwait.elapsed,
    hwait.sinceFreeze]
  omega

def FrozenCall.endTime : ℕ → List FrozenCall → ℕ
  | o, [] => o
  | o, .isExpired d :: calls => endTime (o + d) calls
  | o, .freeze d :: calls => endTime (o + d) calls

theorem Interval.foldl (h : Interval s o f u) (calls : List FrozenCall) :
    Interval s (FrozenCall.endTime o calls) (FrozenCall.lastFreeze o f calls)
      (calls.foldl FrozenCall.perform u) := by
  induction calls generalizing o f u with
  | nil => exact h
  | cons c calls ih =>
      cases c with
      | isExpired d => exact ih (h.perform_isExpired d)
      | freeze d => exact ih (h.perform_freeze d)

theorem Interval.throughout_iff (h : Interval s o f u) (calls : List FrozenCall) :
    Throughout FrozenCall.perform (FrozenCall.Returns s.expired) u calls ↔
      ∀ q ∈ FrozenCall.queries o calls, SameSide s.timer.time.toNat s.elapsed q := by
  induction calls generalizing o f u with
  | nil => simp [Throughout, FrozenCall.queries]
  | cons c calls ih =>
      cases c with
      | isExpired d =>
          have hnext := h.perform_isExpired d
          have hanswer : FrozenCall.Returns s.expired u (.isExpired d) ↔
              SameSide s.timer.time.toNat s.elapsed (o + d) := by
            rw [sameSide_iff s.timer.time.toNat_lt s.elapsed_lt, ← hnext.expired_iff,
              ← s.expired_iff]
            exact Bool.eq_iff_iff
          simp only [Throughout, FrozenCall.queries, List.forall_mem_cons]
          rw [hanswer, ih hnext]
      | freeze d =>
          simp only [Throughout, FrozenCall.Returns, FrozenCall.queries, true_and]
          exact ih (h.perform_freeze d)

/-- A frozen timer stands still exactly if each `isExpired` falls on the side of the timeout that
the `Freeze` was on, and the last further `Freeze`, if there is one, comes a multiple of 2^32 ms
after the first. -/
theorem standsStill_iff (s : System) (calls : List FrozenCall) (d : ℕ) :
    StandsStill s calls d ↔
      (∀ q ∈ FrozenCall.queries 0 calls, SameSide s.timer.time.toNat s.elapsed q) ∧
      FrozenCall.lastFreeze 0 0 calls % 2 ^ 32 = 0 := by
  have hstart := interval_freeze s
  have hlt := s.elapsed_lt
  simp only [StandsStill]
  rw [hstart.throughout_iff, (hstart.foldl calls).elapsed_thaw]
  apply and_congr_right
  intro _
  omega

def halfway : System := after System.step (System.constructed 100 0) [.wait 50]

/-- It expires while it is frozen, and a second `Freeze` after 10 ms makes it lose these. -/
theorem frozen_timer_goes_on :
    Reaches System.step (fun _ _ => True) (System.constructed 100 0) halfway ∧
      halfway.paused = false ∧ ¬StandsStill halfway [.isExpired 60] 0 ∧
      ¬StandsStill halfway [.freeze 10] 5 := by
  have hrun : execute System.step (System.constructed 100 0) [.wait 50] = .ok halfway := rfl
  refine ⟨reaches_of_execute hrun, rfl, ?_, ?_⟩
  · rintro ⟨⟨hanswer, -⟩, -⟩
    have hsame : ((FrozenCall.isExpired 60).perform
      (after System.step halfway [.freeze])).expired = halfway.expired := hanswer
    exact absurd hsame (by decide)
  · rintro ⟨-, helapsed⟩
    exact absurd helapsed (by decide)

end EmbeddedKernel.Timer
