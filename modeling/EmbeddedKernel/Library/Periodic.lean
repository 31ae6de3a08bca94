import Mathlib

/-!
# Timers that are looked at in turn

A timer is looked at once in a while, and started again when its timeout is found to be
over.  Every turn takes at most `g`, and there are at most `M` turns from one look to the
next.  Then the timer is started again not before its timeout is over and at most `g * M`
later, and over any time the number of its starts is known up to this.
-/

namespace EmbeddedKernel.Library

/-- The clock is at `now`, and `since` turns have passed since the last look.  The timer was
started at `first` and `fired` times since, lastly at `last`; it has been looked at from
`base` on.  `wrap` is the time that the timer cannot tell from 0. -/
structure Watch (g M timeout wrap base first fired last now since : ℕ) : Prop where
  base_le : base ≤ now
  last_le : last ≤ now
  notEarly : first + fired * (timeout + 1) ≤ last
  notLate : max (last + timeout) base ≤ max (first + timeout) base + fired * (timeout + g * M)
  clear : max (last + timeout) base + g * M < last + wrap
  now_le : now ≤ max (last + timeout) base + g * since

variable {g M timeout wrap base first fired last now since now' since' reading : ℕ}

theorem watch_start (hbase : base ≤ now) (hlast : last ≤ now)
    (hclear : max (last + timeout) base + g * M < last + wrap)
    (hnow : now ≤ max (last + timeout) base + g * since) :
    Watch g M timeout wrap base last 0 last now since :=
  ⟨hbase, hlast, by simp, by simp, hclear, hnow⟩

namespace Watch

theorem mono (h : Watch g M timeout wrap base first fired last now since)
    (hsince : since ≤ since') : Watch g M timeout wrap base first fired last now since' := by
  have hle := Nat.mul_le_mul_left g hsince
  exact ⟨h.base_le, h.last_le, h.notEarly, h.notLate, h.clear, h.now_le.trans (by omega)⟩

/-- A reading in the next turn is less than `wrap` after the start. -/
theorem reading_lt (h : Watch g M timeout wrap base first fired last now since)
    (hsince : since < M) (hreading : reading ≤ now + g) : reading < last + wrap := by
  have hle : g * (since + 1) ≤ g * M := Nat.mul_le_mul_left g hsince
  rw [Nat.mul_add_one] at hle
  have hnow := h.now_le
  have hclear := h.clear
  omega

/-- A turn of another one. -/
theorem other (h : Watch g M timeout wrap base first fired last now since) (hnow : now ≤ now')
    (hle : now' ≤ now + g) : Watch g M timeout wrap base first fired last now' (since + 1) := by
  refine ⟨h.base_le.trans hnow, h.last_le.trans hnow, h.notEarly, h.notLate, h.clear, ?_⟩
  have hwait := h.now_le
  rw [Nat.mul_add_one]
  omega

/-- A look at a timer whose timeout is not over. -/
theorem skip (h : Watch g M timeout wrap base first fired last now since) (hnow : now ≤ now')
    (hle : now' ≤ last + timeout) :
    Watch g M timeout wrap base first fired last now' since' := by
  refine ⟨h.base_le.trans hnow, h.last_le.trans hnow, h.notEarly, h.notLate, h.clear, ?_⟩
  exact hle.trans ((le_max_left _ _).trans (Nat.le_add_right _ _))

/-- The timeout is over, and the timer is started again. -/
theorem fire (h : Watch g M timeout wrap base first fired last now since) (hsince : since < M)
    (hnow : now ≤ reading) (hover : last + timeout < reading) (hle : reading ≤ now')
    (hturn : now' ≤ now + g) :
    Watch g M timeout wrap base first (fired + 1) now' now' since' := by
  have hlast : g * (since + 1) ≤ g * M := Nat.mul_le_mul_left g hsince
  rw [Nat.mul_add_one] at hlast
  have hwait := h.now_le
  have hclear := h.clear
  have hearly := h.notEarly
  have hlate := h.notLate
  have hbase := h.base_le
  refine ⟨by omega, le_refl _, ?_, ?_, ?_, ?_⟩
  · rw [Nat.add_one_mul]
    omega
  · rw [Nat.add_one_mul]
    omega
  · omega
  · exact (Nat.le_add_right _ _).trans ((le_max_left _ _).trans (Nat.le_add_right _ _))

/-- How often the timer has been started again by now. -/
theorem bounds (h : Watch g M timeout wrap base first fired last now since) (hsince : since ≤ M) :
    first + fired * (timeout + 1) ≤ now ∧
      now ≤ max (first + timeout) base + g * M + fired * (timeout + g * M) := by
  have hwait : g * since ≤ g * M := Nat.mul_le_mul_left g hsince
  have hnow := h.now_le
  have hlate := h.notLate
  exact ⟨h.notEarly.trans h.last_le, by omega⟩

end Watch

end EmbeddedKernel.Library
