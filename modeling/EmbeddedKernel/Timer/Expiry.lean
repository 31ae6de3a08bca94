import EmbeddedKernel.Timer.Model

/-!
# When a timer expires

`Thaw` adds the time since the last `Freeze` to `tmr` whenever the timer has been
frozen at some time, so a `Thaw` too many, or a `Set` between `Freeze` and `Thaw`,
can move `tmr` past the present.  Where this does not happen no timer expires
early, and where `Freeze` and `Thaw` alternate a timer measures exactly the time
for which it is not frozen.
-/

namespace EmbeddedKernel.Timer

open Library

variable {s t : System} {l : Label}

/-! ## Timers do not expire early -/

/-- The timer has not expired, or the timeout in force has passed since its start. -/
def NotEarly (s : System) : Prop :=
  s.expired = true → s.timeout.toNat < s.now - s.start

/-- `Thaw` does not move `tmr` past the present, or it does so without harm: the value that
`millis()-tmr` wraps around to is not beyond the time since the start, or the timeout has
passed already, or it is never exceeded. -/
def SafeThaw (s : System) : Label → Prop
  | .thaw => s.timer.frozen = 0 ∨ s.sinceFreeze ≤ s.elapsed ∨
      2 ^ 32 + s.elapsed ≤ s.sinceFreeze + (s.now - s.start) ∨
      s.timeout.toNat < s.now - s.start ∨ s.timeout.toNat = 2 ^ 32 - 1
  | _ => True

/-- What makes all readings from now on right, until the timer is started or thawed. -/
structure Timely (s : System) : Prop where
  time_eq : s.timer.time = s.timeout
  start_le : s.start ≤ s.now
  elapsed_le : s.elapsed ≤ s.now - s.start ∨ s.timeout.toNat < s.now - s.start ∨
    s.timeout.toNat = 2 ^ 32 - 1

theorem Timely.notEarly (h : Timely s) : NotEarly s := by
  intro hexpired
  rw [System.expired_iff, h.time_eq] at hexpired
  have hlt := s.elapsed_lt
  rcases h.elapsed_le with hle | hle | hle <;> omega

theorem timely_started {u : OSTimer} {timeout : UInt32} (hu : u.tmr = millis s.now)
    (htime : u.time = timeout) : Timely (s.started u timeout) := by
  refine ⟨htime, le_refl _, Or.inl ?_⟩
  rw [System.elapsed_started hu]
  exact Nat.zero_le _

theorem Timely.wait (h : Timely s) (d : ℕ) : Timely (s.wait d) := by
  have hstart := h.start_le
  refine ⟨h.time_eq, hstart.trans (Nat.le_add_right _ _), ?_⟩
  rw [System.elapsed_wait]
  simp only [System.wait]
  rcases h.elapsed_le with hle | hlt | hmax
  · left
    omega
  · right
    left
    omega
  · exact Or.inr (Or.inr hmax)

/-- After a `Thaw` the readings are right exactly if it was a safe one. -/
theorem timely_thaw_iff (h : Timely s) (hstep : s.step .thaw = .ok t) :
    Timely t ↔ SafeThaw s .thaw := by
  have helapsed := System.elapsed_thaw hstep
  have hlt := s.elapsed_lt
  have hfreeze := s.sinceFreeze_lt
  simp only [System.step, Except.ok.injEq] at hstep
  have hsame : t.timer.time = s.timer.time ∧ t.timeout = s.timeout ∧ t.now = s.now ∧
      t.start = s.start := by
    subst hstep
    exact ⟨rfl, rfl, rfl, rfl⟩
  obtain ⟨htime, htimeout, hnow, hstart⟩ := hsame
  have htime_eq : t.timer.time = t.timeout := by rw [htime, h.time_eq, htimeout]
  have hstart_le := h.start_le
  have hle := h.elapsed_le
  by_cases hfrozen : s.timer.frozen = 0
  · rw [if_pos hfrozen] at helapsed
    refine ⟨fun _ => Or.inl hfrozen, fun _ => ⟨htime_eq, by omega, ?_⟩⟩
    rw [helapsed, htimeout, hnow, hstart]
    exact hle
  · rw [if_neg hfrozen] at helapsed
    constructor
    · intro ht
      have ht := ht.elapsed_le
      rw [helapsed, htimeout, hnow, hstart] at ht
      right
      omega
    · intro hsafe
      refine ⟨htime_eq, by omega, ?_⟩
      rw [helapsed, htimeout, hnow, hstart]
      rcases hsafe with hzero | hsafe
      · exact (hfrozen hzero).elim
      · omega

theorem Timely.step (h : Timely s) (hsafe : SafeThaw s l) (hstep : s.step l = .ok t) :
    Timely t := by
  cases l with
  | wait d =>
      cases hstep
      exact h.wait d
  | set timeout =>
      cases hstep
      exact timely_started rfl rfl
  | restart =>
      cases hstep
      exact timely_started rfl h.time_eq
  | freeze =>
      cases hstep
      exact ⟨h.time_eq, h.start_le, h.elapsed_le⟩
  | thaw => exact (timely_thaw_iff h hstep).mpr hsafe

theorem reaches_timely {timeout : UInt32} {T : ℕ}
    (hs : Reaches System.step SafeThaw (.constructed timeout T) s) : Timely s := by
  apply hs.invariant Timely
  · refine ⟨rfl, le_refl _, Or.inl ?_⟩
    simp [System.elapsed, System.constructed, OSTimer.constructed]
  · exact fun _ _ _ h hsafe hstep => h.step hsafe hstep

/-- A timer whose readings stay right for ever has not run ahead of the clock. -/
theorem timely_of_notEarly_wait (htime : s.timer.time = s.timeout) (hstart : s.start ≤ s.now)
    (h : ∀ d, NotEarly (s.wait d)) : Timely s := by
  refine ⟨htime, hstart, ?_⟩
  by_contra hnot
  push Not at hnot
  obtain ⟨hahead, hpassed, hmax⟩ := hnot
  have hlt := s.elapsed_lt
  have htmax := UInt32.toNat_lt s.timeout
  -- the moment at which `millis()-tmr` exceeds the timeout
  have hearly := h (s.timeout.toNat + 1 - s.elapsed)
  rw [NotEarly, System.expired_iff, System.elapsed_wait] at hearly
  simp only [System.wait, htime] at hearly
  omega

/-- In every run without an unsafe `Thaw` no timer expires early; and in such a run the
readings after a `Thaw` are never early exactly if the `Thaw` is safe. -/
theorem timer_never_early {timeout : UInt32} {T : ℕ}
    (hs : Reaches System.step SafeThaw (.constructed timeout T) s) :
    NotEarly s ∧
      ∀ t, s.step .thaw = .ok t → ((∀ d, NotEarly (t.wait d)) ↔ SafeThaw s .thaw) := by
  have htimely := reaches_timely hs
  refine ⟨htimely.notEarly, fun t hstep => ?_⟩
  rw [← timely_thaw_iff htimely hstep]
  constructor
  · apply timely_of_notEarly_wait
    · cases hstep
      exact htimely.time_eq
    · cases hstep
      exact htimely.start_le
  · exact fun h d => (h.wait d).notEarly

/-- A timer that is frozen and thawed once. -/
theorem timer_never_early_thawedOnce :
    ∃ s, execute System.step (.constructed 1000 0) [.wait 600, .freeze, .wait 900, .thaw,
        .wait 400] = .ok s ∧ s.expired = false ∧ NotEarly s := by
  let s := after System.step (.constructed 1000 0)
    [.wait 600, .freeze, .wait 900, .thaw, .wait 400]
  have hrun : execute System.step (.constructed 1000 0) [.wait 600, .freeze, .wait 900, .thaw,
      .wait 400] = .ok s := rfl
  refine ⟨s, hrun, by decide, ?_⟩
  have hs : Reaches System.step SafeThaw (.constructed 1000 0) s := by
    refine .head (l := .wait 600) trivial rfl ?_
    refine .head (l := .freeze) trivial rfl ?_
    refine .head (l := .wait 900) trivial rfl ?_
    refine .head (l := .thaw) (Or.inr (Or.inl (by decide))) rfl ?_
    exact .head (l := .wait 400) trivial rfl .start
  exact (timer_never_early hs).1

/-- A second `Thaw`: a timeout of a second has passed after 10 ms. -/
theorem second_thaw_expires_early :
    ¬∀ timeout T s, Reaches System.step (fun _ _ => True) (.constructed timeout T) s →
      NotEarly s := by
  intro hall
  let s := after System.step (.constructed 1000 0) [.freeze, .wait 10, .thaw, .thaw]
  have hrun : execute System.step (.constructed 1000 0) [.freeze, .wait 10, .thaw, .thaw] =
      .ok s := rfl
  have hearly := hall 1000 0 s (reaches_of_execute hrun)
  have hexpired : s.expired = true := by decide
  have hpassed : 1000 < s.now - s.start := hearly hexpired
  exact absurd hpassed (by decide)

/-! ## Timers that are frozen and thawed in turn -/

/-- `Freeze` and `Thaw` alternate, and the timer is started only while it is not frozen. -/
def Bracketed (s : System) : Label → Prop
  | .wait _ => True
  | .set _ | .restart | .freeze => s.paused = false
  | .thaw => s.paused = true

/-- The timer has the timeout in force, and `tmr` is as far back, from now or from the
`Freeze`, as the timer has run. -/
structure Exact (s : System) : Prop where
  time_eq : s.timer.time = s.timeout
  thawed : s.paused = false → s.elapsed = s.running % 2 ^ 32
  halted : s.paused = true →
    s.timer.frozen ≠ 0 ∧ (s.timer.freeze - s.timer.tmr).toNat = s.running % 2 ^ 32

theorem exact_started {u : OSTimer} {timeout : UInt32} (hpaused : s.paused = false)
    (hu : u.tmr = millis s.now) (htime : u.time = timeout) : Exact (s.started u timeout) := by
  refine ⟨htime, fun _ => ?_, fun h => ?_⟩
  · rw [System.elapsed_started hu]
    rfl
  · simp [System.started, hpaused] at h

theorem Exact.wait (h : Exact s) (d : ℕ) : Exact (s.wait d) := by
  refine ⟨h.time_eq, fun hp => ?_, fun hp => ?_⟩
  · have hrunning : (s.wait d).running = s.running + d := by simp_all [System.wait]
    rw [System.elapsed_wait, h.thawed hp, hrunning]
    omega
  · have hrunning : (s.wait d).running = s.running := by simp_all [System.wait]
    rw [hrunning]
    exact h.halted hp

/-- What has passed since `tmr` at a `Thaw` is what had passed at the `Freeze`, plus the frozen
span that is then taken off. -/
theorem Exact.thaw (h : Exact s) (hp : s.paused = true) (hstep : s.step .thaw = .ok t) :
    Exact t := by
  obtain ⟨hfrozen, hfreeze⟩ := h.halted hp
  have helapsed := System.elapsed_thaw hstep
  rw [if_neg hfrozen] at helapsed
  simp only [System.step, Except.ok.injEq] at hstep
  have hrunning : t.running = s.running ∧ t.paused = false := by
    subst hstep
    exact ⟨rfl, rfl⟩
  have htime : t.timer.time = t.timeout := by
    subst hstep
    exact h.time_eq
  refine ⟨htime, fun _ => ?_, fun hpaused => by simp [hrunning.2] at hpaused⟩
  rw [helapsed, hrunning.1, ← hfreeze]
  have hnow := UInt32.toNat_lt (millis s.now)
  have htmr := UInt32.toNat_lt s.timer.tmr
  have hf := UInt32.toNat_lt s.timer.freeze
  simp only [System.elapsed, System.sinceFreeze, UInt32.toNat_sub]
  omega

theorem Exact.step (h : Exact s) (hgood : Bracketed s l) (hstep : s.step l = .ok t) :
    Exact t := by
  cases l with
  | wait d =>
      cases hstep
      exact h.wait d
  | set timeout =>
      cases hstep
      exact exact_started hgood rfl rfl
  | restart =>
      cases hstep
      exact exact_started hgood rfl h.time_eq
  | freeze =>
      cases hstep
      refine ⟨h.time_eq, fun hp => by simp at hp, fun _ => ⟨by simp [OSTimer.freezeAt], ?_⟩⟩
      exact h.thawed hgood
  | thaw => exact h.thaw hgood hstep

theorem Exact.expired_iff (h : Exact s) (hp : s.paused = false) (hlt : s.running < 2 ^ 32) :
    s.expired = true ↔ s.timeout.toNat < s.running := by
  rw [System.expired_iff, h.time_eq, h.thawed hp, Nat.mod_eq_of_lt hlt]

theorem step_of_macroStep (h : s.macroStep l = .ok t) : s.step l = .ok t := by
  cases l with
  | restart => cases h
  | wait d => exact h
  | set tm => exact h
  | freeze => exact h
  | thaw => exact h

/-- Timers with `Freeze` and `Thaw` in turn are exact, however often and however long they are
frozen and wherever the clock wraps around: such a timer, not frozen and with less than
2^32 ms run since its start, has expired exactly if it has run for longer than the timeout
that it was last given.  Macro timers do so from their first `SETTIMER` on. -/
theorem timer_exact (s : System) (hp : s.paused = false) (hlt : s.running < 2 ^ 32) :
    (∀ timeout T, Reaches System.step Bracketed (.constructed timeout T) s →
      (s.timer.isExpired (millis s.now) = true ↔ s.timeout.toNat < s.running)) ∧
    ∀ u tm T, Reaches System.macroStep Bracketed (.firstSet u tm T) s →
      (ISEXPIRED s.timer (millis s.now) = true ↔ s.timeout.toNat < s.running) := by
  refine ⟨fun timeout T hs => ?_, fun u tm T hs => ?_⟩
  · have hexact : Exact s := by
      refine hs.invariant Exact ⟨rfl, fun _ => ?_, fun h => by simp [System.constructed] at h⟩
        fun _ _ _ h hgood hstep => h.step hgood hstep
      simp [System.elapsed, System.constructed, OSTimer.constructed]
    exact hexact.expired_iff hp hlt
  · have hexact : Exact s := by
      refine hs.invariant Exact ⟨rfl, fun _ => ?_, fun h => by simp [System.firstSet] at h⟩
        fun _ _ _ h hgood hstep => h.step hgood (step_of_macroStep hstep)
      simp [System.elapsed, System.firstSet, SETTIMER, OSTimer.set]
    exact hexact.expired_iff hp hlt

/-- Frozen for longer than the clock takes to wrap around, shortly before it wraps. -/
def longFreeze : List Label := [.wait 200, .freeze, .wait (2 ^ 33), .thaw, .wait 900]

theorem timer_exact_longFreeze :
    (∃ s, execute System.step (.constructed 1000 (2 ^ 32 - 300)) longFreeze = .ok s ∧
      s.running = 1100 ∧ s.timer.isExpired (millis s.now) = true) ∧
    ∃ s, execute System.macroStep (.firstSet (CREATE_TIMER 5) 1000 (2 ^ 32 - 300)) longFreeze =
      .ok s ∧ s.running = 1100 ∧ ISEXPIRED s.timer (millis s.now) = true := by
  let s₂ := after System.step (.constructed 1000 (2 ^ 32 - 300)) longFreeze
  let t₂ := after System.macroStep (.firstSet (CREATE_TIMER 5) 1000 (2 ^ 32 - 300)) longFreeze
  have hs : Reaches System.step Bracketed (.constructed 1000 (2 ^ 32 - 300)) s₂ := by
    refine .head (l := .wait 200) trivial rfl ?_
    refine .head (l := .freeze) rfl rfl ?_
    refine .head (l := .wait (2 ^ 33)) trivial rfl ?_
    refine .head (l := .thaw) rfl rfl ?_
    exact .head (l := .wait 900) trivial rfl .start
  have ht : Reaches System.macroStep Bracketed
      (.firstSet (CREATE_TIMER 5) 1000 (2 ^ 32 - 300)) t₂ := by
    refine .head (l := .wait 200) trivial rfl ?_
    refine .head (l := .freeze) rfl rfl ?_
    refine .head (l := .wait (2 ^ 33)) trivial rfl ?_
    refine .head (l := .thaw) rfl rfl ?_
    exact .head (l := .wait 900) trivial rfl .start
  refine ⟨⟨s₂, rfl, rfl, ?_⟩, ⟨t₂, rfl, rfl, ?_⟩⟩
  · exact ((timer_exact s₂ rfl (by decide)).1 1000 _ hs).mpr (by decide)
  · exact ((timer_exact t₂ rfl (by decide)).2 _ 1000 _ ht).mpr (by decide)

end EmbeddedKernel.Timer
