import EmbeddedKernel.Library.Run

/-!
# Timers

`OSTimer` and the macro timers keep four variables and read `millis()`, which wraps
around after 2^32 ms.  `System` is a timer with an unbounded clock behind `millis()`;
it remembers the timeout last asked for, when the timer was started, for how long it has
run since without being frozen, and whether it is frozen now.
-/

namespace EmbeddedKernel.Timer

open Library

/-- The variables of a timer. -/
structure OSTimer where
  tmr : UInt32
  time : UInt32
  freeze : UInt32
  frozen : UInt8
  deriving DecidableEq

/-- `millis()` at a time. -/
def millis (T : ℕ) : UInt32 := UInt32.ofNat T

theorem toNat_millis (T : ℕ) : (millis T).toNat = T % 2 ^ 32 := UInt32.toNat_ofNat'

namespace OSTimer

def constructed (timeout now : UInt32) : OSTimer := ⟨now, timeout, 0, 0⟩

def set (t : OSTimer) (timeout now : UInt32) : OSTimer := { t with time := timeout, tmr := now }

def restart (t : OSTimer) (now : UInt32) : OSTimer := { t with tmr := now }

def isExpired (t : OSTimer) (now : UInt32) : Bool := now - t.tmr > t.time

/-- `OSTimer::Freeze`. -/
def freezeAt (t : OSTimer) (now : UInt32) : OSTimer := { t with freeze := now, frozen := 1 }

/-- `OSTimer::Thaw`, which leaves `frozen` as it is. -/
def thaw (t : OSTimer) (now : UInt32) : OSTimer :=
  { t with tmr := t.tmr + if t.frozen ≠ 0 then now - t.freeze else 0 }

end OSTimer

/-! ## The macro timers -/

def CREATE_TIMER (init : UInt32) : OSTimer := ⟨0, init, 0, 0⟩

def SETTIMER (t : OSTimer) (tm now : UInt32) : OSTimer := t.set tm now

def ISEXPIRED (t : OSTimer) (now : UInt32) : Bool := t.isExpired now

def FREEZETIMER (t : OSTimer) (now : UInt32) : OSTimer := t.freezeAt now

def THAWTIMER (t : OSTimer) (now : UInt32) : OSTimer := t.thaw now

/-! ## A timer and its clock -/

/-- A timer and its history. `timeout` is the argument of the last construction, `Set` or
`SETTIMER`, whatever the timer has made of it. -/
structure System where
  timer : OSTimer
  now : ℕ
  timeout : UInt32
  start : ℕ
  running : ℕ
  paused : Bool
  deriving DecidableEq

inductive Label
  | wait (d : ℕ)
  | set (timeout : UInt32)
  | restart
  | freeze
  | thaw
  deriving DecidableEq

namespace System

def constructed (timeout : UInt32) (T : ℕ) : System :=
  ⟨.constructed timeout (millis T), T, timeout, T, 0, false⟩

/-- A macro timer right after its first `SETTIMER`. -/
def firstSet (t : OSTimer) (tm : UInt32) (T : ℕ) : System :=
  ⟨SETTIMER t tm (millis T), T, tm, T, 0, false⟩

/-- The state in which the timer has just been started, with the timeout in force. -/
def started (s : System) (t : OSTimer) (timeout : UInt32) : System :=
  { s with timer := t, timeout := timeout, start := s.now, running := 0 }

def wait (s : System) (d : ℕ) : System :=
  { s with now := s.now + d, running := if s.paused then s.running else s.running + d }

/-- The calls of an `OSTimer`. `isExpired` changes nothing and is read in any state. -/
def step (s : System) : Label → Except Stop System
  | .wait d => .ok (s.wait d)
  | .set timeout => .ok (s.started (s.timer.set timeout (millis s.now)) timeout)
  | .restart => .ok (s.started (s.timer.restart (millis s.now)) s.timeout)
  | .freeze => .ok { s with timer := s.timer.freezeAt (millis s.now), paused := true }
  | .thaw => .ok { s with timer := s.timer.thaw (millis s.now), paused := false }

/-- The uses of a macro timer. -/
def macroStep (s : System) : Label → Except Stop System
  | .wait d => .ok (s.wait d)
  | .set tm => .ok (s.started (SETTIMER s.timer tm (millis s.now)) tm)
  | .restart => .error .notEnabled
  | .freeze => .ok { s with timer := FREEZETIMER s.timer (millis s.now), paused := true }
  | .thaw => .ok { s with timer := THAWTIMER s.timer (millis s.now), paused := false }

/-- What `millis()-tmr` is now. -/
def elapsed (s : System) : ℕ := (millis s.now - s.timer.tmr).toNat

/-- What `millis()-freeze` is now. -/
def sinceFreeze (s : System) : ℕ := (millis s.now - s.timer.freeze).toNat

def expired (s : System) : Bool := s.timer.isExpired (millis s.now)

theorem elapsed_lt (s : System) : s.elapsed < 2 ^ 32 := UInt32.toNat_lt _

theorem sinceFreeze_lt (s : System) : s.sinceFreeze < 2 ^ 32 := UInt32.toNat_lt _

theorem expired_iff (s : System) : s.expired = true ↔ s.timer.time.toNat < s.elapsed := by
  simp [expired, OSTimer.isExpired, elapsed, UInt32.lt_iff_toNat_lt]

theorem elapsed_started {s : System} {t : OSTimer} {timeout : UInt32}
    (ht : t.tmr = millis s.now) : (s.started t timeout).elapsed = 0 := by
  simp [elapsed, started, ht]

/-- Time that passes is added to `millis()-tmr`, up to a wrap. -/
theorem elapsed_wait (s : System) (d : ℕ) : (s.wait d).elapsed = (s.elapsed + d) % 2 ^ 32 := by
  simp only [elapsed, wait, UInt32.toNat_sub, toNat_millis]
  omega

/-- `Thaw` takes the frozen span off `millis()-tmr`, up to a wrap. -/
theorem elapsed_thaw {s t : System} (hstep : s.step .thaw = .ok t) :
    t.elapsed = if s.timer.frozen = 0 then s.elapsed
      else (2 ^ 32 + s.elapsed - s.sinceFreeze) % 2 ^ 32 := by
  simp only [step, Except.ok.injEq] at hstep
  subst hstep
  have htmr := UInt32.toNat_lt s.timer.tmr
  by_cases hfrozen : s.timer.frozen = 0
  · simp [elapsed, OSTimer.thaw, hfrozen]
  · simp only [elapsed, sinceFreeze, OSTimer.thaw, ne_eq, hfrozen, not_false_eq_true, if_true,
      if_false, UInt32.toNat_sub, UInt32.toNat_add, toNat_millis]
    omega

end System

end EmbeddedKernel.Timer
