import EmbeddedKernel.Library.Trace
import EmbeddedKernel.TaskRing.Model
import EmbeddedKernel.Timer.Model

/-!
# Blinking LEDs

A `ToggleLED` is a task with a timer and a mask of bits of port B.  The task ring
calls the tasks in turn; a task whose timer has expired clears its bits, sets them
again for every other toggle, and restarts the timer.  All tasks write to the same
register, each within its own mask.
-/

namespace EmbeddedKernel.Leds

open Library TaskRing Timer

/-- A `ToggleLED` with the members of its base `ToggleTask`. -/
structure ToggleLED where
  tm : OSTimer
  toggleflag : Bool
  ddrb : BitVec 8
  deriving DecidableEq

/-- The constructions of LEDs and their toggles, the latter with the readings of
`isExpired` and of `Restart`. -/
inductive Event
  | constructed (task : Addr) (timeout : UInt32) (mask : BitVec 8) (reading : ℕ)
  | toggled (task : Addr) (state : Bool) (expired restarted : ℕ)
  deriving DecidableEq

/-- `leds` are the tasks at their addresses and `now` is the time of the last reading of
`millis()`. -/
structure System where
  ring : TaskInternals
  leds : Addr → Option ToggleLED
  portb : BitVec 8
  ddrb : BitVec 8
  now : ℕ
  trace : List Event

inductive Label
  | construct (task : Addr) (timeout : UInt32) (mask : BitVec 8) (reading : ℕ)
  | start (task : Addr) (alloc : Bool)
  | loop (expired restarted : ℕ)
  deriving DecidableEq

namespace ToggleLED

def constructed (timeout : UInt32) (mask : BitVec 8) (now : UInt32) : ToggleLED :=
  ⟨.constructed timeout now, false, mask⟩

/-- `ToggleLED::Toggle`: the new value of `PORTB`. -/
def toggle (led : ToggleLED) (portb : BitVec 8) (state : Bool) : BitVec 8 :=
  let portb := portb &&& ~~~led.ddrb
  if state then portb ||| led.ddrb else portb

end ToggleLED

namespace System

def constructed (portb ddrb : BitVec 8) (now : ℕ) : System :=
  ⟨.constructed, fun _ => none, portb, ddrb, now, []⟩

/-- `ToggleTask::TaskLoop`, with the readings of `isExpired` and, if it comes to that, of
`Restart`. -/
def taskLoop (s : System) (task : Addr) (led : ToggleLED) (expired restarted : ℕ) : System :=
  if led.tm.isExpired (millis expired) then
    { s with
      leds := Function.update s.leds task (some { led with
        toggleflag := if led.toggleflag then false else true
        tm := led.tm.restart (millis restarted) })
      portb := led.toggle s.portb led.toggleflag
      now := restarted
      trace := s.trace ++ [.toggled task led.toggleflag expired restarted] }
  else { s with now := expired }

/-- `TASKSTATE::Call`; the ring holds LEDs only. -/
def call (s : System) (expired restarted : ℕ) : Handler → Except Stop System
  | .taskStateC task =>
      match s.leds task with
      | none => .error .nullPointer
      | some led => .ok (s.taskLoop task led expired restarted)
  | .taskStateF _ _ => .error .notEnabled

def step (s : System) : Label → Except Stop System
  | .construct task timeout mask reading =>
      .ok { s with
        leds := Function.update s.leds task (some (.constructed timeout mask (millis reading)))
        ddrb := s.ddrb ||| mask
        now := reading
        trace := s.trace ++ [.constructed task timeout mask reading] }
  | .start task alloc =>
      match s.leds task with
      | none => .error .notEnabled
      | some _ => .ok { s with ring := (s.ring.start task alloc).1 }
  | .loop expired restarted =>
      match s.ring.select.pCur with
      | none => .ok { s with ring := s.ring.select }
      | some cur => do
          let node ← s.ring.select.heap.deref (some cur)
          let s ← { s with ring := s.ring.select }.call expired restarted node.handler
          let ring ← s.ring.advance
          .ok { s with ring := ring }

end System

/-- The clock does not go back, and a new LED has its own address and its own bits. -/
def Rules (s : System) : Label → Prop
  | .construct task _ mask reading => s.now ≤ reading ∧ s.leds task = none ∧
      ∀ other led, s.leds other = some led → led.ddrb &&& mask = 0#8
  | .start _ _ => True
  | .loop expired restarted => s.now ≤ expired ∧ expired ≤ restarted

/-! ## What the trace says about a task -/

/-- The arguments of `Toggle`. -/
def toggles (task : Addr) (es : List Event) : List Bool :=
  es.filterMap fun
    | .toggled a state _ _ => if a = task then some state else none
    | _ => none

/-- The readings of `millis()` that the timer was started with. -/
def starts (task : Addr) (es : List Event) : List ℕ :=
  es.filterMap fun
    | .constructed a _ _ reading => if a = task then some reading else none
    | .toggled a _ _ restarted => if a = task then some restarted else none

/-- A toggle comes more than the timeout after the previous start of the timer. -/
def NotEarly (before : List Event) : Event → Prop
  | .toggled task _ expired _ => ∃ timeout mask reading last,
      Event.constructed task timeout mask reading ∈ before ∧
      (starts task before).getLast? = some last ∧ last + timeout.toNat < expired
  | .constructed _ _ _ _ => True

/-- `false`, `true`, `false`, and so on. -/
def alternating (n : ℕ) : List Bool := (List.range n).map fun i => decide (i % 2 = 1)

variable {s t : System} {l : Label} {task other : Addr} {led : ToggleLED} {expired restarted : ℕ}

@[simp] theorem toggles_append (task : Addr) (es fs : List Event) :
    toggles task (es ++ fs) = toggles task es ++ toggles task fs := by
  simp [toggles]

@[simp] theorem starts_append (task : Addr) (es fs : List Event) :
    starts task (es ++ fs) = starts task es ++ starts task fs := by
  simp [starts]

theorem toggles_constructed (task a : Addr) (timeout : UInt32) (mask : BitVec 8) (reading : ℕ) :
    toggles task [.constructed a timeout mask reading] = [] := rfl

theorem toggles_toggled (task a : Addr) (state : Bool) (expired restarted : ℕ) :
    toggles task [.toggled a state expired restarted] = if a = task then [state] else [] := by
  by_cases h : a = task <;> simp [toggles, h]

theorem starts_constructed (task a : Addr) (timeout : UInt32) (mask : BitVec 8) (reading : ℕ) :
    starts task [.constructed a timeout mask reading] = if a = task then [reading] else [] := by
  by_cases h : a = task <;> simp [starts, h]

theorem starts_toggled (task a : Addr) (state : Bool) (expired restarted : ℕ) :
    starts task [.toggled a state expired restarted] = if a = task then [restarted] else [] := by
  by_cases h : a = task <;> simp [starts, h]

theorem alternating_succ (n : ℕ) : alternating (n + 1) = alternating n ++ [decide (n % 2 = 1)] := by
  simp [alternating, List.range_succ]

/-- `Toggle` sets the bits of the mask to its argument and leaves the others alone. -/
theorem getLsbD_toggle (led : ToggleLED) (portb : BitVec 8) (state : Bool) (i : ℕ) :
    (led.toggle portb state).getLsbD i =
      if led.ddrb.getLsbD i = true then state else portb.getLsbD i := by
  by_cases hi : i < 8
  · cases state <;> cases hm : led.ddrb.getLsbD i <;>
      simp only [ToggleLED.toggle, if_true, Bool.false_eq_true, if_false, BitVec.getLsbD_or,
        BitVec.getLsbD_and, BitVec.getLsbD_not, hi, hm, decide_true, Bool.not_true,
        Bool.not_false, Bool.and_true, Bool.and_false, Bool.or_true, Bool.or_false]
  · have hm := BitVec.getLsbD_of_ge led.ddrb i (by omega)
    have hp := BitVec.getLsbD_of_ge portb i (by omega)
    cases state <;> simp [ToggleLED.toggle, hm, hp]

/-- `TaskRing::Loop` calls `TaskLoop` of one LED, if it calls anything. -/
theorem step_loop (h : s.step (.loop expired restarted) = .ok t) :
    (∃ ring, t = { s with ring := ring }) ∨
      ∃ task led ring, s.leds task = some led ∧
        t = { s.taskLoop task led expired restarted with ring := ring } := by
  simp only [System.step] at h
  split at h
  · cases h
    exact Or.inl ⟨_, rfl⟩
  · obtain ⟨node, -, h⟩ := bind_eq_ok.mp h
    obtain ⟨u, hu, h⟩ := bind_eq_ok.mp h
    obtain ⟨ring, -, h⟩ := bind_eq_ok.mp h
    cases h
    right
    cases hnode : node.handler with
    | taskStateF f context => simp [System.call, hnode] at hu
    | taskStateC task =>
        simp only [System.call, hnode] at hu
        cases hled : s.leds task with
        | none => simp [hled] at hu
        | some led =>
            simp only [hled, Except.ok.injEq] at hu
            refine ⟨task, led, ring, hled, ?_⟩
            rw [← hu]
            unfold System.taskLoop
            split_ifs <;> rfl

/-! ## The invariant -/

/-- An LED agrees with what the trace says about it. -/
structure LedOk (portb : BitVec 8) (s : System) (task : Addr) (led : ToggleLED) : Prop where
  constructed : ∃ mask reading, Event.constructed task led.tm.time mask reading ∈ s.trace
  started : ∃ last, (starts task s.trace).getLast? = some last ∧ last ≤ s.now ∧
    led.tm.tmr = millis last
  toggles : toggles task s.trace = alternating (toggles task s.trace).length
  flag : led.toggleflag = decide ((Leds.toggles task s.trace).length % 2 = 1)
  port : ∀ i, led.ddrb.getLsbD i = true →
    s.portb.getLsbD i = (Leds.toggles task s.trace).getLast?.getD (portb.getLsbD i)
  output : ∀ i, led.ddrb.getLsbD i = true → s.ddrb.getLsbD i = true

/-- An LED that a step does not concern. -/
theorem LedOk.keep {portb : BitVec 8} {es : List Event} (h : LedOk portb s task led)
    (htrace : t.trace = s.trace ++ es) (htoggles : Leds.toggles task es = [])
    (hstarts : starts task es = []) (hnow : s.now ≤ t.now)
    (hport : ∀ i, led.ddrb.getLsbD i = true → t.portb.getLsbD i = s.portb.getLsbD i)
    (hddrb : ∀ i, s.ddrb.getLsbD i = true → t.ddrb.getLsbD i = true) : LedOk portb t task led := by
  obtain ⟨mask, reading, hmem⟩ := h.constructed
  obtain ⟨last, hlast, hle, htmr⟩ := h.started
  have htoggled : Leds.toggles task t.trace = Leds.toggles task s.trace := by
    rw [htrace, toggles_append, htoggles, List.append_nil]
  have hstarted : starts task t.trace = starts task s.trace := by
    rw [htrace, starts_append, hstarts, List.append_nil]
  refine ⟨⟨mask, reading, by simp [htrace, hmem]⟩,
    ⟨last, hstarted ▸ hlast, hle.trans hnow, htmr⟩, ?_, ?_, fun i hi => ?_,
    fun i hi => hddrb i (h.output i hi)⟩
  · rw [htoggled]
    exact h.toggles
  · rw [htoggled]
    exact h.flag
  · rw [htoggled, hport i hi]
    exact h.port i hi

/-- The LED that toggles. -/
theorem LedOk.toggled {portb : BitVec 8} (h : LedOk portb s task led)
    (htrace : t.trace = s.trace ++ [.toggled task led.toggleflag expired restarted])
    (hnow : t.now = restarted) (hport : t.portb = led.toggle s.portb led.toggleflag)
    (hddrb : t.ddrb = s.ddrb) :
    LedOk portb t task { led with
      toggleflag := if led.toggleflag then false else true
      tm := led.tm.restart (millis restarted) } := by
  obtain ⟨mask, reading, hmem⟩ := h.constructed
  have htoggles : Leds.toggles task t.trace = Leds.toggles task s.trace ++ [led.toggleflag] := by
    simp [htrace, toggles_toggled]
  refine ⟨⟨mask, reading, by simp [htrace, OSTimer.restart, hmem]⟩,
    ⟨restarted, by simp [htrace, starts_toggled], hnow.ge, rfl⟩, ?_, ?_, fun i hi => ?_, ?_⟩
  · rw [htoggles, List.length_append, List.length_singleton, alternating_succ, ← h.toggles,
      ← h.flag]
  · change (if led.toggleflag then false else true) = _
    rw [htoggles, List.length_append, List.length_singleton, h.flag]
    rcases Nat.mod_two_eq_zero_or_one (Leds.toggles task s.trace).length with hpar | hpar
    · have hnext : ((Leds.toggles task s.trace).length + 1) % 2 = 1 := by omega
      simp [hpar, hnext]
    · have hnext : ((Leds.toggles task s.trace).length + 1) % 2 = 0 := by omega
      simp [hpar, hnext]
  · rw [hport, getLsbD_toggle, if_pos hi, htoggles]
    simp
  · rw [hddrb]
    exact h.output

/-- The invariant of the LEDs, with the value of `PORTB` at the beginning. -/
structure Blinking (portb : BitVec 8) (s : System) : Prop where
  led : ∀ task led, s.leds task = some led → LedOk portb s task led
  absent : ∀ task, s.leds task = none → toggles task s.trace = []
  disjoint : ∀ a b x y, a ≠ b → s.leds a = some x → s.leds b = some y → x.ddrb &&& y.ddrb = 0#8
  others : ∀ i, (∀ task led, s.leds task = some led → led.ddrb.getLsbD i = false) →
    s.portb.getLsbD i = portb.getLsbD i
  notEarly : Everywhere NotEarly s.trace

theorem blinking_constructed (portb ddrb : BitVec 8) (now : ℕ) :
    Blinking portb (.constructed portb ddrb now) where
  led := by simp [System.constructed]
  absent := fun _ _ => rfl
  disjoint := by simp [System.constructed]
  others := fun _ _ => rfl
  notEarly := everywhere_nil

theorem getLsbD_eq_false_of_disjoint {x y : BitVec 8} (h : x &&& y = 0#8) {i : ℕ}
    (hx : x.getLsbD i = true) : y.getLsbD i = false := by
  have hand : (x &&& y).getLsbD i = false := by rw [h]; simp
  simpa [hx] using hand

/-- An LED that is replaced by one with the same mask. -/
theorem exists_ddrb_of_update {leds : Addr → Option ToggleLED} {new x : ToggleLED} {a : Addr}
    (hled : leds task = some led) (hx : Function.update leds task (some new) a = some x)
    (hnew : new.ddrb = led.ddrb) :
    ∃ y, leds a = some y ∧ y.ddrb = x.ddrb := by
  rcases eq_or_ne a task with rfl | ha
  · rw [Function.update_self] at hx
    cases hx
    exact ⟨led, hled, hnew.symm⟩
  · rw [Function.update_of_ne ha] at hx
    exact ⟨x, hx, rfl⟩

/-- A reading that makes `isExpired` true is more than the timeout after the start. -/
theorem lt_of_isExpired {tm : OSTimer} {last : ℕ} (htmr : tm.tmr = millis last)
    (hle : last ≤ expired) (h : tm.isExpired (millis expired) = true) :
    last + tm.time.toNat < expired := by
  simp only [OSTimer.isExpired, gt_iff_lt, decide_eq_true_eq, UInt32.lt_iff_toNat_lt,
    UInt32.toNat_sub, htmr, toNat_millis] at h
  omega

namespace Blinking

variable {portb : BitVec 8}

theorem ring (h : Blinking portb s) (ring : TaskInternals) :
    Blinking portb { s with ring := ring } :=
  ⟨fun task led hled => (h.led task led hled).keep (List.append_nil _).symm rfl rfl (le_refl _)
    (fun _ _ => rfl) (fun _ hi => hi), h.absent, h.disjoint, h.others, h.notEarly⟩

theorem construct {timeout : UInt32} {mask : BitVec 8} {reading : ℕ} (h : Blinking portb s)
    (hgood : Rules s (.construct task timeout mask reading))
    (hstep : s.step (.construct task timeout mask reading) = .ok t) : Blinking portb t := by
  cases hstep
  obtain ⟨hnow, hfresh, hmask⟩ := hgood
  refine ⟨?_, ?_, ?_, ?_, h.notEarly.concat trivial⟩
  · intro a x hx
    simp only [Function.update_apply] at hx
    split_ifs at hx with ha
    · subst ha
      cases hx
      have hnone := h.absent a hfresh
      refine ⟨⟨mask, reading, by simp [ToggleLED.constructed, OSTimer.constructed]⟩,
        ⟨reading, by simp [starts_constructed], le_refl _, rfl⟩, ?_, ?_, ?_, ?_⟩
      · simp [toggles_constructed, hnone, alternating]
      · simp [toggles_constructed, hnone, ToggleLED.constructed]
      · intro i hi
        -- the bits of a new mask are in no other mask, so they have their first values
        have hbit := h.others i fun b y hy => by
          have hdisj := hmask b y hy
          rw [BitVec.and_comm] at hdisj
          exact getLsbD_eq_false_of_disjoint hdisj hi
        simpa [toggles_constructed, hnone] using hbit
      · intro i hi
        have hbit : mask.getLsbD i = true := hi
        simp [hbit]
    · refine (h.led a x hx).keep rfl (toggles_constructed ..) ?_ hnow (fun _ _ => rfl)
        fun i hi => ?_
      · rw [starts_constructed, if_neg (Ne.symm ha)]
      · simp [hi]
  · intro a ha
    simp only [Function.update_apply] at ha
    split_ifs at ha
    simpa [toggles_constructed] using h.absent a ha
  · intro a b x y hab hx hy
    simp only [Function.update_apply] at hx hy
    split_ifs at hx hy with ha hb hb
    · exact (hab (ha.trans hb.symm)).elim
    · cases hx
      rw [BitVec.and_comm]
      exact hmask b y hy
    · cases hy
      exact hmask a x hx
    · exact h.disjoint a b x y hab hx hy
  · intro i hall
    apply h.others i
    intro a x hx
    have ha : a ≠ task := by
      rintro rfl
      rw [hfresh] at hx
      cases hx
    exact hall a x ((Function.update_of_ne ha _ _).trans hx)

/-- The call of an LED, which toggles if its timer has expired. -/
theorem taskLoop (h : Blinking portb s) (hled : s.leds task = some led)
    (hnow : s.now ≤ expired) (hle : expired ≤ restarted) :
    Blinking portb (s.taskLoop task led expired restarted) := by
  have hok := h.led task led hled
  obtain ⟨mask, reading, hmem⟩ := hok.constructed
  obtain ⟨last, hlast, hlastle, htmr⟩ := hok.started
  by_cases hexpired : led.tm.isExpired (millis expired) = true
  · rw [System.taskLoop, if_pos hexpired]
    refine ⟨?_, ?_, ?_, ?_, h.notEarly.concat ⟨led.tm.time, mask, reading, last, hmem, hlast,
      lt_of_isExpired htmr (hlastle.trans hnow) hexpired⟩⟩
    · intro a x hx
      rcases eq_or_ne a task with rfl | ha
      · cases (Function.update_self a _ s.leds).symm.trans hx
        exact hok.toggled rfl rfl rfl rfl
      · have hleds : s.leds a = some x := (Function.update_of_ne ha _ _).symm.trans hx
        refine (h.led a x hleds).keep rfl ?_ ?_ (hnow.trans hle) (fun i hi => ?_) fun _ hi => hi
        · rw [toggles_toggled, if_neg (Ne.symm ha)]
        · rw [starts_toggled, if_neg (Ne.symm ha)]
        · have hmaskbit := getLsbD_eq_false_of_disjoint (h.disjoint a task x led ha hleds hled) hi
          rw [getLsbD_toggle, hmaskbit]
          rfl
    · intro a ha
      simp only [Function.update_apply] at ha
      split_ifs at ha with htask
      have htoggles : toggles a [.toggled task led.toggleflag expired restarted] = [] := by
        rw [toggles_toggled, if_neg (Ne.symm htask)]
      simpa [htoggles] using h.absent a ha
    · -- the call keeps the mask of every LED
      intro a b x y hab hx hy
      obtain ⟨x', hx', hxmask⟩ := exists_ddrb_of_update hled hx rfl
      obtain ⟨y', hy', hymask⟩ := exists_ddrb_of_update hled hy rfl
      rw [← hxmask, ← hymask]
      exact h.disjoint a b x' y' hab hx' hy'
    · intro i hall
      have hself := hall task _ (Function.update_self ..)
      have hbit : led.ddrb.getLsbD i = false := hself
      rw [getLsbD_toggle, hbit]
      simp only [Bool.false_eq_true, if_false]
      apply h.others i
      intro a x hx
      by_cases ha : a = task
      · subst ha
        rw [hled] at hx
        cases hx
        exact hbit
      · exact hall a x ((Function.update_of_ne ha _ _).trans hx)
  · rw [System.taskLoop, if_neg hexpired]
    exact ⟨fun a x hx => (h.led a x hx).keep (List.append_nil _).symm rfl rfl hnow
      (fun _ _ => rfl) (fun _ hi => hi), h.absent, h.disjoint, h.others, h.notEarly⟩

theorem step (h : Blinking portb s) (hgood : Rules s l) (hstep : s.step l = .ok t) :
    Blinking portb t := by
  cases l with
  | construct task timeout mask reading => exact h.construct hgood hstep
  | start task alloc =>
      simp only [System.step] at hstep
      split at hstep
      · cases hstep
      · cases hstep
        exact h.ring _
  | loop expired restarted =>
      rcases step_loop hstep with ⟨ring, rfl⟩ | ⟨task, led, ring, hled, rfl⟩
      · exact h.ring ring
      · exact (h.taskLoop hled hgood.1 hgood.2).ring ring

end Blinking

/-! ## The ring never stops -/

/-- The nodes of the ring belong to LEDs, and its pointers point to nodes. -/
structure RingOk (leds : Addr → Option ToggleLED) (ring : TaskInternals) : Prop where
  node : ∀ x < ring.heap.size, ∃ task next, ring.heap.get x = some ⟨.taskStateC task, next⟩ ∧
    (leds task).isSome ∧ ∀ y, next = some y → y < ring.heap.size
  head : ∀ x, ring.pHead = some x → x < ring.heap.size
  cur : ∀ x, ring.pCur = some x → x < ring.heap.size

theorem ringOk_constructed (leds : Addr → Option ToggleLED) : RingOk leds .constructed where
  node := by simp [TaskInternals.constructed]
  head := by simp [TaskInternals.constructed]
  cur := by simp [TaskInternals.constructed]

theorem RingOk.update {leds : Addr → Option ToggleLED} {ring : TaskInternals}
    (h : RingOk leds ring) (task : Addr) (led : ToggleLED) :
    RingOk (Function.update leds task (some led)) ring := by
  refine ⟨fun x hx => ?_, h.head, h.cur⟩
  obtain ⟨a, next, hget, hsome, hnext⟩ := h.node x hx
  refine ⟨a, next, hget, ?_, hnext⟩
  rcases eq_or_ne a task with rfl | ha
  · simp
  · rw [Function.update_of_ne ha]
    exact hsome

theorem RingOk.start {leds : Addr → Option ToggleLED} {ring : TaskInternals}
    (h : RingOk leds ring) (hled : leds task = some led) (alloc : Bool) :
    RingOk leds (ring.start task alloc).1 := by
  unfold TaskInternals.start TaskInternals.registerTask TaskInternals.registerTaskHandler
  split_ifs
  · refine ⟨fun x hx => ?_, fun x hx => ?_, fun x hx => ?_⟩
    · simp only [Heap.size_new] at hx
      rw [Heap.get_new, Heap.size_new]
      split_ifs with hsize
      · exact ⟨task, ring.pHead, rfl, by simp [hled], fun y hy => (h.head y hy).trans (by omega)⟩
      · obtain ⟨a, next, hget, hsome, hnext⟩ := h.node x (by omega)
        exact ⟨a, next, hget, hsome, fun y hy => (hnext y hy).trans (by omega)⟩
    · cases hx
      simp
    · rw [Heap.size_new]
      exact (h.cur x hx).trans (by omega)
  · exact h

/-- The call of the selected node. -/
theorem RingOk.exists_loop (h : RingOk s.leds s.ring) (expired restarted : ℕ) :
    ∃ t, s.step (.loop expired restarted) = .ok t ∧ RingOk t.leds t.ring := by
  rcases s.ring.select_cases with ⟨cur, hselect, hcur⟩ | ⟨hselect, hcur, -⟩
  · have hlt : cur < s.ring.heap.size := by
      rcases hcur with hcur | ⟨-, hhead⟩
      · exact h.cur cur hcur
      · exact h.head cur hhead
    obtain ⟨task, next, hget, hsome, hnext⟩ := h.node cur hlt
    obtain ⟨led, hled⟩ := Option.isSome_iff_exists.mp hsome
    have hring : RingOk s.leds { s.ring with pCur := next } := ⟨h.node, h.head, hnext⟩
    refine ⟨{ s.taskLoop task led expired restarted with
      ring := { s.ring with pCur := next } }, ?_, ?_⟩
    · simp only [System.step, hselect, Heap.deref_some hget, ok_bind, System.call, hled]
      unfold System.taskLoop
      split_ifs <;> simp [TaskInternals.advance, Heap.deref_some hget]
    · unfold System.taskLoop
      split_ifs
      · exact hring.update task _
      · exact hring.update task _
      · exact hring
  · exact ⟨s, by simp [System.step, hselect, hcur], h⟩

theorem RingOk.step (h : RingOk s.leds s.ring) (hstep : s.step l = .ok t) :
    RingOk t.leds t.ring := by
  cases l with
  | construct task timeout mask reading =>
      cases hstep
      exact h.update task _
  | start task alloc =>
      simp only [System.step] at hstep
      split at hstep
      · cases hstep
      · next led hled =>
          cases hstep
          exact h.start hled alloc
  | loop expired restarted =>
      obtain ⟨u, hu, hring⟩ := h.exists_loop expired restarted
      rw [hstep] at hu
      cases hu
      exact hring

/-- In every run LEDs with disjoint masks toggle in turn off and on, not before their
timeout is over, and each of them drives its own bits of the port. -/
theorem leds_blink (portb ddrb : BitVec 8) (now : ℕ)
    (hs : Reaches System.step Rules (.constructed portb ddrb now) s) :
    (∀ task, toggles task s.trace = alternating (toggles task s.trace).length) ∧
      Everywhere NotEarly s.trace ∧
      (∀ task led, s.leds task = some led → ∀ i, led.ddrb.getLsbD i = true →
        s.portb.getLsbD i = (toggles task s.trace).getLast?.getD (portb.getLsbD i) ∧
        s.ddrb.getLsbD i = true) ∧
      (∀ i, (∀ task led, s.leds task = some led → led.ddrb.getLsbD i = false) →
        s.portb.getLsbD i = portb.getLsbD i) ∧
      ∀ expired restarted, ∃ t, s.step (.loop expired restarted) = .ok t := by
  have hblinking : Blinking portb s :=
    hs.invariant (Blinking portb) (blinking_constructed portb ddrb now)
      fun _ _ _ h hgood hstep => h.step hgood hstep
  have hring : RingOk s.leds s.ring :=
    hs.invariant (fun u => RingOk u.leds u.ring) (ringOk_constructed _)
      fun _ _ _ h _ hstep => h.step hstep
  refine ⟨fun task => ?_, hblinking.notEarly, fun task led hled i hi => ?_, hblinking.others,
    fun expired restarted => ?_⟩
  · cases hled : s.leds task with
    | none =>
        rw [hblinking.absent task hled]
        rfl
    | some led => exact (hblinking.led task led hled).toggles
  · have hok := hblinking.led task led hled
    exact ⟨hok.port i hi, hok.output i hi⟩
  · obtain ⟨t, ht, -⟩ := hring.exists_loop expired restarted
    exact ⟨t, ht⟩

/-- Two LEDs; the second one toggles before and after the clock wraps around. -/
def twoLeds : List Label :=
  [.construct 1 50 0x20 (2 ^ 32 - 60), .construct 2 30 0x08 (2 ^ 32 - 60), .start 1 true,
    .start 2 true, .loop (2 ^ 32 - 25) (2 ^ 32 - 25), .loop (2 ^ 32 - 1) (2 ^ 32),
    .loop (2 ^ 32 + 8) (2 ^ 32 + 9)]

theorem leds_blink_twoLeds :
    ∃ s, execute System.step (.constructed 0xFF 0 0) twoLeds = .ok s ∧
      toggles 2 s.trace = [false, true] ∧ s.portb.getLsbD 3 = true ∧ s.portb.getLsbD 5 = false := by
  let s := after System.step (.constructed 0xFF 0 0) twoLeds
  have hs : Reaches System.step Rules (.constructed 0xFF 0 0) s := by
    refine .head (l := .construct 1 50 0x20 (2 ^ 32 - 60)) ⟨by decide, rfl, ?_⟩ rfl ?_
    · simp [System.constructed]
    refine .head (l := .construct 2 30 0x08 (2 ^ 32 - 60)) ⟨by decide, rfl, ?_⟩ rfl ?_
    · intro a x hx
      simp only [Function.update_apply, System.constructed] at hx
      split_ifs at hx
      cases hx
      rfl
    refine .head (l := .start 1 true) trivial rfl ?_
    refine .head (l := .start 2 true) trivial rfl ?_
    refine .head (l := .loop (2 ^ 32 - 25) (2 ^ 32 - 25)) ⟨by decide, by decide⟩ rfl ?_
    refine .head (l := .loop (2 ^ 32 - 1) (2 ^ 32)) ⟨by decide, by decide⟩ rfl ?_
    exact .head (l := .loop (2 ^ 32 + 8) (2 ^ 32 + 9)) ⟨by decide, by decide⟩ rfl .start
  obtain ⟨halt, -, hport, -, -⟩ := leds_blink 0xFF 0 0 hs
  exact ⟨s, rfl, halt 2, (hport 2 _ rfl 3 rfl).1, (hport 1 _ rfl 5 rfl).1⟩

end EmbeddedKernel.Leds
