import EmbeddedKernel.Leds.OnTime
import EmbeddedKernel.Library.Simulation
import EmbeddedKernel.Rtc.LogTask

/-!
# LEDs and loggers in one ring

The application keeps its LEDs and its log tasks in the same ring.  Both wait for a timer;
the ones then write to port B and the others read the clock over the bus and print a line.
Apart from what it prints, a log task is an LED without a bit of the port.
-/

namespace EmbeddedKernel.Application

open Iic Library TaskRing Timer

open DataLog (World)

open Leds (ToggleLED)

/-- The two kinds of task. -/
inductive AppTask
  | toggleLED (led : ToggleLED)
  | logTask (tm : OSTimer)
  deriving DecidableEq

def AppTask.tm : AppTask → OSTimer
  | .toggleLED led => led.tm
  | .logTask tm => tm

/-- Constructions of tasks, with the timeout as `unsigned long`, toggles and printed lines, the
latter two with the readings of `isExpired` and of `Restart`. -/
inductive TaskEvent
  | constructed (task : Addr) (timeout : UInt32) (mask : BitVec 8) (reading : ℕ)
  | toggled (task : Addr) (state : Bool) (expired restarted : ℕ)
  | logged (task : Addr) (line : List UInt8) (expired restarted : ℕ)
  deriving DecidableEq

structure TaskSystem (σ : Type) where
  ring : TaskInternals
  tasks : Addr → Option AppTask
  portb : BitVec 8
  ddrb : BitVec 8
  world : World σ
  now : ℕ
  trace : List TaskEvent

/-- `junk` is what the stack holds for `LogToSerial`. -/
inductive TaskLabel
  | constructLED (task : Addr) (timeout : UInt32) (mask : BitVec 8) (reading : ℕ)
  | constructLog (task : Addr) (timestamp : ℤ) (reading : ℕ)
  | start (task : Addr) (alloc : Bool)
  | loop (expired restarted : ℕ) (junk : ℕ → UInt8)

namespace TaskSystem

variable {σ : Type}

def constructed (portb ddrb : BitVec 8) (world : World σ) (now : ℕ) : TaskSystem σ :=
  ⟨.constructed, fun _ => none, portb, ddrb, world, now, []⟩

/-- `ToggleTask::TaskLoop` of an LED. -/
def toggleLoop (s : TaskSystem σ) (task : Addr) (led : ToggleLED) (expired restarted : ℕ) :
    TaskSystem σ :=
  if led.tm.isExpired (millis expired) then
    { s with
      tasks := Function.update s.tasks task (some (.toggleLED { led with
        toggleflag := if led.toggleflag then false else true
        tm := led.tm.restart (millis restarted) }))
      portb := led.toggle s.portb led.toggleflag
      now := restarted
      trace := s.trace ++ [.toggled task led.toggleflag expired restarted] }
  else { s with now := expired }

variable (twi : Twi σ) (m : Rtc.Strings)

/-- `LogTask::TaskLoop`. -/
def logLoop (s : TaskSystem σ) (task : Addr) (tm : OSTimer) (expired restarted : ℕ)
    (junk : ℕ → UInt8) : Except Stop (TaskSystem σ) := do
  let (tm', world) ← Rtc.taskLoop twi m junk (millis expired) (millis restarted) tm s.world
  if tm.isExpired (millis expired) then
    .ok { s with
      tasks := Function.update s.tasks task (some (.logTask tm'))
      world := world
      now := restarted
      trace := s.trace ++
        [.logged task (world.serial.drop s.world.serial.length) expired restarted] }
  else .ok { s with now := expired }

/-- `TASKSTATE::Call`; the ring holds tasks of the two kinds only. -/
def call (s : TaskSystem σ) (expired restarted : ℕ) (junk : ℕ → UInt8) :
    Handler → Except Stop (TaskSystem σ)
  | .taskStateC task =>
      match s.tasks task with
      | none => .error .nullPointer
      | some (.toggleLED led) => .ok (s.toggleLoop task led expired restarted)
      | some (.logTask tm) => s.logLoop twi m task tm expired restarted junk
  | .taskStateF _ _ => .error .notEnabled

def step (s : TaskSystem σ) : TaskLabel → Except Stop (TaskSystem σ)
  | .constructLED task timeout mask reading =>
      .ok { s with
        tasks := Function.update s.tasks task
          (some (.toggleLED (.constructed timeout mask (millis reading))))
        ddrb := s.ddrb ||| mask
        now := reading
        trace := s.trace ++ [.constructed task timeout mask reading] }
  | .constructLog task timestamp reading =>
      let (tm, bus) := Rtc.constructed twi timestamp (millis reading) s.world.bus
      .ok { s with
        tasks := Function.update s.tasks task (some (.logTask tm))
        world := { s.world with bus := bus }
        now := reading
        trace := s.trace ++
          [.constructed task (UInt32.ofNat (timestamp % 2 ^ 32).toNat) 0 reading] }
  | .start task alloc =>
      match s.tasks task with
      | none => .error .notEnabled
      | some _ => .ok { s with ring := (s.ring.start task alloc).1 }
  | .loop expired restarted junk =>
      match s.ring.select.pCur with
      | none => .ok { s with ring := s.ring.select }
      | some cur => do
          let node ← s.ring.select.heap.deref (some cur)
          let s ← { s with ring := s.ring.select }.call twi m expired restarted junk node.handler
          let ring ← s.ring.advance
          .ok { s with ring := ring }

end TaskSystem

/-- The clock does not go back; a new task has its own address, and a new LED its own bits. -/
def TaskRules {σ : Type} (s : TaskSystem σ) : TaskLabel → Prop
  | .constructLED task _ mask reading => s.now ≤ reading ∧ s.tasks task = none ∧
      ∀ other led, s.tasks other = some (.toggleLED led) → led.ddrb &&& mask = 0#8
  | .constructLog task _ reading => s.now ≤ reading ∧ s.tasks task = none
  | .start _ _ => True
  | .loop expired restarted _ => s.now ≤ expired ∧ expired ≤ restarted

/-- No task is constructed any more, and `TaskRing::Loop`, with whatever comes before it, takes
at most `g` ms. -/
def PunctualTasks {σ : Type} (g : ℕ) (s : TaskSystem σ) : TaskLabel → Prop
  | .start _ _ => True
  | .loop expired restarted _ => s.now ≤ expired ∧ expired ≤ restarted ∧ restarted ≤ s.now + g
  | _ => False

/-! ## The log tasks as LEDs -/

/-- A log task as an LED without bits. -/
def AppTask.led (flag : Bool) : AppTask → ToggleLED
  | .toggleLED led => led
  | .logTask tm => ⟨tm, flag, 0#8⟩

/-- A printed line is a toggle of some state. -/
inductive SameEvent : TaskEvent → Leds.Event → Prop
  | constructed (task : Addr) (timeout : UInt32) (mask : BitVec 8) (reading : ℕ) :
      SameEvent (.constructed task timeout mask reading) (.constructed task timeout mask reading)
  | toggled (task : Addr) (state : Bool) (expired restarted : ℕ) :
      SameEvent (.toggled task state expired restarted) (.toggled task state expired restarted)
  | logged (task : Addr) (line : List UInt8) (state : Bool) (expired restarted : ℕ) :
      SameEvent (.logged task line expired restarted) (.toggled task state expired restarted)

structure AsLeds {σ : Type} (a : TaskSystem σ) (s : Leds.System) : Prop where
  ring : s.ring = a.ring
  leds : ∃ flags : Addr → Bool, ∀ task, s.leds task = (a.tasks task).map (AppTask.led (flags task))
  portb : s.portb = a.portb
  ddrb : s.ddrb = a.ddrb
  now : s.now = a.now
  trace : List.Forall₂ SameEvent a.trace s.trace

theorem asLeds_constructed {σ : Type} (portb ddrb : BitVec 8) (world : World σ) (now : ℕ) :
    AsLeds (.constructed portb ddrb world now) (.constructed portb ddrb now) where
  ring := rfl
  leds := ⟨fun _ => false, fun _ => rfl⟩
  portb := rfl
  ddrb := rfl
  now := rfl
  trace := .nil

variable {σ : Type} {twi : Twi σ} {m : Rtc.Strings} {a b : TaskSystem σ} {s t : Leds.System}
  {l : TaskLabel} {task : Addr} {expired restarted g : ℕ} {junk : ℕ → UInt8}

theorem forall₂_concat {es : List TaskEvent} {fs : List Leds.Event} {e : TaskEvent} {f : Leds.Event}
    (h : List.Forall₂ SameEvent es fs) (hef : SameEvent e f) :
    List.Forall₂ SameEvent (es ++ [e]) (fs ++ [f]) :=
  List.rel_append h (.cons hef .nil)

/-- Tasks with one of them replaced. -/
theorem update_led {flags : Addr → Bool} (h : ∀ task, s.leds task =
    (a.tasks task).map (AppTask.led (flags task))) (task : Addr) (new : AppTask) (flag : Bool) :
    ∃ flags' : Addr → Bool, ∀ other,
      Function.update s.leds task (some (new.led flag)) other =
        (Function.update a.tasks task (some new) other).map (AppTask.led (flags' other)) := by
  refine ⟨Function.update flags task flag, fun other => ?_⟩
  rcases eq_or_ne other task with rfl | hne
  · simp
  · rw [Function.update_of_ne hne, Function.update_of_ne hne, Function.update_of_ne hne]
    exact h other

/-- What `TaskLoop` can do. -/
inductive Called (twi : Twi σ) (m : Rtc.Strings) (a : TaskSystem σ) (task : Addr)
    (expired restarted : ℕ) (junk : ℕ → UInt8) : TaskSystem σ → Prop
  | waiting {kind : AppTask} (htask : a.tasks task = some kind)
      (hnot : ¬kind.tm.isExpired (millis expired) = true) :
      Called twi m a task expired restarted junk { a with now := expired }
  | toggled {led : ToggleLED} (htask : a.tasks task = some (.toggleLED led))
      (hexpired : led.tm.isExpired (millis expired) = true) :
      Called twi m a task expired restarted junk { a with
        tasks := Function.update a.tasks task (some (.toggleLED { led with
          toggleflag := if led.toggleflag then false else true
          tm := led.tm.restart (millis restarted) }))
        portb := led.toggle a.portb led.toggleflag
        now := restarted
        trace := a.trace ++ [.toggled task led.toggleflag expired restarted] }
  | logged {tm : OSTimer} {world : World σ} (htask : a.tasks task = some (.logTask tm))
      (hexpired : tm.isExpired (millis expired) = true)
      (hlog : Rtc.logToSerial twi m junk Rtc.logMessage a.world = .ok world) :
      Called twi m a task expired restarted junk { a with
        tasks := Function.update a.tasks task (some (.logTask (tm.restart (millis restarted))))
        world := world
        now := restarted
        trace := a.trace ++
          [.logged task (world.serial.drop a.world.serial.length) expired restarted] }

theorem called_of_call
    (h : a.call twi m expired restarted junk (.taskStateC task) = .ok b) :
    Called twi m a task expired restarted junk b := by
  simp only [TaskSystem.call] at h
  cases htask : a.tasks task with
  | none => simp [htask] at h
  | some kind =>
      cases kind with
      | toggleLED led =>
          simp only [htask, Except.ok.injEq] at h
          subst h
          unfold TaskSystem.toggleLoop
          by_cases hexpired : led.tm.isExpired (millis expired) = true
          · rw [if_pos hexpired]
            exact .toggled htask hexpired
          · rw [if_neg hexpired]
            exact .waiting htask hexpired
      | logTask tm =>
          simp only [htask, TaskSystem.logLoop] at h
          obtain ⟨⟨tm', world⟩, hloop, hend⟩ := bind_eq_ok.mp h
          by_cases hexpired : tm.isExpired (millis expired) = true
          · rw [Rtc.taskLoop, if_pos hexpired] at hloop
            rw [if_pos hexpired] at hend
            obtain ⟨world', hlog, hpair⟩ := bind_eq_ok.mp hloop
            cases hpair
            cases hend
            exact .logged htask hexpired hlog
          · rw [if_neg hexpired] at hend
            cases hend
            exact .waiting htask hexpired

theorem AppTask.led_tm (flag : Bool) (kind : AppTask) : (kind.led flag).tm = kind.tm := by
  cases kind <;> rfl

/-- `TaskLoop` of a task of either kind, seen as that of an LED. -/
theorem AsLeds.call (h : AsLeds a s) (hcall : Called twi m a task expired restarted junk b) :
    b.ring = a.ring ∧ ∃ led, s.leds task = some led ∧
      AsLeds b (s.taskLoop task led expired restarted) := by
  obtain ⟨flags, hleds⟩ := h.leds
  have hled := hleds task
  cases hcall with
  | @waiting kind htask hnot =>
      rw [htask, Option.map_some] at hled
      rw [← AppTask.led_tm (flags task)] at hnot
      refine ⟨rfl, _, hled, ?_⟩
      rw [Leds.System.taskLoop, if_neg hnot]
      exact ⟨h.ring, h.leds, h.portb, h.ddrb, rfl, h.trace⟩
  | @toggled led htask hexpired =>
      rw [htask, Option.map_some] at hled
      refine ⟨rfl, led, hled, ?_⟩
      rw [Leds.System.taskLoop, if_pos hexpired, h.portb]
      exact ⟨h.ring, update_led hleds task (.toggleLED _) (flags task), rfl, h.ddrb, rfl,
        forall₂_concat h.trace (.toggled ..)⟩
  | @logged tm world htask hexpired hlog =>
      rw [htask, Option.map_some] at hled
      refine ⟨rfl, ⟨tm, flags task, 0#8⟩, hled, ?_⟩
      -- an LED without bits leaves the port as it is
      have hport : (ToggleLED.mk tm (flags task) 0#8).toggle s.portb (flags task) = a.portb := by
        rw [← h.portb]
        apply BitVec.eq_of_getLsbD_eq
        intro i hi
        rw [Leds.getLsbD_toggle, if_neg (by simp)]
      rw [Leds.System.taskLoop, if_pos hexpired, hport]
      exact ⟨h.ring, update_led hleds task (.logTask _) _, rfl, h.ddrb, rfl,
        forall₂_concat h.trace (.logged ..)⟩

theorem AsLeds.withRing (h : AsLeds a s) (ring : TaskInternals) :
    AsLeds { a with ring := ring } { s with ring := ring } :=
  ⟨rfl, h.leds, h.portb, h.ddrb, h.now, h.trace⟩

/-- `TaskRing::Loop` calls one task, if the ring is not empty. -/
theorem loop_cases (h : a.step twi m (.loop expired restarted junk) = .ok b) :
    (a.ring.select.pCur = none ∧ b = { a with ring := a.ring.select }) ∨
      ∃ cur node task c ring, a.ring.select.pCur = some cur ∧
        a.ring.select.heap.deref (some cur) = .ok node ∧ node.handler = .taskStateC task ∧
        Called twi m { a with ring := a.ring.select } task expired restarted junk c ∧
        c.ring.advance = .ok ring ∧ b = { c with ring := ring } := by
  simp only [TaskSystem.step] at h
  split at h
  · next hcur =>
      cases h
      exact .inl ⟨hcur, rfl⟩
  · next cur hcur =>
      right
      obtain ⟨node, hnode, h⟩ := bind_eq_ok.mp h
      obtain ⟨c, hcall, h⟩ := bind_eq_ok.mp h
      obtain ⟨ring, hring, h⟩ := bind_eq_ok.mp h
      cases h
      cases hhandler : node.handler with
      | taskStateF f context => simp [hhandler, TaskSystem.call] at hcall
      | taskStateC task =>
          rw [hhandler] at hcall
          exact ⟨cur, node, task, c, ring, hcur, hnode, hhandler, called_of_call hcall, hring, rfl⟩

theorem AsLeds.loop (h : AsLeds a s) (hstep : a.step twi m (.loop expired restarted junk) = .ok b) :
    ∃ t, s.step (.loop expired restarted) = .ok t ∧ AsLeds b t := by
  rcases loop_cases hstep with ⟨hcur, rfl⟩ | ⟨cur, node, task, c, ring, hcur, hnode, hhandler,
    hcall, hring, rfl⟩
  · rw [← h.ring] at hcur
    refine ⟨{ s with ring := s.ring.select }, ?_, ?_⟩
    · simp only [Leds.System.step, hcur]
    · rw [h.ring]
      exact h.withRing _
  · obtain ⟨hsame, led, hled, hcalled⟩ := (h.withRing a.ring.select).call hcall
    refine ⟨{ { s with ring := a.ring.select }.taskLoop task led expired restarted with
      ring := ring }, ?_, hcalled.withRing ring⟩
    rw [← hcalled.ring] at hring
    rw [← h.ring] at hcur hnode hring ⊢
    simp only [Leds.System.step, hcur, hnode, ok_bind, hhandler, Leds.System.call]
    rw [show s.leds task = some led from hled]
    simp only [ok_bind, hring]

/-- Every step of the application is a step of LEDs. -/
theorem AsLeds.step (h : AsLeds a s) (hstep : a.step twi m l = .ok b) :
    ∃ l' t, s.step l' = .ok t ∧ AsLeds b t ∧ (TaskRules a l → Leds.Rules s l') ∧
      (PunctualTasks g a l → Leds.Punctual g s l') := by
  obtain ⟨flags, hleds⟩ := h.leds
  have hfresh : ∀ task, a.tasks task = none → s.leds task = none := by
    intro task htask
    rw [hleds, htask]
    rfl
  cases l with
  | constructLED task timeout mask reading =>
      cases hstep
      refine ⟨.construct task timeout mask reading, _, rfl, ⟨h.ring, ?_, h.portb, ?_, rfl, ?_⟩, ?_,
        fun hpunctual => hpunctual.elim⟩
      · exact update_led hleds task (.toggleLED _) false
      · simp only [h.ddrb]
      · exact forall₂_concat h.trace (.constructed ..)
      · rintro ⟨hnow, htask, hmask⟩
        refine ⟨h.now.trans_le hnow, hfresh task htask, fun other led hled => ?_⟩
        rw [hleds] at hled
        obtain ⟨kind, hkind, rfl⟩ := Option.map_eq_some_iff.mp hled
        cases kind with
        | toggleLED led => exact hmask other led hkind
        | logTask tm => simp [AppTask.led]
  | constructLog task timestamp reading =>
      cases hstep
      refine ⟨.construct task (UInt32.ofNat (timestamp % 2 ^ 32).toNat) 0 reading, _, rfl,
        ⟨h.ring, ?_, h.portb, ?_, rfl, ?_⟩, ?_, fun hpunctual => hpunctual.elim⟩
      · exact update_led hleds task (.logTask _) false
      · simp [h.ddrb]
      · exact forall₂_concat h.trace (.constructed ..)
      · rintro ⟨hnow, htask⟩
        refine ⟨h.now.trans_le hnow, hfresh task htask, fun other led hled => ?_⟩
        exact BitVec.and_zero
  | start task alloc =>
      simp only [TaskSystem.step] at hstep
      split at hstep
      · cases hstep
      · next kind hkind =>
          cases hstep
          have hled := hleds task
          rw [hkind, Option.map_some] at hled
          refine ⟨.start task alloc, { s with ring := (s.ring.start task alloc).1 }, ?_, ?_,
            fun _ => trivial, fun _ => trivial⟩
          · simp only [Leds.System.step, hled]
          · rw [h.ring]
            exact h.withRing _
  | loop expired restarted junk =>
      obtain ⟨t, ht, hled⟩ := h.loop hstep
      refine ⟨.loop expired restarted, t, ht, hled, ?_, ?_⟩
      · rintro ⟨hnow, hle⟩
        exact ⟨h.now.trans_le hnow, hle⟩
      · rintro ⟨hnow, hle, hturn⟩
        exact ⟨h.now.trans_le hnow, hle, by rwa [h.now]⟩

end EmbeddedKernel.Application
