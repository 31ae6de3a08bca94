import EmbeddedKernel.Application.Tasks
import EmbeddedKernel.Rtc.RoundTrip

/-!
# The periods of LEDs and loggers

Since the application is a ring of LEDs, apart from what is printed, its LEDs blink and its
log tasks print their lines at the rate of their timers, whatever the others do.
-/

namespace EmbeddedKernel.Application

open Iic Library TaskRing Timer

open DataLog (World)

open Leds (ToggleLED)

variable {σ : Type} {twi : Twi σ} {m : Rtc.Strings} {a b : TaskSystem σ} {s t : Leds.System}
  {l : TaskLabel} {task : Addr} {expired restarted g : ℕ} {junk : ℕ → UInt8}

/-! ## What the trace says about a task -/

/-- How often the task has found its timer expired. -/
def fired (task : Addr) (es : List TaskEvent) : ℕ :=
  es.countP fun
    | .toggled a _ _ _ => a = task
    | .logged a _ _ _ => a = task
    | .constructed _ _ _ _ => false

/-- The readings of `millis()` that its timer was started with. -/
def timerStarts (task : Addr) (es : List TaskEvent) : List ℕ :=
  es.filterMap fun
    | .constructed a _ _ reading => if a = task then some reading else none
    | .toggled a _ _ restarted => if a = task then some restarted else none
    | .logged a _ _ restarted => if a = task then some restarted else none

/-- The arguments of `Toggle`. -/
def toggleStates (task : Addr) (es : List TaskEvent) : List Bool :=
  es.filterMap fun
    | .toggled a state _ _ => if a = task then some state else none
    | _ => none

/-- The lines that have been printed. -/
def lines (es : List TaskEvent) : List (List UInt8) :=
  es.filterMap fun
    | .logged _ line _ _ => some line
    | _ => none

variable {es : List TaskEvent} {fs : List Leds.Event}

theorem constructed_mem (h : List.Forall₂ SameEvent es fs) {timeout : UInt32}
    {mask : BitVec 8} {reading : ℕ}
    (hmem : TaskEvent.constructed task timeout mask reading ∈ es) :
    Leds.Event.constructed task timeout mask reading ∈ fs := by
  induction h with
  | nil => cases hmem
  | cons hef hrest ih =>
      rcases List.mem_cons.mp hmem with rfl | hmem
      · cases hef
        exact List.mem_cons_self
      · exact List.mem_cons_of_mem _ (ih hmem)

theorem fired_eq (h : List.Forall₂ SameEvent es fs) (task : Addr) :
    fired task es = (Leds.toggles task fs).length := by
  induction h with
  | nil => rfl
  | @cons e f es fs hef hrest ih =>
      unfold fired Leds.toggles at ih ⊢
      cases hef with
      | constructed => simpa using ih
      | toggled a state => by_cases ha : a = task <;> simp [ha, ih]
      | logged a line state => by_cases ha : a = task <;> simp [ha, ih]

theorem timerStarts_eq (h : List.Forall₂ SameEvent es fs) (task : Addr) :
    timerStarts task es = Leds.starts task fs := by
  induction h with
  | nil => rfl
  | @cons e f es fs hef hrest ih =>
      unfold timerStarts Leds.starts at ih ⊢
      cases hef with
      | constructed a => by_cases ha : a = task <;> simp [ha, ih]
      | toggled a state => by_cases ha : a = task <;> simp [ha, ih]
      | logged a line state => by_cases ha : a = task <;> simp [ha, ih]

/-- For a task that prints nothing. -/
theorem toggleStates_eq (h : List.Forall₂ SameEvent es fs)
    (hlogged : ∀ line expired restarted, TaskEvent.logged task line expired restarted ∉ es) :
    toggleStates task es = Leds.toggles task fs := by
  induction h with
  | nil => rfl
  | @cons e f es fs hef hrest ih =>
      have hnext := ih fun line expired restarted hmem =>
        hlogged line expired restarted (List.mem_cons_of_mem _ hmem)
      unfold toggleStates Leds.toggles at hnext ⊢
      cases hef with
      | constructed a => simpa using hnext
      | toggled a state => by_cases ha : a = task <;> simp [ha, hnext]
      | logged a line state expired restarted =>
          have ha : a ≠ task := by
            rintro rfl
            exact hlogged line expired restarted (List.mem_cons_self ..)
          simpa [ha] using hnext

@[simp] theorem lines_append (es fs : List TaskEvent) :
    lines (es ++ fs) = lines es ++ lines fs := by
  simp [lines]

/-! ## What has been printed -/

theorem logToSerial_eq_ok {w w' : World σ} {message : DataLog.CString}
    (h : Rtc.logToSerial twi m junk message w = .ok w') :
    ∃ d, w'.serial = w.serial ++ Rtc.logstring m d message := by
  obtain ⟨⟨bus, d⟩, -, hprint⟩ := bind_eq_ok.mp h
  simp only at hprint
  split_ifs at hprint
  cases hprint
  exact ⟨d, rfl⟩

/-- Events that come with their lines, each of which has been printed by `LogToSerial`. -/
structure Prints (m : Rtc.Strings) (a b : TaskSystem σ) (es : List TaskEvent) : Prop where
  trace : b.trace = a.trace ++ es
  serial : b.world.serial = a.world.serial ++ (lines es).flatten
  line : ∀ line ∈ lines es, ∃ d, line = Rtc.logstring m d Rtc.logMessage

theorem Prints.append {c : TaskSystem σ} {fs : List TaskEvent} (h : Prints m a b es)
    (hnext : Prints m b c fs) : Prints m a c (es ++ fs) := by
  refine ⟨by rw [hnext.trace, h.trace, List.append_assoc], ?_, fun line hline => ?_⟩
  · rw [hnext.serial, h.serial, lines_append, List.flatten_append, List.append_assoc]
  · rw [lines_append] at hline
    rcases List.mem_append.mp hline with hline | hline
    · exact h.line line hline
    · exact hnext.line line hline

/-- Events without lines. -/
theorem prints_silent (htrace : b.trace = a.trace ++ es)
    (hserial : b.world.serial = a.world.serial) (hlines : lines es = []) : Prints m a b es := by
  refine ⟨htrace, by rw [hserial, hlines, List.flatten_nil, List.append_nil], fun line hline => ?_⟩
  rw [hlines] at hline
  cases hline

theorem Called.prints (h : Called twi m a task expired restarted junk b) :
    ∃ es, Prints m a b es := by
  cases h with
  | waiting => exact ⟨[], prints_silent (List.append_nil _).symm rfl rfl⟩
  | toggled => exact ⟨_, prints_silent rfl rfl rfl⟩
  | @logged tm world htask hexpired hlog =>
      obtain ⟨d, hd⟩ := logToSerial_eq_ok hlog
      have hline : world.serial.drop a.world.serial.length = Rtc.logstring m d Rtc.logMessage := by
        rw [hd, List.drop_left]
      refine ⟨_, rfl, ?_, ?_⟩
      · simp [lines, hd]
      · intro line hmem
        have heq : line = world.serial.drop a.world.serial.length := by simpa [lines] using hmem
        exact ⟨d, heq.trans hline⟩

theorem prints_step (h : a.step twi m l = .ok b) : ∃ es, Prints m a b es := by
  cases l with
  | constructLED task timeout mask reading =>
      cases h
      exact ⟨_, prints_silent rfl rfl rfl⟩
  | constructLog task timestamp reading =>
      cases h
      exact ⟨_, prints_silent rfl rfl rfl⟩
  | start task alloc =>
      simp only [TaskSystem.step] at h
      split at h
      · cases h
      · cases h
        exact ⟨[], prints_silent (List.append_nil _).symm rfl rfl⟩
  | loop expired restarted junk =>
      rcases loop_cases h with ⟨-, rfl⟩ | ⟨cur, node, task, c, ring, -, -, -, hcall, -, rfl⟩
      · exact ⟨[], prints_silent (List.append_nil _).symm rfl rfl⟩
      · obtain ⟨es, hprints⟩ := hcall.prints
        exact ⟨es, hprints.trace, hprints.serial, hprints.line⟩

theorem reaches_prints {good : TaskSystem σ → TaskLabel → Prop}
    (h : Reaches (TaskSystem.step twi m) good a b) : ∃ es, Prints m a b es := by
  refine h.invariant (fun b => ∃ es, Prints m a b es)
    ⟨[], prints_silent (List.append_nil _).symm rfl rfl⟩ ?_
  rintro b l c ⟨es, hprints⟩ - hstep
  obtain ⟨fs, hnext⟩ := prints_step hstep
  exact ⟨es ++ fs, hprints.append hnext⟩

/-! ## Who prints -/

/-- Lines come from log tasks. -/
def LinesOwned (a : TaskSystem σ) : Prop :=
  ∀ task line expired restarted, TaskEvent.logged task line expired restarted ∈ a.trace →
    ∃ tm, a.tasks task = some (.logTask tm)

theorem Called.linesOwned (h : Called twi m a task expired restarted junk b)
    (howned : LinesOwned a) : LinesOwned b := by
  cases h with
  | waiting => exact howned
  | @toggled led htask hexpired =>
      intro other line e r hmem
      simp only [List.mem_append, List.mem_singleton, reduceCtorEq, or_false] at hmem
      obtain ⟨tm, htm⟩ := howned other line e r hmem
      have hne : other ≠ task := by
        rintro rfl
        rw [htask] at htm
        cases htm
      exact ⟨tm, (Function.update_of_ne hne _ _).trans htm⟩
  | @logged tm world htask hexpired hlog =>
      intro other line e r hmem
      rcases eq_or_ne other task with rfl | hne
      · exact ⟨_, Function.update_self ..⟩
      · simp only [List.mem_append, List.mem_singleton, TaskEvent.logged.injEq, hne, false_and,
          or_false] at hmem
        obtain ⟨tm', htm⟩ := howned other line e r hmem
        exact ⟨tm', (Function.update_of_ne hne _ _).trans htm⟩

/-- A new task has a new address. -/
theorem LinesOwned.construct {kind : AppTask} {e : TaskEvent} (h : LinesOwned a)
    (hfresh : a.tasks task = none) (htasks : b.tasks = Function.update a.tasks task (some kind))
    (htrace : b.trace = a.trace ++ [e])
    (he : ∀ task line expired restarted, e ≠ .logged task line expired restarted) :
    LinesOwned b := by
  intro other line expired restarted hmem
  rw [htrace] at hmem
  rcases List.mem_append.mp hmem with hmem | hmem
  · obtain ⟨tm, htm⟩ := h other line expired restarted hmem
    have hne : other ≠ task := by
      rintro rfl
      rw [hfresh] at htm
      cases htm
    rw [htasks]
    exact ⟨tm, (Function.update_of_ne hne _ _).trans htm⟩
  · exact (he _ _ _ _ (List.mem_singleton.mp hmem).symm).elim

theorem LinesOwned.step (h : LinesOwned a) (hgood : TaskRules a l)
    (hstep : a.step twi m l = .ok b) : LinesOwned b := by
  cases l with
  | constructLED task timeout mask reading =>
      cases hstep
      exact h.construct hgood.2.1 rfl rfl fun _ _ _ _ heq => by cases heq
  | constructLog task timestamp reading =>
      cases hstep
      exact h.construct hgood.2 rfl rfl fun _ _ _ _ heq => by cases heq
  | start task alloc =>
      simp only [TaskSystem.step] at hstep
      split at hstep
      · cases hstep
      · cases hstep
        exact h
  | loop expired restarted junk =>
      rcases loop_cases hstep with ⟨-, rfl⟩ | ⟨cur, node, task, c, ring, -, -, -, hcall, -, rfl⟩
      · exact h
      · exact hcall.linesOwned h

/-! ## Runs -/

theorem PunctualTasks.rules (h : PunctualTasks g a l) : TaskRules a l := by
  cases l with
  | constructLED => exact h.elim
  | constructLog => exact h.elim
  | start => trivial
  | loop => exact ⟨h.1, h.2.1⟩

theorem reaches_asLeds {portb ddrb : BitVec 8} {world : World σ} {now : ℕ}
    (h : Reaches (TaskSystem.step twi m) TaskRules (.constructed portb ddrb world now) a) :
    ∃ s, Reaches Leds.System.step Leds.Rules (.constructed portb ddrb now) s ∧ AsLeds a s := by
  refine h.matched (fun a l b s hs hgood hstep => ?_) (asLeds_constructed portb ddrb world now)
  obtain ⟨l', t, ht, hb, hrules, -⟩ := hs.step (g := 0) hstep
  exact ⟨l', t, hrules hgood, ht, hb⟩

theorem AsLeds.reaches (hs : AsLeds a s)
    (h : Reaches (TaskSystem.step twi m) (PunctualTasks g) a b) :
    ∃ t, Reaches Leds.System.step (Leds.Punctual g) s t ∧ AsLeds b t := by
  refine h.matched (fun a l b s hs hgood hstep => ?_) hs
  obtain ⟨l', t, ht, hb, -, hpunctual⟩ := hs.step hstep
  exact ⟨l', t, hpunctual hgood, ht, hb⟩

theorem reaches_linesOwned {portb ddrb : BitVec 8} {world : World σ} {now : ℕ}
    (h : Reaches (TaskSystem.step twi m) TaskRules (.constructed portb ddrb world now) a) :
    LinesOwned a :=
  h.invariant LinesOwned (fun _ _ _ _ hmem => by cases hmem)
    fun _ _ _ howned hgood hstep => howned.step hgood hstep

/-- From any state of any run on, as long as no task is constructed and a turn takes at most
`g` ms:  what is printed is the lines of the log tasks, one for each time that one of them
found its timer expired.  The LEDs blink, each with its own bits, and the log tasks do not
touch the port.  And every task of either kind finds its timer expired as often as the timeout
it was constructed with says, up to a turn for each of the tasks in the ring; but the timeout
must leave these turns before `millis()` is back where the timer was started. -/
theorem application_periods (twi : Twi σ) (m : Rtc.Strings) (portb ddrb : BitVec 8)
    (world : World σ) (now g : ℕ) (a b : TaskSystem σ)
    (ha : Reaches (TaskSystem.step twi m) TaskRules (.constructed portb ddrb world now) a)
    (hb : Reaches (TaskSystem.step twi m) (PunctualTasks g) a b) :
    ∃ es, b.trace = a.trace ++ es ∧
      b.world.serial = a.world.serial ++ (lines es).flatten ∧
      (∀ line ∈ lines es, ∃ d, line = Rtc.logstring m d Rtc.logMessage) ∧
      (∀ task led, b.tasks task = some (.toggleLED led) →
        toggleStates task b.trace = Leds.alternating (toggleStates task b.trace).length ∧
        ∀ i, led.ddrb.getLsbD i = true → b.portb.getLsbD i =
          (toggleStates task b.trace).getLast?.getD (portb.getLsbD i)) ∧
      (∀ i, (∀ task led, b.tasks task = some (.toggleLED led) → led.ddrb.getLsbD i = false) →
        b.portb.getLsbD i = portb.getLsbD i) ∧
      ∀ task timeout mask reading x last,
        TaskEvent.constructed task timeout mask reading ∈ a.trace →
        a.ring.handlerAt x = some (.taskStateC task) →
        (timerStarts task a.trace).getLast? = some last →
        max (last + timeout.toNat) a.now + g * b.ring.heap.size < last + 2 ^ 32 →
        last + fired task es * (timeout.toNat + 1) ≤ b.now ∧
        b.now ≤ max (last + timeout.toNat) a.now + g * b.ring.heap.size +
          fired task es * (timeout.toNat + g * b.ring.heap.size) := by
  obtain ⟨s, hs, has⟩ := reaches_asLeds ha
  obtain ⟨t, ht, hbt⟩ := has.reaches hb
  have hruns := ha.trans (hb.mono fun _ _ => PunctualTasks.rules)
  have howned := reaches_linesOwned hruns
  have hblinking : Leds.Blinking portb t :=
    Leds.reaches_blinking (hs.trans (ht.mono fun _ _ => Leds.Punctual.rules))
  obtain ⟨es, hprints⟩ := reaches_prints hb
  obtain ⟨flags, hleds⟩ := hbt.leds
  refine ⟨es, hprints.trace, hprints.serial, hprints.line, fun task led hled => ?_, fun i hi => ?_,
    fun task timeout mask reading x last hmade hx hlast hclear => ?_⟩
  · have htask : t.leds task = some led := by
      rw [hleds, hled]
      rfl
    have hstates : toggleStates task b.trace = Leds.toggles task t.trace := by
      refine toggleStates_eq hbt.trace fun line expired restarted hmem => ?_
      obtain ⟨tm, htm⟩ := howned task line expired restarted hmem
      rw [hled] at htm
      cases htm
    have hok := hblinking.led task led htask
    rw [hstates, ← hbt.portb]
    exact ⟨hok.toggles, hok.port⟩
  · rw [← hbt.portb]
    apply hblinking.others i
    intro task led hled
    rw [hleds] at hled
    obtain ⟨kind, hkind, rfl⟩ := Option.map_eq_some_iff.mp hled
    cases kind with
    | toggleLED led => exact hi task led hkind
    | logTask tm => simp [AppTask.led]
  · rw [timerStarts_eq has.trace] at hlast
    obtain ⟨led, hled, rfl, htmr, hle⟩ :=
      Leds.timer_of_constructed hs (constructed_mem has.trace hmade) hlast
    have hx' : s.ring.handlerAt x = some (.taskStateC task) := by rwa [has.ring]
    rw [← has.now, ← hbt.ring] at hclear
    obtain ⟨fs, htrace, hbounds⟩ :=
      (Leds.reaches_ringed hs).toggles_bounds hled htmr hle hx' ht hclear
    have hsince : List.Forall₂ SameEvent es fs := by
      have hall := hbt.trace
      rw [hprints.trace, htrace] at hall
      have hdrop := List.forall₂_drop_append _ _ _ hall
      rwa [← has.trace.length_eq, List.drop_left] at hdrop
    rwa [← fired_eq hsince, has.now, hbt.now, hbt.ring] at hbounds

/-- An LED and a log task. -/
def ledAndLogger : List TaskLabel :=
  [.constructLED 1 30 0x08 0, .constructLog 2 40 0, .start 1 true, .start 2 true]

/-- Four turns, in the third of which a line is printed. -/
def fourTurns : List TaskLabel :=
  [.loop 20 20 fun _ => 0, .loop 40 40 fun _ => 0, .loop 60 65 fun _ => 0, .loop 80 80 fun _ => 0]

/-- The two tasks on a clock that has been set. -/
def beforeTurns : TaskSystem Rtc.Clock :=
  after (TaskSystem.step Rtc.Clock.twi Rtc.nameTable)
    (.constructed 0xFF 0 ⟨(Rtc.setDate Rtc.Clock.twi Rtc.afternoon .blank).1, []⟩ 0) ledAndLogger

def afterTurns (n : ℕ) : TaskSystem Rtc.Clock :=
  after (TaskSystem.step Rtc.Clock.twi Rtc.nameTable) beforeTurns (fourTurns.take n)

theorem application_periods_fourTurns :
    execute (TaskSystem.step Rtc.Clock.twi Rtc.nameTable) beforeTurns fourTurns =
        .ok (afterTurns 4) ∧
      ∃ es, (afterTurns 4).trace = beforeTurns.trace ++ es ∧
        (afterTurns 4).world.serial = (lines es).flatten ∧
        (afterTurns 4).portb.getLsbD 3 = true ∧
        fired 2 es * 41 ≤ 80 ∧ 80 ≤ 90 + fired 2 es * 90 := by
  have ha : Reaches (TaskSystem.step Rtc.Clock.twi Rtc.nameTable) TaskRules
      (.constructed 0xFF 0 ⟨(Rtc.setDate Rtc.Clock.twi Rtc.afternoon .blank).1, []⟩ 0)
      beforeTurns := by
    refine .head (l := .constructLED 1 30 0x08 0) ⟨by decide, rfl, ?_⟩ rfl ?_
    · simp [TaskSystem.constructed]
    refine .head (l := .constructLog 2 40 0) ⟨by decide, rfl⟩ rfl ?_
    refine .head (l := .start 1 true) trivial rfl ?_
    exact .head (l := .start 2 true) trivial rfl .start
  have hb : Reaches (TaskSystem.step Rtc.Clock.twi Rtc.nameTable) (PunctualTasks 25)
      beforeTurns (afterTurns 4) := by
    refine .head (s := afterTurns 1) (l := .loop 20 20 fun _ => 0)
      ⟨by decide, by decide, by decide⟩ (by rfl) ?_
    refine .head (s := afterTurns 2) (l := .loop 40 40 fun _ => 0)
      ⟨by decide, by decide, by decide⟩ (by rfl) ?_
    refine .head (s := afterTurns 3) (l := .loop 60 65 fun _ => 0)
      ⟨by decide, by decide, by decide⟩ (by rfl) ?_
    exact .head (l := .loop 80 80 fun _ => 0)
      ⟨by decide +kernel, by decide, by decide +kernel⟩ (by rfl) .start
  obtain ⟨es, htrace, hserial, -, hblink, -, hperiods⟩ :=
    application_periods Rtc.Clock.twi Rtc.nameTable 0xFF 0 _ 0 25 _ _ ha hb
  obtain ⟨hleast, hmost⟩ := hperiods 2 40 0 0 1 0 (by decide +kernel) (by rfl) (by rfl)
    (by decide +kernel)
  have hnow : (afterTurns 4).now = 80 := by rfl
  rw [hnow] at hleast hmost
  rw [Nat.zero_add] at hleast
  have hled := (hblink 1 ⟨.constructed 30 (millis 80), false, 0x08⟩ (by rfl)).2 3 (by rfl)
  refine ⟨by rfl, es, htrace, hserial, ?_, hleast, hmost⟩
  rw [hled]
  rfl

end EmbeddedKernel.Application
