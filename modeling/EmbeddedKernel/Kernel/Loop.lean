import EmbeddedKernel.Mq.LoopBudget
import EmbeddedKernel.TaskRing.Fairness

/-!
# The kernel loop

`loop()` lets the message queue dispatch up to two messages and then calls one
task.  Handlers, tasks and interrupts may post at any time, and the code outside
`loop()` as well.  A message therefore waits for as many rounds as there are pairs
of messages ahead of it, whatever is posted behind it.
-/

namespace EmbeddedKernel.Kernel

open Library Mq

/-- Where `loop()` is: not running, in `MessageQueue.Loop(2)`, or in a task. -/
inductive Point
  | outside
  | messages
  | task
  deriving DecidableEq

inductive Event
  | began
  | dispatched (m : Payload)
  | called (node : ℕ)
  | ended
  deriving DecidableEq

structure System where
  messageQueue : Machine
  taskManager : TaskRing.System
  point : Point
  trace : List Event

inductive Label
  | loop
  | queue (l : Mq.Label)
  | taskLoop
  | taskReturn
  | tasks (l : TaskRing.Label)
  deriving DecidableEq

namespace System

def constructed (masterInterrupts : Bool) : System :=
  ⟨.constructed masterInterrupts, .constructed, .outside, []⟩

/-- Code of the application is running: outside `loop()`, in a handler or in a task. -/
def userRuns (k : System) : Bool :=
  match k.point, k.messageQueue.point with
  | .outside, _ => true
  | .task, _ => true
  | .messages, .running _ _ _ => true
  | .messages, _ => false

/-- A step of the message queue, with the message it pops. -/
def queueStep (k : System) (l : Mq.Label) : Except Stop System := do
  let mq ← k.messageQueue.step l
  let new := (poppedMessages mq.trace).drop (poppedMessages k.messageQueue.trace).length
  .ok { k with messageQueue := mq, trace := k.trace ++ new.map .dispatched }

def step (k : System) : Label → Except Stop System
  | .loop =>
      if k.point = .outside then do
        let mq ← k.messageQueue.step (.loop 2)
        .ok { k with messageQueue := mq, point := .messages, trace := k.trace ++ [.began] }
      else .error .notEnabled
  | .queue (.loop _) => .error .notEnabled
  | .queue (.call c) =>
      if k.userRuns = true then k.queueStep (.call c) else .error .notEnabled
  | .queue l => k.queueStep l
  | .taskLoop =>
      if k.point = .messages ∧ k.messageQueue.point = .outside then do
        let tm ← k.taskManager.step .loop
        let new := (TaskRing.calledNodes tm.trace).drop
          (TaskRing.calledNodes k.taskManager.trace).length
        .ok { k with
          taskManager := tm
          point := if tm.running = true then .task else .outside
          trace := k.trace ++ new.map .called ++ if tm.running = true then [] else [.ended] }
      else .error .notEnabled
  | .taskReturn =>
      if k.point = .task then do
        let tm ← k.taskManager.step .ret
        .ok { k with taskManager := tm, point := .outside, trace := k.trace ++ [.ended] }
      else .error .notEnabled
  | .tasks .loop => .error .notEnabled
  | .tasks .ret => .error .notEnabled
  | .tasks l =>
      if k.userRuns = true then do
        let tm ← k.taskManager.step l
        .ok { k with taskManager := tm }
      else .error .notEnabled

end System

/-- No handler changes subscriptions while a message is dispatched, and no negative id gets
past the tests. -/
def Rules (k : System) : Label → Prop
  | .queue l => DispatchRules k.messageQueue l
  | _ => True

/-- What a step does. -/
inductive Stepped (k : System) : Label → System → Prop
  | loop {mq : Machine} (hp : k.point = .outside) (hq : k.messageQueue.step (.loop 2) = .ok mq) :
      Stepped k .loop
        { k with messageQueue := mq, point := .messages, trace := k.trace ++ [.began] }
  | queue {l : Mq.Label} {mq : Machine} (hl : ∀ n, l ≠ .loop n)
      (hq : k.messageQueue.step l = .ok mq) :
      Stepped k (.queue l) { k with
        messageQueue := mq
        trace := k.trace ++ ((poppedMessages mq.trace).drop
          (poppedMessages k.messageQueue.trace).length).map .dispatched }
  | taskCalled {tm : TaskRing.System} {x : ℕ} (hp : k.point = .messages)
      (hq : k.messageQueue.point = .outside)
      (hcalls : TaskRing.calledNodes tm.trace = TaskRing.calledNodes k.taskManager.trace ++ [x]) :
      Stepped k .taskLoop { k with
        taskManager := tm
        point := .task
        trace := k.trace ++ [.called x] }
  | noTask {tm : TaskRing.System} (hp : k.point = .messages)
      (hq : k.messageQueue.point = .outside)
      (hcalls : TaskRing.calledNodes tm.trace = TaskRing.calledNodes k.taskManager.trace) :
      Stepped k .taskLoop { k with
        taskManager := tm
        point := .outside
        trace := k.trace ++ [.ended] }
  | taskReturn {tm : TaskRing.System} (hp : k.point = .task)
      (hcalls : TaskRing.calledNodes tm.trace = TaskRing.calledNodes k.taskManager.trace) :
      Stepped k .taskReturn
        { k with taskManager := tm, point := .outside, trace := k.trace ++ [.ended] }
  | tasks {l : TaskRing.Label} {tm : TaskRing.System}
      (hcalls : TaskRing.calledNodes tm.trace = TaskRing.calledNodes k.taskManager.trace) :
      Stepped k (.tasks l) { k with taskManager := tm }

/-- Only `Loop` of the task ring calls tasks. -/
theorem calledNodes_of_ne_loop {s t : TaskRing.System} {l : TaskRing.Label} (hl : l ≠ .loop)
    (h : s.step l = .ok t) : TaskRing.calledNodes t.trace = TaskRing.calledNodes s.trace := by
  cases TaskRing.stepped_of_step h with
  | register hl => simp [TaskRing.calledNodes]
  | refuse hl => rfl
  | idle hcur hhead => exact (hl rfl).elim
  | call hrunning hcur hnode => exact (hl rfl).elim
  | ret hrunning hcur hnode => rfl
  | construct htask => simp [TaskRing.calledNodes]
  | deregister => simp [TaskRing.calledNodes]
  | destroy htask => simp [TaskRing.calledNodes]

theorem stepped_of_queueStep {k t : System} {l : Mq.Label} (hl : ∀ n, l ≠ .loop n)
    (h : k.queueStep l = .ok t) : Stepped k (.queue l) t := by
  obtain ⟨mq, hq, heq⟩ := bind_eq_ok.mp h
  cases heq
  exact .queue hl hq

theorem stepped_of_step {k t : System} {l : Label} (h : k.step l = .ok t) : Stepped k l t := by
  cases l with
  | loop =>
      simp only [System.step] at h
      split_ifs at h with hp
      obtain ⟨mq, hq, heq⟩ := bind_eq_ok.mp h
      cases heq
      exact .loop hp hq
  | queue l =>
      cases l with
      | loop n => cases h
      | call c =>
          simp only [System.step] at h
          split_ifs at h
          exact stepped_of_queueStep (by simp) h
      | interrupt m alloc => exact stepped_of_queueStep (by simp) h
      | ret => exact stepped_of_queueStep (by simp) h
      | tau => exact stepped_of_queueStep (by simp) h
  | taskLoop =>
      simp only [System.step] at h
      split_ifs at h with hp
      obtain ⟨tm, htm, heq⟩ := bind_eq_ok.mp h
      cases heq
      cases TaskRing.stepped_of_step htm with
      | register hl => cases hl
      | refuse hl => cases hl
      | idle hcur hhead =>
          have hrunning : k.taskManager.running = false := by
            by_contra hne
            rw [Bool.not_eq_false] at hne
            simp [TaskRing.System.step, hne] at htm
          simpa [hrunning] using Stepped.noTask hp.1 hp.2 rfl
      | @call cur node hrunning hcur hnode =>
          have hcalls : TaskRing.calledNodes (k.taskManager.trace ++ [.called cur node.handler]) =
              TaskRing.calledNodes k.taskManager.trace ++ [cur] := by
            simp [TaskRing.calledNodes]
          simpa [hcalls] using Stepped.taskCalled hp.1 hp.2 hcalls
  | taskReturn =>
      simp only [System.step] at h
      split_ifs at h with hp
      obtain ⟨tm, htm, heq⟩ := bind_eq_ok.mp h
      cases heq
      exact .taskReturn hp (calledNodes_of_ne_loop (by simp) htm)
  | tasks l =>
      cases l <;> simp only [System.step] at h
      case loop => cases h
      case ret => cases h
      all_goals
        split_ifs at h
        obtain ⟨tm, htm, heq⟩ := bind_eq_ok.mp h
        cases heq
        exact .tasks (calledNodes_of_ne_loop (by simp) htm)

/-! ## The message queue within the kernel -/

variable {k t : System} {l : Label}

theorem Stepped.messageQueue (h : Stepped k l t) (hgood : Rules k l) :
    t.messageQueue = k.messageQueue ∨
      ∃ m, DispatchRules k.messageQueue m ∧ k.messageQueue.step m = .ok t.messageQueue := by
  cases h with
  | loop hp hq => exact Or.inr ⟨.loop 2, ⟨trivial, trivial⟩, hq⟩
  | queue hl hq => exact Or.inr ⟨_, hgood, hq⟩
  | taskCalled hp hq hcalls => exact Or.inl rfl
  | noTask hp hq hcalls => exact Or.inl rfl
  | taskReturn hp hcalls => exact Or.inl rfl
  | tasks hcalls => exact Or.inl rfl

/-- What holds of the message queue in every run. -/
structure QueueOk (s : Machine) : Prop where
  wf : Wf s
  ledger : Ledger s
  ids : IdsInRange s

theorem queueOk_of_reaches {b : Bool} {s : Machine}
    (hs : Reaches Machine.step DispatchRules (.constructed b) s) : QueueOk s :=
  ⟨reaches_wf hs, reaches_ledger hs, reaches_idsInRange (hs.mono fun _ _ hgood => hgood.2)⟩

theorem QueueOk.step {s u : Machine} {m : Mq.Label} (h : QueueOk s) (hgood : DispatchRules s m)
    (hstep : s.step m = .ok u) : QueueOk u :=
  ⟨h.wf.step hstep, h.ledger.step h.wf hstep, h.ids.step h.wf hgood.2 hstep⟩

theorem QueueOk.kernel (h : QueueOk k.messageQueue) (hst : Stepped k l t) (hgood : Rules k l) :
    QueueOk t.messageQueue := by
  rcases hst.messageQueue hgood with heq | ⟨m, hm, hq⟩
  · rwa [heq]
  · exact h.step hm hq

/-- While `Loop` is not running the queue only takes calls and interrupts. -/
theorem step_of_outside {s u : Machine} {m : Mq.Label} (hw : Wf s) (hp : s.point = .outside)
    (hm : ∀ n, m ≠ .loop n) (hstep : s.step m = .ok u) :
    u.point = .outside ∧ poppedMessages u.trace = poppedMessages s.trace := by
  cases hw.stepped hstep with
  | call hruns hperform hpoint htrace heff hwhich hposted hadded =>
      rw [hpoint, htrace, poppedMessages_append, poppedMessages_ofCaller fun _ => heff.ofCaller]
      exact ⟨hp, List.append_nil _⟩
  | interrupt hpoint hlive htrace heff hes =>
      rw [hpoint, htrace, poppedMessages_append, poppedMessages_ofCaller fun _ => heff.ofCaller]
      exact ⟨hp, List.append_nil _⟩
  | loop _ => exact (hm _ rfl).elim
  | ret hrun =>
      rw [hp] at hrun
      cases hrun
  | tau htau =>
      exfalso
      cases htau <;> simp_all

/-! ## Rounds -/

/-- What one `loop()` does. -/
structure Round where
  messages : List Payload
  task : Option ℕ
  budget : messages.length ≤ 2

def Round.events (r : Round) : List Event :=
  .began :: r.messages.map .dispatched ++ r.task.toList.map .called ++ [.ended]

/-- What the round that is under way has recorded. -/
def InRound (k : System) (current : List Event) : Prop :=
  match k.point with
  | .outside => k.messageQueue.point = .outside ∧ current = []
  | .messages => ∃ (s₀ : Machine) (ms : List Payload), LoopRun s₀ 2 k.messageQueue ∧
      Ledger s₀ ∧ s₀.point = .outside ∧
      poppedMessages k.messageQueue.trace = poppedMessages s₀.trace ++ ms ∧
      current = .began :: ms.map .dispatched
  | .task => k.messageQueue.point = .outside ∧ ∃ (ms : List Payload) (x : ℕ), ms.length ≤ 2 ∧
      current = .began :: ms.map .dispatched ++ [.called x]

theorem loop_eq {s u : Machine} {n : ℤ} (h : s.step (.loop n) = .ok u) :
    s.point = .outside ∧ u = { s with point := .test n } := by
  simp only [Machine.step] at h
  split at h
  · next hp =>
      cases h
      exact ⟨hp, rfl⟩
  · cases h

def messagesOf (es : List Event) : List Payload :=
  es.filterMap fun
    | .dispatched m => some m
    | _ => none

def tasksOf (es : List Event) : List ℕ :=
  es.filterMap fun
    | .called x => some x
    | _ => none

/-- The trace of the kernel shows the messages popped and the tasks called. -/
def Recorded (k : System) : Prop :=
  messagesOf k.trace = poppedMessages k.messageQueue.trace ∧
    tasksOf k.trace = TaskRing.calledNodes k.taskManager.trace

theorem Recorded.step (h : Recorded k) (hok : QueueOk k.messageQueue) (hst : Stepped k l t) :
    Recorded t := by
  obtain ⟨hmessages, htasks⟩ := h
  cases hst with
  | loop hp hq =>
      obtain ⟨-, rfl⟩ := loop_eq hq
      exact ⟨by simpa [messagesOf] using hmessages, by simpa [tasksOf] using htasks⟩
  | queue hl hq =>
      obtain ⟨new, hnew⟩ := poppedMessages_isPrefix (hok.wf.stepped hq).trace_isPrefix
      rw [Recorded, ← hnew, List.drop_left, ← hmessages, ← htasks]
      exact ⟨by simp [messagesOf], by simp [tasksOf]⟩
  | taskCalled hp hq hcalls =>
      exact ⟨by simpa [messagesOf] using hmessages, by simpa [tasksOf, hcalls] using htasks⟩
  | noTask hp hq hcalls =>
      exact ⟨by simpa [messagesOf] using hmessages, by simpa [tasksOf, hcalls] using htasks⟩
  | taskReturn hp hcalls =>
      exact ⟨by simpa [messagesOf] using hmessages, by simpa [tasksOf, hcalls] using htasks⟩
  | tasks hcalls => exact ⟨hmessages, htasks.trans hcalls.symm⟩

def InRounds (k : System) : Prop :=
  ∃ (rounds : List Round) (current : List Event),
    k.trace = rounds.flatMap Round.events ++ current ∧ InRound k current

theorem LoopRun.messages_le {s₀ s : Machine} {ms : List Payload} {n : ℤ} (h : LoopRun s₀ n s)
    (hl₀ : Ledger s₀) (hp₀ : s₀.point = .outside)
    (hms : poppedMessages s.trace = poppedMessages s₀.trace ++ ms) : (ms.length : ℤ) ≤ n := by
  obtain ⟨ms', -, hms', -, -, hle, -⟩ := h.dispatched hl₀ (by rw [hp₀]; rfl)
  rw [List.append_cancel_left (hms.symm.trans hms')]
  exact hle

theorem InRound.queue {m : Mq.Label} {mq : Machine} {current : List Event} (es : List Event)
    (h : InRound k current)
    (hok : QueueOk k.messageQueue) (hgood : DispatchRules k.messageQueue m)
    (hm : ∀ n, m ≠ .loop n) (hq : k.messageQueue.step m = .ok mq) :
    InRound { k with messageQueue := mq, trace := es }
      (current ++ ((poppedMessages mq.trace).drop
        (poppedMessages k.messageQueue.trace).length).map .dispatched) := by
  cases hp : k.point with
  | outside =>
      simp only [InRound, hp] at h ⊢
      obtain ⟨hout, hpopped⟩ := step_of_outside hok.wf h.1 hm hq
      exact ⟨hout, by simp [h.2, hpopped]⟩
  | task =>
      simp only [InRound, hp] at h ⊢
      obtain ⟨hout, ms, x, hlen, rfl⟩ := h
      obtain ⟨hout', hpopped⟩ := step_of_outside hok.wf hout hm hq
      exact ⟨hout', ms, x, hlen, by simp [hpopped]⟩
  | messages =>
      simp only [InRound, hp] at h ⊢
      obtain ⟨s₀, ms, hrun, hl₀, hp₀, hms, rfl⟩ := h
      obtain ⟨hrun', -⟩ := hrun.step (by decide) ⟨hgood, hm⟩ hq
      obtain ⟨new, hnew⟩ := poppedMessages_isPrefix (hrun.wf.stepped hq).trace_isPrefix
      refine ⟨s₀, ms ++ new, hrun', hl₀, hp₀, ?_, ?_⟩
      · rw [← hnew, hms, List.append_assoc]
      · rw [← hnew, List.drop_left, List.map_append]
        rfl

theorem InRounds.step (h : InRounds k) (hok : QueueOk k.messageQueue) (hgood : Rules k l)
    (hst : Stepped k l t) : InRounds t := by
  obtain ⟨rounds, current, htrace, hround⟩ := h
  cases hst with
  | @loop mq hp hq =>
      simp only [InRound, hp] at hround
      obtain ⟨hout, rfl⟩ := loop_eq hq
      refine ⟨rounds, [.began], by simp [htrace, hround.2], k.messageQueue, [], ?_, hok.ledger,
        hout, by simp, rfl⟩
      exact loopRun_loop hok.wf hok.ledger hok.ids hout (by decide)
  | @queue m mq hm hq =>
      refine ⟨rounds, _, ?_, hround.queue _ hok hgood hm hq⟩
      rw [htrace, List.append_assoc]
  | @taskCalled tm x hp hq hcalls =>
      simp only [InRound, hp] at hround
      obtain ⟨s₀, ms, hrun, hl₀, hp₀, hms, rfl⟩ := hround
      have hlen := LoopRun.messages_le hrun hl₀ hp₀ hms
      refine ⟨rounds, _, ?_, hq, ms, x, by exact_mod_cast hlen, rfl⟩
      rw [htrace, List.append_assoc]
  | @noTask tm hp hq hcalls =>
      simp only [InRound, hp] at hround
      obtain ⟨s₀, ms, hrun, hl₀, hp₀, hms, rfl⟩ := hround
      have hlen := LoopRun.messages_le hrun hl₀ hp₀ hms
      refine ⟨rounds ++ [⟨ms, none, by exact_mod_cast hlen⟩], [], ?_, hq, rfl⟩
      simp [htrace, Round.events]
  | @taskReturn tm hp hcalls =>
      simp only [InRound, hp] at hround
      obtain ⟨hout, ms, x, hlen, rfl⟩ := hround
      refine ⟨rounds ++ [⟨ms, some x, hlen⟩], [], ?_, hout, rfl⟩
      simp [htrace, Round.events]
  | tasks hcalls => exact ⟨rounds, current, htrace, hround⟩

theorem inRounds_constructed (b : Bool) : InRounds (.constructed b) :=
  ⟨[], [], rfl, rfl, rfl⟩

/-- The events of the round under way are the first ones of a round. -/
theorem InRound.isPrefix {current : List Event} (h : InRound k current) :
    ∃ r : Round, current <+: r.events := by
  cases hp : k.point with
  | outside =>
      simp only [InRound, hp] at h
      exact ⟨⟨[], none, by simp⟩, by simp [h.2]⟩
  | task =>
      simp only [InRound, hp] at h
      obtain ⟨-, ms, x, hlen, rfl⟩ := h
      exact ⟨⟨ms, some x, hlen⟩, [.ended], rfl⟩
  | messages =>
      simp only [InRound, hp] at h
      obtain ⟨s₀, ms, hrun, hl₀, hp₀, hms, rfl⟩ := h
      have hlen := LoopRun.messages_le hrun hl₀ hp₀ hms
      exact ⟨⟨ms, none, by exact_mod_cast hlen⟩, [.ended], by simp [Round.events]⟩

/-! ## The position of a message -/

def loopsEnded (es : List Event) : ℕ := es.count .ended

def deletedCount (s : Machine) : ℕ := (deletedMessages s.trace).length

/-- Of the messages queued when `loop()` began in `k₀`, those up to number `i` have been
dispatched, or two for every round since. -/
def Reached (k₀ : System) (i : ℕ) (rounds : ℕ) (s : Machine) : Prop :=
  i < deletedCount s ∨
    deletedCount k₀.messageQueue + 2 * rounds ≤ deletedCount s + 2 * loopsEnded k₀.trace

def Advancing (k₀ : System) (i : ℕ) (k : System) : Prop :=
  match k.point with
  | .outside => Reached k₀ i (loopsEnded k.trace) k.messageQueue
  | .messages => ∃ s₀, LoopRun s₀ 2 k.messageQueue ∧ i < (postedMessages s₀.trace).length ∧
      Reached k₀ i (loopsEnded k.trace) s₀
  | .task => Reached k₀ i (loopsEnded k.trace + 1) k.messageQueue

variable {k₀ : System} {i : ℕ}

theorem Reached.mono {rounds : ℕ} {s u : Machine} (h : Reached k₀ i rounds s)
    (htrace : s.trace <+: u.trace) : Reached k₀ i rounds u := by
  have hle := (deletedMessages_isPrefix htrace).length_le
  unfold Reached deletedCount at *
  omega

/-- A call of `Loop(2)` that has returned gets two messages further. -/
theorem Reached.loop {rounds : ℕ} {s₀ s : Machine} (h : Reached k₀ i rounds s₀)
    (hrun : LoopRun s₀ 2 s) (hi : i < (postedMessages s₀.trace).length) (hp : s.point = .outside) :
    Reached k₀ i (rounds + 1) s := by
  have hdrained := hrun.spending.drained
  rw [hp] at hdrained
  simp only [Mq.Point.budget] at hdrained
  have hle := (deletedMessages_isPrefix hrun.spending.trace).length_le
  unfold Reached deletedCount at *
  omega

theorem loopsEnded_dispatched (es : List Event) (ms : List Payload) :
    loopsEnded (es ++ ms.map .dispatched) = loopsEnded es := by
  simp [loopsEnded, List.count_eq_zero]

theorem Advancing.step (h : Advancing k₀ i k) (hok : QueueOk k.messageQueue)
    (hi : i < (postedMessages k.messageQueue.trace).length) (hgood : Rules k l)
    (hst : Stepped k l t) : Advancing k₀ i t := by
  cases hst with
  | @loop mq hp hq =>
      simp only [Advancing, hp] at h ⊢
      obtain ⟨hout, rfl⟩ := loop_eq hq
      refine ⟨k.messageQueue, loopRun_loop hok.wf hok.ledger hok.ids hout (by decide), hi, ?_⟩
      simpa [loopsEnded] using h
  | @queue m mq hm hq =>
      have hprefix := (hok.wf.stepped hq).trace_isPrefix
      cases hp : k.point with
      | outside =>
          simp only [Advancing, hp, loopsEnded_dispatched] at h ⊢
          exact h.mono hprefix
      | task =>
          simp only [Advancing, hp, loopsEnded_dispatched] at h ⊢
          exact h.mono hprefix
      | messages =>
          simp only [Advancing, hp, loopsEnded_dispatched] at h ⊢
          obtain ⟨s₀, hrun, hi₀, hreached⟩ := h
          exact ⟨s₀, (hrun.step (by decide) ⟨hgood, hm⟩ hq).1, hi₀, hreached⟩
  | taskCalled hp hq hcalls =>
      simp only [Advancing, hp] at h ⊢
      obtain ⟨s₀, hrun, hi₀, hreached⟩ := h
      simpa [loopsEnded] using hreached.loop hrun hi₀ hq
  | noTask hp hq hcalls =>
      simp only [Advancing, hp] at h ⊢
      obtain ⟨s₀, hrun, hi₀, hreached⟩ := h
      simpa [loopsEnded] using hreached.loop hrun hi₀ hq
  | taskReturn hp hcalls =>
      simp only [Advancing, hp] at h ⊢
      simpa [loopsEnded] using h
  | tasks hcalls => exact h

/-- A message with `p` messages ahead of it is dispatched after as many rounds as there are
pairs of messages ahead, and one more. -/
theorem Advancing.dispatched {p : ℕ} (h : Advancing k₀ (deletedCount k₀.messageQueue + p) k)
    (hended : loopsEnded k₀.trace + p / 2 + 1 ≤ loopsEnded k.trace) :
    deletedCount k₀.messageQueue + p < deletedCount k.messageQueue := by
  cases hp : k.point with
  | outside =>
      simp only [Advancing, hp, Reached] at h
      omega
  | task =>
      simp only [Advancing, hp, Reached] at h
      omega
  | messages =>
      simp only [Advancing, hp, Reached] at h
      obtain ⟨s₀, hrun, -, hreached⟩ := h
      have hle := (deletedMessages_isPrefix hrun.spending.trace).length_le
      unfold deletedCount at *
      omega

theorem reaches_rounds {b : Bool} (hs : Reaches System.step Rules (.constructed b) k) :
    QueueOk k.messageQueue ∧ InRounds k ∧ Recorded k := by
  have hstart : QueueOk (System.constructed b).messageQueue := queueOk_of_reaches .start
  refine hs.invariant (fun k => QueueOk k.messageQueue ∧ InRounds k ∧ Recorded k)
    ⟨hstart, inRounds_constructed b, rfl, rfl⟩ ?_
  rintro k l t ⟨hok, hrounds, hrecorded⟩ hgood hstep
  have hst := stepped_of_step hstep
  exact ⟨hok.kernel hst hgood, hrounds.step hok hgood hst, hrecorded.step hok hst⟩

/-- What the queue held when `loop()` began stays on its way through the rounds. -/
theorem reaches_advancing (hs : Reaches System.step Rules k t) (hok : QueueOk k.messageQueue)
    (hadv : Advancing k₀ i k) (hi : i < (postedMessages k.messageQueue.trace).length) :
    QueueOk t.messageQueue ∧ Advancing k₀ i t ∧
      postedMessages k.messageQueue.trace <+: postedMessages t.messageQueue.trace := by
  refine hs.invariant (fun t => QueueOk t.messageQueue ∧ Advancing k₀ i t ∧
    postedMessages k.messageQueue.trace <+: postedMessages t.messageQueue.trace)
    ⟨hok, hadv, List.prefix_rfl⟩ ?_
  rintro t l u ⟨hok, hadv, hposted⟩ hgood hstep
  have hst := stepped_of_step hstep
  refine ⟨hok.kernel hst hgood, hadv.step hok (hi.trans_le hposted.length_le) hgood hst, ?_⟩
  rcases hst.messageQueue hgood with heq | ⟨m, -, hq⟩
  · rwa [heq]
  · exact hposted.trans (postedMessages_isPrefix (hok.wf.stepped hq).trace_isPrefix)

theorem deletedCount_of_outside {s : Machine} (hl : Ledger s) (hp : s.point = .outside) :
    deletedCount s = (poppedMessages s.trace).length := by
  rw [deletedCount, hl.not_held (by rw [hp]; rfl), List.length_range]

/-- The message at position `p` when `loop()` begins. -/
theorem position_dispatched {k₁ k₂ : System} {p : ℕ} {m : Payload} (hok : QueueOk k.messageQueue)
    (hloop : k.step .loop = .ok k₁) (hm : k.messageQueue.mq.queue.contents[p]? = some m)
    (hs : Reaches System.step Rules k₁ k₂)
    (hended : loopsEnded k.trace + p / 2 + 1 ≤ loopsEnded k₂.trace) :
    (postedMessages k₂.messageQueue.trace)[(poppedMessages k.messageQueue.trace).length + p]? =
        some m ∧
      (poppedMessages k.messageQueue.trace).length + p ∈
        deletedMessages k₂.messageQueue.trace := by
  have hst := stepped_of_step hloop
  cases hst with
  | @loop mq hp hq =>
      obtain ⟨hout, rfl⟩ := loop_eq hq
      have hcount := deletedCount_of_outside hok.ledger hout
      rw [hok.ledger.contents, List.getElem?_drop] at hm
      have hi := (List.getElem?_eq_some_iff.mp hm).1
      have hadv : Advancing k (deletedCount k.messageQueue + p) _ :=
        Advancing.step (l := .loop) (by simp [Advancing, hp, Reached]) hok (by rwa [hcount])
          trivial (.loop hp hq)
      obtain ⟨hok₂, hadv₂, hposted⟩ := reaches_advancing hs
        (hok.kernel (l := .loop) (.loop hp hq) trivial) hadv (by rwa [hcount])
      have hlt := hadv₂.dispatched hended
      rw [hcount] at hlt
      refine ⟨?_, ?_⟩
      · obtain ⟨rest, hrest⟩ := hposted
        rw [← hrest, List.getElem?_append_left hi]
        exact hm
      · rw [hok₂.ledger.deletedMessages_eq_range]
        exact List.mem_range.mpr hlt

/-- In every run the trace of the kernel is a list of rounds, in each of which `loop()`
dispatches at most two messages and then calls at most one task; and a message with `p`
messages ahead of it when a `loop()` begins has been dispatched when `p / 2 + 1` rounds
have ended.  A call of `Loop(n)` executes a bounded number of statements and never gets
stuck; it dispatches messages of the queue it found, in order, before any that were
posted since, and `n` of them, or all, by the time it returns. -/
theorem kernelLoop_dispatches :
    (∀ b k, Reaches System.step Rules (.constructed b) k →
      Recorded k ∧
      (∃ (rounds : List Round) (r : Round) (current : List Event),
        k.trace = rounds.flatMap Round.events ++ current ∧ current <+: r.events) ∧
      ∀ k₁, k.step .loop = .ok k₁ → ∀ p m, k.messageQueue.mq.queue.contents[p]? = some m →
        ∀ k₂, Reaches System.step Rules k₁ k₂ →
          loopsEnded k.trace + p / 2 + 1 ≤ loopsEnded k₂.trace →
          (postedMessages k₂.messageQueue.trace)[
            (poppedMessages k.messageQueue.trace).length + p]? = some m ∧
          (poppedMessages k.messageQueue.trace).length + p ∈
            deletedMessages k₂.messageQueue.trace) ∧
    ∀ b s s₁ n, Reaches Machine.step DispatchRules (.constructed b) s → 0 ≤ n → n < 32768 →
      s.step (.loop n) = .ok s₁ → ∀ ls t, Path Machine.step WithinLoop s₁ ls t →
      ls.countP Mq.Label.isStatement ≤ n.toNat * s.mq.perMessage + 1 ∧
      (t.point ≠ .outside → ∃ l u, l.isStatement = true ∧ t.step l = .ok u) ∧
      ∃ ms posted, poppedMessages t.trace = poppedMessages s.trace ++ ms ∧
        postedMessages t.trace = postedMessages s.trace ++ posted ∧
        ms <+: s.mq.queue.contents ++ posted ∧ (ms.length : ℤ) ≤ n ∧
        (t.point = .outside → s.mq.queue.contents.take n.toNat <+: ms) := by
  constructor
  · intro b k hs
    obtain ⟨hok, ⟨rounds, current, htrace, hround⟩, hrecorded⟩ := reaches_rounds hs
    obtain ⟨r, hr⟩ := hround.isPrefix
    refine ⟨hrecorded, ⟨rounds, r, current, htrace, hr⟩, ?_⟩
    intro k₁ hloop p m hm k₂ hs₂ hended
    exact position_dispatched hok hloop hm hs₂ hended
  · intro b s s₁ n hs hn hn' hloop ls t hpath
    have hok := queueOk_of_reaches hs
    obtain ⟨hout, rfl⟩ := loop_eq hloop
    have hstart := loopRun_loop hok.wf hok.ledger hok.ids hout hn
    have hrun : LoopRun s n t := hpath.reaches.invariant (LoopRun s n) hstart
      fun _ _ _ h hgood hstep => (h.step hn' hgood hstep).1
    have hcount := hpath.countP_le (LoopRun s n) Machine.statementsLeft Mq.Label.isStatement
      (fun _ _ _ h hgood hstep => h.step hn' hgood hstep) hstart
    refine ⟨?_, hrun.exists_step, hrun.dispatched hok.ledger (by rw [hout]; rfl)⟩
    simp only [Machine.statementsLeft] at hcount
    omega

/-- A task is registered, and a function subscribed to the messages with id 1. -/
def taskAndHandler : List Label :=
  [.tasks (.registerTask 0x200 true), .queue (.call (.subscribeFunction 1 0x100 true))]

def threePosts : List Mq.Label :=
  [.call (.post ⟨0, none, .caller⟩ true), .call (.post ⟨1, none, .caller⟩ true),
    .call (.post ⟨2, none, .caller⟩ true)]

/-- `Loop(2)` with the first two of these; the function posts a message when it is called. -/
def twoDispatches : List Mq.Label :=
  List.replicate 8 .tau ++ [.call (.post ⟨3, none, .caller⟩ true), .ret] ++ List.replicate 5 .tau

/-- Two rounds, each with two messages and the task. -/
def twoRounds : List Label :=
  twoDispatches.map .queue ++ [.taskLoop, .taskReturn, .loop] ++
    List.replicate 11 (.queue .tau) ++ [.taskLoop, .taskReturn]

theorem dispatchRules_post (s : Machine) {m : Payload} (hm : 0 ≤ m.msgid) :
    DispatchRules s (.call (.post m true)) := by
  refine ⟨fun _ => ⟨rfl, rfl⟩, ?_⟩
  simp only [PassesNoNegativeId, MSG_ID_NOMESSAGE]
  omega

theorem dispatchRules_threePosts (s : Machine) {l : Mq.Label} (hl : l ∈ threePosts) :
    DispatchRules s l := by
  simp only [threePosts, List.mem_cons, List.not_mem_nil, or_false] at hl
  rcases hl with rfl | rfl | rfl <;> exact dispatchRules_post s (by decide)

theorem dispatchRules_twoDispatches (s : Machine) {l : Mq.Label} (hl : l ∈ twoDispatches) :
    DispatchRules s l ∧ ∀ n, l ≠ .loop n := by
  have hcases : l = .tau ∨ l = .call (.post ⟨3, none, .caller⟩ true) ∨ l = .ret := by
    simp only [twoDispatches, List.mem_append, List.mem_replicate, List.mem_cons,
      List.not_mem_nil] at hl
    tauto
  rcases hcases with rfl | rfl | rfl
  · exact ⟨⟨trivial, trivial⟩, by simp⟩
  · exact ⟨dispatchRules_post s (by decide), by simp⟩
  · exact ⟨⟨trivial, trivial⟩, by simp⟩

theorem rules_twoRounds (k : System) {l : Label} (hl : l ∈ twoRounds) : Rules k l := by
  simp only [twoRounds, List.mem_append, List.mem_map, List.mem_replicate, List.mem_cons,
    List.not_mem_nil, or_false] at hl
  rcases hl with ((⟨m, hm, rfl⟩ | rfl | rfl | rfl) | ⟨-, rfl⟩) | rfl | rfl
  · exact (dispatchRules_twoDispatches k.messageQueue hm).1
  · trivial
  · trivial
  · trivial
  · exact ⟨trivial, trivial⟩
  · trivial
  · trivial

theorem dispatchRules_subscribe {s : Machine} (hp : s.point = .outside) :
    DispatchRules s (.call (.subscribeFunction 1 0x100 true)) :=
  ⟨fun hne => (hne hp).elim, by simp [PassesNoNegativeId]⟩

/-- The third message is dispatched in the second round, and `Loop(2)` dispatches the first
two. -/
theorem kernelLoop_dispatches_threePosts :
    (∃ k k₁ k₂, execute System.step (.constructed true)
        (taskAndHandler ++ threePosts.map .queue) = .ok k ∧
      k.step .loop = .ok k₁ ∧ execute System.step k₁ twoRounds = .ok k₂ ∧
      2 ∈ deletedMessages k₂.messageQueue.trace) ∧
    ∃ s s₁ t, execute Machine.step (.constructed true)
        (.call (.subscribeFunction 1 0x100 true) :: threePosts) = .ok s ∧
      s.step (.loop 2) = .ok s₁ ∧ execute Machine.step s₁ twoDispatches = .ok t ∧
      ∃ ms, poppedMessages t.trace = ms ∧ [⟨0, none, .caller⟩, ⟨1, none, .caller⟩] <+: ms := by
  constructor
  · let k₀ := after System.step (.constructed true) taskAndHandler
    let k := after System.step k₀ (threePosts.map .queue)
    let k₁ := after System.step k [.loop]
    let k₂ := after System.step k₁ twoRounds
    have hposts : execute System.step k₀ (threePosts.map .queue) = .ok k := rfl
    have hloop : k.step .loop = .ok k₁ := rfl
    have hrounds : execute System.step k₁ twoRounds = .ok k₂ := execute_after (by decide +kernel)
    have hk₀ : Reaches System.step Rules (.constructed true) k₀ := by
      refine .head (l := .tasks (.registerTask 0x200 true)) trivial rfl ?_
      exact .head (l := .queue (.call (.subscribeFunction 1 0x100 true)))
        (dispatchRules_subscribe rfl) rfl .start
    have hk : Reaches System.step Rules (.constructed true) k := by
      refine hk₀.execute (fun u l hl => ?_) hposts
      obtain ⟨m, hm, rfl⟩ := List.mem_map.mp hl
      exact dispatchRules_threePosts u.messageQueue hm
    have hk₂ : Reaches System.step Rules k₁ k₂ :=
      Reaches.start.execute (fun u l hl => rules_twoRounds u hl) hrounds
    have hthird : k.messageQueue.mq.queue.contents[2]? = some ⟨2, none, .caller⟩ := by
      decide +kernel
    have hended : loopsEnded k.trace + 2 / 2 + 1 ≤ loopsEnded k₂.trace := by decide +kernel
    refine ⟨k, k₁, k₂, rfl, hloop, hrounds, ?_⟩
    exact ((kernelLoop_dispatches.1 true k hk).2.2 k₁ hloop 2 _ hthird k₂ hk₂ hended).2
  · let s₀ := after Machine.step (.constructed true) [.call (.subscribeFunction 1 0x100 true)]
    let s := after Machine.step s₀ threePosts
    let s₁ := after Machine.step s [.loop 2]
    let t := after Machine.step s₁ twoDispatches
    have hs₀ : Reaches Machine.step DispatchRules (.constructed true) s₀ :=
      .head (l := .call (.subscribeFunction 1 0x100 true)) (dispatchRules_subscribe rfl) rfl .start
    have hs : Reaches Machine.step DispatchRules (.constructed true) s := by
      have hrun : execute Machine.step s₀ threePosts = .ok s := rfl
      exact hs₀.execute (fun u l hl => dispatchRules_threePosts u hl) hrun
    have hloop : execute Machine.step s₁ twoDispatches = .ok t :=
      execute_after (by decide +kernel)
    have hpath : Path Machine.step WithinLoop s₁ twoDispatches t :=
      path_of_execute (fun u l hl => dispatchRules_twoDispatches u hl) hloop
    have hcontents : s.mq.queue.contents.take 2 =
        [⟨0, none, .caller⟩, ⟨1, none, .caller⟩] := by
      decide +kernel
    have hnone : poppedMessages s.trace = [] := by decide +kernel
    have hreturned : t.point = .outside := by decide +kernel
    obtain ⟨-, -, ms, posted, hms, -, -, -, htake⟩ :=
      kernelLoop_dispatches.2 true s s₁ 2 hs (by decide) (by decide) rfl _ t hpath
    rw [hnone, List.nil_append] at hms
    exact ⟨s, s₁, t, rfl, rfl, hloop, ms, hms, hcontents ▸ htake hreturned⟩

end EmbeddedKernel.Kernel
