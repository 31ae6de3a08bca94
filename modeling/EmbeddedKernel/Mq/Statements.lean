import EmbeddedKernel.Mq.HeapSections
import EmbeddedKernel.Mq.Machine

/-!
# The message queue one statement at a time

`Subscribe`, `Unsubscribe`, `Post` and `Loop` run statement by statement, now with the
loop of `MQClass::Loop` over the handlers of a message: it reads the head of the list,
calls a handler, and reads the next pointer when the handler has returned.  Interrupts
post between any two statements while the master interrupt flag is set, and a handler
may make any calls while it runs.  The system records what it does, in order, and what
its calls return.
-/

namespace EmbeddedKernel.Mq.Statements

open Library

/-- The next statement of the loop over the handlers, with its local `curHandler`. -/
inductive Walk
  | lookup
  | walk (curHandler : Ptr)
  | running (curHandler : ℕ)
  | next (curHandler : ℕ)
  deriving DecidableEq

/-- `walk` is the state of the loop over the handlers while `Loop` dispatches. -/
structure System where
  sections : HeapSections.System
  walk : Walk
  live : List Addr
  trace : List Event
  taskResults : List ℤ
  interruptResults : List ℤ

inductive Label
  | sections (l : HeapSections.Label)
  | constructReceiver (r : Addr)
  | destroyReceiver (r : Addr)
  | ret
  deriving DecidableEq

/-! ## What the statements record -/

/-- The trace entries that a step has added. -/
def added (s t : HeapSections.System) : List Interleaving.Event :=
  t.base.trace.drop s.base.trace.length

def queueEvents (es : List Interleaving.Event) : List Event :=
  es.filterMap fun
    | .appended _ m => some (.posted m)
    | .popped m => some (.popped m)
    | .returned _ _ => none

def returnedValues (es : List Interleaving.Event) : List ℤ :=
  es.filterMap fun
    | .returned _ rc => some rc
    | _ => none

/-- `Subscribe` takes effect when it links its node, `Unsubscribe` when it unlinks one. -/
def callEvents : HeapSections.CallPoint → HeapSections.CallPoint → List Event
  | .linkHandler id p, .ret _ => [.subscribed id p]
  | .unlink id p _, .deleteHandler _ => [.unsubscribed id p]
  | _, _ => []

def callResults : HeapSections.CallPoint → HeapSections.CallPoint → List ℤ
  | .ret rc, .outside => [rc]
  | _, _ => []

/-- The deletions of a message and its context, recorded when the second of them ends. -/
def deletions (q : MsgQueue) (msg : ℕ) : List Event :=
  match q.heap.get msg with
  | none => []
  | some m =>
      (if m.callerOwns ≠ .caller then m.context.toList else []).map .deletedContext ++
        [.deletedMessage msg]

def freeEvents (s t : HeapSections.System) : List Event :=
  match s.base.loop, t.base.loop with
  | .free _ msg, .decrement _ => deletions s.base.queue msg
  | _, _ => []

namespace System

def constructed (masterInterrupts : Bool) : System :=
  ⟨.constructed masterInterrupts, .lookup, [], [], [], []⟩

/-- A step of task context, with what it records. -/
def taskStep (s : System) (t : HeapSections.System) : System :=
  { s with
    sections := t
    trace := s.trace ++ (callEvents s.sections.call t.call ++ queueEvents (added s.sections t) ++
      freeEvents s.sections t)
    taskResults := s.taskResults ++ (callResults s.sections.call t.call ++
      returnedValues (added s.sections t)) }

/-- A posting interrupt, with what it records. -/
def interruptStep (s : System) (t : HeapSections.System) : System :=
  { s with
    sections := t
    trace := s.trace ++ queueEvents (added s.sections t)
    interruptResults := s.interruptResults ++ returnedValues (added s.sections t) }

/-- `Loop` is in its loop over the handlers and no call of a handler is in progress. -/
def dispatching (s : System) : Option ℕ :=
  match s.sections.call, s.sections.base.post, s.sections.base.loop with
  | .outside, .outside, .dispatch _ msg => some msg
  | _, _, _ => none

/-- A task outside these operations or a handler is running. -/
def callerRuns (s : System) : Bool :=
  s.sections.callerRuns &&
    match s.dispatching, s.walk with
    | none, _ => true
    | some _, .running _ => true
    | _, _ => false

/-- A statement of the loop over the handlers. -/
def walkStatement (s : System) (msg : ℕ) : Except Stop System :=
  match s.walk with
  | .lookup => do
      let m ← s.sections.base.queue.heap.deref (some msg)
      let id ← MQClass.index m.msgid
      .ok { s with walk := .walk (s.sections.queueBlock id) }
  | .walk none => do
      let t ← s.sections.step .handlersDone
      .ok { s with sections := t, walk := .lookup }
  | .walk (some cur) => do
      let m ← s.sections.base.queue.heap.deref (some msg)
      let node ← s.sections.handlers.deref (some cur)
      .ok { s with
        walk := .running cur
        trace := s.trace ++ [.called cur (node.handler.call m.msgid m.context)] }
  | .running _ => .error .notEnabled
  | .next cur => do
      let node ← s.sections.handlers.deref (some cur)
      .ok { s with walk := .walk node.pNextHandler }

def step (s : System) : Label → Except Stop System
  | .sections (.interrupt m alloc) => do
      let t ← s.sections.step (.interrupt m alloc)
      .ok (s.interruptStep t)
  | .sections (.statement alloc) =>
      match s.dispatching with
      | some msg => s.walkStatement msg
      | none => do
          let t ← s.sections.step (.statement alloc)
          .ok (s.taskStep t)
  | .sections .handlersDone => .error .notEnabled
  | .sections l =>
      if s.callerRuns = true then do
        let t ← s.sections.step l
        .ok (s.taskStep t)
      else .error .notEnabled
  | .constructReceiver r =>
      if s.callerRuns = true ∧ r ∉ s.live then
        .ok { s with live := r :: s.live, trace := s.trace ++ [.constructed r] }
      else .error .notEnabled
  | .destroyReceiver r =>
      if s.callerRuns = true ∧ r ∈ s.live then
        .ok { s with live := s.live.filter (· ≠ r), trace := s.trace ++ [.destroyed r] }
      else .error .notEnabled
  | .ret =>
      match s.dispatching, s.walk with
      | some _, .running cur => .ok { s with walk := .next cur }
      | _, _ => .error .notEnabled

end System

/-! ## The atomic machine with the results of its calls -/

/-- What a call hands back to its caller. -/
def returns : Call → ℤ → List ℤ
  | .constructReceiver _, _ | .destroyReceiver _, _ => []
  | _, rc => [rc]

structure Recorded where
  machine : Machine
  taskResults : List ℤ
  interruptResults : List ℤ

namespace Recorded

def constructed (masterInterrupts : Bool) : Recorded := ⟨.constructed masterInterrupts, [], []⟩

def step (a : Recorded) : Mq.Label → Except Stop Recorded
  | .call c =>
      if a.machine.callerRuns = true then do
        let (t, rc) ← a.machine.perform c
        .ok { a with machine := t, taskResults := a.taskResults ++ returns c rc }
      else .error .notEnabled
  | .interrupt m alloc => do
      let t ← a.machine.step (.interrupt m alloc)
      let (_, rc) ← a.machine.mq.queue.post m .interrupt alloc
      .ok { a with machine := t, interruptResults := a.interruptResults ++ [rc] }
  | l => do
      let t ← a.machine.step l
      .ok { a with machine := t }

end Recorded

end EmbeddedKernel.Mq.Statements
