import EmbeddedKernel.Avr
import EmbeddedKernel.Mq.Messages

/-!
# The message queue under interrupts

Task context runs `MQClass::Post` and the pop in `MQClass::Loop` one statement
at a time; an interrupt runs a whole `Post(MQ_CONTEXT_INTERRUPT)` between two
statements whenever the master interrupt flag is set.  While `Loop` dispatches,
the handlers it calls may post as well.  The trace records appends, pops and
returns, so that the order of messages can be compared along any interleaving.
-/

namespace EmbeddedKernel.Mq.Interleaving

open Library MsgQueue

/-- A task-context call of `Post`, numbered in the order of the calls. -/
structure PostCall where
  ticket : ℕ
  payload : Payload
  deriving DecidableEq

/-- The next statement of a running task-context `Post`. -/
inductive PostPoint
  | outside
  | disable (c : PostCall)
  | alloc (c : PostCall)
  | testFirst (c : PostCall) (newMessage : ℕ)
  | linkFirst (c : PostCall) (newMessage : ℕ)
  | linkLast (c : PostCall) (newMessage : ℕ)
  | setLast (c : PostCall) (newMessage : ℕ)
  | enable (c : PostCall) (rc : ℤ)
  | ret (c : PostCall) (rc : ℤ)
  deriving DecidableEq

/-- The next statement of a running `Loop`, with its locals `MaxMessages` and `msg`.
At `dispatch` the handlers of `msg` run. -/
inductive LoopPoint
  | outside
  | test (maxMessages : ℤ)
  | disable (maxMessages : ℤ)
  | readFirst (maxMessages : ℤ)
  | advance (maxMessages : ℤ) (msg : ℕ)
  | clearLast (maxMessages : ℤ) (msg : ℕ)
  | enable (maxMessages : ℤ) (msg : Ptr)
  | dispatch (maxMessages : ℤ) (msg : ℕ)
  | free (maxMessages : ℤ) (msg : ℕ)
  | decrement (maxMessages : ℤ)
  deriving DecidableEq

inductive Event
  | appended (ticket : ℕ) (m : Payload)
  | returned (ticket : ℕ) (rc : ℤ)
  | popped (m : Payload)
  deriving DecidableEq

structure System where
  queue : MsgQueue
  loop : LoopPoint
  post : PostPoint
  calls : ℕ
  trace : List Event
  deriving DecidableEq

inductive Label
  | interrupt (m : Payload) (alloc : Bool)
  | beginPost (m : Payload)
  | beginLoop (maxMessages : ℤ)
  | handlersDone
  | statement (alloc : Bool)
  deriving DecidableEq

namespace System

def constructed (masterInterrupts : Bool) : System :=
  ⟨.constructed masterInterrupts, .outside, .outside, 0, []⟩

/-- Code that may call `Post` is running: a task outside `Loop`, or a handler. -/
def callerRuns (s : System) : Bool :=
  match s.post, s.loop with
  | .outside, .outside => true
  | .outside, .dispatch _ _ => true
  | _, _ => false

def postStatement (s : System) (alloc : Bool) : Except Stop System :=
  match s.post with
  | .outside => .error .notEnabled
  | .disable c =>
      .ok { s with queue := s.queue.intDisableMasterInterrupts, post := .alloc c }
  | .alloc c =>
      if Accepts c.payload ∧ alloc = true then
        .ok { s with queue := s.queue.newMessage c.payload,
                     post := .testFirst c s.queue.heap.size }
      else .ok { s with post := .enable c (-1) }
  | .testFirst c p =>
      if s.queue.msgQueueFirst = none then .ok { s with post := .linkFirst c p }
      else .ok { s with post := .linkLast c p }
  | .linkFirst c p =>
      .ok { s with queue := s.queue.linkFirst p, post := .enable c 0,
                   trace := s.trace ++ [.appended c.ticket c.payload] }
  | .linkLast c p => do
      let q ← s.queue.linkLast p
      .ok { s with queue := q, post := .setLast c p,
                   trace := s.trace ++ [.appended c.ticket c.payload] }
  | .setLast c p => .ok { s with queue := s.queue.setLast p, post := .enable c 0 }
  | .enable c rc =>
      .ok { s with queue := s.queue.intEnableMasterInterrupts, post := .ret c rc }
  | .ret c rc =>
      .ok { s with post := .outside, trace := s.trace ++ [.returned c.ticket rc] }

def loopStatement (s : System) : Except Stop System :=
  match s.loop with
  | .outside => .error .notEnabled
  | .test n => .ok { s with loop := if n ≠ 0 then .disable n else .outside }
  | .disable n =>
      .ok { s with queue := s.queue.intDisableMasterInterrupts, loop := .readFirst n }
  | .readFirst n =>
      match s.queue.msgQueueFirst with
      | none => .ok { s with loop := .enable n none }
      | some msg => .ok { s with loop := .advance n msg }
  | .advance n msg => do
      let m ← s.queue.heap.deref (some msg)
      let q ← s.queue.advanceFirst msg
      .ok { s with queue := q, loop := .clearLast n msg,
                   trace := s.trace ++ [.popped m.toPayload] }
  | .clearLast n msg => .ok { s with queue := s.queue.clearLast, loop := .enable n (some msg) }
  | .enable n msg =>
      .ok { s with queue := s.queue.intEnableMasterInterrupts,
                   loop := match msg with
                     | none => .decrement n
                     | some p => .dispatch n p }
  | .dispatch _ _ => .error .notEnabled
  | .free n msg => do
      let q ← s.queue.deleteMessage msg
      .ok { s with queue := q, loop := .decrement n }
  | .decrement n => .ok { s with loop := .test (Avr.wrap16 (n - 1)) }

def step (s : System) : Label → Except Stop System
  | .interrupt m alloc =>
      if s.queue.masterInterrupts = true then do
        let (q, rc) ← s.queue.post m .interrupt alloc
        .ok { s with queue := q, calls := s.calls + 1,
                     trace := s.trace ++ (if rc = 0 then [.appended s.calls m] else []) ++
                       [.returned s.calls rc] }
      else .error .notEnabled
  | .beginPost m =>
      if s.callerRuns = true then
        .ok { s with post := .disable ⟨s.calls, m⟩, calls := s.calls + 1 }
      else .error .notEnabled
  | .beginLoop n =>
      if s.post = .outside ∧ s.loop = .outside then .ok { s with loop := .test n }
      else .error .notEnabled
  | .handlersDone =>
      match s.post, s.loop with
      | .outside, .dispatch n msg => .ok { s with loop := .free n msg }
      | _, _ => .error .notEnabled
  | .statement alloc =>
      if s.post = .outside then s.loopStatement else s.postStatement alloc

end System

/-! ## Critical sections and the recorded order -/

def PostPoint.Critical : PostPoint → Prop
  | .alloc _ | .testFirst _ _ | .linkFirst _ _ | .linkLast _ _ | .setLast _ _ | .enable _ _ => True
  | _ => False

def LoopPoint.Critical : LoopPoint → Prop
  | .readFirst _ | .advance _ _ | .clearLast _ _ | .enable _ _ => True
  | _ => False

def System.NoCriticalSection (s : System) : Prop := ¬s.post.Critical ∧ ¬s.loop.Critical

def popped (t : List Event) : List Payload :=
  t.filterMap fun
    | .popped m => some m
    | _ => none

def appends (t : List Event) : List (ℕ × Payload) :=
  t.filterMap fun
    | .appended k m => some (k, m)
    | _ => none

/-- The call with this ticket has returned 0, or stands at its `return` with `rc == 0`. -/
def System.succeeded (s : System) (k : ℕ) : Bool :=
  s.trace.contains (.returned k 0) ||
    match s.post with
    | .ret c rc => c.ticket == k && rc == 0
    | _ => false

/-- The two ends agree, and `MsgQueueLast` is the only node without a successor that
is reachable from `MsgQueueFirst`. -/
structure WellFormed (q : MsgQueue) : Prop where
  null_iff : q.msgQueueFirst = none ↔ q.msgQueueLast = none
  reachable : ∀ p, q.msgQueueLast = some p →
    ReachableFrom Message.pNextMsg q.heap q.msgQueueFirst p
  ends : ∀ p x m, q.msgQueueLast = some p →
    ReachableFrom Message.pNextMsg q.heap q.msgQueueFirst x → q.heap.get x = some m →
    (m.pNextMsg = none ↔ x = p)

end EmbeddedKernel.Mq.Interleaving
