import EmbeddedKernel.Library.Simulation
import EmbeddedKernel.Mq.QueueShape
import EmbeddedKernel.Mq.Statements

/-!
# States between two statements and the atomic machine

Each operation has one statement at which it takes effect: `Post` when it links its
message or fails to allocate it, the pop when it advances `MsgQueueFirst`, `Subscribe`
when it links its node and `Unsubscribe` when it unlinks one.  `Matches` relates a state
between two statements to the state of the machine that runs whole operations.
-/

namespace EmbeddedKernel.Mq.Statements

open Library HeapSections Interleaving

/-! ## The related states -/

/-- The message of a running `Post` is allocated and the atomic queue does not have it yet. -/
structure Pending (fine q : MsgQueue) (c : PostCall) (p : ℕ) : Prop where
  accepts : MsgQueue.Accepts c.payload
  node : p = q.heap.size
  queue : fine = { q.newMessage c.payload with masterInterrupts := false }

/-- The atomic queue `q` at each point of the code. -/
def QueueMatches (base : Interleaving.System) (q : MsgQueue) : Prop :=
  match base.post with
  | .testFirst c p => Pending base.queue q c p
  | .linkFirst c p => Pending base.queue q c p ∧ q.msgQueueFirst = none
  | .linkLast c p => Pending base.queue q c p ∧ q.msgQueueFirst ≠ none
  | .setLast _ p => q = (base.queue.setLast p).intEnableMasterInterrupts
  | _ =>
      match base.loop with
      | .advance _ msg =>
          q = base.queue.intEnableMasterInterrupts ∧ q.msgQueueFirst = some msg
      | .clearLast _ _ => q = base.queue.clearLast.intEnableMasterInterrupts
      | _ => q = base.queue.intEnableMasterInterrupts

/-- The subscription lists are those of `mq`. -/
def SameLists (s : HeapSections.System) (mq : MQClass) : Prop :=
  s.handlers = mq.handlers ∧ s.queueBlock = mq.queueBlock

/-- The walk has passed `front` without finding the address and stands before `back`. -/
structure Passed (mq : MQClass) (id : Fin MSG_MAX_MSG_IDS) (handler : Addr)
    (front back : List ℕ) : Prop where
  nodes : mq.nodes id = front ++ back
  absent : ∀ x ∈ front, mq.matchesAddr handler x = false

/-- The atomic lists `mq` at each point of `Subscribe` and `Unsubscribe`. -/
def ListsMatch (s : HeapSections.System) (mq : MQClass) : Prop :=
  match s.call with
  | .findHandler id h p => SameLists s mq ∧ h.addr ≠ 0 ∧
      ∃ front back, Passed mq id h.addr front back ∧ p = back.head?
  | .newHandler id h => SameLists s mq ∧ h.addr ≠ 0 ∧ Passed mq id h.addr (mq.nodes id) []
  | .linkHandler id p => s.queueBlock = mq.queueBlock ∧ p = mq.handlers.size ∧
      ∃ h, h.addr ≠ 0 ∧ Passed mq id h.addr (mq.nodes id) [] ∧
        s.handlers = mq.handlers.new ⟨h, mq.queueBlock id⟩
  | .findEntry id h p pPrev => SameLists s mq ∧
      ∃ front back, Passed mq id h.addr front back ∧ p = back.head? ∧ pPrev = front.getLast?
  | .unlink id p pPrev => SameLists s mq ∧ ∃ (h : Handler) (front back : List ℕ),
      Passed mq id h.addr front (p :: back) ∧ mq.matchesAddr h.addr p = true ∧
        pPrev = front.getLast?
  | .deleteHandler p => mq.handlers = s.handlers.delete p ∧ mq.queueBlock = s.queueBlock
  | _ => SameLists s mq

/-- The point of the atomic loop. -/
def pointOf : LoopPoint → Walk → Point
  | .outside, _ => .outside
  | .test n, _ | .disable n, _ | .readFirst n, _ | .advance n _, _ => .test n
  | .clearLast n msg, _ | .enable n (some msg), _ => .lookup n msg
  | .enable n none, _ => .decrement n
  | .dispatch n msg, .lookup => .lookup n msg
  | .dispatch n msg, .walk cur => .walk n msg cur
  | .dispatch n msg, .running cur => .running n msg cur
  | .dispatch n msg, .next cur => .next n msg cur
  | .free n msg, _ => .free n msg
  | .decrement n, _ => .decrement n

/-- The loop has decided to pop a message and not done so. -/
def popping : LoopPoint → Option ℤ
  | .disable n | .readFirst n | .advance n _ => some n
  | _ => none

/-- The result of an operation that has taken effect and not returned. -/
def postPending : PostPoint → List ℤ
  | .setLast _ _ => [0]
  | .enable _ rc | .ret _ rc => [rc]
  | _ => []

def callPending : CallPoint → List ℤ
  | .deleteHandler _ => [0]
  | .ret rc => [rc]
  | _ => []

def System.pendingResults (s : System) : List ℤ :=
  callPending s.sections.call ++ postPending s.sections.base.post

/-- Which points the parts of the system can be at together. -/
structure Control (s : System) : Prop where
  masked : s.sections.base.post.Critical ∨ s.sections.base.loop.Critical →
    s.sections.base.queue.masterInterrupts = false
  budget : ∀ n, popping s.sections.base.loop = some n → n ≠ 0
  caller : s.sections.call ≠ .outside ∨ s.sections.base.post ≠ .outside →
    s.sections.base.loop = .outside ∨
      ∃ n msg cur, s.sections.base.loop = .dispatch n msg ∧ s.walk = .running cur
  single : s.sections.call ≠ .outside → s.sections.base.post = .outside
  walk : (∀ n msg, s.sections.base.loop ≠ .dispatch n msg) → s.walk = .lookup

/-- `a` is the state of the atomic machine after the operations that have taken effect. -/
structure Matches (s : System) (a : Recorded) : Prop where
  wf : Wf a.machine
  flag : a.machine.mq.queue.masterInterrupts = true
  control : Control s
  queue : QueueMatches s.sections.base a.machine.mq.queue
  lists : ListsMatch s.sections a.machine.mq
  point : a.machine.point = pointOf s.sections.base.loop s.walk
  live : a.machine.live = s.live
  trace : a.machine.trace = s.trace
  interruptResults : a.interruptResults = s.interruptResults
  taskResults : a.taskResults = s.taskResults ++ s.pendingResults

theorem matches_constructed (b : Bool) : Matches (.constructed b) (.constructed true) where
  wf := wf_constructed true
  flag := rfl
  control := by
    constructor <;> simp [System.constructed, HeapSections.System.constructed,
      Interleaving.System.constructed, PostPoint.Critical, LoopPoint.Critical, popping]
  queue := rfl
  lists := ⟨rfl, rfl⟩
  point := rfl
  live := rfl
  trace := rfl
  interruptResults := rfl
  taskResults := rfl

/-! ## Steps of the atomic machine -/

theorem Recorded.step_machine {a b : Recorded} {l : Mq.Label} (h : a.step l = .ok b) :
    a.machine.step l = .ok b.machine := by
  cases l with
  | call c =>
      simp only [Recorded.step] at h
      split_ifs at h with hruns
      obtain ⟨⟨t, rc⟩, hperform, heq⟩ := bind_eq_ok.mp h
      cases heq
      simp [Machine.step, hruns, hperform]
  | interrupt m alloc =>
      obtain ⟨t, ht, h⟩ := bind_eq_ok.mp h
      obtain ⟨⟨q, rc⟩, -, heq⟩ := bind_eq_ok.mp h
      cases heq
      exact ht
  | loop n =>
      obtain ⟨t, ht, heq⟩ := bind_eq_ok.mp h
      cases heq
      exact ht
  | ret =>
      obtain ⟨t, ht, heq⟩ := bind_eq_ok.mp h
      cases heq
      exact ht
  | tau =>
      obtain ⟨t, ht, heq⟩ := bind_eq_ok.mp h
      cases heq
      exact ht

theorem Recorded.step_tau {a : Recorded} {t : Machine} (h : a.machine.tau = .ok t) :
    a.step .tau = .ok { a with machine := t } := by
  simp [Recorded.step, Machine.step, h]

theorem Recorded.step_call {a : Recorded} {t : Machine} {c : Call} {rc : ℤ}
    (hruns : a.machine.callerRuns = true) (h : a.machine.perform c = .ok (t, rc)) :
    a.step (.call c) =
      .ok { a with machine := t, taskResults := a.taskResults ++ returns c rc } := by
  simp [Recorded.step, hruns, h]

theorem added_of_append {s t : HeapSections.System} {es : List Interleaving.Event}
    (h : t.base.trace = s.base.trace ++ es) : added s t = es := by
  rw [added, h, List.drop_left]

theorem added_of_eq {s t : HeapSections.System} (h : t.base.trace = s.base.trace) :
    added s t = [] := by
  rw [added, h, List.drop_length]

theorem freeEvents_of_loop_eq {u v : HeapSections.System} (hloop : v.base.loop = u.base.loop) :
    freeEvents u v = [] := by
  unfold freeEvents
  rw [hloop]
  split
  · next h h' =>
      rw [h] at h'
      cases h'
  · rfl

/-- A caller that makes an operation runs in the atomic machine as well. -/
theorem Matches.callerRuns {s : System} {a : Recorded} (h : Matches s a)
    (hcaller : s.sections.call ≠ .outside ∨ s.sections.base.post ≠ .outside) :
    a.machine.callerRuns = true := by
  rcases h.control.caller hcaller with hloop | ⟨n, msg, cur, hloop, hwalk⟩
  · simp [Machine.callerRuns, h.point, hloop, pointOf]
  · simp [Machine.callerRuns, h.point, hloop, hwalk, pointOf]

end EmbeddedKernel.Mq.Statements
