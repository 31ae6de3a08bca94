import EmbeddedKernel.Avr
import EmbeddedKernel.Library.Chain
import EmbeddedKernel.Library.Run

/-!
# The task ring

Registered tasks are nodes of a singly linked list; a registration prepends one
and nothing ever takes one out.  `TaskRing::Loop` calls the task under `pCur` and
then moves `pCur` on; while the task runs it may register further tasks.  Nodes are
numbered in the order of their registrations, so the node with number `x` is
followed by the one with number `x - 1`.
-/

namespace EmbeddedKernel.TaskRing

open Library

/-- The two kinds of node and what `TASKSTATE::Call` invokes: a function with its context
or `TaskLoop` of a task. -/
inductive Handler
  | taskStateF (handler : Addr) (context : Ptr)
  | taskStateC (handler : Addr)
  deriving DecidableEq

structure TaskState where
  handler : Handler
  pNext : Ptr
  deriving DecidableEq

structure TaskInternals where
  heap : Heap TaskState
  pHead : Ptr
  pCur : Ptr
  deriving DecidableEq

def Handler.addr : Handler → Addr
  | .taskStateF handler _ => handler
  | .taskStateC handler => handler

namespace TaskInternals

def constructed : TaskInternals := ⟨.empty, none, none⟩

/-- The two overloads of `RegisterTaskHandler`, which differ in the node they create. -/
def registerTaskHandler (s : TaskInternals) (h : Handler) (alloc : Bool) : TaskInternals × ℤ :=
  if h.addr ≠ 0 ∧ alloc = true then
    ({ s with heap := s.heap.new ⟨h, s.pHead⟩, pHead := some s.heap.size }, 0)
  else (s, -1)

def registerFunction (s : TaskInternals) (handler : Addr) (context : Ptr) (alloc : Bool) :
    TaskInternals × ℤ := s.registerTaskHandler (.taskStateF handler context) alloc

def registerTask (s : TaskInternals) (task : Addr) (alloc : Bool) : TaskInternals × ℤ :=
  s.registerTaskHandler (.taskStateC task) alloc

/-- `DeregisterTaskHandler`, whose body is empty; it returns no value. -/
def deregisterTaskHandler (s : TaskInternals) (_task : Addr) : TaskInternals := s

/-- `Task::Start`, which drops the return value. -/
def start (s : TaskInternals) (task : Addr) (alloc : Bool) : TaskInternals × ℤ :=
  s.registerTask task alloc

/-- `Task::~Task`. -/
def taskDestructor (s : TaskInternals) (task : Addr) : TaskInternals :=
  s.deregisterTaskHandler task

/-- `Loop` up to the call: the node to be called, if there is one. -/
def select (s : TaskInternals) : TaskInternals :=
  if s.pCur = none then { s with pCur := s.pHead } else s

/-- `Loop` after the call: `pCur = pCur->pNext`. -/
def advance (s : TaskInternals) : Except Stop TaskInternals := do
  let node ← s.heap.deref s.pCur
  .ok { s with pCur := node.pNext }

def nodes (s : TaskInternals) : List ℕ := follow TaskState.pNext s.heap s.heap.size s.pHead

def handlerAt (s : TaskInternals) (x : ℕ) : Option Handler := (s.heap.get x).map (·.handler)

end TaskInternals

/-! ## The ring and its tasks -/

inductive Event
  | registered (node : ℕ) (h : Handler)
  | called (node : ℕ) (h : Handler)
  | constructed (task : Addr)
  | deregistered (task : Addr)
  | destroyed (task : Addr)
  deriving DecidableEq

/-- `running` while the task called by `Loop` has not returned; `live` are the tasks that
are constructed and not destroyed. -/
structure System where
  ring : TaskInternals
  running : Bool
  live : List Addr
  trace : List Event

inductive Label
  | registerFunction (handler : Addr) (context : Ptr) (alloc : Bool)
  | registerTask (task : Addr) (alloc : Bool)
  | start (task : Addr) (alloc : Bool)
  | loop
  | ret
  | construct (task : Addr)
  | deregister (task : Addr)
  | destroy (task : Addr)
  deriving DecidableEq

namespace System

def constructed : System := ⟨.constructed, false, [], []⟩

/-- The outcome of a registration, recorded in the trace. -/
def record (s : System) (h : Handler) (outcome : TaskInternals × ℤ) : System :=
  { s with
    ring := outcome.1
    trace := s.trace ++ if outcome.2 = 0 then [.registered s.ring.heap.size h] else [] }

def step (s : System) : Label → Except Stop System
  | .registerFunction handler context alloc =>
      .ok (s.record (.taskStateF handler context) (s.ring.registerFunction handler context alloc))
  | .registerTask task alloc =>
      .ok (s.record (.taskStateC task) (s.ring.registerTask task alloc))
  | .start task alloc => .ok (s.record (.taskStateC task) (s.ring.start task alloc))
  | .loop =>
      if s.running = true then .error .notEnabled
      else
        match s.ring.select.pCur with
        | none => .ok { s with ring := s.ring.select }
        | some cur => do
            let node ← s.ring.select.heap.deref (some cur)
            .ok { s with
              ring := s.ring.select
              running := true
              trace := s.trace ++ [.called cur node.handler] }
  | .ret =>
      if s.running = true then do
        let ring ← s.ring.advance
        .ok { s with ring := ring, running := false }
      else .error .notEnabled
  | .construct task =>
      if task ∈ s.live then .error .notEnabled
      else .ok { s with live := task :: s.live, trace := s.trace ++ [.constructed task] }
  | .deregister task =>
      .ok { s with
        ring := s.ring.deregisterTaskHandler task
        trace := s.trace ++ [.deregistered task] }
  | .destroy task =>
      if task ∈ s.live then
        .ok { s with
          ring := s.ring.taskDestructor task
          live := s.live.filter (· ≠ task)
          trace := s.trace ++ [.destroyed task] }
      else .error .notEnabled

end System

/-! ## What a step does -/

/-- The handler a label registers. -/
def Label.registers : Label → Option Handler
  | .registerFunction handler context _ => some (.taskStateF handler context)
  | .registerTask task _ | .start task _ => some (.taskStateC task)
  | _ => none

/-- The ring with a node for `h` in front. -/
def TaskInternals.prepend (s : TaskInternals) (h : Handler) : TaskInternals :=
  { s with heap := s.heap.new ⟨h, s.pHead⟩, pHead := some s.heap.size }

inductive Stepped (s : System) : Label → System → Prop
  | register {l : Label} {h : Handler} (hl : l.registers = some h) :
      Stepped s l { s with
        ring := s.ring.prepend h
        trace := s.trace ++ [.registered s.ring.heap.size h] }
  | refuse {l : Label} {h : Handler} (hl : l.registers = some h) : Stepped s l s
  | idle (hcur : s.ring.pCur = none) (hhead : s.ring.pHead = none) : Stepped s .loop s
  | call {cur : ℕ} {node : TaskState} (hrunning : s.running = false)
      (hcur : s.ring.pCur = some cur ∨ s.ring.pCur = none ∧ s.ring.pHead = some cur)
      (hnode : s.ring.heap.get cur = some node) :
      Stepped s .loop { s with
        ring := { s.ring with pCur := some cur }
        running := true
        trace := s.trace ++ [.called cur node.handler] }
  | ret {cur : ℕ} {node : TaskState} (hrunning : s.running = true)
      (hcur : s.ring.pCur = some cur) (hnode : s.ring.heap.get cur = some node) :
      Stepped s .ret { s with ring := { s.ring with pCur := node.pNext }, running := false }
  | construct {task : Addr} (htask : task ∉ s.live) :
      Stepped s (.construct task)
        { s with live := task :: s.live, trace := s.trace ++ [.constructed task] }
  | deregister {task : Addr} :
      Stepped s (.deregister task) { s with trace := s.trace ++ [.deregistered task] }
  | destroy {task : Addr} (htask : task ∈ s.live) :
      Stepped s (.destroy task) { s with
        live := s.live.filter (· ≠ task)
        trace := s.trace ++ [.destroyed task] }

theorem stepped_record {s : System} {l : Label} {h : Handler} (alloc : Bool)
    (hl : l.registers = some h) :
    Stepped s l (s.record h (s.ring.registerTaskHandler h alloc)) := by
  unfold TaskInternals.registerTaskHandler
  split_ifs
  · exact .register hl
  · simpa [System.record] using Stepped.refuse hl

theorem TaskInternals.select_cases (s : TaskInternals) :
    (∃ cur, s.select = { s with pCur := some cur } ∧
      (s.pCur = some cur ∨ s.pCur = none ∧ s.pHead = some cur)) ∨
    s.select = s ∧ s.pCur = none ∧ s.pHead = none := by
  obtain ⟨heap, pHead, pCur⟩ := s
  cases pCur with
  | some cur => exact Or.inl ⟨cur, by simp [select], Or.inl rfl⟩
  | none =>
      cases pHead with
      | some x => exact Or.inl ⟨x, by simp [select], Or.inr ⟨rfl, rfl⟩⟩
      | none => exact Or.inr ⟨by simp [select], rfl, rfl⟩

theorem stepped_of_step {s t : System} {l : Label} (h : s.step l = .ok t) : Stepped s l t := by
  cases l with
  | registerFunction handler context alloc =>
      cases h
      exact stepped_record alloc rfl
  | registerTask task alloc =>
      cases h
      exact stepped_record alloc rfl
  | start task alloc =>
      cases h
      exact stepped_record alloc rfl
  | loop =>
      simp only [System.step] at h
      split_ifs at h with hrunning
      rcases s.ring.select_cases with ⟨cur, hselect, hcur⟩ | ⟨hselect, hcur, hhead⟩
      · simp only [hselect] at h
        obtain ⟨node, hnode, h⟩ := bind_eq_ok.mp h
        cases h
        exact .call (by simpa using hrunning) hcur (Heap.get_of_deref hnode)
      · simp only [hselect, hcur] at h
        cases h
        exact .idle hcur hhead
  | ret =>
      simp only [System.step] at h
      split_ifs at h with hrunning
      obtain ⟨ring, hring, h⟩ := bind_eq_ok.mp h
      cases h
      obtain ⟨node, hnode, hadv⟩ := bind_eq_ok.mp hring
      cases hadv
      obtain ⟨cur, hcur, hget⟩ := Heap.deref_eq_ok.mp hnode
      exact .ret hrunning hcur hget
  | construct task =>
      simp only [System.step] at h
      split_ifs at h with htask
      cases h
      exact .construct htask
  | deregister task =>
      cases h
      exact .deregister
  | destroy task =>
      simp only [System.step] at h
      split_ifs at h with htask
      cases h
      exact .destroy htask

end EmbeddedKernel.TaskRing
