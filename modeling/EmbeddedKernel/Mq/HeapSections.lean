import EmbeddedKernel.Mq.AddressSpaces
import EmbeddedKernel.Mq.Interleaving

/-!
# Heap operations and interrupts

`malloc` and `free` are not re-entrant, and an interrupt that posts a message calls
`malloc`.  Here `Subscribe`, `Unsubscribe`, `Post` and `Loop` run one statement at a
time in task context, and each `new` and `delete` has a beginning and an end, between
which an interrupt may arrive if the master interrupt flag is set.  `Post` makes its
`new` with interrupts disabled; the other operations leave the flag as they find it.
-/

namespace EmbeddedKernel.Mq.HeapSections

open Library

/-- A heap operation that `MQClass` makes in task context. -/
inductive HeapOp
  | newHandler
  | deleteHandler
  | newMessage
  | deleteContext
  | deleteMessage
  deriving DecidableEq

/-- The next statement of a running `Subscribe` or `Unsubscribe`. -/
inductive CallPoint
  | outside
  | subscribe (msgid : ℤ) (handler : Handler)
  | findHandler (id : Fin MSG_MAX_MSG_IDS) (handler : Handler) (pHead : Ptr)
  | newHandler (id : Fin MSG_MAX_MSG_IDS) (handler : Handler)
  | linkHandler (id : Fin MSG_MAX_MSG_IDS) (pHead : ℕ)
  | unsubscribe (msgid : ℤ) (handler : Handler)
  | findEntry (id : Fin MSG_MAX_MSG_IDS) (handler : Handler) (pHead pPrev : Ptr)
  | unlink (id : Fin MSG_MAX_MSG_IDS) (pHead : ℕ) (pPrev : Ptr)
  | deleteHandler (pHead : ℕ)
  | ret (rc : ℤ)
  deriving DecidableEq

/-- `base` has the message queue and runs `Post` and `Loop`; `heapOp` is the heap operation
of task context that is in progress. -/
structure System where
  base : Interleaving.System
  handlers : Heap MessageHandler
  queueBlock : Fin MSG_MAX_MSG_IDS → Ptr
  call : CallPoint
  heapOp : Option HeapOp

inductive Label
  | interrupt (m : Payload) (alloc : Bool)
  | subscribe (msgid : ℤ) (handler : Handler)
  | unsubscribe (msgid : ℤ) (handler : Handler)
  | post (m : Payload)
  | loop (maxMessages : ℤ)
  | handlersDone
  | disableInterrupts
  | enableInterrupts
  | statement (alloc : Bool)
  deriving DecidableEq

namespace System

def constructed (masterInterrupts : Bool) : System :=
  ⟨.constructed masterInterrupts, .empty, fun _ => none, .outside, none⟩

def masterInterrupts (s : System) : Bool := s.base.queue.masterInterrupts

/-- A task outside these operations or a handler is running. -/
def callerRuns (s : System) : Bool := s.base.callerRuns && s.call == .outside

/-- A statement of `Subscribe` or `Unsubscribe`; a heap operation takes two steps. -/
def callStatement (s : System) (alloc : Bool) : Except Stop System :=
  match s.call with
  | .outside => .error .notEnabled
  | .subscribe msgid h =>
      if msgid < MSG_MAX_MSG_IDS ∧ h.addr ≠ 0 then do
        let id ← MQClass.index msgid
        .ok { s with call := .findHandler id h (s.queueBlock id) }
      else .ok { s with call := .ret (-1) }
  | .findHandler id h none => .ok { s with call := .newHandler id h }
  | .findHandler id h (some p) => do
      let node ← s.handlers.deref (some p)
      if node.handler.checkHandler h.addr then .ok { s with call := .ret (-1) }
      else .ok { s with call := .findHandler id h node.pNextHandler }
  | .newHandler id h =>
      if s.heapOp = none then .ok { s with heapOp := some .newHandler }
      else if alloc = true then
        .ok { s with
          handlers := s.handlers.new ⟨h, s.queueBlock id⟩
          call := .linkHandler id s.handlers.size
          heapOp := none }
      else .ok { s with call := .ret (-1), heapOp := none }
  | .linkHandler id p =>
      .ok { s with queueBlock := Function.update s.queueBlock id (some p), call := .ret 0 }
  | .unsubscribe msgid h =>
      if msgid < MSG_MAX_MSG_IDS then do
        let id ← MQClass.index msgid
        .ok { s with call := .findEntry id h (s.queueBlock id) none }
      else .ok { s with call := .ret (-1) }
  | .findEntry _ _ none _ => .ok { s with call := .ret (-1) }
  | .findEntry id h (some p) pPrev => do
      let node ← s.handlers.deref (some p)
      if node.handler.checkHandler h.addr then .ok { s with call := .unlink id p pPrev }
      else .ok { s with call := .findEntry id h node.pNextHandler (some p) }
  | .unlink id p none => do
      let node ← s.handlers.deref (some p)
      .ok { s with
        queueBlock := Function.update s.queueBlock id node.pNextHandler
        call := .deleteHandler p }
  | .unlink _ p (some prev) => do
      let node ← s.handlers.deref (some p)
      .ok { s with
        handlers := s.handlers.modify prev fun m => { m with pNextHandler := node.pNextHandler }
        call := .deleteHandler p }
  | .deleteHandler p =>
      if s.heapOp = none then .ok { s with heapOp := some .deleteHandler }
      else .ok { s with handlers := s.handlers.delete p, call := .ret 0, heapOp := none }
  | .ret _ => .ok { s with call := .outside }

/-- A statement of `Post` or `Loop`; a heap operation takes two steps. -/
def baseStatement (s : System) (alloc : Bool) : Except Stop System :=
  match s.heapOp with
  | some .deleteContext => .ok { s with heapOp := some .deleteMessage }
  | some _ => do
      let base ← s.base.step (.statement alloc)
      .ok { s with base := base, heapOp := none }
  | none =>
      match s.base.post, s.base.loop with
      | .alloc c, _ =>
          if MsgQueue.Accepts c.payload then .ok { s with heapOp := some .newMessage }
          else do
            let base ← s.base.step (.statement alloc)
            .ok { s with base := base }
      | .outside, .free _ msg => do
          let m ← s.base.queue.heap.deref (some msg)
          if m.callerOwns ≠ .caller ∧ m.context ≠ none then
            .ok { s with heapOp := some .deleteContext }
          else .ok { s with heapOp := some .deleteMessage }
      | _, _ => do
          let base ← s.base.step (.statement alloc)
          .ok { s with base := base }

def step (s : System) : Label → Except Stop System
  | .interrupt m alloc => do
      let base ← s.base.step (.interrupt m alloc)
      .ok { s with base := base }
  | .subscribe msgid h =>
      if s.callerRuns = true then .ok { s with call := .subscribe msgid h }
      else .error .notEnabled
  | .unsubscribe msgid h =>
      if s.callerRuns = true then .ok { s with call := .unsubscribe msgid h }
      else .error .notEnabled
  | .post m =>
      if s.callerRuns = true then do
        let base ← s.base.step (.beginPost m)
        .ok { s with base := base }
      else .error .notEnabled
  | .loop n =>
      if s.callerRuns = true then do
        let base ← s.base.step (.beginLoop n)
        .ok { s with base := base }
      else .error .notEnabled
  | .handlersDone =>
      if s.callerRuns = true then do
        let base ← s.base.step .handlersDone
        .ok { s with base := base }
      else .error .notEnabled
  | .disableInterrupts =>
      if s.callerRuns = true then
        .ok { s with base := { s.base with queue := s.base.queue.intDisableMasterInterrupts } }
      else .error .notEnabled
  | .enableInterrupts =>
      if s.callerRuns = true then
        .ok { s with base := { s.base with queue := s.base.queue.intEnableMasterInterrupts } }
      else .error .notEnabled
  | .statement alloc => if s.call = .outside then s.baseStatement alloc else s.callStatement alloc

end System

/-! ## The discipline that callers would have to follow -/

/-- The walk from `p` for this address ends at `r`. -/
def Finds (h : Heap MessageHandler) (handler : Addr) (p r : Ptr) : Prop :=
  ∃ n, MQClass.findHandler h handler n p = .ok r

/-- `Subscribe` will make a node for the handler, which is not in the list. -/
def System.AddsEntry (s : System) (msgid : ℤ) (h : Handler) : Prop :=
  msgid < MSG_MAX_MSG_IDS ∧ h.addr ≠ 0 ∧ ∃ id, MQClass.index msgid = .ok id ∧
    Finds s.handlers h.addr (s.queueBlock id) none

/-- `Unsubscribe` will find the handler in the list. -/
def System.RemovesEntry (s : System) (msgid : ℤ) (h : Handler) : Prop :=
  msgid < MSG_MAX_MSG_IDS ∧ ∃ id, MQClass.index msgid = .ok id ∧
    ∃ p, Finds s.handlers h.addr (s.queueBlock id) (some p)

/-- Interrupts are disabled when `Subscribe` is called for a handler that is not in the
list, when `Unsubscribe` is called for one that is, and when the walk of `Loop` over the
handlers of a message ends, also if there are none. -/
def CallsMasked (s : System) : Label → Prop
  | .subscribe msgid h => s.AddsEntry msgid h → s.masterInterrupts = false
  | .unsubscribe msgid h => s.RemovesEntry msgid h → s.masterInterrupts = false
  | .handlersDone => s.masterInterrupts = false
  | _ => True

/-- No heap operation of task context is in progress with interrupts enabled, so no
interrupt can start one of its own meanwhile. -/
def HeapSafe (s : System) : Prop :=
  s.heapOp ≠ none → s.masterInterrupts = false ∧ ∀ m alloc t, s.step (.interrupt m alloc) ≠ .ok t

theorem finds_nil (h : Heap MessageHandler) (handler : Addr) : Finds h handler none none :=
  ⟨0, rfl⟩

theorem finds_here {h : Heap MessageHandler} {handler : Addr} {p : ℕ} {node : MessageHandler}
    (hnode : h.deref (some p) = .ok node) (hcheck : node.handler.checkHandler handler = true) :
    Finds h handler (some p) (some p) :=
  ⟨1, by simp [MQClass.findHandler, hnode, hcheck]⟩

theorem Finds.next {h : Heap MessageHandler} {handler : Addr} {p : ℕ} {r : Ptr}
    {node : MessageHandler} (hfinds : Finds h handler node.pNextHandler r)
    (hnode : h.deref (some p) = .ok node) (hcheck : ¬node.handler.checkHandler handler = true) :
    Finds h handler (some p) r := by
  obtain ⟨n, hn⟩ := hfinds
  exact ⟨n + 1, by simp [MQClass.findHandler, hnode, hcheck, hn]⟩

/-- At the point where a `Subscribe` or `Unsubscribe` stands, interrupts are disabled if it
will come to a heap operation. -/
def CallMasked (s : System) : Prop :=
  match s.call with
  | .subscribe msgid h => s.AddsEntry msgid h → s.masterInterrupts = false
  | .findHandler _ h p => Finds s.handlers h.addr p none → s.masterInterrupts = false
  | .newHandler _ _ => s.masterInterrupts = false
  | .unsubscribe msgid h => s.RemovesEntry msgid h → s.masterInterrupts = false
  | .findEntry _ h p _ =>
      ∀ q, Finds s.handlers h.addr p (some q) → s.masterInterrupts = false
  | .unlink _ _ _ => s.masterInterrupts = false
  | .deleteHandler _ => s.masterInterrupts = false
  | _ => True

/-- The heap operation in progress is the one of the statement that is executed. -/
def OpAtStatement (s : System) : Prop :=
  match s.heapOp with
  | none => True
  | some .newHandler => ∃ id h, s.call = .newHandler id h
  | some .deleteHandler => ∃ p, s.call = .deleteHandler p
  | some .newMessage => ∃ c, s.base.post = .alloc c
  | some .deleteContext => ∃ n msg, s.base.loop = .free n msg
  | some .deleteMessage => ∃ n msg, s.base.loop = .free n msg

structure Masked (s : System) : Prop where
  alloc : ∀ c, s.base.post = .alloc c → s.masterInterrupts = false
  free : ∀ n msg, s.base.loop = .free n msg →
    s.masterInterrupts = false ∧ s.base.post = .outside
  calling : s.call ≠ .outside → s.base.callerRuns = true
  call : CallMasked s
  op : OpAtStatement s

theorem masked_constructed (b : Bool) : Masked (.constructed b) where
  alloc := by simp [System.constructed, Interleaving.System.constructed]
  free := by simp [System.constructed, Interleaving.System.constructed]
  calling := by simp [System.constructed]
  call := trivial
  op := trivial

variable {s t : System} {l : Label}

/-! ## What the steps keep -/

theorem interrupt_frame {base base' : Interleaving.System} {m : Payload} {alloc : Bool}
    (h : base.step (.interrupt m alloc) = .ok base') :
    base.queue.masterInterrupts = true ∧ base'.queue.masterInterrupts = true ∧
      base'.post = base.post ∧ base'.loop = base.loop := by
  simp only [Interleaving.System.step] at h
  split_ifs at h with hflag
  obtain ⟨⟨q, rc⟩, hq, heq⟩ := bind_eq_ok.mp h
  cases heq
  refine ⟨hflag, ?_, rfl, rfl⟩
  obtain ⟨⟨q₁, rc₁⟩, happend, heq⟩ := bind_eq_ok.mp hq
  cases heq
  simp only [ne_eq, not_true_eq_false, if_false] at happend ⊢
  rcases MsgQueue.append_eq_ok happend with ⟨rfl, -⟩ | ⟨rfl, -⟩ | ⟨last, rfl, -⟩ <;> exact hflag

/-- `Post` comes to its `new` with interrupts disabled, and no statement leads to the
deletions of `Loop`. -/
theorem statement_base {base base' : Interleaving.System} {alloc : Bool}
    (hfree : ∀ n msg, base.loop = .free n msg → base.post = .outside)
    (h : base.step (.statement alloc) = .ok base') :
    (∀ c, base'.post = .alloc c → base'.queue.masterInterrupts = false) ∧
      ∀ n msg, base'.loop ≠ .free n msg := by
  simp only [Interleaving.System.step] at h
  split_ifs at h with hpost
  · have hsame : base'.post = base.post ∧ ∀ n msg, base'.loop ≠ .free n msg := by
      unfold Interleaving.System.loopStatement at h
      cases hloop : base.loop with
      | outside => simp [hloop] at h
      | dispatch n msg => simp [hloop] at h
      | test n =>
          simp only [hloop, Except.ok.injEq] at h
          subst h
          by_cases hn : n = 0 <;> simp [hn]
      | readFirst n =>
          simp only [hloop] at h
          split at h <;> cases h <;> simp
      | enable n msg =>
          simp only [hloop, Except.ok.injEq] at h
          subst h
          cases msg <;> simp
      | advance n msg =>
          simp only [hloop] at h
          obtain ⟨m, -, h⟩ := bind_eq_ok.mp h
          obtain ⟨q, -, h⟩ := bind_eq_ok.mp h
          cases h
          simp
      | free n msg =>
          simp only [hloop] at h
          obtain ⟨q, -, h⟩ := bind_eq_ok.mp h
          cases h
          simp
      | _ =>
          simp only [hloop, Except.ok.injEq] at h
          subst h
          simp
    refine ⟨fun c hc => ?_, hsame.2⟩
    rw [hsame.1, hpost] at hc
    cases hc
  · have hloop : base'.loop = base.loop ∧
        ∀ c, base'.post = .alloc c → base'.queue.masterInterrupts = false := by
      unfold Interleaving.System.postStatement at h
      cases hp : base.post with
      | outside => exact (hpost hp).elim
      | disable c =>
          simp only [hp, Except.ok.injEq] at h
          subst h
          exact ⟨rfl, fun _ _ => rfl⟩
      | alloc c =>
          simp only [hp] at h
          split_ifs at h <;> cases h <;> simp
      | testFirst c x =>
          simp only [hp] at h
          split_ifs at h <;> cases h <;> simp
      | linkLast c x =>
          simp only [hp] at h
          obtain ⟨q, -, h⟩ := bind_eq_ok.mp h
          cases h
          simp
      | _ =>
          simp only [hp, Except.ok.injEq] at h
          subst h
          simp
    refine ⟨hloop.2, fun n msg hn => ?_⟩
    exact hpost (hfree n msg (hloop.1 ▸ hn))

theorem not_alloc_of_callerRuns {base : Interleaving.System} (h : base.callerRuns = true) :
    base.post = .outside ∧ ∀ n msg, base.loop ≠ .free n msg := by
  unfold Interleaving.System.callerRuns at h
  split at h
  · next hpost hloop => exact ⟨hpost, by simp [hloop]⟩
  · next hpost hloop => exact ⟨hpost, by simp [hloop]⟩
  · cases h

namespace Masked

/-- While `Subscribe` and `Unsubscribe` are not running and neither are `Post` and `Loop`,
no heap operation is in progress. -/
theorem heapOp_eq_none (h : Masked s) (hbase : s.base.callerRuns = true)
    (hnew : ∀ id k, s.call ≠ .newHandler id k) (hdelete : ∀ p, s.call ≠ .deleteHandler p) :
    s.heapOp = none := by
  obtain ⟨hpost, hloop⟩ := not_alloc_of_callerRuns hbase
  have hop := h.op
  unfold OpAtStatement at hop
  split at hop
  · assumption
  · obtain ⟨id, k, hk⟩ := hop
    exact (hnew id k hk).elim
  · obtain ⟨p, hp⟩ := hop
    exact (hdelete p hp).elim
  · obtain ⟨c, hc⟩ := hop
    rw [hpost] at hc
    cases hc
  · obtain ⟨n, msg, hfree⟩ := hop
    exact (hloop n msg hfree).elim
  · obtain ⟨n, msg, hfree⟩ := hop
    exact (hloop n msg hfree).elim

theorem op_of_none (h : t.heapOp = none) : OpAtStatement t := by
  unfold OpAtStatement
  rw [h]
  trivial

/-- A step of the caller, or of `Subscribe` or `Unsubscribe`, that leaves no heap operation
in progress. -/
theorem of_call (hbase : t.base.callerRuns = true) (hcall : CallMasked t)
    (hop : OpAtStatement t) : Masked t := by
  obtain ⟨hpost, hloop⟩ := not_alloc_of_callerRuns hbase
  refine ⟨?_, fun n msg hfree => (hloop n msg hfree).elim, fun _ => hbase, hcall, hop⟩
  intro c hc
  rw [hpost] at hc
  cases hc

theorem interrupt {m : Payload} {alloc : Bool} (h : Masked s)
    (hstep : s.step (.interrupt m alloc) = .ok t) : Masked t := by
  obtain ⟨base, hbase, heq⟩ := bind_eq_ok.mp hstep
  cases heq
  obtain ⟨hflag, hflag', hpost, hloop⟩ := interrupt_frame hbase
  have hsame : base.queue.masterInterrupts = s.base.queue.masterInterrupts := by rw [hflag, hflag']
  refine ⟨?_, ?_, ?_, ?_, ?_⟩
  · simpa only [System.masterInterrupts, hpost, hsame] using h.alloc
  · simpa only [System.masterInterrupts, hpost, hloop, hsame] using h.free
  · simpa only [Interleaving.System.callerRuns, hpost, hloop] using h.calling
  · simpa only [CallMasked, System.masterInterrupts, System.AddsEntry, System.RemovesEntry, hsame]
      using h.call
  · simpa only [OpAtStatement, hpost, hloop] using h.op

theorem baseStatement {alloc : Bool} (h : Masked s) (hout : s.call = .outside)
    (hstep : s.baseStatement alloc = .ok t) : Masked t := by
  have hcall : ∀ base op, CallMasked { s with base := base, heapOp := op } := by
    intro base op
    simp [CallMasked, hout]
  have hrun : ∀ base, s.base.step (.statement alloc) = .ok base →
      Masked { s with base := base, heapOp := none } := by
    intro base hbase
    obtain ⟨halloc, hfree⟩ := statement_base (fun n msg hn => (h.free n msg hn).2) hbase
    exact ⟨halloc, fun n msg hn => (hfree n msg hn).elim, fun hne => (hne hout).elim,
      hcall base none, trivial⟩
  have hsame : ∀ op, OpAtStatement { s with heapOp := op } → Masked { s with heapOp := op } :=
    fun op hop => ⟨h.alloc, h.free, h.calling, hcall s.base op, hop⟩
  have hop := h.op
  unfold System.baseStatement at hstep
  split at hstep
  · next hdelete =>
      cases hstep
      simp only [OpAtStatement, hdelete] at hop
      exact hsame _ hop
  · obtain ⟨base, hbase, heq⟩ := bind_eq_ok.mp hstep
    cases heq
    exact hrun base hbase
  · next hnone =>
      split at hstep
      · next loop c hpost =>
          split_ifs at hstep
          · cases hstep
            exact hsame _ ⟨c, hpost⟩
          · obtain ⟨base, hbase, heq⟩ := bind_eq_ok.mp hstep
            cases heq
            rw [hnone]
            exact hrun base hbase
      · next n msg hpost hloop =>
          obtain ⟨m, -, hstep⟩ := bind_eq_ok.mp hstep
          split_ifs at hstep
          · cases hstep
            exact hsame _ ⟨n, msg, hloop⟩
          · cases hstep
            exact hsame _ ⟨n, msg, hloop⟩
      · obtain ⟨base, hbase, heq⟩ := bind_eq_ok.mp hstep
        cases heq
        rw [hnone]
        exact hrun base hbase

theorem callStatement {alloc : Bool} (h : Masked s) (hne : s.call ≠ .outside)
    (hstep : s.callStatement alloc = .ok t) : Masked t := by
  have hbase := h.calling hne
  have hcall := h.call
  cases hc : s.call with
  | outside => exact (hne hc).elim
  | subscribe msgid k =>
      have hnone := h.heapOp_eq_none hbase (by simp [hc]) (by simp [hc])
      simp only [System.callStatement, hc] at hstep
      simp only [CallMasked, hc] at hcall
      split_ifs at hstep with hguard
      · obtain ⟨id, hid, heq⟩ := bind_eq_ok.mp hstep
        cases heq
        refine of_call hbase (fun hfinds => hcall ⟨hguard.1, hguard.2, id, hid, hfinds⟩) ?_
        exact op_of_none hnone
      · cases hstep
        exact of_call hbase trivial (op_of_none hnone)
  | findHandler id k p =>
      have hnone := h.heapOp_eq_none hbase (by simp [hc]) (by simp [hc])
      simp only [CallMasked, hc] at hcall
      cases p with
      | none =>
          simp only [System.callStatement, hc] at hstep
          cases hstep
          exact of_call hbase (hcall (finds_nil _ _)) (op_of_none hnone)
      | some p =>
          simp only [System.callStatement, hc] at hstep
          obtain ⟨node, hnode, hstep⟩ := bind_eq_ok.mp hstep
          split_ifs at hstep with hcheck
          · cases hstep
            exact of_call hbase trivial (op_of_none hnone)
          · cases hstep
            exact of_call hbase (fun hfinds => hcall (hfinds.next hnode hcheck)) (op_of_none hnone)
  | newHandler id k =>
      simp only [System.callStatement, hc] at hstep
      simp only [CallMasked, hc] at hcall
      split_ifs at hstep
      · cases hstep
        exact of_call hbase hcall ⟨id, k, rfl⟩
      · cases hstep
        exact of_call hbase trivial trivial
      · cases hstep
        exact of_call hbase trivial trivial
  | linkHandler id p =>
      have hnone := h.heapOp_eq_none hbase (by simp [hc]) (by simp [hc])
      simp only [System.callStatement, hc] at hstep
      cases hstep
      exact of_call hbase trivial (op_of_none hnone)
  | unsubscribe msgid k =>
      have hnone := h.heapOp_eq_none hbase (by simp [hc]) (by simp [hc])
      simp only [System.callStatement, hc] at hstep
      simp only [CallMasked, hc] at hcall
      split_ifs at hstep with hguard
      · obtain ⟨id, hid, heq⟩ := bind_eq_ok.mp hstep
        cases heq
        refine of_call hbase (fun q hfinds => hcall ⟨hguard, id, hid, q, hfinds⟩) ?_
        exact op_of_none hnone
      · cases hstep
        exact of_call hbase trivial (op_of_none hnone)
  | findEntry id k p prev =>
      have hnone := h.heapOp_eq_none hbase (by simp [hc]) (by simp [hc])
      simp only [CallMasked, hc] at hcall
      cases p with
      | none =>
          simp only [System.callStatement, hc] at hstep
          cases hstep
          exact of_call hbase trivial (op_of_none hnone)
      | some p =>
          simp only [System.callStatement, hc] at hstep
          obtain ⟨node, hnode, hstep⟩ := bind_eq_ok.mp hstep
          split_ifs at hstep with hcheck
          · cases hstep
            exact of_call hbase (hcall p (finds_here hnode hcheck)) (op_of_none hnone)
          · cases hstep
            refine of_call hbase (fun q hfinds => hcall q (hfinds.next hnode hcheck)) ?_
            exact op_of_none hnone
  | unlink id p prev =>
      have hnone := h.heapOp_eq_none hbase (by simp [hc]) (by simp [hc])
      simp only [CallMasked, hc] at hcall
      cases prev with
      | none =>
          simp only [System.callStatement, hc] at hstep
          obtain ⟨node, -, hstep⟩ := bind_eq_ok.mp hstep
          cases hstep
          exact of_call hbase hcall (op_of_none hnone)
      | some prev =>
          simp only [System.callStatement, hc] at hstep
          obtain ⟨node, -, hstep⟩ := bind_eq_ok.mp hstep
          cases hstep
          exact of_call hbase hcall (op_of_none hnone)
  | deleteHandler p =>
      simp only [System.callStatement, hc] at hstep
      simp only [CallMasked, hc] at hcall
      split_ifs at hstep
      · cases hstep
        exact of_call hbase hcall ⟨p, rfl⟩
      · cases hstep
        exact of_call hbase trivial trivial
  | ret rc =>
      have hnone := h.heapOp_eq_none hbase (by simp [hc]) (by simp [hc])
      simp only [System.callStatement, hc] at hstep
      cases hstep
      exact of_call hbase trivial (op_of_none hnone)

theorem step (h : Masked s) (hgood : CallsMasked s l) (hstep : s.step l = .ok t) : Masked t := by
  have hidle : s.callerRuns = true →
      s.base.callerRuns = true ∧ s.call = .outside ∧ s.heapOp = none := by
    intro hruns
    obtain ⟨hbase, hout⟩ : s.base.callerRuns = true ∧ s.call = .outside := by
      simpa [System.callerRuns] using hruns
    exact ⟨hbase, hout, h.heapOp_eq_none hbase (by simp [hout]) (by simp [hout])⟩
  cases l with
  | interrupt m alloc => exact h.interrupt hstep
  | subscribe msgid k =>
      simp only [System.step] at hstep
      split_ifs at hstep with hruns
      cases hstep
      obtain ⟨hbase, -, hnone⟩ := hidle hruns
      exact of_call hbase hgood (op_of_none hnone)
  | unsubscribe msgid k =>
      simp only [System.step] at hstep
      split_ifs at hstep with hruns
      cases hstep
      obtain ⟨hbase, -, hnone⟩ := hidle hruns
      exact of_call hbase hgood (op_of_none hnone)
  | disableInterrupts =>
      simp only [System.step] at hstep
      split_ifs at hstep with hruns
      cases hstep
      obtain ⟨hbase, hout, hnone⟩ := hidle hruns
      exact of_call hbase (by simp [CallMasked, hout]) (op_of_none hnone)
  | enableInterrupts =>
      simp only [System.step] at hstep
      split_ifs at hstep with hruns
      cases hstep
      obtain ⟨hbase, hout, hnone⟩ := hidle hruns
      exact of_call hbase (by simp [CallMasked, hout]) (op_of_none hnone)
  | post m =>
      simp only [System.step] at hstep
      split_ifs at hstep with hruns
      obtain ⟨base, hpost, heq⟩ := bind_eq_ok.mp hstep
      cases heq
      obtain ⟨hbase, hout, hnone⟩ := hidle hruns
      simp only [Interleaving.System.step, hbase, if_true, Except.ok.injEq] at hpost
      subst hpost
      exact ⟨by simp, fun n msg hfree => ((not_alloc_of_callerRuns hbase).2 n msg hfree).elim,
        fun hne => (hne hout).elim, by simp [CallMasked, hout], op_of_none hnone⟩
  | loop n =>
      simp only [System.step] at hstep
      split_ifs at hstep with hruns
      obtain ⟨base, hloop, heq⟩ := bind_eq_ok.mp hstep
      cases heq
      obtain ⟨hbase, hout, hnone⟩ := hidle hruns
      simp only [Interleaving.System.step] at hloop
      split_ifs at hloop with hpoints
      cases hloop
      exact ⟨by simp [hpoints.1], by simp, fun hne => (hne hout).elim,
        by simp [CallMasked, hout], op_of_none hnone⟩
  | handlersDone =>
      simp only [System.step] at hstep
      split_ifs at hstep with hruns
      obtain ⟨base, hdone, heq⟩ := bind_eq_ok.mp hstep
      cases heq
      obtain ⟨hbase, hout, hnone⟩ := hidle hruns
      simp only [Interleaving.System.step] at hdone
      split at hdone
      · next n msg hpost hloop =>
          cases hdone
          exact ⟨by simp [hpost], fun n msg _ => ⟨hgood, hpost⟩, fun hne => (hne hout).elim,
            by simp [CallMasked, hout], op_of_none hnone⟩
      · cases hdone
  | statement alloc =>
      simp only [System.step] at hstep
      split_ifs at hstep with hout
      · exact h.baseStatement hout hstep
      · exact h.callStatement hout hstep

theorem heapSafe (h : Masked s) : HeapSafe s := by
  intro hne
  have hflag : s.masterInterrupts = false := by
    have hop := h.op
    have hcall := h.call
    unfold OpAtStatement at hop
    split at hop
    · next hnone => exact (hne hnone).elim
    · obtain ⟨id, k, hk⟩ := hop
      simpa only [CallMasked, hk] using hcall
    · obtain ⟨p, hp⟩ := hop
      simpa only [CallMasked, hp] using hcall
    · obtain ⟨c, hc⟩ := hop
      exact h.alloc c hc
    · obtain ⟨n, msg, hfree⟩ := hop
      exact (h.free n msg hfree).1
    · obtain ⟨n, msg, hfree⟩ := hop
      exact (h.free n msg hfree).1
  refine ⟨hflag, fun m alloc t hstep => ?_⟩
  obtain ⟨base, hbase, -⟩ := bind_eq_ok.mp hstep
  have htrue := (interrupt_frame hbase).1
  rw [System.masterInterrupts, htrue] at hflag
  cases hflag

end Masked

/-- In every run in which interrupts are disabled when `Subscribe` is called for a handler
that is not in the list, when `Unsubscribe` is called for one that is, and when the last
handler of a message returns to `Loop`, every `new` and `delete` of task context runs with
interrupts disabled. -/
theorem heapOps_masked {b : Bool} {s : System}
    (hs : Reaches System.step CallsMasked (.constructed b) s) : HeapSafe s :=
  (hs.invariant Masked (masked_constructed b)
    fun _ _ _ h hgood hstep => h.step hgood hstep).heapSafe

/-- A handler is subscribed with interrupts disabled, up to the `new` of its node. -/
def maskedSubscribe : List Label :=
  [.disableInterrupts, .subscribe 0 (.mhFunction 0x100), .statement true, .statement true,
    .statement true]

theorem heapOps_masked_maskedSubscribe :
    ∃ s, execute System.step (.constructed true) maskedSubscribe = .ok s ∧
      s.heapOp = some .newHandler ∧ s.masterInterrupts = false := by
  let s := after System.step (.constructed true) maskedSubscribe
  have hs : Reaches System.step CallsMasked (.constructed true) s := by
    refine .head (l := .disableInterrupts) trivial rfl ?_
    refine .head (l := .subscribe 0 (.mhFunction 0x100)) (fun _ => rfl) rfl ?_
    refine .head (l := .statement true) trivial rfl ?_
    refine .head (l := .statement true) trivial rfl ?_
    exact .head (l := .statement true) trivial rfl .start
  exact ⟨s, rfl, rfl, (heapOps_masked hs (by decide)).1⟩

/-- `Subscribe` and a posting interrupt: the `new` of the handler node is in progress with
interrupts enabled. -/
theorem interrupt_during_new :
    ¬∀ s, Reaches System.step (fun _ _ => True) (.constructed true) s → HeapSafe s := by
  intro hall
  let s := after System.step (.constructed true)
    [.subscribe 0 (.mhFunction 0x100), .statement true, .statement true, .statement true]
  have hrun : execute System.step (.constructed true)
    [.subscribe 0 (.mhFunction 0x100), .statement true, .statement true, .statement true] =
    .ok s := rfl
  have hflag := (hall s (reaches_of_execute hrun) (by decide)).1
  have htrue : s.masterInterrupts = true := rfl
  rw [htrue] at hflag
  cases hflag

end EmbeddedKernel.Mq.HeapSections
