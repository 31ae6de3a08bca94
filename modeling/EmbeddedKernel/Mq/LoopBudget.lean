import EmbeddedKernel.Mq.Delivery
import EmbeddedKernel.Mq.Ledger

/-!
# How far one call of the message loop gets

`Loop` takes a budget and spends one unit of it on each pop, whether there was a
message or not.  So it ends, however many messages are posted meanwhile, and it
dispatches as many of the messages it found in the queue as its budget allows,
before any that were posted since.
-/

namespace EmbeddedKernel.Mq

open Library

/-- No handler changes subscriptions while a message is dispatched. -/
def KeepsSubscriptions (s : Machine) : Label → Prop
  | .call c => s.point ≠ .outside → c.subscribes = none ∧ c.unsubscribes = none
  | _ => True

/-- The rules for runs: no handler changes subscriptions, and no negative id gets past the
tests. -/
def DispatchRules (s : Machine) (l : Label) : Prop := KeepsSubscriptions s l ∧ PassesNoNegativeId l

/-- The same within one call of `Loop`. -/
def WithinLoop (s : Machine) (l : Label) : Prop := DispatchRules s l ∧ ∀ n, l ≠ .loop n

/-- The label is a statement of `Loop` or the return of a handler to it. -/
def Label.isStatement : Label → Bool
  | .tau | .ret => true
  | _ => false

/-- What is left of the budget, the message in dispatch included. -/
def Point.budget : Point → ℤ
  | .outside => 0
  | .test n | .lookup n _ | .walk n _ _ | .running n _ _ | .next n _ _ | .free n _ => n
  | .decrement n => n - 1

variable {s₀ s t : Machine} {n : ℤ} {l : Label} {es : List Event}

theorem KeepsSubscriptions.sparesOwnEntry (h : KeepsSubscriptions s l) : SparesOwnEntry s l := by
  cases l with
  | call c =>
      rintro msgid handler huns ⟨n, msg, cur, m, e, hp, -⟩
      have hnone := (h (by simp [hp])).2
      rw [hnone] at huns
      cases huns
  | _ => trivial

theorem TauStep.trace_isPrefix (h : TauStep s t) : s.trace <+: t.trace := by
  cases h with
  | leave hp => exact List.prefix_rfl
  | idle hp hn hq => exact List.prefix_rfl
  | lookup hp hm hid => exact List.prefix_rfl
  | exhausted hp => exact List.prefix_rfl
  | advance hp hnode => exact List.prefix_rfl
  | decrement hp => exact List.prefix_rfl
  | pop hp hn hnodes hq hheap hx hm => exact List.prefix_append _ _
  | call hp hm hnode => exact List.prefix_append _ _
  | free hp hm contexts => exact List.prefix_append _ _

theorem Stepped.trace_isPrefix (h : Stepped s l t) : s.trace <+: t.trace := by
  cases h with
  | call hruns hperform hpoint htrace heff hwhich hposted hadded =>
      rw [htrace]
      exact List.prefix_append _ _
  | interrupt hpoint hlive htrace heff hes =>
      rw [htrace]
      exact List.prefix_append _ _
  | loop hp => exact List.prefix_rfl
  | ret hp => exact List.prefix_rfl
  | tau htau => exact htau.trace_isPrefix

/-- If `Loop` finds no message, the queue is empty. -/
theorem nodes_eq_nil_of_idle (hw : Wf s) (hp : s.point = .test n) (htau : s.tau = .ok t)
    (ht : t.point = .decrement n) : s.mq.queue.nodes = [] := by
  have hrep := hw.rep
  cases hnodes : s.mq.queue.nodes with
  | nil => rfl
  | cons x xs =>
      rw [hnodes] at hrep
      obtain ⟨q, hpop, -, hheap, -, -, m, hm⟩ := MsgQueue.pop_of_cons hrep
      have hderef : q.heap.deref (some x) = .ok m := Heap.deref_some (hheap ▸ hm)
      simp only [Machine.tau, hp, hpop, ok_bind, hderef] at htau
      split_ifs at htau with hn
      · cases htau
        cases ht
      · cases htau
        cases ht

/-! ## Spending the budget -/

/-- `Loop(n)` was called in `s₀` and has arrived in `s`, or has returned. -/
structure Spending (s₀ : Machine) (n : ℤ) (s : Machine) : Prop where
  nonneg : 0 ≤ s.point.budget
  pos : s.point.held ≠ none → 1 ≤ s.point.budget
  trace : s₀.trace <+: s.trace
  spent : (deletedMessages s.trace).length + s.point.budget ≤
    (deletedMessages s₀.trace).length + n
  drained : (deletedMessages s.trace).length + s.point.budget =
      (deletedMessages s₀.trace).length + n ∨
    (postedMessages s₀.trace).length ≤ (deletedMessages s.trace).length

theorem deletedMessages_isPrefix {es fs : List Event} (h : es <+: fs) :
    deletedMessages es <+: deletedMessages fs := h.filterMap _

theorem postedMessages_isPrefix {es fs : List Event} (h : es <+: fs) :
    postedMessages es <+: postedMessages fs := h.filterMap _

theorem poppedMessages_isPrefix {es fs : List Event} (h : es <+: fs) :
    poppedMessages es <+: poppedMessages fs := h.filterMap _

theorem spending_loop (s : Machine) (hn : 0 ≤ n) : Spending s n { s with point := .test n } where
  nonneg := hn
  pos := by simp [Point.held]
  trace := List.prefix_rfl
  spent := by simp [Point.budget]
  drained := Or.inl (by simp [Point.budget])

namespace Spending

theorem budget_le (h : Spending s₀ n s) : s.point.budget ≤ n := by
  have hle := (deletedMessages_isPrefix h.trace).length_le
  have hspent := h.spent
  omega

/-- A step that deletes no message and spends nothing. -/
theorem move (h : Spending s₀ n s) (hbudget : t.point.budget = s.point.budget)
    (hheld : t.point.held ≠ none → 1 ≤ s.point.budget) (htrace : s.trace <+: t.trace)
    (hdeleted : deletedMessages t.trace = deletedMessages s.trace) : Spending s₀ n t := by
  refine ⟨?_, ?_, h.trace.trans htrace, ?_, ?_⟩
  · rw [hbudget]
    exact h.nonneg
  · rw [hbudget]
    exact hheld
  · rw [hbudget, hdeleted]
    exact h.spent
  · rw [hbudget, hdeleted]
    exact h.drained

theorem effect (h : Spending s₀ n s) (heff : Effect s.mq t.mq es) (hpoint : t.point = s.point)
    (htrace : t.trace = s.trace ++ es) : Spending s₀ n t := by
  refine h.move (by rw [hpoint]) (by rw [hpoint]; exact h.pos) ?_ ?_
  · rw [htrace]
    exact List.prefix_append _ _
  · rw [htrace, deletedMessages_append, deletedMessages_ofCaller fun _ => heff.ofCaller,
      List.append_nil]

theorem tauStep (h : Spending s₀ n s) (hn : n < 32768) (hw : Wf s) (hl : Ledger s)
    (htau : s.tau = .ok t) (hstep : TauStep s t) : Spending s₀ n t := by
  have hprefix := hstep.trace_isPrefix
  cases hstep with
  | leave hp => exact h.move (by rw [hp]; rfl) (by simp [Point.held]) hprefix rfl
  | lookup hp hm hid =>
      exact h.move (by rw [hp]; rfl) (fun _ => h.pos (by simp [hp, Point.held])) hprefix rfl
  | exhausted hp =>
      exact h.move (by rw [hp]; rfl) (fun _ => h.pos (by simp [hp, Point.held])) hprefix rfl
  | advance hp hnode =>
      exact h.move (by rw [hp]; rfl) (fun _ => h.pos (by simp [hp, Point.held])) hprefix rfl
  | call hp hm hnode =>
      exact h.move (by rw [hp]; rfl) (fun _ => h.pos (by simp [hp, Point.held])) hprefix
        (by simp [deletedMessages])
  | @pop k q x xs m hp hk hnodes hq hheap hx hm =>
      refine h.move (by rw [hp]; rfl) (fun _ => ?_) hprefix (by simp [deletedMessages])
      have hnonneg := h.nonneg
      rw [hp] at hnonneg ⊢
      simp only [Point.budget] at hnonneg ⊢
      omega
  | @decrement k hp =>
      refine h.move ?_ (by simp [Point.held]) hprefix rfl
      have hnonneg := h.nonneg
      have hle := h.budget_le
      rw [hp] at hnonneg hle ⊢
      simp only [Point.budget] at hnonneg hle ⊢
      exact Avr.wrap16_of_mem (by omega) (by omega)
  | @idle k q hp hk hq =>
      have hempty := nodes_eq_nil_of_idle hw hp htau rfl
      have hnonneg := h.nonneg
      have hspent := h.spent
      rw [hp] at hnonneg hspent
      simp only [Point.budget] at hnonneg hspent
      -- all messages posted so far have been deleted
      have hall : (postedMessages s.trace).length ≤ (deletedMessages s.trace).length := by
        have hnodes := hl.nodes
        have hdeleted := congrArg List.length (hl.not_held (by rw [hp]; rfl))
        rw [hempty, eq_comm, List.range'_eq_nil_iff] at hnodes
        rw [List.length_range] at hdeleted
        omega
      refine ⟨?_, by simp [Point.held], h.trace, ?_, Or.inr ?_⟩
      · simp only [Point.budget]
        omega
      · simp only [Point.budget]
        omega
      · exact (postedMessages_isPrefix h.trace).length_le.trans hall
  | @free k msg m hp hm contexts =>
      have hpos := h.pos (by simp [hp, Point.held])
      have hspent := h.spent
      have hdrained := h.drained
      rw [hp] at hpos hspent hdrained
      simp only [Point.budget] at hpos hspent hdrained
      have hlen : (deletedMessages
          (s.trace ++ (contexts.map Event.deletedContext ++ [.deletedMessage msg]))).length =
          (deletedMessages s.trace).length + 1 := by
        simp [deletedMessages]
      refine ⟨?_, by simp [Point.held], h.trace.trans hprefix, ?_, ?_⟩
      · simp only [Point.budget]
        omega
      · simp only [Point.budget]
        rw [hlen]
        omega
      · simp only [Point.budget]
        rw [hlen]
        omega

theorem step (h : Spending s₀ n s) (hn : n < 32768) (hw : Wf s) (hl : Ledger s)
    (hloop : ∀ k, l ≠ .loop k) (hstep : s.step l = .ok t) : Spending s₀ n t := by
  cases hw.stepped hstep with
  | call hruns hperform hpoint htrace heff hwhich hposted hadded =>
      exact h.effect heff hpoint htrace
  | interrupt hpoint hlive htrace heff hes => exact h.effect heff hpoint htrace
  | loop hp => exact (hloop _ rfl).elim
  | ret hp =>
      exact h.move (by rw [hp]; rfl) (fun _ => h.pos (by simp [hp, Point.held])) List.prefix_rfl rfl
  | tau htau => exact h.tauStep hn hw hl hstep htau

end Spending

/-! ## Termination -/

/-- The entries from `p` on. -/
def MQClass.entriesFrom (s : MQClass) (p : Ptr) : ℕ :=
  (follow MessageHandler.pNextHandler s.handlers s.handlers.size p).length

/-- The most statements that a message can take. -/
def MQClass.perMessage (s : MQClass) : ℕ := 3 * s.handlers.size + 5

/-- An upper bound for the statements `Loop` has still to execute. -/
def Machine.statementsLeft (s : Machine) : ℕ :=
  match s.point with
  | .outside => 0
  | .test n => n.toNat * s.mq.perMessage + 1
  | .lookup n _ => (n.toNat - 1) * s.mq.perMessage + 3 * s.mq.handlers.size + 5
  | .walk n _ p => (n.toNat - 1) * s.mq.perMessage + 3 * s.mq.entriesFrom p + 4
  | .running n _ cur => (n.toNat - 1) * s.mq.perMessage + 3 * s.mq.entriesFrom (some cur) + 3
  | .next n _ cur => (n.toNat - 1) * s.mq.perMessage + 3 * s.mq.entriesFrom (some cur) + 2
  | .free n _ => (n.toNat - 1) * s.mq.perMessage + 3
  | .decrement n => (n.toNat - 1) * s.mq.perMessage + 2

theorem MQClass.entriesFrom_eq {s : MQClass} {p : Ptr} {xs : List ℕ}
    (h : Chain MessageHandler.pNextHandler s.handlers p xs) : s.entriesFrom p = xs.length := by
  rw [entriesFrom, h.follow_eq h.length_le_size]

/-- Moving on from an entry leaves one less. -/
theorem MQClass.entriesFrom_next {s : MQClass} (hs : s.Subscriptions) {id : Fin MSG_MAX_MSG_IDS}
    {cur : ℕ} {node : MessageHandler} (hcur : cur ∈ s.nodes id)
    (hnode : s.handlers.get cur = some node) :
    s.entriesFrom (some cur) = s.entriesFrom node.pNextHandler + 1 := by
  obtain ⟨front, back, hsplit⟩ := List.append_of_mem hcur
  have hchain := hs.chain id
  rw [hsplit] at hchain
  obtain ⟨p, -, hback⟩ := chain_append.mp hchain
  obtain ⟨rfl, node', hnode', htail⟩ := chain_cons.mp hback
  rw [hnode] at hnode'
  cases hnode'
  rw [entriesFrom_eq hback, entriesFrom_eq htail, List.length_cons]

theorem MQClass.entriesFrom_queueBlock_le {s : MQClass} (hs : s.Subscriptions)
    (id : Fin MSG_MAX_MSG_IDS) : s.entriesFrom (s.queueBlock id) ≤ s.handlers.size := by
  rw [entriesFrom_eq (hs.chain id)]
  exact (hs.chain id).length_le_size

/-- Outside `Loop`, or if it makes no change to the subscriptions, a call or an interrupt
leaves `Loop` as much to do as it had. -/
theorem statementsLeft_effect (heff : Effect s.mq t.mq es) (hpoint : t.point = s.point)
    (hkeeps : s.point ≠ .outside → ∀ e ∈ es, e.KeepsLists) :
    t.statementsLeft = s.statementsLeft := by
  by_cases hout : s.point = .outside
  · simp [Machine.statementsLeft, hpoint, hout]
  · have hhandlers : t.mq.handlers = s.mq.handlers := by
      cases heff with
      | quiet _ hhandlers _ _ => exact hhandlers
      | appended hhandlers _ _ _ => exact hhandlers
      | pushed _ _ => simp [Event.KeepsLists, hout] at hkeeps
      | removed _ => simp [Event.KeepsLists, hout] at hkeeps
    simp [Machine.statementsLeft, hpoint, MQClass.perMessage, MQClass.entriesFrom, hhandlers]

/-- A statement of `Loop` leaves it less to do. -/
theorem statementsLeft_tauStep (h : Spending s₀ n s) (hn : n < 32768) (hw : Wf s)
    (hc : CursorOk s) (hstep : TauStep s t) : t.statementsLeft + 1 ≤ s.statementsLeft := by
  have hnonneg := h.nonneg
  have hle := h.budget_le
  cases hstep with
  | leave hp => simp [Machine.statementsLeft, hp]
  | @idle k q hp hk hq =>
      rw [hp] at hnonneg
      simp only [Point.budget] at hnonneg
      obtain ⟨j, rfl⟩ : ∃ j : ℕ, k = j + 1 := ⟨k.toNat - 1, by omega⟩
      have hj : ((j : ℤ) + 1).toNat = j + 1 := by omega
      simp only [Machine.statementsLeft, hp, hj, Nat.add_sub_cancel, Nat.add_mul, one_mul]
      simp only [MQClass.perMessage]
      omega
  | @pop k q x xs m hp hk hnodes hq hheap hx hm =>
      rw [hp] at hnonneg
      simp only [Point.budget] at hnonneg
      obtain ⟨j, rfl⟩ : ∃ j : ℕ, k = j + 1 := ⟨k.toNat - 1, by omega⟩
      have hj : ((j : ℤ) + 1).toNat = j + 1 := by omega
      simp only [Machine.statementsLeft, hp, hj, Nat.add_sub_cancel, Nat.add_mul, one_mul]
      simp only [MQClass.perMessage]
      omega
  | @lookup k msg m id hp hm hid =>
      have hbound := MQClass.entriesFrom_queueBlock_le hw.subscriptions id
      simp only [Machine.statementsLeft, hp]
      omega
  | @exhausted k msg hp =>
      have hzero : s.mq.entriesFrom none = 0 := MQClass.entriesFrom_eq (chain_nil.mpr rfl)
      simp only [Machine.statementsLeft, hp, hzero]
      omega
  | call hp hm hnode =>
      simp only [Machine.statementsLeft, hp, MQClass.entriesFrom]
      omega
  | @advance k msg cur node hp hnode =>
      obtain ⟨m, -, id, -, hmem⟩ := hc msg cur (by simp [hp, Point.cursor])
      have hnext := MQClass.entriesFrom_next hw.subscriptions hmem hnode
      simp only [Machine.statementsLeft, hp, hnext]
      omega
  | free hp hm contexts =>
      simp only [Machine.statementsLeft, hp, MQClass.perMessage]
      omega
  | @decrement k hp =>
      rw [hp] at hnonneg hle
      simp only [Point.budget] at hnonneg hle
      have hwrap := Avr.wrap16_of_mem (x := k - 1) (by omega) (by omega)
      have hnat : (k - 1).toNat = k.toNat - 1 := by omega
      simp only [Machine.statementsLeft, hp, hwrap, hnat]
      omega

/-! ## One call of `Loop` -/

/-- `Loop(n)` was called in `s₀` and the machine has arrived in `s`. -/
structure LoopRun (s₀ : Machine) (n : ℤ) (s : Machine) : Prop where
  wf : Wf s
  ledger : Ledger s
  cursor : CursorOk s
  ids : IdsInRange s
  spending : Spending s₀ n s

theorem keepsLists_of_call {c : Call} {rc : ℤ} (hw : Wf s) (hgood : KeepsSubscriptions s (.call c))
    (hperform : s.perform c = .ok (t, rc)) (htrace : t.trace = s.trace ++ es)
    (hout : s.point ≠ .outside) : ∀ e ∈ es, e.KeepsLists := by
  obtain ⟨hsub, huns⟩ := hgood hout
  obtain ⟨-, fs, htrace', -, hwhich, -, hadded⟩ := perform_effect hw hperform
  have hes : es = fs := List.append_cancel_left (htrace.symm.trans htrace')
  subst hes
  intro e he
  cases e with
  | subscribed id x =>
      obtain ⟨f, -, hf⟩ := hadded id x he
      rw [hsub] at hf
      cases hf
  | unsubscribed id x =>
      obtain ⟨f, -, hf⟩ := hwhich id x he
      rw [huns] at hf
      cases hf
  | _ => trivial

theorem LoopRun.step (h : LoopRun s₀ n s) (hn : n < 32768) (hgood : WithinLoop s l)
    (hstep : s.step l = .ok t) :
    LoopRun s₀ n t ∧ t.statementsLeft + (if l.isStatement then 1 else 0) ≤ s.statementsLeft := by
  have hw := h.wf
  obtain ⟨⟨hkeeps, hids⟩, hloop⟩ := hgood
  refine ⟨⟨hw.step hstep, h.ledger.step hw hstep, h.cursor.step hw hkeeps.sparesOwnEntry hstep,
    h.ids.step hw hids hstep, h.spending.step hn hw h.ledger hloop hstep⟩, ?_⟩
  cases hw.stepped hstep with
  | call hruns hperform hpoint htrace heff hwhich hposted hadded =>
      have hlists := keepsLists_of_call hw hkeeps hperform htrace
      simp [Label.isStatement, statementsLeft_effect heff hpoint hlists]
  | @interrupt m alloc t es hpoint hlive htrace heff hes =>
      have hlists : s.point ≠ .outside → ∀ e ∈ es, e.KeepsLists := by
        intro _ e he
        rw [(hes e he).1]
        trivial
      simp [Label.isStatement, statementsLeft_effect heff hpoint hlists]
  | loop hp => exact (hloop _ rfl).elim
  | ret hp =>
      simp only [Label.isStatement, if_true, Machine.statementsLeft, hp]
      omega
  | tau htau => exact statementsLeft_tauStep h.spending hn hw h.cursor htau

theorem loopRun_loop (hw : Wf s) (hl : Ledger s) (hi : IdsInRange s) (hp : s.point = .outside)
    (hn : 0 ≤ n) : LoopRun s n { s with point := .test n } where
  wf := ⟨hw.subscriptions, hw.rep, by simp [Point.held]⟩
  ledger := hl.silent ⟨rfl, rfl, rfl⟩ (by simp [Point.held, hp]) rfl
  cursor := by simp [CursorOk, Point.cursor]
  ids := ⟨hi.queued, by simp [Point.held]⟩
  spending := spending_loop s hn

/-- `Loop` has a next statement, or the handler it has called may return. -/
theorem LoopRun.exists_step (h : LoopRun s₀ n s) (hp : s.point ≠ .outside) :
    ∃ l t, l.isStatement = true ∧ s.step l = .ok t := by
  by_cases hrunning : ∃ k msg cur, s.point = .running k msg cur
  · obtain ⟨k, msg, cur, hrun⟩ := hrunning
    exact ⟨.ret, { s with point := .next k msg cur }, rfl, by simp [Machine.step, hrun]⟩
  · have hruns : s.callerRuns = false := by
      cases hpoint : s.point <;> simp_all [Machine.callerRuns]
    obtain ⟨t, ht⟩ := exists_tau h.wf h.cursor h.ids hruns
    exact ⟨.tau, t, rfl, ht⟩

/-- What `Loop(n)` has dispatched so far comes from the queue it found, in order, and then
from what was posted since; when it returns it has dispatched as much of that queue as
`n` allows. -/
theorem LoopRun.dispatched (h : LoopRun s₀ n s) (hl₀ : Ledger s₀) (hp₀ : s₀.point.held = none) :
    ∃ ms posted, poppedMessages s.trace = poppedMessages s₀.trace ++ ms ∧
      postedMessages s.trace = postedMessages s₀.trace ++ posted ∧
      ms <+: s₀.mq.queue.contents ++ posted ∧ (ms.length : ℤ) ≤ n ∧
      (s.point = .outside → s₀.mq.queue.contents.take n.toNat <+: ms) := by
  obtain ⟨ms, hms⟩ := poppedMessages_isPrefix h.spending.trace
  obtain ⟨posted, hposted⟩ := postedMessages_isPrefix h.spending.trace
  have hcontents := hl₀.contents
  have hprefix : ms <+: s₀.mq.queue.contents ++ posted := by
    have hpopped := h.ledger.popped
    rw [← hms, ← hposted] at hpopped
    rw [hcontents, ← List.drop_append_of_le_length hl₀.popped_le]
    obtain ⟨rest, hrest⟩ := hpopped
    rw [← hrest, List.append_assoc, List.drop_left]
    exact List.prefix_append _ _
  have hlen₀ := congrArg List.length (hl₀.not_held hp₀)
  rw [List.length_range] at hlen₀
  have hlen : (poppedMessages s.trace).length = (poppedMessages s₀.trace).length + ms.length := by
    rw [← hms, List.length_append]
  have hspent := h.spending.spent
  refine ⟨ms, posted, hms.symm, hposted.symm, hprefix, ?_, fun hout => ?_⟩
  · cases hheld : s.point.held with
    | none =>
        have hdeleted := congrArg List.length (h.ledger.not_held hheld)
        have hnonneg := h.spending.nonneg
        rw [List.length_range] at hdeleted
        omega
    | some msg =>
        obtain ⟨ms', m, hpopped, -, hdeleted, -⟩ := h.ledger.held hheld
        have hpos := h.spending.pos (by simp [hheld])
        have hlen' := congrArg List.length hdeleted
        rw [hpopped, List.length_append, List.length_singleton] at hlen
        rw [List.length_range] at hlen'
        omega
  · have hdeleted := congrArg List.length (h.ledger.not_held (by rw [hout]; rfl))
    rw [List.length_range] at hdeleted
    have hdrained := h.spending.drained
    rw [hout] at hdrained
    simp only [Point.budget] at hdrained
    have hqueue : s₀.mq.queue.contents.length =
        (postedMessages s₀.trace).length - (poppedMessages s₀.trace).length := by
      rw [hcontents, List.length_drop]
    apply List.prefix_of_prefix_length_le _ hprefix
    · rw [List.length_take]
      omega
    · exact (List.take_prefix _ _).trans (List.prefix_append _ _)

end EmbeddedKernel.Mq
