import EmbeddedKernel.Mq.Cursor
import EmbeddedKernel.Mq.MessageIds

/-!
# The message nodes of a run

The message that is posted as number `k` is kept in node `k`.  The queue holds
the messages posted and not popped, in order, and every node that has left the
queue is deleted, apart from the one `Loop` is dispatching.
-/

namespace EmbeddedKernel.Mq

open Library

def poppedMessages (es : List Event) : List Payload :=
  es.filterMap fun
    | .popped m => some m
    | _ => none

def deletedMessages (es : List Event) : List ℕ :=
  es.filterMap fun
    | .deletedMessage k => some k
    | _ => none

def deletedContexts (es : List Event) : List ℕ :=
  es.filterMap fun
    | .deletedContext c => some c
    | _ => none

@[simp] theorem poppedMessages_append (es fs : List Event) :
    poppedMessages (es ++ fs) = poppedMessages es ++ poppedMessages fs := by
  simp [poppedMessages]

@[simp] theorem deletedMessages_append (es fs : List Event) :
    deletedMessages (es ++ fs) = deletedMessages es ++ deletedMessages fs := by
  simp [deletedMessages]

@[simp] theorem deletedContexts_append (es fs : List Event) :
    deletedContexts (es ++ fs) = deletedContexts es ++ deletedContexts fs := by
  simp [deletedContexts]

/-- The event is recorded by a call or an interrupt and not by `Loop`. -/
def Event.OfCaller : Event → Prop
  | .posted _ | .subscribed _ _ | .unsubscribed _ _ | .constructed _ | .destroyed _ => True
  | _ => False

theorem Effect.ofCaller {s t : MQClass} {es : List Event} (h : Effect s t es) {e : Event}
    (he : e ∈ es) : e.OfCaller := by
  cases h with
  | quiet hes _ _ _ =>
      have hquiet := hes e he
      cases e <;> trivial
  | pushed _ _ => simp_all [Event.OfCaller]
  | removed _ => simp_all [Event.OfCaller]
  | appended _ _ _ _ => simp_all [Event.OfCaller]

section Projections

variable {es : List Event} (h : ∀ e ∈ es, e.OfCaller)

include h

theorem filterMap_ofCaller {β : Type*} {f : Event → Option β}
    (hf : ∀ e : Event, e.OfCaller → f e = none) : es.filterMap f = [] :=
  List.filterMap_eq_nil_iff.mpr fun e he => hf e (h e he)

theorem poppedMessages_ofCaller : poppedMessages es = [] :=
  filterMap_ofCaller h fun e he => by cases e <;> first | rfl | exact he.elim

theorem deletedMessages_ofCaller : deletedMessages es = [] :=
  filterMap_ofCaller h fun e he => by cases e <;> first | rfl | exact he.elim

theorem deletedContexts_ofCaller : deletedContexts es = [] :=
  filterMap_ofCaller h fun e he => by cases e <;> first | rfl | exact he.elim

end Projections

/-! ## What posting does to the nodes -/

/-- The nodes of `h'` are those of `h` and, behind them, new ones for the messages `ms`. -/
structure Extends (h h' : Heap Message) (ms : List Payload) : Prop where
  size : h'.size = h.size + ms.length
  get : ∀ k, (h'.get k).map Message.toPayload =
    if k < h.size then (h.get k).map Message.toPayload else ms[k - h.size]?

theorem extends_same (h : Heap Message) : Extends h h [] := by
  refine ⟨rfl, fun k => ?_⟩
  split_ifs with hk
  · rfl
  · have hnone : h.get k = none := by
      cases hg : h.get k with
      | none => rfl
      | some m => exact (hk (Heap.lt_size_of_get hg)).elim
    simp [hnone]

theorem extends_new (h : Heap Message) (m : Payload) :
    Extends h (h.new { m with pNextMsg := none }) [m] := by
  refine ⟨by simp, fun k => ?_⟩
  rw [Heap.get_new]
  rcases lt_trichotomy k h.size with hk | rfl | hk
  · simp [hk, hk.ne]
  · simp
  · have hnone := (extends_same h).get k
    rw [if_neg (by omega)] at hnone
    simp only [hk.ne', if_false, not_lt.mpr hk.le, hnone]
    rw [List.getElem?_eq_none (by simp), List.getElem?_eq_none (by simp; omega)]

theorem Extends.relink {h h' : Heap Message} {ms : List Payload} (hh : Extends h h' ms) (x : ℕ)
    (p : Ptr) : Extends h (h'.modify x fun m => { m with pNextMsg := p }) ms := by
  refine ⟨by simpa using hh.size, fun k => ?_⟩
  rw [← hh.get k, Heap.get_modify]
  split_ifs
  · cases h'.get k <;> rfl
  · rfl

theorem append_extends {q q' : MsgQueue} {m : Payload} {alloc : Bool} {rc : ℤ}
    (h : q.append m alloc = .ok (q', rc)) :
    Extends q.heap q'.heap (postedMessages (Machine.postedEvents m rc)) := by
  rcases MsgQueue.append_eq_ok h with ⟨rfl, rfl⟩ | ⟨rfl, rfl⟩ | ⟨last, rfl, rfl⟩
  · exact extends_same _
  · exact extends_new q.heap m
  · exact (extends_new q.heap m).relink _ _

theorem post_extends {q q' : MsgQueue} {m : Payload} {isIntCtx : MQContext} {alloc : Bool}
    {rc : ℤ} (h : q.post m isIntCtx alloc = .ok (q', rc)) :
    Extends q.heap q'.heap (postedMessages (Machine.postedEvents m rc)) := by
  unfold MsgQueue.post at h
  obtain ⟨⟨q₁, rc₁⟩, happend, heq⟩ := bind_eq_ok.mp h
  cases heq
  have hext := append_extends happend
  cases isIntCtx <;> simpa [MsgQueue.intDisableMasterInterrupts,
    MsgQueue.intEnableMasterInterrupts] using hext

variable {s t : Machine} {l : Label} {es : List Event}

theorem Effect.extends {s t : MQClass} (h : Effect s t es) (hes : postedMessages es = []) :
    Extends s.queue.heap t.queue.heap [] := by
  cases h with
  | quiet _ _ _ hqueue =>
      rw [hqueue.heap]
      exact extends_same _
  | pushed _ ht =>
      subst ht
      exact extends_same _
  | removed hr =>
      rw [hr.queue]
      exact extends_same _
  | appended _ _ _ _ => simp [postedMessages] at hes

/-- A call adds a node for the message it posts. -/
theorem perform_extends {c : Call} {rc : ℤ} (h : s.perform c = .ok (t, rc))
    (htrace : t.trace = s.trace ++ es) (heff : Effect s.mq t.mq es)
    (hposted : ∀ m, Event.posted m ∈ es → c = .post m true) :
    Extends s.mq.queue.heap t.mq.queue.heap (postedMessages es) := by
  by_cases hnil : postedMessages es = []
  · rw [hnil]
    exact heff.extends hnil
  · obtain ⟨m, hm⟩ := List.exists_mem_of_ne_nil _ hnil
    have hc := hposted m (mem_postedMessages.mp hm)
    subst hc
    obtain ⟨⟨q, rc'⟩, hq, hst⟩ := bind_eq_ok.mp h
    cases hst
    rw [List.append_cancel_left htrace.symm]
    exact post_extends hq

theorem interrupt_extends {m : Payload} {alloc : Bool} (h : s.step (.interrupt m alloc) = .ok t)
    (htrace : t.trace = s.trace ++ es) :
    Extends s.mq.queue.heap t.mq.queue.heap (postedMessages es) := by
  simp only [Machine.step] at h
  split_ifs at h
  obtain ⟨⟨q, rc⟩, hq, hst⟩ := bind_eq_ok.mp h
  cases hst
  rw [List.append_cancel_left htrace.symm]
  exact post_extends hq

/-! ## The ledger -/

/-- The nodes of the message heap, told from the trace. -/
structure Ledger (s : Machine) : Prop where
  size : s.mq.queue.heap.size = (postedMessages s.trace).length
  get : ∀ k, (s.mq.queue.heap.get k).map Message.toPayload =
    if k ∈ deletedMessages s.trace then none else (postedMessages s.trace)[k]?
  popped : poppedMessages s.trace <+: postedMessages s.trace
  nodes : s.mq.queue.nodes = List.range' (poppedMessages s.trace).length
    ((postedMessages s.trace).length - (poppedMessages s.trace).length)
  deleted : deletedMessages s.trace ++ s.point.held.toList =
    List.range (poppedMessages s.trace).length

theorem filterMap_getElem?_range' {α : Type*} (xs : List α) {p : ℕ} (hp : p ≤ xs.length) :
    (List.range' p (xs.length - p)).filterMap (fun k => xs[k]?) = xs.drop p := by
  induction xs generalizing p with
  | nil => simp
  | cons x xs ih =>
      cases p with
      | zero =>
          have hrest := ih (Nat.zero_le _)
          rw [List.range'_eq_map_range] at hrest ⊢
          simpa [List.range_succ_eq_map, List.filterMap_map, Function.comp_def] using hrest
      | succ p =>
          have hrest := ih (Nat.le_of_succ_le_succ hp)
          rw [List.range'_eq_map_range] at hrest ⊢
          simpa [List.filterMap_map, Function.comp_def, Nat.add_right_comm] using hrest

theorem ledger_constructed (b : Bool) : Ledger (.constructed b) where
  size := rfl
  get := by simp [Machine.constructed, MQClass.constructed, MsgQueue.constructed, postedMessages]
  popped := List.nil_prefix
  nodes := MsgQueue.nodes_eq rfl
  deleted := rfl

namespace Ledger

theorem deleted_lt (h : Ledger s) {k : ℕ} (hk : k ∈ deletedMessages s.trace) :
    k < (poppedMessages s.trace).length := by
  have hmem : k ∈ deletedMessages s.trace ++ s.point.held.toList := List.mem_append_left _ hk
  rw [h.deleted] at hmem
  exact List.mem_range.mp hmem

theorem popped_le (h : Ledger s) :
    (poppedMessages s.trace).length ≤ (postedMessages s.trace).length :=
  h.popped.length_le

theorem contents (h : Ledger s) :
    s.mq.queue.contents = (postedMessages s.trace).drop (poppedMessages s.trace).length := by
  have hget : ∀ k, k ∈ s.mq.queue.nodes →
      (s.mq.queue.heap.get k).map Message.toPayload = (postedMessages s.trace)[k]? := by
    intro k hk
    rw [h.nodes, List.mem_range'_1] at hk
    rw [h.get, if_neg]
    intro hdel
    exact absurd (h.deleted_lt hdel) (by omega)
  rw [MsgQueue.contents, MsgQueue.payloads, List.filterMap_congr hget, h.nodes]
  exact filterMap_getElem?_range' _ h.popped_le

/-- While a message is in dispatch it is the last one popped. -/
theorem held (h : Ledger s) {msg : ℕ} (hheld : s.point.held = some msg) :
    ∃ ms m, poppedMessages s.trace = ms ++ [m] ∧ msg = ms.length ∧
      deletedMessages s.trace = List.range ms.length ∧
      (postedMessages s.trace)[msg]? = some m := by
  have hdeleted := h.deleted
  rw [hheld, Option.toList_some] at hdeleted
  rcases List.eq_nil_or_concat' (poppedMessages s.trace) with hnil | ⟨ms, m, hms⟩
  · rw [hnil] at hdeleted
    simp at hdeleted
  · rw [hms, List.length_append, List.length_singleton, List.range_succ] at hdeleted
    obtain ⟨hdel, hmsg⟩ := List.append_inj' hdeleted rfl
    have hmsg : msg = ms.length := by simpa using hmsg
    refine ⟨ms, m, hms, hmsg, hdel, ?_⟩
    obtain ⟨rest, hrest⟩ := h.popped
    rw [← hrest, hms, hmsg]
    simp

theorem not_held (h : Ledger s) (hheld : s.point.held = none) :
    deletedMessages s.trace = List.range (poppedMessages s.trace).length := by
  simpa [hheld] using h.deleted

theorem deletedMessages_eq_range (h : Ledger s) :
    deletedMessages s.trace = List.range (deletedMessages s.trace).length := by
  cases hheld : s.point.held with
  | none => rw [h.not_held hheld, List.length_range]
  | some msg =>
      obtain ⟨ms, m, -, -, hdeleted, -⟩ := h.held hheld
      rw [hdeleted, List.length_range]

/-- A step that leaves the messages alone and neither posts, pops nor deletes any. -/
theorem unchanged (h : Ledger s) (hqueue : s.mq.queue.SameMessages t.mq.queue)
    (hheld : t.point.held = s.point.held)
    (hposted : postedMessages t.trace = postedMessages s.trace)
    (hpopped : poppedMessages t.trace = poppedMessages s.trace)
    (hdeleted : deletedMessages t.trace = deletedMessages s.trace) : Ledger t := by
  refine ⟨?_, fun k => ?_, ?_, ?_, ?_⟩
  · rw [hqueue.heap, hposted, h.size]
  · rw [hqueue.heap, hposted, hdeleted, h.get]
  · rw [hposted, hpopped]
    exact h.popped
  · rw [hqueue.nodes, hposted, hpopped, h.nodes]
  · rw [hheld, hpopped, hdeleted, h.deleted]

theorem silent (h : Ledger s) (hqueue : s.mq.queue.SameMessages t.mq.queue)
    (hheld : t.point.held = s.point.held) (htrace : t.trace = s.trace) : Ledger t :=
  h.unchanged hqueue hheld (by rw [htrace]) (by rw [htrace]) (by rw [htrace])

theorem nodes_effect (h : Ledger s) (heff : Effect s.mq t.mq es) :
    t.mq.queue.nodes = List.range' (poppedMessages s.trace).length
      ((postedMessages s.trace ++ postedMessages es).length - (poppedMessages s.trace).length) := by
  cases heff with
  | quiet hes _ _ hqueue => rw [hqueue.nodes, h.nodes, postedMessages_quiet hes, List.append_nil]
  | pushed _ ht =>
      rw [ht]
      simpa [postedMessages, MQClass.push] using h.nodes
  | removed hr =>
      rw [hr.queue]
      simpa [postedMessages] using h.nodes
  | appended _ _ ha _ =>
      have hle := h.popped_le
      have hlen : ∀ m, (postedMessages s.trace ++ postedMessages [Event.posted m]).length -
          (poppedMessages s.trace).length =
          (postedMessages s.trace).length - (poppedMessages s.trace).length + 1 := by
        intro m
        have hone : (postedMessages [Event.posted m]).length = 1 := rfl
        rw [List.length_append, hone]
        omega
      rw [MsgQueue.nodes_eq ha.rep.chain, h.nodes, h.size, hlen, List.range'_concat]
      congr 2
      omega

theorem effect (h : Ledger s) (heff : Effect s.mq t.mq es) (hpoint : t.point = s.point)
    (htrace : t.trace = s.trace ++ es)
    (hext : Extends s.mq.queue.heap t.mq.queue.heap (postedMessages es)) : Ledger t := by
  have hcaller : ∀ e ∈ es, e.OfCaller := fun _ => heff.ofCaller
  have hpopped : poppedMessages t.trace = poppedMessages s.trace := by
    simp [htrace, poppedMessages_ofCaller hcaller]
  have hdeleted : deletedMessages t.trace = deletedMessages s.trace := by
    simp [htrace, deletedMessages_ofCaller hcaller]
  have hposted : postedMessages t.trace = postedMessages s.trace ++ postedMessages es := by
    simp [htrace]
  refine ⟨?_, fun k => ?_, ?_, ?_, ?_⟩
  · rw [hext.size, h.size, hposted, List.length_append]
  · rw [hext.get, h.size, hdeleted, hposted, h.get]
    split_ifs with hk hdel hdel
    · rfl
    · rw [List.getElem?_append_left hk]
    · exact absurd ((h.deleted_lt hdel).trans_le h.popped_le) hk
    · rw [List.getElem?_append_right (not_lt.mp hk)]
  · rw [hpopped, hposted]
    exact h.popped.trans (List.prefix_append _ _)
  · rw [hpopped, hposted]
    exact nodes_effect h heff
  · rw [hpoint, hpopped, hdeleted]
    exact h.deleted

theorem tauStep (h : Ledger s) (htau : TauStep s t) (hw : Wf s) : Ledger t := by
  cases htau with
  | leave hp => exact h.silent ⟨rfl, rfl, rfl⟩ (by simp [Point.held, hp]) rfl
  | idle hp hn hq => exact h.silent hq (by simp [Point.held, hp]) rfl
  | lookup hp hm hid => exact h.silent ⟨rfl, rfl, rfl⟩ (by simp [Point.held, hp]) rfl
  | exhausted hp => exact h.silent ⟨rfl, rfl, rfl⟩ (by simp [Point.held, hp]) rfl
  | advance hp hnode => exact h.silent ⟨rfl, rfl, rfl⟩ (by simp [Point.held, hp]) rfl
  | decrement hp => exact h.silent ⟨rfl, rfl, rfl⟩ (by simp [Point.held, hp]) rfl
  | call hp hm hnode =>
      exact h.unchanged ⟨rfl, rfl, rfl⟩ (by simp [Point.held, hp]) (by simp [postedMessages])
        (by simp [poppedMessages]) (by simp [deletedMessages])
  | @pop n q x xs m hp hn hnodes hq hheap hx hm =>
      have hheld : s.point.held = none := by simp [hp, Point.held]
      have hdel := h.not_held hheld
      -- the first node of the queue has the number of messages popped so far
      have hrange := h.nodes
      rw [hnodes] at hrange
      obtain ⟨k, hk⟩ : ∃ k, (postedMessages s.trace).length -
          (poppedMessages s.trace).length = k + 1 := by
        apply Nat.exists_eq_add_one_of_ne_zero
        intro hzero
        simp [hzero] at hrange
      rw [hk, List.range'_succ, List.cons.injEq] at hrange
      obtain ⟨rfl, rfl⟩ := hrange
      have hposted : (postedMessages s.trace)[(poppedMessages s.trace).length]? =
          some m.toPayload := by
        have hget := h.get (poppedMessages s.trace).length
        rw [hm, hdel, if_neg (by simp)] at hget
        exact hget.symm
      have hprefix : poppedMessages s.trace ++ [m.toPayload] <+: postedMessages s.trace := by
        obtain ⟨rest, hrest⟩ := h.popped
        rw [← hrest] at hposted ⊢
        cases rest with
        | nil => simp at hposted
        | cons a rest =>
            have ha : a = m.toPayload := by simpa using hposted
            rw [ha]
            exact ⟨rest, by simp⟩
      refine ⟨?_, fun j => ?_, ?_, ?_, ?_⟩
      · simpa [postedMessages, hheap] using h.size
      · simpa [postedMessages, deletedMessages, hheap] using h.get j
      · simpa [postedMessages, poppedMessages] using hprefix
      · rw [MsgQueue.nodes_eq hq.chain]
        simp only [poppedMessages_append, postedMessages_append, List.length_append]
        have hone : (poppedMessages [Event.popped m.toPayload]).length = 1 := rfl
        have hzero : (postedMessages [Event.popped m.toPayload]).length = 0 := rfl
        rw [hone, hzero]
        congr 1
        omega
      · simp only [deletedMessages_append, poppedMessages_append, List.length_append, hdel]
        simp [deletedMessages, poppedMessages, Point.held, List.range_succ]
  | @free n msg m hp hm contexts =>
      have hheld : s.point.held = some msg := by simp [hp, Point.held]
      obtain ⟨-, hnot⟩ := hw.held msg hheld
      obtain ⟨hsize, hget, hpopped, hnodes, hdeleted⟩ := h
      have hposted' :
          postedMessages (contexts.map .deletedContext ++ [.deletedMessage msg]) = [] := by
        simp [postedMessages]
      have hpopped' :
          poppedMessages (contexts.map .deletedContext ++ [.deletedMessage msg]) = [] := by
        simp [poppedMessages]
      have hdeleted' :
          deletedMessages (contexts.map .deletedContext ++ [.deletedMessage msg]) = [msg] := by
        simp [deletedMessages]
      have hrep : MsgQueue.Rep { s.mq.queue with heap := s.mq.queue.heap.delete msg }
          s.mq.queue.nodes := ⟨hw.rep.chain.delete_of_notMem hnot, hw.rep.last⟩
      refine ⟨?_, fun j => ?_, ?_, ?_, ?_⟩
      · simpa [hposted'] using hsize
      · simp only [postedMessages_append, deletedMessages_append, hposted', hdeleted',
          Heap.get_delete, List.append_nil]
        by_cases hj : j = msg
        · simp [hj]
        · simpa [hj] using hget j
      · simpa [hposted', hpopped'] using hpopped
      · simp only [postedMessages_append, poppedMessages_append, hposted', hpopped',
          List.append_nil]
        rw [MsgQueue.nodes_eq hrep.chain]
        exact hnodes
      · rw [hheld] at hdeleted
        simpa [hdeleted', hpopped', Point.held] using hdeleted

theorem step (h : Ledger s) (hw : Wf s) (hstep : s.step l = .ok t) : Ledger t := by
  cases hw.stepped hstep with
  | call hruns hperform hpoint htrace heff hwhich hposted hadded =>
      exact h.effect heff hpoint htrace (perform_extends hperform htrace heff hposted)
  | interrupt hpoint hlive htrace heff hes =>
      exact h.effect heff hpoint htrace (interrupt_extends hstep htrace)
  | loop hp => exact h.silent ⟨rfl, rfl, rfl⟩ (by simp [Point.held, hp]) rfl
  | ret hp => exact h.silent ⟨rfl, rfl, rfl⟩ (by simp [Point.held, hp]) rfl
  | tau htau => exact h.tauStep htau hw

end Ledger

theorem reaches_ledger {b : Bool} {good : Machine → Label → Prop}
    (hs : Reaches Machine.step good (.constructed b) s) : Ledger s := by
  have hboth : Wf s ∧ Ledger s := by
    refine hs.invariant (fun s => Wf s ∧ Ledger s) ⟨wf_constructed b, ledger_constructed b⟩ ?_
    rintro s l t ⟨hw, hl⟩ _ hstep
    exact ⟨hw.step hstep, hl.step hw hstep⟩
  exact hboth.2

/-! ## Progress -/

theorem deref_ne_notEnabled {α : Type} (h : Heap α) (p : Ptr) : h.deref p ≠ .error .notEnabled := by
  cases p with
  | none => simp [Heap.deref]
  | some p => cases hp : h.get p <;> simp [Heap.deref, hp]

theorem tau_ne_notEnabled (hw : Wf s) (hruns : s.callerRuns = false) :
    s.tau ≠ .error .notEnabled := by
  intro h
  cases hp : s.point with
  | outside => simp [Machine.callerRuns, hp] at hruns
  | running n msg cur => simp [Machine.callerRuns, hp] at hruns
  | decrement n => simp [Machine.tau, hp] at h
  | test n =>
      simp only [Machine.tau, hp] at h
      split_ifs at h
      cases hnodes : s.mq.queue.nodes with
      | nil => simp [MsgQueue.pop_of_nil (hnodes ▸ hw.rep)] at h
      | cons x xs =>
          obtain ⟨q, hpop, -, hheap, -, -, m, hm⟩ := MsgQueue.pop_of_cons (hnodes ▸ hw.rep)
          simp [hpop, Heap.deref_some (hheap ▸ hm : q.heap.get x = some m)] at h
  | lookup n msg =>
      obtain ⟨⟨m, hm⟩, -⟩ := hw.held msg (by simp [hp, Point.held])
      simp only [Machine.tau, hp, Heap.deref_some hm, ok_bind] at h
      have hidx := bind_eq_error_of_ok h fun _ => ⟨_, rfl⟩
      unfold MQClass.index at hidx
      split_ifs at hidx
      cases hidx
  | walk n msg cur =>
      cases cur with
      | none => simp [Machine.tau, hp] at h
      | some cur =>
          obtain ⟨⟨m, hm⟩, -⟩ := hw.held msg (by simp [hp, Point.held])
          simp only [Machine.tau, hp, Heap.deref_some hm, ok_bind] at h
          exact deref_ne_notEnabled _ _ (bind_eq_error_of_ok h fun _ => ⟨_, rfl⟩)
  | next n msg cur =>
      simp only [Machine.tau, hp] at h
      exact deref_ne_notEnabled _ _ (bind_eq_error_of_ok h fun _ => ⟨_, rfl⟩)
  | free n msg =>
      obtain ⟨⟨m, hm⟩, -⟩ := hw.held msg (by simp [hp, Point.held])
      simp [Machine.tau, hp, Heap.deref_some hm, MsgQueue.deleteMessage] at h

/-- Between the handler calls `Loop` always has a next statement to execute. -/
theorem exists_tau (hw : Wf s) (hc : CursorOk s) (hi : IdsInRange s)
    (hruns : s.callerRuns = false) : ∃ t, s.step .tau = .ok t := by
  cases htau : s.tau with
  | ok t => exact ⟨t, htau⟩
  | error e =>
      rcases tau_error hw hc htau with rfl | ⟨i, rfl⟩
      · exact (tau_ne_notEnabled hw hruns htau).elim
      · exact (hi.tau_ne_badIndex hw i htau).elim

end EmbeddedKernel.Mq
