import EmbeddedKernel.Mq.Matching

/-!
# The statements of `Subscribe` and `Unsubscribe` are matched

The walks over a subscription list change nothing, so the whole call is matched at the
statement that links or unlinks a node, or at the one that finds it has failed.
-/

namespace EmbeddedKernel.Mq.Statements

open Library HeapSections Interleaving

/-! ## Statements of `Subscribe` and `Unsubscribe` -/

section Call

variable {s : System} {a : Recorded} {handlers : Heap MessageHandler}
  {queueBlock : Fin MSG_MAX_MSG_IDS → Ptr} {call : CallPoint} {op : Option HeapOp}

/-- The state after a statement of `Subscribe` or `Unsubscribe`. -/
def System.afterCall (s : System) (handlers : Heap MessageHandler)
    (queueBlock : Fin MSG_MAX_MSG_IDS → Ptr) (call : CallPoint) (op : Option HeapOp) :
    HeapSections.System :=
  { s.sections with handlers := handlers, queueBlock := queueBlock, call := call, heapOp := op }

theorem Control.afterCall (h : Control s) (hcall : s.sections.call ≠ .outside) :
    Control (s.taskStep (s.afterCall handlers queueBlock call op)) where
  masked := h.masked
  budget := h.budget
  caller := fun _ => h.caller (Or.inl hcall)
  single := fun _ => h.single hcall
  walk := h.walk

/-- What a statement of `Subscribe` or `Unsubscribe` records. -/
theorem taskStep_call (handlers : Heap MessageHandler) (queueBlock : Fin MSG_MAX_MSG_IDS → Ptr)
    (call : CallPoint) (op : Option HeapOp) :
    s.taskStep (s.afterCall handlers queueBlock call op) =
      { s with
        sections := s.afterCall handlers queueBlock call op
        trace := s.trace ++ callEvents s.sections.call call
        taskResults := s.taskResults ++ callResults s.sections.call call } := by
  have hadded : added s.sections (s.afterCall handlers queueBlock call op) = [] := added_of_eq rfl
  have hfree : freeEvents s.sections (s.afterCall handlers queueBlock call op) = [] :=
    freeEvents_of_loop_eq rfl
  simp only [System.taskStep, hadded, hfree]
  simp [queueEvents, returnedValues, System.afterCall]

/-- A statement of `Subscribe` or `Unsubscribe` that the atomic machine does not see. -/
theorem Matches.call_silent (h : Matches s a) (hcall : s.sections.call ≠ .outside)
    (hlists : ListsMatch (s.afterCall handlers queueBlock call op) a.machine.mq)
    (hevents : callEvents s.sections.call call = [])
    (hresult : callResults s.sections.call call ++ callPending call =
      callPending s.sections.call) :
    Matches (s.taskStep (s.afterCall handlers queueBlock call op)) a := by
  have hstep := taskStep_call (s := s) handlers queueBlock call op
  refine ⟨h.wf, h.flag, h.control.afterCall hcall, h.queue, hlists, h.point, h.live, ?_, ?_, ?_⟩
  · rw [hstep, hevents, h.trace, List.append_nil]
  · rw [hstep, h.interruptResults]
  · rw [hstep, h.taskResults]
    simp only [System.pendingResults, System.afterCall, ← hresult, List.append_assoc]

/-- The statement of `Subscribe` or `Unsubscribe` that takes effect. -/
theorem Matches.call_effect {b : MQClass} {rc : ℤ} {c : Call} {es : List Event} (h : Matches s a)
    (hcall : s.sections.call ≠ .outside)
    (hperform : a.machine.perform c =
      .ok ({ a.machine with mq := b, trace := a.machine.trace ++ es }, rc))
    (hreturns : returns c rc = [rc]) (hqueue : b.queue = a.machine.mq.queue)
    (hlists : ListsMatch (s.afterCall handlers queueBlock call op) b)
    (hevents : callEvents s.sections.call call = es)
    (hbefore : callPending s.sections.call = [])
    (hresult : callResults s.sections.call call ++ callPending call = [rc]) :
    ∃ b, Reaches Recorded.step (fun _ _ => True) a b ∧
      Matches (s.taskStep (s.afterCall handlers queueBlock call op)) b := by
  have hstep := taskStep_call (s := s) handlers queueBlock call op
  have hb := Recorded.step_call (h.callerRuns (Or.inl hcall)) hperform
  have hpost := h.control.single hcall
  refine ⟨_, .single hb, h.wf.step (Recorded.step_machine hb), ?_,
    h.control.afterCall hcall, ?_, hlists, h.point, h.live, ?_, ?_, ?_⟩
  · exact (congrArg MsgQueue.masterInterrupts hqueue).trans h.flag
  · exact hqueue ▸ h.queue
  · rw [hstep, hevents, ← h.trace]
  · rw [hstep, ← h.interruptResults]
  · have hpending := h.taskResults
    simp only [System.pendingResults, hbefore, hpost, postPending, List.append_nil] at hpending
    rw [hstep, hpending, hreturns]
    simp only [System.pendingResults, System.afterCall, hpost, postPending, List.append_nil,
      List.append_assoc, hresult]

/-! ### The calls of the atomic machine -/

/-- The overload of `Subscribe` for an entry. -/
def subscribeCall : Handler → ℤ → Bool → Call
  | .mhFunction f, msgid, alloc => .subscribeFunction msgid f alloc
  | .mhClass r, msgid, alloc => .subscribeReceiver msgid r alloc

/-- The overload of `Unsubscribe` for an entry. -/
def unsubscribeCall : Handler → ℤ → Call
  | .mhFunction f, msgid => .unsubscribeFunction msgid f
  | .mhClass r, msgid => .unsubscribeReceiver msgid r

/-- The kind of node an overload makes. -/
def entryOf : Handler → Addr → Handler
  | .mhFunction _ => .mhFunction
  | .mhClass _ => .mhClass

theorem entryOf_addr (h : Handler) : entryOf h h.addr = h := by
  cases h <;> rfl

theorem perform_subscribe {m : Machine} {mq : MQClass} {h : Handler} {msgid rc : ℤ} {alloc : Bool}
    (hsub : MQClass.subscribeHandler (entryOf h) m.mq msgid h.addr alloc = .ok (mq, rc)) :
    m.perform (subscribeCall h msgid alloc) =
      .ok ({ m with
        mq := mq, trace := m.trace ++ Machine.subscribedEvents m.mq msgid rc }, rc) := by
  cases h with
  | mhFunction f =>
      have hfun : m.mq.subscribeFunction msgid f alloc = .ok (mq, rc) := hsub
      simp [subscribeCall, Machine.perform, hfun]
  | mhClass r =>
      have hrec : m.mq.subscribeReceiver msgid r alloc = .ok (mq, rc) := hsub
      simp [subscribeCall, Machine.perform, hrec]

theorem perform_unsubscribe {m : Machine} {mq : MQClass} {h : Handler} {msgid rc : ℤ}
    (huns : m.mq.unsubscribeHandler msgid h.addr = .ok (mq, rc)) :
    m.perform (unsubscribeCall h msgid) =
      .ok ({ m with
        mq := mq, trace := m.trace ++ Machine.unsubscribedEvents m.mq msgid h.addr }, rc) := by
  cases h with
  | mhFunction f =>
      have hfun : m.mq.unsubscribeFunction msgid f = .ok (mq, rc) := huns
      simp [unsubscribeCall, Machine.perform, hfun, Handler.addr]
  | mhClass r =>
      have hrec : m.mq.unsubscribeReceiver msgid r = .ok (mq, rc) := huns
      simp [unsubscribeCall, Machine.perform, hrec, Handler.addr]

theorem returns_subscribe (h : Handler) (msgid rc : ℤ) (alloc : Bool) :
    returns (subscribeCall h msgid alloc) rc = [rc] := by
  cases h <;> rfl

theorem returns_unsubscribe (h : Handler) (msgid rc : ℤ) :
    returns (unsubscribeCall h msgid) rc = [rc] := by
  cases h <;> rfl

/-! ### The walks -/

variable {mq : MQClass} {id : Fin MSG_MAX_MSG_IDS} {handler : Addr} {front back : List ℕ}
  {p : ℕ} {node : MessageHandler}

theorem Passed.start (mq : MQClass) (id : Fin MSG_MAX_MSG_IDS) (handler : Addr) :
    Passed mq id handler [] (mq.nodes id) :=
  ⟨rfl, by simp⟩

/-- The walk goes past an entry with another address. -/
theorem Passed.next (h : Passed mq id handler front (p :: back)) (hs : mq.Subscriptions)
    (hnode : mq.handlers.get p = some node)
    (hcheck : ¬node.handler.checkHandler handler = true) :
    Passed mq id handler (front ++ [p]) back ∧ node.pNextHandler = back.head? := by
  refine ⟨⟨by simp [h.nodes], fun x hx => ?_⟩, ?_⟩
  · rcases List.mem_append.mp hx with hx | hx
    · exact h.absent x hx
    · rw [List.mem_singleton.mp hx]
      simpa [MQClass.matchesAddr, MQClass.handlerAt, hnode] using hcheck
  · have hchain := hs.chain id
    rw [h.nodes] at hchain
    exact hchain.nxt_eq_head? hnode

theorem Passed.all (h : Passed mq id handler front []) :
    Passed mq id handler (mq.nodes id) [] := by
  have hfront : front = mq.nodes id := by simp [h.nodes]
  exact hfront ▸ h

theorem Passed.absent_entries (h : Passed mq id handler (mq.nodes id) []) :
    ∀ e ∈ mq.entries id, e.addr ≠ handler := by
  intro e he haddr
  obtain ⟨x, hx, hxe⟩ := MQClass.mem_entries.mp he
  have hno := h.absent x hx
  simp [MQClass.matchesAddr, hxe, Handler.checkHandler_iff.mpr haddr] at hno

theorem Passed.mem (h : Passed mq id handler front (p :: back)) : p ∈ mq.nodes id := by
  rw [h.nodes]
  simp

theorem Passed.find (h : Passed mq id handler front (p :: back))
    (hmatch : mq.matchesAddr handler p = true) :
    (mq.nodes id).find? (mq.matchesAddr handler) = some p := by
  rw [h.nodes, List.find?_eq_some_iff_append]
  exact ⟨hmatch, front, back, rfl, by simpa using h.absent⟩

/-- The call that the walk ends with, at the entry with the address. -/
theorem Passed.unsubscribe (h : Passed mq id handler front (p :: back)) (hs : mq.Subscriptions)
    (hnode : mq.handlers.get p = some node) (hmatch : mq.matchesAddr handler p = true) :
    mq.unsubscribeHandler (id : ℕ) handler =
        .ok (mq.unlink id front.getLast? p node.pNextHandler, 0) ∧
      Machine.unsubscribedEvents mq (id : ℕ) handler = [.unsubscribed id p] := by
  have hlt : ((id : ℕ) : ℤ) < MSG_MAX_MSG_IDS := by exact_mod_cast id.isLt
  have hchain := hs.chain id
  have hlen := hchain.length_le_size
  rw [h.nodes] at hchain hlen
  have hcheck : node.handler.checkHandler handler = true := by
    simpa [MQClass.matchesAddr, MQClass.handlerAt, hnode] using hmatch
  have hwalk := MQClass.unlinkHandler_present id [] hchain hlen h.absent hnode hcheck
  refine ⟨by simpa [MQClass.unsubscribeHandler, hlt, MQClass.index_ok] using hwalk, ?_⟩
  simp [Machine.unsubscribedEvents, MQClass.index_ok, h.find hmatch]

theorem subscribedEvents_failed (mq : MQClass) (msgid : ℤ) :
    Machine.subscribedEvents mq msgid (-1) = [] := by
  cases hi : MQClass.index msgid <;> simp [Machine.subscribedEvents, hi]

/-- A `Subscribe` that fails is a failed `Subscribe` of the atomic machine. -/
theorem Matches.subscribe_failed (hm : Matches s a) (h : Handler) (msgid : ℤ) (alloc : Bool)
    (hcall : s.sections.call ≠ .outside) (hbefore : callPending s.sections.call = [])
    (hresult : callResults s.sections.call (.ret (-1)) = [])
    (hevents : callEvents s.sections.call (.ret (-1)) = [])
    (hsame : SameLists s.sections a.machine.mq)
    (hfail : MQClass.subscribeHandler (entryOf h) a.machine.mq msgid h.addr alloc =
      .ok (a.machine.mq, -1)) :
    ∃ b, Reaches Recorded.step (fun _ _ => True) a b ∧
      Matches (s.taskStep (s.afterCall s.sections.handlers s.sections.queueBlock (.ret (-1)) op))
        b := by
  refine hm.call_effect hcall (perform_subscribe hfail) (returns_subscribe h msgid (-1) alloc) rfl
    hsame ?_ hbefore ?_
  · rw [hevents, subscribedEvents_failed]
  · rw [hresult]
    rfl

/-- An `Unsubscribe` that fails is a failed `Unsubscribe` of the atomic machine. -/
theorem Matches.unsubscribe_failed (hm : Matches s a) (h : Handler) (msgid : ℤ)
    (hcall : s.sections.call ≠ .outside) (hbefore : callPending s.sections.call = [])
    (hresult : callResults s.sections.call (.ret (-1)) = [])
    (hevents : callEvents s.sections.call (.ret (-1)) = [])
    (hsame : SameLists s.sections a.machine.mq)
    (hnone : Machine.unsubscribedEvents a.machine.mq msgid h.addr = [])
    (hfail : a.machine.mq.unsubscribeHandler msgid h.addr = .ok (a.machine.mq, -1)) :
    ∃ b, Reaches Recorded.step (fun _ _ => True) a b ∧
      Matches (s.taskStep (s.afterCall s.sections.handlers s.sections.queueBlock (.ret (-1)) op))
        b := by
  refine hm.call_effect hcall (perform_unsubscribe hfail) (returns_unsubscribe h msgid (-1)) rfl
    hsame ?_ hbefore ?_
  · rw [hevents, hnone]
  · rw [hresult]
    rfl

/-! ### The statements -/

variable {t : HeapSections.System} {alloc : Bool}

/-- The guard of `Subscribe`. -/
theorem Matches.call_subscribe {msgid : ℤ} {k : Handler} (h : Matches s a)
    (hc : s.sections.call = .subscribe msgid k) (hstep : s.sections.callStatement alloc = .ok t) :
    ∃ b, Reaches Recorded.step (fun _ _ => True) a b ∧ Matches (s.taskStep t) b := by
  have hs := h.wf.subscriptions
  have hcall : s.sections.call ≠ .outside := by simp [hc]
  have hlists := h.lists
  simp only [ListsMatch, hc] at hlists
  simp only [HeapSections.System.callStatement, hc] at hstep
  split_ifs at hstep with hguard
  · obtain ⟨id, hid, heq⟩ := bind_eq_ok.mp hstep
    cases heq
    refine ⟨a, .start, ?_⟩
    apply h.call_silent hcall
    · refine ⟨hlists, hguard.2, [], _, Passed.start _ id _, ?_⟩
      rw [hlists.2]
      exact (hs.chain id).head?_eq
    · simp [hc, callEvents]
    · simp [hc, callResults, callPending]
  · cases hstep
    refine h.subscribe_failed k msgid true hcall (by simp [hc, callPending])
      (by simp [hc, callResults]) (by simp [hc, callEvents]) hlists ?_
    simp [MQClass.subscribeHandler, hguard]

/-- One turn of the walk of `Subscribe`. -/
theorem Matches.call_findHandler {k : Handler} {p : Ptr} (h : Matches s a)
    (hc : s.sections.call = .findHandler id k p) (hstep : s.sections.callStatement alloc = .ok t) :
    ∃ b, Reaches Recorded.step (fun _ _ => True) a b ∧ Matches (s.taskStep t) b := by
  have hs := h.wf.subscriptions
  have hcall : s.sections.call ≠ .outside := by simp [hc]
  have hlists := h.lists
  simp only [ListsMatch, hc] at hlists
  obtain ⟨hsame, hne, front, back, hpassed, rfl⟩ := hlists
  cases back with
  | nil =>
      simp only [HeapSections.System.callStatement, hc, List.head?_nil] at hstep
      cases hstep
      refine ⟨a, .start, ?_⟩
      apply h.call_silent hcall
      · exact ⟨hsame, hne, hpassed.all⟩
      · simp [hc, callEvents]
      · simp [hc, callResults, callPending]
  | cons p back =>
      simp only [HeapSections.System.callStatement, hc, List.head?_cons] at hstep
      obtain ⟨node, hnode, hstep⟩ := bind_eq_ok.mp hstep
      rw [hsame.1] at hnode
      split_ifs at hstep with hcheck
      · cases hstep
        refine h.subscribe_failed k (id : ℕ) true hcall (by simp [hc, callPending])
          (by simp [hc, callResults]) (by simp [hc, callEvents]) hsame ?_
        have hat : a.machine.mq.handlerAt p = some node.handler := by
          simp [MQClass.handlerAt, Heap.get_of_deref hnode]
        exact MQClass.subscribe_of_present hs _ true
          ⟨node.handler, MQClass.mem_entries.mpr ⟨p, hpassed.mem, hat⟩,
            Handler.checkHandler_iff.mp hcheck⟩
      · cases hstep
        obtain ⟨hnext, hhead⟩ := hpassed.next hs (Heap.get_of_deref hnode) hcheck
        refine ⟨a, .start, ?_⟩
        apply h.call_silent hcall
        · exact ⟨hsame, hne, _, _, hnext, hhead⟩
        · simp [hc, callEvents]
        · simp [hc, callResults, callPending]

/-- The `new` of `Subscribe`, whose beginning is a statement of its own. -/
theorem Matches.call_newHandler {k : Handler} (h : Matches s a)
    (hc : s.sections.call = .newHandler id k) (hstep : s.sections.callStatement alloc = .ok t) :
    ∃ b, Reaches Recorded.step (fun _ _ => True) a b ∧ Matches (s.taskStep t) b := by
  have hs := h.wf.subscriptions
  have hcall : s.sections.call ≠ .outside := by simp [hc]
  have hlists := h.lists
  simp only [ListsMatch, hc] at hlists
  obtain ⟨hsame, hne, hpassed⟩ := hlists
  simp only [HeapSections.System.callStatement, hc] at hstep
  split_ifs at hstep
  · cases hstep
    refine ⟨a, .start, ?_⟩
    rw [← hc]
    apply h.call_silent hcall
    · simpa only [ListsMatch, System.afterCall, hc] using ⟨hsame, hne, hpassed⟩
    · simp [hc, callEvents]
    · simp [hc, callResults, callPending]
  · cases hstep
    refine ⟨a, .start, ?_⟩
    apply h.call_silent hcall
    · refine ⟨hsame.2, by rw [hsame.1], k, hne, hpassed, ?_⟩
      simp [System.afterCall, hsame.1, hsame.2]
    · simp [hc, callEvents]
    · simp [hc, callResults, callPending]
  · cases hstep
    exact h.subscribe_failed k (id : ℕ) false hcall (by simp [hc, callPending])
      (by simp [hc, callResults]) (by simp [hc, callEvents]) hsame
      (MQClass.subscribe_of_noAlloc hs _)

/-- `Subscribe` takes effect when the node is linked. -/
theorem Matches.call_linkHandler (h : Matches s a)
    (hc : s.sections.call = .linkHandler id p) (hstep : s.sections.callStatement alloc = .ok t) :
    ∃ b, Reaches Recorded.step (fun _ _ => True) a b ∧ Matches (s.taskStep t) b := by
  have hs := h.wf.subscriptions
  have hcall : s.sections.call ≠ .outside := by simp [hc]
  have hlists := h.lists
  simp only [ListsMatch, hc] at hlists
  obtain ⟨hblock, rfl, k, hne, hpassed, hnew⟩ := hlists
  simp only [HeapSections.System.callStatement, hc] at hstep
  cases hstep
  have hsub := MQClass.subscribe_of_absent hs (entryOf k) hne hpassed.absent_entries
  rw [entryOf_addr] at hsub
  refine h.call_effect hcall (perform_subscribe hsub) (returns_subscribe k _ 0 true) rfl ?_ ?_
    (by simp [hc, callPending]) (by simp [hc, callResults, callPending])
  · exact ⟨hnew, by rw [MQClass.push, hblock]; rfl⟩
  · simp [hc, callEvents, Machine.subscribedEvents, MQClass.index_ok]

/-- The guard of `Unsubscribe`. -/
theorem Matches.call_unsubscribe {msgid : ℤ} {k : Handler} (h : Matches s a)
    (hc : s.sections.call = .unsubscribe msgid k) (hstep : s.sections.callStatement alloc = .ok t) :
    ∃ b, Reaches Recorded.step (fun _ _ => True) a b ∧ Matches (s.taskStep t) b := by
  have hs := h.wf.subscriptions
  have hcall : s.sections.call ≠ .outside := by simp [hc]
  have hlists := h.lists
  simp only [ListsMatch, hc] at hlists
  simp only [HeapSections.System.callStatement, hc] at hstep
  split_ifs at hstep with hguard
  · obtain ⟨id, hid, heq⟩ := bind_eq_ok.mp hstep
    cases heq
    refine ⟨a, .start, ?_⟩
    apply h.call_silent hcall
    · refine ⟨hlists, [], _, Passed.start _ id _, ?_, rfl⟩
      rw [hlists.2]
      exact (hs.chain id).head?_eq
    · simp [hc, callEvents]
    · simp [hc, callResults, callPending]
  · cases hstep
    refine h.unsubscribe_failed k msgid hcall (by simp [hc, callPending])
      (by simp [hc, callResults]) (by simp [hc, callEvents]) hlists ?_ ?_
    · simp [Machine.unsubscribedEvents, MQClass.index_error msgid (by omega)]
    · simp [MQClass.unsubscribeHandler, hguard]

/-- One turn of the walk of `Unsubscribe`. -/
theorem Matches.call_findEntry {k : Handler} {p prev : Ptr} (h : Matches s a)
    (hc : s.sections.call = .findEntry id k p prev)
    (hstep : s.sections.callStatement alloc = .ok t) :
    ∃ b, Reaches Recorded.step (fun _ _ => True) a b ∧ Matches (s.taskStep t) b := by
  have hs := h.wf.subscriptions
  have hcall : s.sections.call ≠ .outside := by simp [hc]
  have hlists := h.lists
  simp only [ListsMatch, hc] at hlists
  obtain ⟨hsame, front, back, hpassed, rfl, rfl⟩ := hlists
  cases back with
  | nil =>
      simp only [HeapSections.System.callStatement, hc, List.head?_nil] at hstep
      cases hstep
      have habsent := hpassed.all.absent_entries
      refine h.unsubscribe_failed k (id : ℕ) hcall (by simp [hc, callPending])
        (by simp [hc, callResults]) (by simp [hc, callEvents]) hsame ?_
        (MQClass.unsubscribe_of_absent hs habsent)
      simp [Machine.unsubscribedEvents, MQClass.index_ok,
        (MQClass.find_eq_none_iff k.addr hs).mpr habsent]
  | cons p back =>
      simp only [HeapSections.System.callStatement, hc, List.head?_cons] at hstep
      obtain ⟨node, hnode, hstep⟩ := bind_eq_ok.mp hstep
      rw [hsame.1] at hnode
      split_ifs at hstep with hcheck
      · cases hstep
        refine ⟨a, .start, ?_⟩
        apply h.call_silent hcall
        · refine ⟨hsame, k, front, back, hpassed, ?_, rfl⟩
          simpa [MQClass.matchesAddr, MQClass.handlerAt, Heap.get_of_deref hnode] using hcheck
        · simp [hc, callEvents]
        · simp [hc, callResults, callPending]
      · cases hstep
        obtain ⟨hnext, hhead⟩ := hpassed.next hs (Heap.get_of_deref hnode) hcheck
        refine ⟨a, .start, ?_⟩
        apply h.call_silent hcall
        · exact ⟨hsame, _, _, hnext, hhead, by simp⟩
        · simp [hc, callEvents]
        · simp [hc, callResults, callPending]

/-- `Unsubscribe` takes effect when the node is taken out of the list. -/
theorem Matches.call_unlink {prev : Ptr} (h : Matches s a)
    (hc : s.sections.call = .unlink id p prev) (hstep : s.sections.callStatement alloc = .ok t) :
    ∃ b, Reaches Recorded.step (fun _ _ => True) a b ∧ Matches (s.taskStep t) b := by
  have hs := h.wf.subscriptions
  have hcall : s.sections.call ≠ .outside := by simp [hc]
  have hlists := h.lists
  simp only [ListsMatch, hc] at hlists
  obtain ⟨hsame, k, front, back, hpassed, hmatch, rfl⟩ := hlists
  obtain ⟨node, hnode⟩ := (hs.chain id).get_of_mem hpassed.mem
  obtain ⟨huns, hevents⟩ := hpassed.unsubscribe hs hnode hmatch
  have hderef : s.sections.handlers.deref (some p) = .ok node := by
    rw [hsame.1]
    exact Heap.deref_some hnode
  have heffect : ∀ handlers queueBlock,
      ListsMatch (s.afterCall handlers queueBlock (.deleteHandler p) s.sections.heapOp)
        (a.machine.mq.unlink id front.getLast? p node.pNextHandler) →
      ∃ b, Reaches Recorded.step (fun _ _ => True) a b ∧
        Matches (s.taskStep (s.afterCall handlers queueBlock (.deleteHandler p)
          s.sections.heapOp)) b := by
    intro handlers queueBlock hmatches
    refine h.call_effect hcall (perform_unsubscribe huns) (returns_unsubscribe k _ 0)
      (MQClass.unlink_queue id _ p _) hmatches ?_ (by simp [hc, callPending])
      (by simp [hc, callResults, callPending])
    rw [hevents, hc]
    rfl
  cases hlast : front.getLast? with
  | none =>
      simp only [HeapSections.System.callStatement, hc, hlast, hderef, ok_bind] at hstep
      cases hstep
      apply heffect
      simp [ListsMatch, System.afterCall, MQClass.unlink, hlast, hsame.1, hsame.2]
  | some prev =>
      simp only [HeapSections.System.callStatement, hc, hlast, hderef, ok_bind] at hstep
      cases hstep
      apply heffect
      simp [ListsMatch, System.afterCall, MQClass.unlink, hlast, hsame.1, hsame.2]

theorem Matches.call_deleteHandler (h : Matches s a)
    (hc : s.sections.call = .deleteHandler p) (hstep : s.sections.callStatement alloc = .ok t) :
    ∃ b, Reaches Recorded.step (fun _ _ => True) a b ∧ Matches (s.taskStep t) b := by
  have hcall : s.sections.call ≠ .outside := by simp [hc]
  have hlists := h.lists
  simp only [ListsMatch, hc] at hlists
  simp only [HeapSections.System.callStatement, hc] at hstep
  split_ifs at hstep
  · cases hstep
    refine ⟨a, .start, ?_⟩
    rw [← hc]
    apply h.call_silent hcall
    · simpa only [ListsMatch, System.afterCall, hc] using hlists
    · simp [hc, callEvents]
    · simp [hc, callResults, callPending]
  · cases hstep
    refine ⟨a, .start, ?_⟩
    apply h.call_silent hcall
    · exact ⟨hlists.1.symm, hlists.2.symm⟩
    · simp [hc, callEvents]
    · simp [hc, callResults, callPending]

theorem Matches.call_ret {rc : ℤ} (h : Matches s a)
    (hc : s.sections.call = .ret rc) (hstep : s.sections.callStatement alloc = .ok t) :
    ∃ b, Reaches Recorded.step (fun _ _ => True) a b ∧ Matches (s.taskStep t) b := by
  have hcall : s.sections.call ≠ .outside := by simp [hc]
  have hlists := h.lists
  simp only [ListsMatch, hc] at hlists
  simp only [HeapSections.System.callStatement, hc] at hstep
  cases hstep
  refine ⟨a, .start, ?_⟩
  apply h.call_silent hcall
  · exact hlists
  · simp [hc, callEvents]
  · simp [hc, callResults, callPending]

/-- Every statement of `Subscribe` and `Unsubscribe` is matched. -/
theorem Matches.callStatement (h : Matches s a) (hcall : s.sections.call ≠ .outside)
    (hstep : s.sections.callStatement alloc = .ok t) :
    ∃ b, Reaches Recorded.step (fun _ _ => True) a b ∧ Matches (s.taskStep t) b := by
  cases hc : s.sections.call with
  | outside => exact (hcall hc).elim
  | subscribe msgid k => exact h.call_subscribe hc hstep
  | findHandler id k p => exact h.call_findHandler hc hstep
  | newHandler id k => exact h.call_newHandler hc hstep
  | linkHandler id p => exact h.call_linkHandler hc hstep
  | unsubscribe msgid k => exact h.call_unsubscribe hc hstep
  | findEntry id k p prev => exact h.call_findEntry hc hstep
  | unlink id p prev => exact h.call_unlink hc hstep
  | deleteHandler p => exact h.call_deleteHandler hc hstep
  | ret rc => exact h.call_ret hc hstep

end Call

end EmbeddedKernel.Mq.Statements
