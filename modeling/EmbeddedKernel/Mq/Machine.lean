import EmbeddedKernel.Mq.Handlers

/-!
# The message queue with its handlers

Tasks and handlers call into the queue, interrupts post, and `MQClass::Loop`
pops messages and walks the subscription list of each.  While the machine is at
`running`, the code of the called handler is in control and may make any calls
before it returns.  The critical sections of `Post` and of the pop are taken as
one step each, as the interleaving model justifies.
-/

namespace EmbeddedKernel.Mq

open Library

/-- A call made by a task or a handler. -/
inductive Call
  | subscribeFunction (msgid : ℤ) (handler : Addr) (alloc : Bool)
  | subscribeReceiver (msgid : ℤ) (handler : Addr) (alloc : Bool)
  | unsubscribeFunction (msgid : ℤ) (handler : Addr)
  | unsubscribeReceiver (msgid : ℤ) (handler : Addr)
  | post (m : Payload) (alloc : Bool)
  | constructReceiver (r : Addr)
  | destroyReceiver (r : Addr)
  deriving DecidableEq

inductive Event
  | called (node : ℕ) (i : Invocation)
  | subscribed (id : Fin MSG_MAX_MSG_IDS) (node : ℕ)
  | unsubscribed (id : Fin MSG_MAX_MSG_IDS) (node : ℕ)
  | posted (m : Payload)
  | popped (m : Payload)
  | deletedContext (context : ℕ)
  | deletedMessage (msg : ℕ)
  | constructed (r : Addr)
  | destroyed (r : Addr)
  deriving DecidableEq

/-- The next statement of `Loop`, with its locals. -/
inductive Point
  | outside
  | test (maxMessages : ℤ)
  | lookup (maxMessages : ℤ) (msg : ℕ)
  | walk (maxMessages : ℤ) (msg : ℕ) (curHandler : Ptr)
  | running (maxMessages : ℤ) (msg curHandler : ℕ)
  | next (maxMessages : ℤ) (msg curHandler : ℕ)
  | free (maxMessages : ℤ) (msg : ℕ)
  | decrement (maxMessages : ℤ)
  deriving DecidableEq

/-- The message `Loop` has popped and not deleted. -/
def Point.held : Point → Ptr
  | .lookup _ msg | .walk _ msg _ | .running _ msg _ | .next _ msg _ | .free _ msg => some msg
  | _ => none

structure Machine where
  mq : MQClass
  point : Point
  live : List Addr
  trace : List Event

inductive Label
  | call (c : Call)
  | interrupt (m : Payload) (alloc : Bool)
  | loop (maxMessages : ℤ)
  | ret
  | tau
  deriving DecidableEq

/-- `EventReceiver::~EventReceiver`, whose body is empty. -/
def eventReceiverDestructor (s : MQClass) : MQClass := s

namespace Machine

def constructed (masterInterrupts : Bool) : Machine :=
  ⟨.constructed masterInterrupts, .outside, [], []⟩

/-- A task outside `Loop` or a handler is running. -/
def callerRuns (s : Machine) : Bool :=
  match s.point with
  | .outside | .running _ _ _ => true
  | _ => false

/-- The entry `Subscribe` has added, for the trace. -/
def subscribedEvents (s : MQClass) (msgid rc : ℤ) : List Event :=
  match MQClass.index msgid with
  | .ok id => if rc = 0 then [.subscribed id s.handlers.size] else []
  | .error _ => []

/-- The entry `Unsubscribe` has deleted, for the trace. -/
def unsubscribedEvents (s : MQClass) (msgid : ℤ) (handler : Addr) : List Event :=
  match MQClass.index msgid with
  | .ok id => (((s.nodes id).find? (s.matchesAddr handler)).map (.unsubscribed id)).toList
  | .error _ => []

def postedEvents (m : Payload) (rc : ℤ) : List Event := if rc = 0 then [.posted m] else []

/-- A call and its return value. -/
def perform (s : Machine) : Call → Except Stop (Machine × ℤ)
  | .subscribeFunction msgid handler alloc => do
      let (mq, rc) ← s.mq.subscribeFunction msgid handler alloc
      .ok ({ s with mq := mq, trace := s.trace ++ subscribedEvents s.mq msgid rc }, rc)
  | .subscribeReceiver msgid handler alloc => do
      let (mq, rc) ← s.mq.subscribeReceiver msgid handler alloc
      .ok ({ s with mq := mq, trace := s.trace ++ subscribedEvents s.mq msgid rc }, rc)
  | .unsubscribeFunction msgid handler => do
      let (mq, rc) ← s.mq.unsubscribeFunction msgid handler
      .ok ({ s with mq := mq, trace := s.trace ++ unsubscribedEvents s.mq msgid handler }, rc)
  | .unsubscribeReceiver msgid handler => do
      let (mq, rc) ← s.mq.unsubscribeReceiver msgid handler
      .ok ({ s with mq := mq, trace := s.trace ++ unsubscribedEvents s.mq msgid handler }, rc)
  | .post m alloc => do
      let (q, rc) ← s.mq.queue.post m .task alloc
      .ok ({ s with mq := { s.mq with queue := q }, trace := s.trace ++ postedEvents m rc }, rc)
  | .constructReceiver r =>
      if r ∈ s.live then .error .notEnabled
      else .ok ({ s with live := r :: s.live, trace := s.trace ++ [.constructed r] }, 0)
  | .destroyReceiver r =>
      if r ∈ s.live then
        .ok ({ s with
          mq := eventReceiverDestructor s.mq
          live := s.live.filter (· ≠ r)
          trace := s.trace ++ [.destroyed r] }, 0)
      else .error .notEnabled

/-- One statement of `Loop`. -/
def tau (s : Machine) : Except Stop Machine :=
  match s.point with
  | .outside => .error .notEnabled
  | .test n =>
      if n = 0 then .ok { s with point := .outside }
      else do
        let (q, msg) ← s.mq.queue.pop
        match msg with
        | none => .ok { s with mq := { s.mq with queue := q }, point := .decrement n }
        | some p => do
            let m ← q.heap.deref (some p)
            .ok { s with
              mq := { s.mq with queue := q }
              point := .lookup n p
              trace := s.trace ++ [.popped m.toPayload] }
  | .lookup n msg => do
      let m ← s.mq.queue.heap.deref (some msg)
      let id ← MQClass.index m.msgid
      .ok { s with point := .walk n msg (s.mq.queueBlock id) }
  | .walk n msg none => .ok { s with point := .free n msg }
  | .walk n msg (some cur) => do
      let m ← s.mq.queue.heap.deref (some msg)
      let node ← s.mq.handlers.deref (some cur)
      .ok { s with
        point := .running n msg cur
        trace := s.trace ++ [.called cur (node.handler.call m.msgid m.context)] }
  | .running _ _ _ => .error .notEnabled
  | .next n msg cur => do
      let node ← s.mq.handlers.deref (some cur)
      .ok { s with point := .walk n msg node.pNextHandler }
  | .free n msg => do
      let m ← s.mq.queue.heap.deref (some msg)
      let q ← s.mq.queue.deleteMessage msg
      let context := if m.callerOwns ≠ .caller then m.context.toList else []
      .ok { s with
        mq := { s.mq with queue := q }
        point := .decrement n
        trace := s.trace ++ context.map .deletedContext ++ [.deletedMessage msg] }
  | .decrement n => .ok { s with point := .test (Avr.wrap16 (n - 1)) }

def step (s : Machine) : Label → Except Stop Machine
  | .call c =>
      if s.callerRuns = true then do
        let (t, _) ← s.perform c
        .ok t
      else .error .notEnabled
  | .interrupt m alloc =>
      if s.mq.queue.masterInterrupts = true then do
        let (q, rc) ← s.mq.queue.post m .interrupt alloc
        .ok { s with mq := { s.mq with queue := q }, trace := s.trace ++ postedEvents m rc }
      else .error .notEnabled
  | .loop n =>
      match s.point with
      | .outside => .ok { s with point := .test n }
      | _ => .error .notEnabled
  | .ret =>
      match s.point with
      | .running n msg cur => .ok { s with point := .next n msg cur }
      | _ => .error .notEnabled
  | .tau => s.tau

end Machine

/-! ## What a call or an interrupt does to the queue -/

def Event.Quiet : Event → Prop
  | .constructed _ | .destroyed _ => True
  | _ => False

/-- The effect of a call or an interrupt, with the events it records. -/
inductive Effect (s t : MQClass) : List Event → Prop
  | quiet {es : List Event} (hes : ∀ e ∈ es, e.Quiet) (hhandlers : t.handlers = s.handlers)
      (hblock : t.queueBlock = s.queueBlock) (hqueue : s.queue.SameMessages t.queue) :
      Effect s t es
  | pushed {id : Fin MSG_MAX_MSG_IDS} {h : Handler}
      (habsent : ∀ e ∈ s.entries id, e.addr ≠ h.addr) (ht : t = s.push id h) :
      Effect s t [.subscribed id s.handlers.size]
  | removed {id : Fin MSG_MAX_MSG_IDS} {x : ℕ} (hr : MQClass.Removed s t id x) :
      Effect s t [.unsubscribed id x]
  | appended {m : Payload} (hhandlers : t.handlers = s.handlers)
      (hblock : t.queueBlock = s.queueBlock)
      (ha : MsgQueue.Appended s.queue t.queue s.queue.nodes m) (hm : MsgQueue.Accepts m) :
      Effect s t [.posted m]

theorem effect_same (s : MQClass) : Effect s s [] :=
  .quiet (by simp) rfl rfl ⟨rfl, rfl, rfl⟩

theorem MQClass.Subscriptions.congr {s t : MQClass} (hs : s.Subscriptions)
    (hhandlers : t.handlers = s.handlers) (hblock : t.queueBlock = s.queueBlock) :
    t.Subscriptions := by
  obtain ⟨handlers, queueBlock, queue⟩ := t
  simp only at hhandlers hblock
  subst hhandlers hblock
  exact ⟨hs.chain, hs.disjoint, hs.distinct⟩

theorem MQClass.nodes_congr {s t : MQClass} (hhandlers : t.handlers = s.handlers)
    (hblock : t.queueBlock = s.queueBlock) (id : Fin MSG_MAX_MSG_IDS) :
    t.nodes id = s.nodes id := by
  simp [MQClass.nodes, hhandlers, hblock]

theorem MQClass.handlerAt_congr {s t : MQClass} (hhandlers : t.handlers = s.handlers) (p : ℕ) :
    t.handlerAt p = s.handlerAt p := by
  simp [MQClass.handlerAt, hhandlers]

theorem Effect.subscriptions {s t : MQClass} {es : List Event} (h : Effect s t es)
    (hs : s.Subscriptions) : t.Subscriptions := by
  cases h with
  | quiet _ hhandlers hblock _ => exact hs.congr hhandlers hblock
  | pushed habsent ht => exact ht ▸ MQClass.subscriptions_push hs habsent
  | removed hr => exact hr.subscriptions
  | appended hhandlers hblock _ => exact hs.congr hhandlers hblock

def postedMessages (es : List Event) : List Payload :=
  es.filterMap fun
    | .posted m => some m
    | _ => none

@[simp] theorem postedMessages_append (es fs : List Event) :
    postedMessages (es ++ fs) = postedMessages es ++ postedMessages fs := by
  simp [postedMessages]

theorem postedMessages_quiet {es : List Event} (h : ∀ e ∈ es, e.Quiet) :
    postedMessages es = [] := by
  rw [List.eq_nil_iff_forall_not_mem]
  intro m hm
  obtain ⟨e, he, hem⟩ := List.mem_filterMap.mp hm
  have hquiet := h e he
  cases e <;> simp_all [Event.Quiet]

/-- A call or an interrupt changes the pending messages by appending what it posts. -/
theorem Effect.contents {s t : MQClass} {es : List Event} (h : Effect s t es) :
    t.queue.contents = s.queue.contents ++ postedMessages es := by
  cases h with
  | quiet hes _ _ hqueue => simp [postedMessages_quiet hes, hqueue.contents]
  | pushed _ ht =>
      subst ht
      simp [postedMessages, MQClass.push]
  | removed hr => simp [postedMessages, hr.queue]
  | appended _ _ ha =>
      rw [MsgQueue.contents, MsgQueue.nodes_eq ha.rep.chain, ha.payloads_eq]
      rfl

theorem Effect.keeps {s t : MQClass} {es : List Event} (h : Effect s t es) :
    MsgQueue.Keeps s.queue.heap t.queue.heap := by
  cases h with
  | quiet _ _ _ hqueue =>
      rw [hqueue.heap]
      exact fun x m hm => ⟨m, hm, rfl⟩
  | appended _ _ ha => exact ha.keeps
  | pushed _ ht =>
      subst ht
      exact fun x m hm => ⟨m, hm, rfl⟩
  | removed hr =>
      rw [hr.queue]
      exact fun x m hm => ⟨m, hm, rfl⟩

theorem mem_postedMessages {es : List Event} {m : Payload} :
    m ∈ postedMessages es ↔ Event.posted m ∈ es := by
  simp only [postedMessages, List.mem_filterMap]
  constructor
  · rintro ⟨e, he, hm⟩
    cases e <;> simp_all
  · intro hm
    exact ⟨_, hm, rfl⟩

theorem Effect.accepts {s t : MQClass} {es : List Event} (h : Effect s t es) {m : Payload}
    (hposted : Event.posted m ∈ es) : MsgQueue.Accepts m := by
  cases h with
  | quiet hes _ _ _ => exact (hes _ hposted).elim
  | pushed _ _ => simp at hposted
  | removed _ => simp at hposted
  | appended _ _ _ hm =>
      simp only [List.mem_singleton, Event.posted.injEq] at hposted
      rwa [hposted]

/-- The list an `Unsubscribe` searches and the address it looks for. -/
def Call.unsubscribes : Call → Option (ℤ × Addr)
  | .unsubscribeFunction msgid handler => some (msgid, handler)
  | .unsubscribeReceiver msgid handler => some (msgid, handler)
  | _ => none

/-- The list a `Subscribe` adds to and the entry it adds. -/
def Call.subscribes : Call → Option (ℤ × Handler)
  | .subscribeFunction msgid handler _ => some (msgid, .mhFunction handler)
  | .subscribeReceiver msgid handler _ => some (msgid, .mhClass handler)
  | _ => none

/-- The representation invariant of the machine: subscription lists and message list are
well formed, and the message in dispatch is live and no longer queued. -/
structure Wf (s : Machine) : Prop where
  subscriptions : s.mq.Subscriptions
  rep : s.mq.queue.Rep s.mq.queue.nodes
  held : ∀ msg, s.point.held = some msg →
    (∃ m, s.mq.queue.heap.get msg = some m) ∧ msg ∉ s.mq.queue.nodes

theorem wf_constructed (b : Bool) : Wf (.constructed b) where
  subscriptions := MQClass.subscriptions_constructed b
  rep := (MsgQueue.rep_constructed b).self
  held := by simp [Machine.constructed, Point.held]

theorem effect_subscribe {s t : MQClass} {mk : Addr → Handler} (hmk : ∀ a, (mk a).addr = a)
    {msgid rc : ℤ} {handler : Addr} {alloc : Bool} (hs : s.Subscriptions)
    (h : MQClass.subscribeHandler mk s msgid handler alloc = .ok (t, rc)) :
    Effect s t (Machine.subscribedEvents s msgid rc) ∧
      ∀ id x, Event.subscribed id x ∈ Machine.subscribedEvents s msgid rc →
        t.handlerAt x = some (mk handler) ∧ msgid = (id : ℕ) := by
  rcases MQClass.subscribe_cases hs mk msgid handler alloc with
    ⟨hok, -⟩ | ⟨herr, -⟩ | ⟨id, rfl, -, -, habsent, hok⟩
  · rw [hok] at h
    cases h
    have hnil : Machine.subscribedEvents s msgid (-1) = [] := by
      cases hi : MQClass.index msgid <;> simp [Machine.subscribedEvents, hi]
    rw [hnil]
    exact ⟨effect_same s, by simp⟩
  · rw [herr] at h
    cases h
  · rw [hok] at h
    cases h
    have hevents : Machine.subscribedEvents s (id : ℕ) 0 = [.subscribed id s.handlers.size] := by
      simp [Machine.subscribedEvents, MQClass.index_ok]
    rw [hevents]
    refine ⟨Effect.pushed (by simpa [hmk] using habsent) rfl, fun j x hx => ?_⟩
    simp only [List.mem_singleton, Event.subscribed.injEq] at hx
    obtain ⟨rfl, rfl⟩ := hx
    exact ⟨(MQClass.pushed_push j hs (mk handler)).handler_new, rfl⟩

theorem effect_unsubscribe {s t : MQClass} {msgid rc : ℤ} {handler : Addr} (hs : s.Subscriptions)
    (h : MQClass.unsubscribeHandler s msgid handler = .ok (t, rc)) :
    Effect s t (Machine.unsubscribedEvents s msgid handler) ∧
      ∀ id x, Event.unsubscribed id x ∈ Machine.unsubscribedEvents s msgid handler →
        ∃ e, s.handlerAt x = some e ∧ e.addr = handler ∧ msgid = (id : ℕ) := by
  refine ⟨?_, ?_⟩
  · rcases MQClass.unsubscribe_cases hs msgid handler with
      ⟨hok, hwhy⟩ | ⟨herr, -⟩ | ⟨id, x, e, s', rfl, haddr, hx, hok, hr⟩
    · rw [hok] at h
      cases h
      suffices hnil : Machine.unsubscribedEvents s msgid handler = [] by
        simpa [hnil] using effect_same s
      rcases hwhy with hge | ⟨id, rfl, habsent⟩
      · simp [Machine.unsubscribedEvents, MQClass.index_error msgid (by omega)]
      · simp [Machine.unsubscribedEvents, MQClass.index_ok,
          (MQClass.find_eq_none_iff handler hs).mpr habsent]
    · rw [herr] at h
      cases h
    · rw [hok] at h
      cases h
      have hfind := MQClass.find_of_handlerAt hs hr.mem hx haddr
      simpa [Machine.unsubscribedEvents, MQClass.index_ok, hfind] using Effect.removed hr
  · intro id x hx
    unfold Machine.unsubscribedEvents at hx
    split at hx
    · next id' hid =>
        simp only [Option.mem_toList, Option.map_eq_some_iff] at hx
        obtain ⟨y, hy, heq⟩ := hx
        cases heq
        have hmem := List.mem_of_find?_eq_some hy
        have hmatch := List.find?_some hy
        obtain ⟨e, he⟩ := MQClass.handlerAt_of_mem hs hmem
        refine ⟨e, he, ?_, MQClass.index_eq_ok.mp hid⟩
        simpa [MQClass.matchesAddr, he, Handler.checkHandler_iff] using hmatch
    · simp at hx

theorem effect_post {s : MQClass} {q : MsgQueue} {m : Payload} {isIntCtx : MQContext}
    {alloc : Bool} {rc : ℤ} (hrep : s.queue.Rep s.queue.nodes)
    (h : s.queue.post m isIntCtx alloc = .ok (q, rc)) :
    Effect s { s with queue := q } (Machine.postedEvents m rc) ∧
      ∀ e ∈ Machine.postedEvents m rc, e = .posted m ∧ alloc = true := by
  rcases MsgQueue.post_cases hrep m isIntCtx alloc with
    ⟨q', hok, hm, halloc, happ⟩ | ⟨q', hok, -, hsame⟩
  · rw [hok] at h
    cases h
    exact ⟨Effect.appended rfl rfl happ hm, by simp [Machine.postedEvents, halloc]⟩
  · rw [hok] at h
    cases h
    exact ⟨Effect.quiet (by simp [Machine.postedEvents]) rfl rfl hsame,
      by simp [Machine.postedEvents]⟩

theorem notMem_subscribedEvents {s : MQClass} {msgid rc : ℤ} {e : Event}
    (he : ∀ id x, e ≠ .subscribed id x) : e ∉ Machine.subscribedEvents s msgid rc := by
  intro hmem
  unfold Machine.subscribedEvents at hmem
  split at hmem
  · split_ifs at hmem
    · exact he _ _ (List.mem_singleton.mp hmem)
    · simp at hmem
  · simp at hmem

theorem notMem_unsubscribedEvents {s : MQClass} {msgid : ℤ} {handler : Addr} {e : Event}
    (he : ∀ id x, e ≠ .unsubscribed id x) : e ∉ Machine.unsubscribedEvents s msgid handler := by
  intro hmem
  unfold Machine.unsubscribedEvents at hmem
  split at hmem
  · simp only [Option.mem_toList, Option.map_eq_some_iff] at hmem
    obtain ⟨x, -, hx⟩ := hmem
    exact he _ _ hx.symm
  · simp at hmem

/-- What a call does: it records its effect, stays at the same point of `Loop`, deletes a
subscription only if it is an `Unsubscribe` with its id and address, appends a message
only if it is a `Post` of it, and adds an entry only if it is a `Subscribe` of it. -/
theorem perform_effect {s t : Machine} {c : Call} {rc : ℤ} (hw : Wf s)
    (h : s.perform c = .ok (t, rc)) :
    t.point = s.point ∧ ∃ es, t.trace = s.trace ++ es ∧ Effect s.mq t.mq es ∧
      (∀ id x, Event.unsubscribed id x ∈ es →
        ∃ e, s.mq.handlerAt x = some e ∧ c.unsubscribes = some (((id : ℕ) : ℤ), e.addr)) ∧
      (∀ m, Event.posted m ∈ es → c = .post m true) ∧
      ∀ id x, Event.subscribed id x ∈ es →
        ∃ e, t.mq.handlerAt x = some e ∧ c.subscribes = some (((id : ℕ) : ℤ), e) := by
  cases c with
  | subscribeFunction msgid handler alloc =>
      obtain ⟨⟨mq, rc'⟩, hmq, hst⟩ := bind_eq_ok.mp h
      cases hst
      obtain ⟨heff, hnew⟩ := effect_subscribe (fun _ => rfl) hw.subscriptions hmq
      refine ⟨rfl, _, rfl, heff, fun id x hx => (notMem_subscribedEvents (by simp) hx).elim,
        fun m hm => (notMem_subscribedEvents (by simp) hm).elim, fun id x hx => ?_⟩
      obtain ⟨he, hid⟩ := hnew id x hx
      exact ⟨_, he, by rw [Call.subscribes, hid]⟩
  | subscribeReceiver msgid handler alloc =>
      obtain ⟨⟨mq, rc'⟩, hmq, hst⟩ := bind_eq_ok.mp h
      cases hst
      obtain ⟨heff, hnew⟩ := effect_subscribe (fun _ => rfl) hw.subscriptions hmq
      refine ⟨rfl, _, rfl, heff, fun id x hx => (notMem_subscribedEvents (by simp) hx).elim,
        fun m hm => (notMem_subscribedEvents (by simp) hm).elim, fun id x hx => ?_⟩
      obtain ⟨he, hid⟩ := hnew id x hx
      exact ⟨_, he, by rw [Call.subscribes, hid]⟩
  | unsubscribeFunction msgid handler =>
      obtain ⟨⟨mq, rc'⟩, hmq, hst⟩ := bind_eq_ok.mp h
      cases hst
      obtain ⟨heff, hwhich⟩ := effect_unsubscribe hw.subscriptions hmq
      refine ⟨rfl, _, rfl, heff, fun id x hx => ?_,
        fun m hm => (notMem_unsubscribedEvents (by simp) hm).elim,
        fun id x hx => (notMem_unsubscribedEvents (by simp) hx).elim⟩
      obtain ⟨e, he, haddr, hid⟩ := hwhich id x hx
      exact ⟨e, he, by simp [Call.unsubscribes, hid, haddr]⟩
  | unsubscribeReceiver msgid handler =>
      obtain ⟨⟨mq, rc'⟩, hmq, hst⟩ := bind_eq_ok.mp h
      cases hst
      obtain ⟨heff, hwhich⟩ := effect_unsubscribe hw.subscriptions hmq
      refine ⟨rfl, _, rfl, heff, fun id x hx => ?_,
        fun m hm => (notMem_unsubscribedEvents (by simp) hm).elim,
        fun id x hx => (notMem_unsubscribedEvents (by simp) hx).elim⟩
      obtain ⟨e, he, haddr, hid⟩ := hwhich id x hx
      exact ⟨e, he, by simp [Call.unsubscribes, hid, haddr]⟩
  | post m alloc =>
      obtain ⟨⟨q, rc'⟩, hq, hst⟩ := bind_eq_ok.mp h
      cases hst
      obtain ⟨heff, hposted⟩ := effect_post hw.rep hq
      refine ⟨rfl, _, rfl, heff, fun id x hx => ?_, fun m' hm' => ?_, fun id x hx => ?_⟩
      · cases (hposted _ hx).1
      · obtain ⟨heq, halloc⟩ := hposted _ hm'
        cases heq
        rw [halloc]
      · cases (hposted _ hx).1
  | constructReceiver r =>
      simp only [Machine.perform] at h
      split_ifs at h
      cases h
      exact ⟨rfl, [.constructed r], rfl,
        .quiet (by simp [Event.Quiet]) rfl rfl ⟨rfl, rfl, rfl⟩, by simp, by simp, by simp⟩
  | destroyReceiver r =>
      simp only [Machine.perform] at h
      split_ifs at h
      cases h
      exact ⟨rfl, [.destroyed r], rfl,
        .quiet (by simp [Event.Quiet]) rfl rfl ⟨rfl, rfl, rfl⟩, by simp, by simp, by simp⟩

theorem interrupt_effect {s t : Machine} {m : Payload} {alloc : Bool} (hw : Wf s)
    (h : s.step (.interrupt m alloc) = .ok t) :
    t.point = s.point ∧ t.live = s.live ∧ ∃ es, t.trace = s.trace ++ es ∧
      Effect s.mq t.mq es ∧ ∀ e ∈ es, e = .posted m ∧ alloc = true := by
  simp only [Machine.step] at h
  split_ifs at h
  obtain ⟨⟨q, rc⟩, hq, hst⟩ := bind_eq_ok.mp h
  cases hst
  exact ⟨rfl, rfl, _, rfl, effect_post hw.rep hq⟩

/-- A call or an interrupt keeps the invariant. -/
theorem Effect.wf {s t : Machine} {es : List Event} (h : Effect s.mq t.mq es) (hw : Wf s)
    (hpoint : t.point = s.point) : Wf t := by
  refine ⟨h.subscriptions hw.subscriptions, ?_, ?_⟩
  · cases h with
    | quiet _ _ _ hqueue =>
        rw [hqueue.nodes]
        refine ⟨?_, ?_⟩
        · rw [hqueue.heap, hqueue.first]
          exact hw.rep.chain
        · rw [hqueue.last]
          exact hw.rep.last
    | pushed _ ht =>
        have hq : t.mq.queue = s.mq.queue := by rw [ht]; rfl
        rw [hq]
        exact hw.rep
    | removed hr =>
        rw [hr.queue]
        exact hw.rep
    | appended _ _ ha => exact ha.rep.self
  · intro msg hmsg
    obtain ⟨⟨m, hm⟩, hnot⟩ := hw.held msg (hpoint ▸ hmsg)
    cases h with
    | quiet _ _ _ hqueue =>
        rw [hqueue.nodes, hqueue.heap]
        exact ⟨⟨m, hm⟩, hnot⟩
    | pushed _ ht =>
        have hq : t.mq.queue = s.mq.queue := by rw [ht]; rfl
        rw [hq]
        exact ⟨⟨m, hm⟩, hnot⟩
    | removed hr =>
        rw [hr.queue]
        exact ⟨⟨m, hm⟩, hnot⟩
    | appended _ _ ha =>
        obtain ⟨m', hm', -⟩ := ha.keeps msg m hm
        refine ⟨⟨m', hm'⟩, ?_⟩
        rw [MsgQueue.nodes_eq ha.rep.chain]
        have hlt := Heap.lt_size_of_get hm
        simp [hnot, hlt.ne]

/-- What one statement of `Loop` does. -/
inductive TauStep (s : Machine) : Machine → Prop
  | leave (hp : s.point = .test 0) : TauStep s { s with point := .outside }
  | idle {n : ℤ} {q : MsgQueue} (hp : s.point = .test n) (hn : n ≠ 0)
      (hq : s.mq.queue.SameMessages q) :
      TauStep s { s with mq := { s.mq with queue := q }, point := .decrement n }
  | pop {n : ℤ} {q : MsgQueue} {x : ℕ} {xs : List ℕ} {m : Message} (hp : s.point = .test n)
      (hn : n ≠ 0) (hnodes : s.mq.queue.nodes = x :: xs) (hq : q.Rep xs)
      (hheap : q.heap = s.mq.queue.heap) (hx : x ∉ xs) (hm : s.mq.queue.heap.get x = some m) :
      TauStep s { s with
        mq := { s.mq with queue := q }
        point := .lookup n x
        trace := s.trace ++ [.popped m.toPayload] }
  | lookup {n : ℤ} {msg : ℕ} {m : Message} {id : Fin MSG_MAX_MSG_IDS}
      (hp : s.point = .lookup n msg) (hm : s.mq.queue.heap.get msg = some m)
      (hid : m.msgid = (id : ℕ)) :
      TauStep s { s with point := .walk n msg (s.mq.queueBlock id) }
  | exhausted {n : ℤ} {msg : ℕ} (hp : s.point = .walk n msg none) :
      TauStep s { s with point := .free n msg }
  | call {n : ℤ} {msg cur : ℕ} {m : Message} {node : MessageHandler}
      (hp : s.point = .walk n msg (some cur)) (hm : s.mq.queue.heap.get msg = some m)
      (hnode : s.mq.handlers.get cur = some node) :
      TauStep s { s with
        point := .running n msg cur
        trace := s.trace ++ [.called cur (node.handler.call m.msgid m.context)] }
  | advance {n : ℤ} {msg cur : ℕ} {node : MessageHandler} (hp : s.point = .next n msg cur)
      (hnode : s.mq.handlers.get cur = some node) :
      TauStep s { s with point := .walk n msg node.pNextHandler }
  | free {n : ℤ} {msg : ℕ} {m : Message} (hp : s.point = .free n msg)
      (hm : s.mq.queue.heap.get msg = some m) (contexts : List ℕ) :
      TauStep s { s with
        mq := { s.mq with queue := { s.mq.queue with heap := s.mq.queue.heap.delete msg } }
        point := .decrement n
        trace := s.trace ++ (contexts.map .deletedContext ++ [.deletedMessage msg]) }
  | decrement {n : ℤ} (hp : s.point = .decrement n) :
      TauStep s { s with point := .test (Avr.wrap16 (n - 1)) }

theorem Wf.tauStep {s t : Machine} (hw : Wf s) (h : s.tau = .ok t) : TauStep s t := by
  have hrep := hw.rep
  cases hp : s.point with
  | outside => simp [Machine.tau, hp] at h
  | running n msg cur => simp [Machine.tau, hp] at h
  | test n =>
      simp only [Machine.tau, hp] at h
      split_ifs at h with hn
      · cases h
        exact .leave (by rw [hp, hn])
      · cases hnodes : s.mq.queue.nodes with
        | nil =>
            rw [hnodes] at hrep
            simp only [MsgQueue.pop_of_nil hrep, ok_bind, Except.ok.injEq] at h
            subst h
            exact .idle hp hn ⟨rfl, rfl, rfl⟩
        | cons x xs =>
            rw [hnodes] at hrep
            obtain ⟨q, hpop, hrep', hheap, hnot, -, m, hm⟩ := MsgQueue.pop_of_cons hrep
            have hderef : q.heap.deref (some x) = .ok m := Heap.deref_some (hheap ▸ hm)
            simp only [hpop, ok_bind, hderef, Except.ok.injEq] at h
            subst h
            exact .pop hp hn hnodes hrep' hheap hnot hm
  | lookup n msg =>
      simp only [Machine.tau, hp] at h
      obtain ⟨m, hm, h⟩ := bind_eq_ok.mp h
      obtain ⟨id, hid, h⟩ := bind_eq_ok.mp h
      cases h
      exact .lookup hp (Heap.get_of_deref hm) (MQClass.index_eq_ok.mp hid)
  | walk n msg cur =>
      cases cur with
      | none =>
          simp only [Machine.tau, hp, Except.ok.injEq] at h
          subst h
          exact .exhausted hp
      | some cur =>
          simp only [Machine.tau, hp] at h
          obtain ⟨m, hm, h⟩ := bind_eq_ok.mp h
          obtain ⟨node, hnode, h⟩ := bind_eq_ok.mp h
          cases h
          exact .call hp (Heap.get_of_deref hm) (Heap.get_of_deref hnode)
  | next n msg cur =>
      simp only [Machine.tau, hp] at h
      obtain ⟨node, hnode, h⟩ := bind_eq_ok.mp h
      cases h
      exact .advance hp (Heap.get_of_deref hnode)
  | free n msg =>
      simp only [Machine.tau, hp] at h
      obtain ⟨m, hm, h⟩ := bind_eq_ok.mp h
      obtain ⟨q, hq, h⟩ := bind_eq_ok.mp h
      simp only [MsgQueue.deleteMessage, hm, ok_bind, Except.ok.injEq] at hq
      subst hq
      rw [List.append_assoc, Except.ok.injEq] at h
      subst h
      exact .free hp (Heap.get_of_deref hm) _
  | decrement n =>
      simp only [Machine.tau, hp, Except.ok.injEq] at h
      subst h
      exact .decrement hp

theorem TauStep.wf {s t : Machine} (h : TauStep s t) (hw : Wf s) : Wf t := by
  obtain ⟨hsubs, hrep, hheld⟩ := hw
  cases h with
  | leave hp => exact ⟨hsubs, hrep, by simp [Point.held]⟩
  | idle hp hn hq =>
      have hrep' : MsgQueue.Rep _ s.mq.queue.nodes :=
        ⟨by rw [hq.heap, hq.first]; exact hrep.chain, by rw [hq.last]; exact hrep.last⟩
      exact ⟨hsubs.congr rfl rfl, hrep'.self, by simp [Point.held]⟩
  | pop hp hn hnodes hq hheap hx hm =>
      refine ⟨hsubs.congr rfl rfl, hq.self, fun msg hmsg => ?_⟩
      cases hmsg
      refine ⟨⟨_, hheap ▸ hm⟩, ?_⟩
      rw [MsgQueue.nodes_eq hq.chain]
      exact hx
  | lookup hp hm hid => exact ⟨hsubs, hrep, by simpa [Point.held, hp] using hheld⟩
  | exhausted hp => exact ⟨hsubs, hrep, by simpa [Point.held, hp] using hheld⟩
  | call hp hm hnode => exact ⟨hsubs, hrep, by simpa [Point.held, hp] using hheld⟩
  | advance hp hnode => exact ⟨hsubs, hrep, by simpa [Point.held, hp] using hheld⟩
  | @free n msg m hp hm contexts =>
      obtain ⟨-, hnot⟩ := hheld msg (by simp [hp, Point.held])
      have hrep' : MsgQueue.Rep { s.mq.queue with heap := s.mq.queue.heap.delete msg }
          s.mq.queue.nodes := ⟨hrep.chain.delete_of_notMem hnot, hrep.last⟩
      exact ⟨hsubs.congr rfl rfl, hrep'.self, by simp [Point.held]⟩
  | decrement hp => exact ⟨hsubs, hrep, by simp [Point.held]⟩

/-- What a step does. -/
inductive Stepped (s : Machine) : Label → Machine → Prop
  | call {c : Call} {t : Machine} {rc : ℤ} {es : List Event} (hruns : s.callerRuns = true)
      (hperform : s.perform c = .ok (t, rc)) (hpoint : t.point = s.point)
      (htrace : t.trace = s.trace ++ es) (heff : Effect s.mq t.mq es)
      (hwhich : ∀ id x, Event.unsubscribed id x ∈ es →
        ∃ e, s.mq.handlerAt x = some e ∧ c.unsubscribes = some (((id : ℕ) : ℤ), e.addr))
      (hposted : ∀ m, Event.posted m ∈ es → c = .post m true)
      (hadded : ∀ id x, Event.subscribed id x ∈ es →
        ∃ e, t.mq.handlerAt x = some e ∧ c.subscribes = some (((id : ℕ) : ℤ), e)) :
      Stepped s (.call c) t
  | interrupt {m : Payload} {alloc : Bool} {t : Machine} {es : List Event}
      (hpoint : t.point = s.point) (hlive : t.live = s.live) (htrace : t.trace = s.trace ++ es)
      (heff : Effect s.mq t.mq es) (hes : ∀ e ∈ es, e = .posted m ∧ alloc = true) :
      Stepped s (.interrupt m alloc) t
  | loop {n : ℤ} (hp : s.point = .outside) : Stepped s (.loop n) { s with point := .test n }
  | ret {n : ℤ} {msg cur : ℕ} (hp : s.point = .running n msg cur) :
      Stepped s .ret { s with point := .next n msg cur }
  | tau {t : Machine} (htau : TauStep s t) : Stepped s .tau t

theorem Wf.stepped {s t : Machine} {l : Label} (hw : Wf s) (h : s.step l = .ok t) :
    Stepped s l t := by
  cases l with
  | call c =>
      simp only [Machine.step] at h
      split_ifs at h with hruns
      obtain ⟨⟨u, rc⟩, hperf, hst⟩ := bind_eq_ok.mp h
      cases hst
      obtain ⟨hpoint, es, htrace, heff, hwhich, hposted, hadded⟩ := perform_effect hw hperf
      exact .call hruns hperf hpoint htrace heff hwhich hposted hadded
  | interrupt m alloc =>
      obtain ⟨hpoint, hlive, es, htrace, heff, hes⟩ := interrupt_effect hw h
      exact .interrupt hpoint hlive htrace heff hes
  | loop n =>
      simp only [Machine.step] at h
      split at h
      · next hp =>
          cases h
          exact .loop hp
      · cases h
  | ret =>
      simp only [Machine.step] at h
      split at h
      · next hp =>
          cases h
          exact .ret hp
      · cases h
  | tau => exact .tau (hw.tauStep h)

theorem Wf.step {s t : Machine} {l : Label} (hw : Wf s) (h : s.step l = .ok t) : Wf t := by
  cases hw.stepped h with
  | call hruns hperform hpoint htrace heff hwhich => exact heff.wf hw hpoint
  | interrupt hpoint hlive htrace heff hes => exact heff.wf hw hpoint
  | loop hp => exact ⟨hw.subscriptions, hw.rep, by simp [Point.held]⟩
  | ret hp => exact ⟨hw.subscriptions, hw.rep, by simpa [Point.held, hp] using hw.held⟩
  | tau htau => exact htau.wf hw

theorem reaches_wf {b : Bool} {s : Machine} {good : Machine → Label → Prop}
    (hs : Reaches Machine.step good (.constructed b) s) : Wf s :=
  hs.invariant Wf (wf_constructed b) fun _ _ _ hw _ hstep => hw.step hstep

end EmbeddedKernel.Mq
