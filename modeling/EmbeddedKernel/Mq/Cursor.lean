import EmbeddedKernel.Mq.Machine

/-!
# The cursor of the dispatch loop

`Loop` reads `curHandler->pNextHandler` only after the handler has returned, so
it relies on the node staying in its list during the call.  As long as no handler
unsubscribes the entry it is called through, the cursor stays in the list of the
message's id and every pointer `Loop` follows is live; a handler that does so
makes `Loop` read the deleted node when it returns.
-/

namespace EmbeddedKernel.Mq

open Library

/-! ## What an effect keeps -/

theorem Effect.mem_nodes {s t : MQClass} {es : List Event} (h : Effect s t es)
    (hs : s.Subscriptions) {id : Fin MSG_MAX_MSG_IDS} {x : ℕ} (hx : x ∈ s.nodes id)
    (hkeep : Event.unsubscribed id x ∉ es) : x ∈ t.nodes id := by
  cases h with
  | quiet _ hhandlers hblock _ => rwa [MQClass.nodes_congr hhandlers hblock]
  | appended hhandlers hblock _ => rwa [MQClass.nodes_congr hhandlers hblock]
  | @pushed id' h _ ht =>
      subst ht
      have hp := MQClass.pushed_push id' hs h
      by_cases hid : id = id'
      · subst hid
        rw [hp.nodes_self]
        exact List.mem_cons_of_mem _ hx
      · rwa [hp.nodes_other id hid]
  | @removed id' y hr =>
      by_cases hid : id = id'
      · subst hid
        rw [hr.nodes_self, List.mem_filter]
        refine ⟨hx, ?_⟩
        have hne : x ≠ y := by
          rintro rfl
          simp at hkeep
        simpa using hne
      · rwa [hr.nodes_other id hid]

/-- A node that stays in a list keeps its entry. -/
theorem Effect.handlerAt {s t : MQClass} {es : List Event} (h : Effect s t es)
    (hs : s.Subscriptions) {id : Fin MSG_MAX_MSG_IDS} {x : ℕ} (hx : x ∈ s.nodes id)
    (hkeep : Event.unsubscribed id x ∉ es) : t.handlerAt x = s.handlerAt x := by
  cases h with
  | quiet _ hhandlers _ _ => exact MQClass.handlerAt_congr hhandlers x
  | appended hhandlers _ _ => exact MQClass.handlerAt_congr hhandlers x
  | @pushed id' h _ ht =>
      subst ht
      obtain ⟨e, he⟩ := MQClass.handlerAt_of_mem hs hx
      rw [he]
      exact (MQClass.pushed_push id' hs h).handler_old x e he
  | @removed id' y hr =>
      apply hr.handler_keep
      rintro rfl
      by_cases hid : id = id'
      · subst hid
        simp at hkeep
      · exact hs.disjoint id id' hid hx hr.mem

/-! ## The running entry -/

/-- `handler` is the address of the entry that is being called, and `msgid` the id of the
message it is called for. -/
def Machine.OwnEntry (s : Machine) (msgid : ℤ) (handler : Addr) : Prop :=
  ∃ n msg cur m e, s.point = .running n msg cur ∧ s.mq.queue.heap.get msg = some m ∧
    s.mq.handlerAt cur = some e ∧ m.msgid = msgid ∧ e.addr = handler

/-- The step does not unsubscribe the entry that is being called. -/
def SparesOwnEntry (s : Machine) : Label → Prop
  | .call c => ∀ msgid handler, c.unsubscribes = some (msgid, handler) →
      ¬s.OwnEntry msgid handler
  | _ => True

/-- The message in dispatch and the node under the cursor. -/
def Point.cursor : Point → Option (ℕ × ℕ)
  | .walk _ msg (some cur) => some (msg, cur)
  | .running _ msg cur | .next _ msg cur => some (msg, cur)
  | _ => none

/-- The cursor is in the list of the message's id. -/
def CursorOk (s : Machine) : Prop :=
  ∀ msg cur, s.point.cursor = some (msg, cur) →
    ∃ m, s.mq.queue.heap.get msg = some m ∧
      ∃ id : Fin MSG_MAX_MSG_IDS, m.msgid = (id : ℕ) ∧ cur ∈ s.mq.nodes id

theorem Effect.cursorOk {s t : Machine} {es : List Event} (h : Effect s.mq t.mq es) (hw : Wf s)
    (hc : CursorOk s) (hpoint : t.point = s.point)
    (hkeep : ∀ msg cur id, s.point.cursor = some (msg, cur) → Event.unsubscribed id cur ∉ es) :
    CursorOk t := by
  intro msg cur hcur
  rw [hpoint] at hcur
  obtain ⟨m, hm, id, hid, hmem⟩ := hc msg cur hcur
  obtain ⟨m', hm', hpay⟩ := h.keeps msg m hm
  refine ⟨m', hm', id, ?_, h.mem_nodes hw.subscriptions hmem (hkeep msg cur id hcur)⟩
  rw [hpay, hid]

theorem TauStep.cursorOk {s t : Machine} (h : TauStep s t) (hw : Wf s) (hc : CursorOk s) :
    CursorOk t := by
  cases h with
  | leave hp => simp [CursorOk, Point.cursor]
  | idle hp hn hq => simp [CursorOk, Point.cursor]
  | pop hp hn hnodes hq hheap hx hm => simp [CursorOk, Point.cursor]
  | @lookup n msg m id hp hm hid =>
      intro msg' cur hcur
      cases hhead : s.mq.queueBlock id with
      | none => simp [hhead, Point.cursor] at hcur
      | some x =>
          simp only [hhead, Point.cursor, Option.some.injEq, Prod.mk.injEq] at hcur
          obtain ⟨rfl, rfl⟩ := hcur
          refine ⟨m, hm, id, hid, ?_⟩
          have hchain := hw.subscriptions.chain id
          rw [hhead] at hchain
          exact hchain.head_mem
  | exhausted hp => simp [CursorOk, Point.cursor]
  | call hp hm hnode => simpa [CursorOk, Point.cursor, hp] using hc
  | @advance n msg cur node hp hnode =>
      obtain ⟨m, hm, id, hid, hmem⟩ := hc msg cur (by simp [hp, Point.cursor])
      intro msg' cur' hcur
      cases hnext : node.pNextHandler with
      | none => simp [hnext, Point.cursor] at hcur
      | some x =>
          simp only [hnext, Point.cursor, Option.some.injEq, Prod.mk.injEq] at hcur
          obtain ⟨rfl, rfl⟩ := hcur
          exact ⟨m, hm, id, hid, (hw.subscriptions.chain id).nxt_mem hmem hnode hnext⟩
  | free hp hm contexts => simp [CursorOk, Point.cursor]
  | decrement hp => simp [CursorOk, Point.cursor]

/-- A step that spares the running entry keeps the cursor in its list. -/
theorem CursorOk.step {s t : Machine} {l : Label} (hw : Wf s) (hc : CursorOk s)
    (hgood : SparesOwnEntry s l) (h : s.step l = .ok t) : CursorOk t := by
  cases hw.stepped h with
  | @call c _ rc es hruns hperform hpoint htrace heff hwhich =>
      refine heff.cursorOk hw hc hpoint fun msg cur id hcur hmem => ?_
      -- the caller is the handler under the cursor, so `c` would unsubscribe its own entry
      obtain ⟨e, he, huns⟩ := hwhich id cur hmem
      obtain ⟨m, hm, id', hid', hcurmem⟩ := hc msg cur hcur
      have hid : id = id' := by
        cases heff with
        | quiet hes _ _ _ => exact (hes _ hmem).elim
        | pushed _ _ => simp at hmem
        | appended _ _ _ => simp at hmem
        | removed hr =>
            simp only [List.mem_singleton, Event.unsubscribed.injEq] at hmem
            obtain ⟨rfl, rfl⟩ := hmem
            by_contra hne
            exact hw.subscriptions.disjoint id id' hne hr.mem hcurmem
      subst hid
      have hrun : ∃ n, s.point = .running n msg cur := by
        cases hp : s.point <;> simp_all [Machine.callerRuns, Point.cursor]
      obtain ⟨n, hrun⟩ := hrun
      exact hgood _ _ huns ⟨n, msg, cur, m, e, hrun, hm, he, hid', rfl⟩
  | interrupt hpoint hlive htrace heff hes =>
      refine heff.cursorOk hw hc hpoint fun msg cur id _ hmem => ?_
      cases (hes _ hmem).1
  | loop hp => simp [CursorOk, Point.cursor]
  | ret hp => simpa [CursorOk, Point.cursor, hp] using hc
  | tau htau => exact htau.cursorOk hw hc

theorem reaches_cursorOk {b : Bool} {s : Machine}
    (hs : Reaches Machine.step SparesOwnEntry (.constructed b) s) : CursorOk s := by
  have hboth : Wf s ∧ CursorOk s := by
    refine hs.invariant (fun s => Wf s ∧ CursorOk s) ⟨wf_constructed b, ?_⟩ ?_
    · simp [CursorOk, Machine.constructed, Point.cursor]
    · rintro s l t ⟨hw, hc⟩ hgood hstep
      exact ⟨hw.step hstep, hc.step hw hgood hstep⟩
  exact hboth.2

/-! ## Which steps are not taken -/

theorem perform_error {s : Machine} {c : Call} {e : Stop} (hw : Wf s)
    (h : s.perform c = .error e) : e = .notEnabled ∨ ∃ i, e = .badIndex i := by
  have hsub : ∀ mk msgid handler alloc,
      MQClass.subscribeHandler mk s.mq msgid handler alloc = .error e → ∃ i, e = .badIndex i := by
    intro mk msgid handler alloc herr
    rcases MQClass.subscribe_cases hw.subscriptions mk msgid handler alloc with
      ⟨hok, -⟩ | ⟨hbad, -⟩ | ⟨id, -, -, -, -, hok⟩
    · simp [hok] at herr
    · rw [hbad] at herr
      cases herr
      exact ⟨msgid, rfl⟩
    · simp [hok] at herr
  have huns : ∀ msgid handler,
      MQClass.unsubscribeHandler s.mq msgid handler = .error e → ∃ i, e = .badIndex i := by
    intro msgid handler herr
    rcases MQClass.unsubscribe_cases hw.subscriptions msgid handler with
      ⟨hok, -⟩ | ⟨hbad, -⟩ | ⟨id, x, f, s', -, -, -, hok, -⟩
    · simp [hok] at herr
    · rw [hbad] at herr
      cases herr
      exact ⟨msgid, rfl⟩
    · simp [hok] at herr
  cases c with
  | subscribeFunction msgid handler alloc =>
      exact Or.inr (hsub _ _ _ _ (bind_eq_error_of_ok h fun _ => ⟨_, rfl⟩))
  | subscribeReceiver msgid handler alloc =>
      exact Or.inr (hsub _ _ _ _ (bind_eq_error_of_ok h fun _ => ⟨_, rfl⟩))
  | unsubscribeFunction msgid handler =>
      exact Or.inr (huns _ _ (bind_eq_error_of_ok h fun _ => ⟨_, rfl⟩))
  | unsubscribeReceiver msgid handler =>
      exact Or.inr (huns _ _ (bind_eq_error_of_ok h fun _ => ⟨_, rfl⟩))
  | post m alloc =>
      rcases MsgQueue.post_cases hw.rep m .task alloc with ⟨q, hok, -⟩ | ⟨q, hok, -⟩ <;>
        simp [Machine.perform, hok] at h
  | constructReceiver r =>
      simp only [Machine.perform] at h
      split_ifs at h
      cases h
      exact Or.inl rfl
  | destroyReceiver r =>
      simp only [Machine.perform] at h
      split_ifs at h
      cases h
      exact Or.inl rfl

theorem tau_error {s : Machine} {e : Stop} (hw : Wf s) (hc : CursorOk s)
    (h : s.tau = .error e) : e = .notEnabled ∨ ∃ i, e = .badIndex i := by
  have hmsg : ∀ msg, s.point.held = some msg → ∃ m, s.mq.queue.heap.deref (some msg) = .ok m := by
    intro msg hheld
    obtain ⟨⟨m, hm⟩, -⟩ := hw.held msg hheld
    exact ⟨m, Heap.deref_some hm⟩
  have hnode : ∀ msg cur, s.point.cursor = some (msg, cur) →
      ∃ node, s.mq.handlers.deref (some cur) = .ok node := by
    intro msg cur hcur
    obtain ⟨-, -, id, -, hmem⟩ := hc msg cur hcur
    obtain ⟨node, hget⟩ := (hw.subscriptions.chain id).get_of_mem hmem
    exact ⟨node, Heap.deref_some hget⟩
  cases hp : s.point with
  | outside =>
      simp only [Machine.tau, hp] at h
      cases h
      exact Or.inl rfl
  | running n msg cur =>
      simp only [Machine.tau, hp] at h
      cases h
      exact Or.inl rfl
  | test n =>
      simp only [Machine.tau, hp] at h
      split_ifs at h
      cases hnodes : s.mq.queue.nodes with
      | nil => simp [MsgQueue.pop_of_nil (hnodes ▸ hw.rep)] at h
      | cons x xs =>
          obtain ⟨q, hpop, -, hheap, -, -, m, hm⟩ := MsgQueue.pop_of_cons (hnodes ▸ hw.rep)
          simp [hpop, Heap.deref_some (hheap ▸ hm : q.heap.get x = some m)] at h
  | lookup n msg =>
      obtain ⟨m, hm⟩ := hmsg msg (by simp [hp, Point.held])
      simp only [Machine.tau, hp, hm, ok_bind] at h
      have hidx := bind_eq_error_of_ok h fun _ => ⟨_, rfl⟩
      unfold MQClass.index at hidx
      split_ifs at hidx
      cases hidx
      exact Or.inr ⟨_, rfl⟩
  | walk n msg cur =>
      cases cur with
      | none => simp [Machine.tau, hp] at h
      | some cur =>
          obtain ⟨m, hm⟩ := hmsg msg (by simp [hp, Point.held])
          obtain ⟨node, hget⟩ := hnode msg cur (by simp [hp, Point.cursor])
          simp [Machine.tau, hp, hm, hget] at h
  | next n msg cur =>
      obtain ⟨node, hget⟩ := hnode msg cur (by simp [hp, Point.cursor])
      simp [Machine.tau, hp, hget] at h
  | free n msg =>
      obtain ⟨m, hm⟩ := hmsg msg (by simp [hp, Point.held])
      simp [Machine.tau, hp, hm, MsgQueue.deleteMessage] at h
  | decrement n => simp [Machine.tau, hp] at h

/-- With the cursor in its list, the only faults left are accesses to `QueueBlock` with an
id out of range. -/
theorem step_error {s : Machine} {l : Label} {e : Stop} (hw : Wf s) (hc : CursorOk s)
    (h : s.step l = .error e) : e = .notEnabled ∨ ∃ i, e = .badIndex i := by
  cases l with
  | call c =>
      simp only [Machine.step] at h
      split_ifs at h
      · exact perform_error hw (bind_eq_error_of_ok h fun _ => ⟨_, rfl⟩)
      · cases h
        exact Or.inl rfl
  | interrupt m alloc =>
      simp only [Machine.step] at h
      split_ifs at h
      · rcases MsgQueue.post_cases hw.rep m .interrupt alloc with ⟨q, hok, -⟩ | ⟨q, hok, -⟩ <;>
          simp [hok] at h
      · cases h
        exact Or.inl rfl
  | loop n =>
      simp only [Machine.step] at h
      split at h <;> cases h
      exact Or.inl rfl
  | ret =>
      simp only [Machine.step] at h
      split at h <;> cases h
      exact Or.inl rfl
  | tau => exact tau_error hw hc h

/-- A handler that unsubscribes the entry it is called through leaves the cursor on a
deleted node, which `Loop` reads as soon as the handler returns. -/
theorem freed_of_ownEntry {s t : Machine} {c : Call} (hw : Wf s) (hc : CursorOk s)
    (hown : ¬SparesOwnEntry s (.call c)) (h : s.step (.call c) = .ok t) :
    ∃ u p, t.step .ret = .ok u ∧ u.step .tau = .error (.freed p) := by
  simp only [SparesOwnEntry] at hown
  push Not at hown
  obtain ⟨msgid, handler, huns, n, msg, cur, m, e, hp, hm, he, rfl, rfl⟩ := hown
  obtain ⟨m', hm', id, hid, hmem⟩ := hc msg cur (by simp [hp, Point.cursor])
  rw [hm] at hm'
  cases hm'
  have hentry : e ∈ s.mq.entries id := MQClass.mem_entries.mpr ⟨cur, hmem, he⟩
  obtain ⟨mq, x, hok, hr, hx⟩ := MQClass.unsubscribe_of_present hw.subscriptions hentry rfl
  have hxcur : x = cur :=
    MQClass.handlerAt_inj hw.subscriptions hr.mem hmem hx he rfl
  subst hxcur
  have hmq : t.mq = mq ∧ t.point = s.point := by
    simp only [Machine.step, Machine.callerRuns, hp, if_true] at h
    rw [← hid] at hok
    cases c <;> simp only [Call.unsubscribes, Option.some.injEq, Prod.mk.injEq, reduceCtorEq]
      at huns
    all_goals
      obtain ⟨rfl, rfl⟩ := huns
      simp only [Machine.perform, MQClass.unsubscribeFunction, MQClass.unsubscribeReceiver, hok,
        ok_bind, Except.ok.injEq] at h
      subst h
      exact ⟨rfl, rfl⟩
  refine ⟨{ t with point := .next n msg x }, x, by simp [Machine.step, hmq.2, hp], ?_⟩
  simp [Machine.step, Machine.tau, hmq.1, Heap.deref, hr.freed.2, bind, Except.bind]

/-- In every run in which no handler unsubscribes the entry it is called through, `Loop`
never reads or calls a deleted node; and a call by the running handler is followed by
such a read, when the handler returns, exactly if it unsubscribes that entry. -/
theorem loop_reads_live_nodes {b : Bool} {s : Machine}
    (hs : Reaches Machine.step SparesOwnEntry (.constructed b) s) :
    (∀ l p, s.step l ≠ .error (.freed p)) ∧
    ∀ c t, s.step (.call c) = .ok t →
      (SparesOwnEntry s (.call c) ↔
        ¬∃ u p, t.step .ret = .ok u ∧ u.step .tau = .error (.freed p)) := by
  have hsafe : ∀ s, Reaches Machine.step SparesOwnEntry (.constructed b) s →
      ∀ l p, s.step l ≠ .error (.freed p) := by
    intro s hs l p herr
    rcases step_error (reaches_wf hs) (reaches_cursorOk hs) herr with h | ⟨i, h⟩ <;> cases h
  refine ⟨hsafe s hs, fun c t hstep => ⟨?_, ?_⟩⟩
  · rintro hspares ⟨u, p, hret, htau⟩
    have ht : Reaches Machine.step SparesOwnEntry (.constructed b) t := hs.next hspares hstep
    have hu : Reaches Machine.step SparesOwnEntry (.constructed b) u :=
      ht.next (l := .ret) trivial hret
    exact hsafe u hu .tau p htau
  · intro hsafe'
    by_contra hown
    exact hsafe' (freed_of_ownEntry (reaches_wf hs) (reaches_cursorOk hs) hown hstep)

/-- A function handler is called and subscribes another one from inside the call. -/
def subscribingRun : List Label :=
  [.call (.subscribeFunction 3 0x100 true), .call (.post ⟨3, none, .caller⟩ true), .loop 1,
    .tau, .tau, .tau, .call (.subscribeFunction 3 0x200 true)]

theorem loop_reads_live_nodes_subscribingRun :
    ∃ s, execute Machine.step (.constructed true) subscribingRun = .ok s ∧
      s.point = .running 1 0 0 ∧ ∀ l p, s.step l ≠ .error (.freed p) := by
  have hpoint : (execute Machine.step (.constructed true) subscribingRun).map Machine.point =
      .ok (.running 1 0 0) := by rfl
  cases hrun : execute Machine.step (.constructed true) subscribingRun with
  | error e => simp [hrun, Except.map] at hpoint
  | ok s =>
      refine ⟨s, rfl, by simpa [hrun, Except.map] using hpoint, ?_⟩
      have hreach : Reaches Machine.step SparesOwnEntry (.constructed true) s := by
        refine Reaches.start.execute (fun u l hl => ?_) hrun
        simp only [subscribingRun, List.mem_cons, List.not_mem_nil, or_false] at hl
        rcases hl with rfl | rfl | rfl | rfl | rfl | rfl | rfl <;>
          simp [SparesOwnEntry, Call.unsubscribes]
      exact (loop_reads_live_nodes hreach).1

/-- A handler that unsubscribes itself. -/
def selfUnsubscribingRun : List Label :=
  [.call (.subscribeFunction 3 0x100 true), .call (.post ⟨3, none, .caller⟩ true), .loop 1,
    .tau, .tau, .tau, .call (.unsubscribeFunction 3 0x100), .ret, .tau]

theorem loop_reads_freed_node :
    ¬∀ s, Reaches Machine.step (fun _ _ => True) (.constructed true) s →
      ∀ l p, s.step l ≠ .error (.freed p) := by
  intro hall
  have hrun : execute Machine.step (.constructed true) selfUnsubscribingRun =
      .error (.freed 0) := by rfl
  obtain ⟨s, l, hs, herr⟩ := exists_reaches_of_execute_error hrun
  exact hall s hs l 0 herr

end EmbeddedKernel.Mq
