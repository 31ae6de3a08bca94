import EmbeddedKernel.Mq.Atomicity

/-!
# No node is lost

The heap of the target is small, so a node that is allocated and can no longer be reached
is a defect of its own.  Every handler node is in the list of some id and every message is
queued or held by `Loop`: the calls and the statements of `Loop` keep this, and by atomicity
it holds of the code whenever no operation is in progress.
-/

namespace EmbeddedKernel.Mq

open Library

/-! ## What the operations leave in the heaps -/

/-- A live message of `q'` was live in `q`, or is the one that has been appended. -/
theorem MsgQueue.get_of_post {q q' : MsgQueue} {m : Payload} {isIntCtx : MQContext} {alloc : Bool}
    {rc : ℤ} (hrep : q.Rep q.nodes) (h : q.post m isIntCtx alloc = .ok (q', rc)) {p : ℕ}
    {n : Message} (hp : q'.heap.get p = some n) :
    (∃ n', q.heap.get p = some n') ∧ q.nodes ⊆ q'.nodes ∨ p ∈ q'.nodes := by
  have hold : p ≠ q.heap.size → ∃ n', q.heap.get p = some n' := by
    intro hne
    obtain ⟨⟨q₁, rc₁⟩, happend, heq⟩ := bind_eq_ok.mp h
    cases heq
    have hheap : q₁.heap.get p = some n := by
      cases isIntCtx <;> exact hp
    have hsize : (if isIntCtx ≠ .interrupt then q.intDisableMasterInterrupts else q).heap =
        q.heap := by
      cases isIntCtx <;> rfl
    rcases append_eq_ok happend with ⟨rfl, -⟩ | ⟨rfl, -⟩ | ⟨last, rfl, -⟩
    · exact ⟨n, hsize ▸ hheap⟩
    · simp only [linkFirst, newMessage, hsize, Heap.get_new, if_neg hne] at hheap
      exact ⟨n, hheap⟩
    · simp only [setLast, newMessage, hsize, Heap.get_modify, Heap.get_new, if_neg hne] at hheap
      split_ifs at hheap
      · obtain ⟨n', hn', -⟩ := Option.map_eq_some_iff.mp hheap
        exact ⟨n', hn'⟩
      · exact ⟨n, hheap⟩
  rcases post_cases hrep m isIntCtx alloc with ⟨q₂, hok, -, -, happ⟩ | ⟨q₂, hok, -, hsame⟩
  · rw [hok] at h
    cases h
    rw [nodes_eq happ.rep.chain]
    by_cases hne : p = q.heap.size
    · exact Or.inr (by simp [hne])
    · exact Or.inl ⟨hold hne, List.subset_append_left _ _⟩
  · rw [hok] at h
    cases h
    rw [hsame.nodes]
    refine Or.inl ⟨⟨n, ?_⟩, List.Subset.refl _⟩
    rw [← hsame.heap]
    exact hp

/-- Every live node is in a list, every live message queued or held by `Loop`. -/
structure Accounted (s : Machine) : Prop where
  handlers : ∀ p e, s.mq.handlerAt p = some e → ∃ id, p ∈ s.mq.nodes id
  messages : ∀ p m, s.mq.queue.heap.get p = some m →
    p ∈ s.mq.queue.nodes ∨ s.point.held = some p

theorem accounted_constructed (b : Bool) : Accounted (.constructed b) := by
  constructor
  · intro p e he
    simp [Machine.constructed, MQClass.constructed, MQClass.handlerAt] at he
  · intro p m hm
    simp [Machine.constructed, MQClass.constructed, MsgQueue.constructed] at hm

/-- An effect on the subscription lists loses no node. -/
theorem Effect.handlers_accounted {s t : MQClass} {es : List Event} (h : Effect s t es)
    (hs : s.Subscriptions) (ha : ∀ p e, s.handlerAt p = some e → ∃ id, p ∈ s.nodes id) :
    ∀ p e, t.handlerAt p = some e → ∃ id, p ∈ t.nodes id := by
  intro p e he
  cases h with
  | quiet _ hhandlers hblock _ =>
      rw [MQClass.handlerAt_congr hhandlers] at he
      obtain ⟨id, hid⟩ := ha p e he
      exact ⟨id, by rwa [MQClass.nodes_congr hhandlers hblock]⟩
  | appended hhandlers hblock _ _ =>
      rw [MQClass.handlerAt_congr hhandlers] at he
      obtain ⟨id, hid⟩ := ha p e he
      exact ⟨id, by rwa [MQClass.nodes_congr hhandlers hblock]⟩
  | @pushed id k _ ht =>
      subst ht
      have hp := MQClass.pushed_push id hs k
      by_cases hnew : p = s.handlers.size
      · exact ⟨id, by rw [hp.nodes_self, hnew]; simp⟩
      · have hold : s.handlerAt p = some e := by
          simpa [MQClass.handlerAt, MQClass.push, Heap.get_new, hnew] using he
        obtain ⟨j, hj⟩ := ha p e hold
        refine ⟨j, ?_⟩
        by_cases hjid : j = id
        · subst hjid
          rw [hp.nodes_self]
          exact List.mem_cons_of_mem _ hj
        · rwa [hp.nodes_other j hjid]
  | @removed id x hr =>
      have hne : p ≠ x := by
        rintro rfl
        simp [MQClass.handlerAt, hr.freed.2] at he
      rw [hr.handler_keep p hne] at he
      obtain ⟨j, hj⟩ := ha p e he
      refine ⟨j, ?_⟩
      by_cases hjid : j = id
      · subst hjid
        rw [hr.nodes_self]
        simpa using ⟨hj, hne⟩
      · rwa [hr.nodes_other j hjid]

/-- A call leaves the messages alone or is a `Post`. -/
theorem perform_queue {s t : Machine} {c : Call} {rc : ℤ} (hw : Wf s)
    (h : s.perform c = .ok (t, rc)) :
    t.mq.queue = s.mq.queue ∨ ∃ m alloc, s.mq.queue.post m .task alloc = .ok (t.mq.queue, rc) := by
  have hsub : ∀ {mk : Addr → Handler} {msgid handler alloc mq rc'},
      MQClass.subscribeHandler mk s.mq msgid handler alloc = .ok (mq, rc') →
      mq.queue = s.mq.queue := by
    intro mk msgid handler alloc mq rc' hok
    rcases MQClass.subscribe_cases hw.subscriptions mk msgid handler alloc with
      ⟨heq, -⟩ | ⟨herr, -⟩ | ⟨id, -, -, -, -, heq⟩
    · rw [heq] at hok
      cases hok
      rfl
    · rw [herr] at hok
      cases hok
    · rw [heq] at hok
      cases hok
      rfl
  have huns : ∀ {msgid handler mq rc'},
      s.mq.unsubscribeHandler msgid handler = .ok (mq, rc') → mq.queue = s.mq.queue := by
    intro msgid handler mq rc' hok
    rcases MQClass.unsubscribe_cases hw.subscriptions msgid handler with
      ⟨heq, -⟩ | ⟨herr, -⟩ | ⟨id, x, e, s', -, -, -, heq, hr⟩
    · rw [heq] at hok
      cases hok
      rfl
    · rw [herr] at hok
      cases hok
    · rw [heq] at hok
      cases hok
      exact hr.queue
  cases c with
  | subscribeFunction msgid handler alloc =>
      obtain ⟨⟨mq, rc'⟩, hmq, heq⟩ := bind_eq_ok.mp h
      cases heq
      exact Or.inl (hsub hmq)
  | subscribeReceiver msgid handler alloc =>
      obtain ⟨⟨mq, rc'⟩, hmq, heq⟩ := bind_eq_ok.mp h
      cases heq
      exact Or.inl (hsub hmq)
  | unsubscribeFunction msgid handler =>
      obtain ⟨⟨mq, rc'⟩, hmq, heq⟩ := bind_eq_ok.mp h
      cases heq
      exact Or.inl (huns hmq)
  | unsubscribeReceiver msgid handler =>
      obtain ⟨⟨mq, rc'⟩, hmq, heq⟩ := bind_eq_ok.mp h
      cases heq
      exact Or.inl (huns hmq)
  | post m alloc =>
      obtain ⟨⟨q, rc'⟩, hq, heq⟩ := bind_eq_ok.mp h
      cases heq
      exact Or.inr ⟨m, alloc, hq⟩
  | constructReceiver r =>
      simp only [Machine.perform] at h
      split_ifs at h
      cases h
      exact Or.inl rfl
  | destroyReceiver r =>
      simp only [Machine.perform] at h
      split_ifs at h
      cases h
      exact Or.inl rfl

/-- A `Post` loses no message. -/
theorem Accounted.post {s t : Machine} {m : Payload} {isIntCtx : MQContext} {alloc : Bool} {rc : ℤ}
    (ha : Accounted s) (hw : Wf s)
    (h : s.mq.queue.post m isIntCtx alloc = .ok (t.mq.queue, rc)) (hpoint : t.point = s.point) :
    ∀ p n, t.mq.queue.heap.get p = some n →
      p ∈ t.mq.queue.nodes ∨ t.point.held = some p := by
  intro p n hp
  rcases MsgQueue.get_of_post hw.rep h hp with ⟨⟨n', hn'⟩, hsub⟩ | hmem
  · rw [hpoint]
    exact (ha.messages p n' hn').imp (fun hq => hsub hq) id
  · exact Or.inl hmem

theorem TauStep.accounted {s t : Machine} (h : TauStep s t) (ha : Accounted s) (hw : Wf s) :
    Accounted t := by
  have hheld : s.point.held = none → ∀ p m, s.mq.queue.heap.get p = some m →
      p ∈ s.mq.queue.nodes := by
    intro hnone p m hm
    refine (ha.messages p m hm).resolve_right ?_
    simp [hnone]
  cases h with
  | leave hp =>
      exact ⟨ha.handlers, fun p m hm => Or.inl (hheld (by simp [hp, Point.held]) p m hm)⟩
  | @idle n q hp hn hq =>
      refine ⟨ha.handlers, fun p m hm => Or.inl ?_⟩
      have hm' : s.mq.queue.heap.get p = some m := hq.heap ▸ hm
      exact hq.nodes.symm ▸ hheld (by simp [hp, Point.held]) p m hm'
  | @pop n q x xs m hp hn hnodes hq hheap hx hm =>
      refine ⟨ha.handlers, fun p m' hm' => ?_⟩
      have hmem := hheld (by simp [hp, Point.held]) p m' (hheap ▸ hm')
      rw [hnodes] at hmem
      rcases List.mem_cons.mp hmem with rfl | hmem
      · exact Or.inr rfl
      · refine Or.inl ?_
        rw [MsgQueue.nodes_eq hq.chain]
        exact hmem
  | lookup hp hm hid =>
      exact ⟨ha.handlers, by simpa [hp, Point.held] using ha.messages⟩
  | exhausted hp => exact ⟨ha.handlers, by simpa [hp, Point.held] using ha.messages⟩
  | call hp hm hnode => exact ⟨ha.handlers, by simpa [hp, Point.held] using ha.messages⟩
  | advance hp hnode => exact ⟨ha.handlers, by simpa [hp, Point.held] using ha.messages⟩
  | @free n msg m hp hm contexts =>
      obtain ⟨-, hnot⟩ := hw.held msg (by simp [hp, Point.held])
      refine ⟨ha.handlers, fun p m' hm' => Or.inl ?_⟩
      have hne : p ≠ msg := by
        rintro rfl
        simp at hm'
      have hold : s.mq.queue.heap.get p = some m' := by
        simpa [Heap.get_delete_of_ne _ hne] using hm'
      have hmem : p ∈ s.mq.queue.nodes := by
        refine (ha.messages p m' hold).resolve_right ?_
        simp [hp, Point.held, Ne.symm hne]
      have hnodes := MsgQueue.nodes_eq (q := { s.mq.queue with
        heap := s.mq.queue.heap.delete msg }) (hw.rep.chain.delete_of_notMem hnot)
      exact hnodes.symm ▸ hmem
  | decrement hp =>
      exact ⟨ha.handlers, fun p m hm => Or.inl (hheld (by simp [hp, Point.held]) p m hm)⟩

theorem Accounted.step {s t : Machine} {l : Label} (ha : Accounted s) (hw : Wf s)
    (h : s.step l = .ok t) : Accounted t := by
  cases hw.stepped h with
  | call hruns hperform hpoint htrace heff hwhich =>
      refine ⟨heff.handlers_accounted hw.subscriptions ha.handlers, ?_⟩
      rcases perform_queue hw hperform with hsame | ⟨m, alloc, hpost⟩
      · rw [hsame, hpoint]
        exact ha.messages
      · exact ha.post hw hpost hpoint
  | @interrupt m alloc _ es hpoint hlive htrace heff hes =>
      refine ⟨heff.handlers_accounted hw.subscriptions ha.handlers, ?_⟩
      simp only [Machine.step] at h
      split_ifs at h
      obtain ⟨⟨q, rc⟩, hpost, heq⟩ := bind_eq_ok.mp h
      cases heq
      exact ha.post hw hpost rfl
  | loop hp => exact ⟨ha.handlers, by simpa [hp, Point.held] using ha.messages⟩
  | ret hp => exact ⟨ha.handlers, by simpa [hp, Point.held] using ha.messages⟩
  | tau htau => exact htau.accounted ha hw

theorem reaches_accounted {b : Bool} {s : Machine} {good : Machine → Label → Prop}
    (hs : Reaches Machine.step good (.constructed b) s) : Wf s ∧ Accounted s := by
  refine hs.invariant (fun s => Wf s ∧ Accounted s)
    ⟨wf_constructed b, accounted_constructed b⟩ ?_
  rintro s l t ⟨hw, ha⟩ - hstep
  exact ⟨hw.step hstep, ha.step hw hstep⟩

namespace Statements

theorem Recorded.reaches_machine {b : Bool} {a : Recorded}
    (ha : Reaches Recorded.step (fun _ _ => True) (.constructed b) a) :
    Reaches Machine.step (fun _ _ => True) (.constructed b) a.machine := by
  induction ha with
  | start => exact .start
  | next _ _ hstep ih => exact ih.next trivial (Recorded.step_machine hstep)

/-- The lists and the queue at a point between two statements. -/
def System.mq (s : System) : MQClass :=
  ⟨s.sections.handlers, s.sections.queueBlock, s.sections.base.queue⟩

/-- In every run of the operations, statement by statement and under interrupts, whenever no
operation is in progress the live handler nodes are exactly those in the list of some id,
and the live messages are exactly the queued ones and the one that `Loop` is dispatching. -/
theorem live_nodes_iff {b : Bool} {s : System}
    (hs : Reaches System.step (fun _ _ => True) (.constructed b) s) (hq : s.Quiescent) :
    (∀ p, (∃ node, s.sections.handlers.get p = some node) ↔ ∃ id, p ∈ s.mq.nodes id) ∧
    ∀ p, (∃ m, s.sections.base.queue.heap.get p = some m) ↔
      p ∈ s.sections.base.queue.nodes ∨ s.sections.base.loop.held = some p := by
  obtain ⟨a, ha, h⟩ := simulation.reaches (matches_constructed b) hs
  obtain ⟨hw, hacc⟩ := reaches_accounted (Recorded.reaches_machine ha)
  obtain ⟨hhandlers, hblock, hsame⟩ := h.quiescent hq
  have hnodes : ∀ id, s.mq.nodes id = a.machine.mq.nodes id :=
    MQClass.nodes_congr hhandlers.symm hblock.symm
  have hheld : a.machine.point.held = s.sections.base.loop.held := by
    rw [h.point]
    obtain ⟨-, -, hloop⟩ := hq
    cases hl : s.sections.base.loop with
    | dispatch n msg => cases hwalk : s.walk <;> rfl
    | enable n msg => cases msg <;> rfl
    | advance n msg => simp [hl, Interleaving.LoopPoint.Quiet] at hloop
    | clearLast n msg => simp [hl, Interleaving.LoopPoint.Quiet] at hloop
    | _ => rfl
  refine ⟨fun p => ?_, fun p => ?_⟩
  · simp only [hnodes, ← hhandlers]
    constructor
    · rintro ⟨node, hnode⟩
      exact hacc.handlers p node.handler (by simp [MQClass.handlerAt, hnode])
    · rintro ⟨id, hid⟩
      exact (hw.subscriptions.chain id).get_of_mem hid
  · rw [← hsame.heap, ← hsame.nodes, ← hheld]
    constructor
    · rintro ⟨m, hm⟩
      exact hacc.messages p m hm
    · rintro (hmem | hmem)
      · exact hw.rep.chain.get_of_mem hmem
      · exact (hw.held p hmem).1

theorem live_nodes_iff_interruptedSubscribe :
    ∃ s, execute System.step (.constructed true)
        (interruptedSubscribe ++ [.sections (.statement true)]) = .ok s ∧
      s.Quiescent ∧ (∃ id, 0 ∈ s.mq.nodes id) ∧ 1 ∈ s.sections.base.queue.nodes := by
  let s := after System.step (.constructed true)
    (interruptedSubscribe ++ [.sections (.statement true)])
  have hrun : execute System.step (.constructed true)
      (interruptedSubscribe ++ [.sections (.statement true)]) = .ok s := rfl
  have hq : s.Quiescent := ⟨rfl, rfl, trivial⟩
  obtain ⟨hhandlers, hmessages⟩ := live_nodes_iff (reaches_of_execute hrun) hq
  exact ⟨s, hrun, hq, (hhandlers 0).mp ⟨_, rfl⟩, ((hmessages 1).mp ⟨_, rfl⟩).resolve_right nofun⟩

end Statements

end EmbeddedKernel.Mq
