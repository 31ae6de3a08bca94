import EmbeddedKernel.Mq.Machine

/-!
# The range of message ids

`Subscribe`, `Unsubscribe` and `Post` compare the id they are given with
`MSG_MAX_MSG_IDS` only, and `Post` also with `MSG_ID_NOMESSAGE`, while `Loop`
indexes `QueueBlock` with whatever id was queued.  In a run in which no negative
id gets past these tests, every queued id is an index of `QueueBlock`.
-/

namespace EmbeddedKernel.Mq

open Library

def InRange (msgid : ℤ) : Prop := 0 ≤ msgid ∧ msgid < MSG_MAX_MSG_IDS

/-- The message id a call is given. -/
def Call.msgid : Call → Option ℤ
  | .subscribeFunction msgid _ _ | .subscribeReceiver msgid _ _ => some msgid
  | .unsubscribeFunction msgid _ | .unsubscribeReceiver msgid _ => some msgid
  | .post m _ => some m.msgid
  | .constructReceiver _ | .destroyReceiver _ => none

/-- No negative id gets past the test of the operation. -/
def PassesNoNegativeId : Label → Prop
  | .call (.subscribeFunction msgid handler _) => 0 ≤ msgid ∨ handler = 0
  | .call (.subscribeReceiver msgid handler _) => 0 ≤ msgid ∨ handler = 0
  | .call (.unsubscribeFunction msgid _) => 0 ≤ msgid
  | .call (.unsubscribeReceiver msgid _) => 0 ≤ msgid
  | .call (.post m alloc) => MSG_ID_NOMESSAGE ≤ m.msgid ∨ alloc = false
  | .interrupt m alloc => MSG_ID_NOMESSAGE ≤ m.msgid ∨ alloc = false
  | _ => True

/-- The handler lists and the message queue are as they were. -/
structure Unchanged (s t : MQClass) : Prop where
  handlers : t.handlers = s.handlers
  queueBlock : t.queueBlock = s.queueBlock
  queue : s.queue.SameMessages t.queue

theorem Unchanged.refl (s : MQClass) : Unchanged s s := ⟨rfl, rfl, rfl, rfl, rfl⟩

/-- The operation stays within `QueueBlock`, fails if its id is out of range, and changes
nothing if it fails. -/
def RangeChecked (s : Machine) : Label → Prop
  | .call c => (∀ i, s.perform c ≠ .error (.badIndex i)) ∧
      ∀ t rc, s.perform c = .ok (t, rc) →
        (∀ i, c.msgid = some i → ¬InRange i → rc ≠ 0) ∧ (rc ≠ 0 → Unchanged s.mq t.mq)
  | .interrupt m alloc => ∀ q rc, s.mq.queue.post m .interrupt alloc = .ok (q, rc) →
      (¬InRange m.msgid → rc ≠ 0) ∧ (rc ≠ 0 → s.mq.queue.SameMessages q)
  | l => ∀ i, s.step l ≠ .error (.badIndex i)

/-! ## The operations -/

theorem inRange_of_accepts {m : Payload} (hm : MsgQueue.Accepts m)
    (hid : MSG_ID_NOMESSAGE ≤ m.msgid) : InRange m.msgid := by
  obtain ⟨hlt, hne⟩ := hm
  unfold MSG_ID_NOMESSAGE at hid hne
  exact ⟨by omega, hlt⟩

theorem rangeChecked_of_ok {s : Machine} {c : Call} {t : Machine} {rc : ℤ}
    (hok : s.perform c = .ok (t, rc)) (hid : ∀ i, c.msgid = some i → ¬InRange i → rc ≠ 0)
    (hsame : rc ≠ 0 → Unchanged s.mq t.mq) : RangeChecked s (.call c) := by
  refine ⟨by simp [hok], fun t' rc' hok' => ?_⟩
  rw [hok] at hok'
  cases hok'
  exact ⟨hid, hsame⟩

section

variable {s : Machine} (hw : Wf s)

include hw

theorem subscribe_rangeChecked (mk : Addr → Handler) {msgid : ℤ} {handler : Addr} {alloc : Bool}
    (hid : 0 ≤ msgid ∨ handler = 0) :
    ∃ mq rc, MQClass.subscribeHandler mk s.mq msgid handler alloc = .ok (mq, rc) ∧
      (¬InRange msgid → rc ≠ 0) ∧ (rc ≠ 0 → Unchanged s.mq mq) := by
  rcases MQClass.subscribe_cases hw.subscriptions mk msgid handler alloc with
    ⟨hok, -⟩ | ⟨-, hneg, hne⟩ | ⟨id, rfl, -, -, -, hok⟩
  · exact ⟨s.mq, -1, hok, by simp, fun _ => .refl s.mq⟩
  · rcases hid with hid | hid
    · omega
    · exact (hne hid).elim
  · refine ⟨_, 0, hok, fun hrange => (hrange ⟨by omega, ?_⟩).elim, by simp⟩
    exact_mod_cast id.isLt

theorem unsubscribe_rangeChecked {msgid : ℤ} {handler : Addr} (hid : 0 ≤ msgid) :
    ∃ mq rc, MQClass.unsubscribeHandler s.mq msgid handler = .ok (mq, rc) ∧
      (¬InRange msgid → rc ≠ 0) ∧ (rc ≠ 0 → Unchanged s.mq mq) := by
  rcases MQClass.unsubscribe_cases hw.subscriptions msgid handler with
    ⟨hok, -⟩ | ⟨-, hneg⟩ | ⟨id, x, e, mq, rfl, -, -, hok, -⟩
  · exact ⟨s.mq, -1, hok, by simp, fun _ => .refl s.mq⟩
  · omega
  · refine ⟨mq, 0, hok, fun hrange => (hrange ⟨by omega, ?_⟩).elim, by simp⟩
    exact_mod_cast id.isLt

theorem post_rangeChecked {m : Payload} (isIntCtx : MQContext) {alloc : Bool}
    (hid : MSG_ID_NOMESSAGE ≤ m.msgid ∨ alloc = false) :
    ∃ q rc, s.mq.queue.post m isIntCtx alloc = .ok (q, rc) ∧
      (¬InRange m.msgid → rc ≠ 0) ∧ (rc ≠ 0 → s.mq.queue.SameMessages q) := by
  rcases MsgQueue.post_cases hw.rep m isIntCtx alloc with
    ⟨q, hok, hm, halloc, -⟩ | ⟨q, hok, -, hsame⟩
  · refine ⟨q, 0, hok, fun hrange => ?_, by simp⟩
    rcases hid with hid | hid
    · exact (hrange (inRange_of_accepts hm hid)).elim
    · simp [hid] at halloc
  · exact ⟨q, -1, hok, by simp, fun _ => hsame⟩

theorem post_passes {m : Payload} (isIntCtx : MQContext) {alloc : Bool}
    (hid : ¬(MSG_ID_NOMESSAGE ≤ m.msgid ∨ alloc = false)) :
    ∃ q, s.mq.queue.post m isIntCtx alloc = .ok (q, 0) ∧ ¬InRange m.msgid := by
  push Not at hid
  obtain ⟨hneg, halloc⟩ := hid
  unfold MSG_ID_NOMESSAGE at hneg
  have hm : MsgQueue.Accepts m := by
    refine ⟨?_, ?_⟩
    · have hpos : (0 : ℤ) ≤ MSG_MAX_MSG_IDS := by decide
      omega
    · unfold MSG_ID_NOMESSAGE
      omega
  rcases MsgQueue.post_cases hw.rep m isIntCtx alloc with ⟨q, hok, -⟩ | ⟨q, -, href, -⟩
  · refine ⟨q, hok, fun hrange => ?_⟩
    have hpos := hrange.1
    omega
  · simp [hm, halloc] at href

theorem rangeChecked_call {c : Call} (hid : PassesNoNegativeId (.call c)) :
    RangeChecked s (.call c) := by
  cases c with
  | subscribeFunction msgid handler alloc =>
      obtain ⟨mq, rc, hok, hrange, hsame⟩ := subscribe_rangeChecked hw .mhFunction hid
      exact rangeChecked_of_ok
        (by rw [Machine.perform, MQClass.subscribeFunction, hok, ok_bind])
        (by simpa [Call.msgid] using hrange) hsame
  | subscribeReceiver msgid handler alloc =>
      obtain ⟨mq, rc, hok, hrange, hsame⟩ := subscribe_rangeChecked hw .mhClass hid
      exact rangeChecked_of_ok
        (by rw [Machine.perform, MQClass.subscribeReceiver, hok, ok_bind])
        (by simpa [Call.msgid] using hrange) hsame
  | unsubscribeFunction msgid handler =>
      obtain ⟨mq, rc, hok, hrange, hsame⟩ := unsubscribe_rangeChecked hw hid
      exact rangeChecked_of_ok
        (by rw [Machine.perform, MQClass.unsubscribeFunction, hok, ok_bind])
        (by simpa [Call.msgid] using hrange) hsame
  | unsubscribeReceiver msgid handler =>
      obtain ⟨mq, rc, hok, hrange, hsame⟩ := unsubscribe_rangeChecked hw hid
      exact rangeChecked_of_ok
        (by rw [Machine.perform, MQClass.unsubscribeReceiver, hok, ok_bind])
        (by simpa [Call.msgid] using hrange) hsame
  | post m alloc =>
      obtain ⟨q, rc, hok, hrange, hsame⟩ := post_rangeChecked hw .task hid
      have hperform : s.perform (.post m alloc) = .ok ({ s with
          mq := { s.mq with queue := q }
          trace := s.trace ++ Machine.postedEvents m rc }, rc) := by
        rw [Machine.perform, hok, ok_bind]
      exact rangeChecked_of_ok hperform (by simpa [Call.msgid] using hrange)
        fun hrc => ⟨rfl, rfl, hsame hrc⟩
  | constructReceiver r =>
      by_cases hr : r ∈ s.live
      · simp [RangeChecked, Machine.perform, hr]
      · simp [RangeChecked, Machine.perform, hr, Call.msgid]
  | destroyReceiver r =>
      by_cases hr : r ∈ s.live
      · simp [RangeChecked, Machine.perform, hr, Call.msgid]
      · simp [RangeChecked, Machine.perform, hr]

theorem not_rangeChecked_call {c : Call} (hid : ¬PassesNoNegativeId (.call c)) :
    ¬RangeChecked s (.call c) := by
  intro hchecked
  cases c with
  | subscribeFunction msgid handler alloc =>
      simp only [PassesNoNegativeId, not_or, not_le] at hid
      apply hchecked.1 msgid
      simp [Machine.perform, MQClass.subscribeFunction,
        MQClass.subscribe_of_neg .mhFunction s.mq hid.1 hid.2, bind, Except.bind]
  | subscribeReceiver msgid handler alloc =>
      simp only [PassesNoNegativeId, not_or, not_le] at hid
      apply hchecked.1 msgid
      simp [Machine.perform, MQClass.subscribeReceiver,
        MQClass.subscribe_of_neg .mhClass s.mq hid.1 hid.2, bind, Except.bind]
  | unsubscribeFunction msgid handler =>
      simp only [PassesNoNegativeId, not_le] at hid
      apply hchecked.1 msgid
      simp [Machine.perform, MQClass.unsubscribeFunction,
        MQClass.unsubscribe_of_neg s.mq hid handler, bind, Except.bind]
  | unsubscribeReceiver msgid handler =>
      simp only [PassesNoNegativeId, not_le] at hid
      apply hchecked.1 msgid
      simp [Machine.perform, MQClass.unsubscribeReceiver,
        MQClass.unsubscribe_of_neg s.mq hid handler, bind, Except.bind]
  | post m alloc =>
      obtain ⟨q, hok, hrange⟩ := post_passes hw .task hid
      have hperform : s.perform (.post m alloc) = .ok ({ s with
          mq := { s.mq with queue := q }
          trace := s.trace ++ Machine.postedEvents m 0 }, 0) := by
        rw [Machine.perform, hok, ok_bind]
      exact (hchecked.2 _ _ hperform).1 m.msgid rfl hrange rfl
  | constructReceiver r => exact hid trivial
  | destroyReceiver r => exact hid trivial

theorem rangeChecked_interrupt {m : Payload} {alloc : Bool} :
    RangeChecked s (.interrupt m alloc) ↔ PassesNoNegativeId (.interrupt m alloc) := by
  constructor
  · intro hchecked
    by_contra hid
    obtain ⟨q, hok, hrange⟩ := post_passes hw .interrupt hid
    exact (hchecked q 0 hok).1 hrange rfl
  · intro hid q rc hok
    obtain ⟨q', rc', hok', hrange, hsame⟩ := post_rangeChecked hw .interrupt hid
    rw [hok] at hok'
    cases hok'
    exact ⟨hrange, hsame⟩

end

/-! ## The queued ids -/

/-- The ids of the queued messages and of the message in dispatch are in range. -/
structure IdsInRange (s : Machine) : Prop where
  queued : ∀ p ∈ s.mq.queue.contents, InRange p.msgid
  held : ∀ msg m, s.point.held = some msg → s.mq.queue.heap.get msg = some m → InRange m.msgid

variable {s t : Machine} {es : List Event}

theorem Effect.idsInRange (h : Effect s.mq t.mq es) (hw : Wf s) (hi : IdsInRange s)
    (hpoint : t.point = s.point)
    (hposted : ∀ m, Event.posted m ∈ es → MSG_ID_NOMESSAGE ≤ m.msgid) : IdsInRange t := by
  constructor
  · intro p hp
    rw [h.contents, List.mem_append] at hp
    rcases hp with hp | hp
    · exact hi.queued p hp
    · have hmem := mem_postedMessages.mp hp
      exact inRange_of_accepts (h.accepts hmem) (hposted p hmem)
  · intro msg m hheld hm
    rw [hpoint] at hheld
    obtain ⟨⟨m₀, hm₀⟩, -⟩ := hw.held msg hheld
    obtain ⟨m', hm', hpay⟩ := h.keeps msg m₀ hm₀
    rw [hm] at hm'
    cases hm'
    have hrange := hi.held msg m₀ hheld hm₀
    rwa [← hpay] at hrange

theorem TauStep.idsInRange (h : TauStep s t) (hw : Wf s) (hi : IdsInRange s) : IdsInRange t := by
  obtain ⟨hqueued, hheld⟩ := hi
  cases h with
  | leave hp => exact ⟨hqueued, by simp [Point.held]⟩
  | idle hp hn hq => exact ⟨by simpa [hq.contents] using hqueued, by simp [Point.held]⟩
  | @pop n q x xs m hp hn hnodes hq hheap hx hm =>
      have hcontents : s.mq.queue.contents = m.toPayload :: q.contents := by
        rw [MsgQueue.contents, hnodes, MsgQueue.payloads_cons xs hm, MsgQueue.contents,
          MsgQueue.nodes_eq hq.chain, hheap]
      rw [hcontents] at hqueued
      refine ⟨fun p hp => hqueued p (List.mem_cons_of_mem _ hp), ?_⟩
      intro msg m' hmsg hm'
      cases hmsg
      rw [show q.heap.get x = some m from hheap ▸ hm] at hm'
      cases hm'
      exact hqueued m.toPayload List.mem_cons_self
  | lookup hp hm hid => exact ⟨hqueued, by simpa [Point.held, hp] using hheld⟩
  | exhausted hp => exact ⟨hqueued, by simpa [Point.held, hp] using hheld⟩
  | call hp hm hnode => exact ⟨hqueued, by simpa [Point.held, hp] using hheld⟩
  | advance hp hnode => exact ⟨hqueued, by simpa [Point.held, hp] using hheld⟩
  | @free n msg m hp hm contexts =>
      obtain ⟨-, hnot⟩ := hw.held msg (by simp [hp, Point.held])
      have hcontents : MsgQueue.contents
          { s.mq.queue with heap := s.mq.queue.heap.delete msg } = s.mq.queue.contents := by
        rw [MsgQueue.contents, MsgQueue.nodes_eq (hw.rep.chain.delete_of_notMem hnot)]
        exact MsgQueue.payloads_delete hnot
      exact ⟨by rwa [hcontents], by simp [Point.held]⟩
  | decrement hp => exact ⟨hqueued, by simp [Point.held]⟩

theorem IdsInRange.step {l : Label} (hw : Wf s) (hi : IdsInRange s)
    (hgood : PassesNoNegativeId l) (h : s.step l = .ok t) : IdsInRange t := by
  cases hw.stepped h with
  | call hruns hperform hpoint htrace heff hwhich hposted =>
      apply heff.idsInRange hw hi hpoint
      intro m hm
      rw [hposted m hm] at hgood
      simpa [PassesNoNegativeId] using hgood
  | interrupt hpoint hlive htrace heff hes =>
      apply heff.idsInRange hw hi hpoint
      intro m hm
      obtain ⟨heq, halloc⟩ := hes _ hm
      cases heq
      simpa [PassesNoNegativeId, halloc] using hgood
  | loop hp => exact ⟨hi.queued, by simp [Point.held]⟩
  | ret hp => exact ⟨hi.queued, by simpa [Point.held, hp] using hi.held⟩
  | tau htau => exact htau.idsInRange hw hi

theorem reaches_idsInRange {b : Bool}
    (hs : Reaches Machine.step (fun _ l => PassesNoNegativeId l) (.constructed b) s) :
    IdsInRange s := by
  have hboth : Wf s ∧ IdsInRange s := by
    refine hs.invariant (fun s => Wf s ∧ IdsInRange s) ⟨wf_constructed b, ?_, ?_⟩ ?_
    · have hnodes : (MsgQueue.constructed b).nodes = [] := MsgQueue.nodes_eq rfl
      simp [Machine.constructed, MQClass.constructed, MsgQueue.contents, hnodes]
    · simp [Machine.constructed, Point.held]
    · intro s l t hinv hgood hstep
      exact ⟨hinv.1.step hstep, hinv.2.step hinv.1 hgood hstep⟩
  exact hboth.2

/-- `Loop` looks a message up at an index of `QueueBlock`. -/
theorem IdsInRange.tau_ne_badIndex (hi : IdsInRange s) (hw : Wf s) (i : ℤ) :
    s.tau ≠ .error (.badIndex i) := by
  have hderef : ∀ {α : Type} (h : Heap α) (p : ℕ), h.deref (some p) ≠ .error (.badIndex i) := by
    intro α h p
    cases hp : h.get p <;> simp [Heap.deref, hp]
  have hmsg : ∀ msg, s.point.held = some msg → ∃ m, s.mq.queue.heap.deref (some msg) = .ok m := by
    intro msg hheld
    obtain ⟨⟨m, hm⟩, -⟩ := hw.held msg hheld
    exact ⟨m, Heap.deref_some hm⟩
  intro h
  cases hp : s.point with
  | outside => simp [Machine.tau, hp] at h
  | running n msg cur => simp [Machine.tau, hp] at h
  | decrement n => simp [Machine.tau, hp] at h
  | test n =>
      simp only [Machine.tau, hp] at h
      split_ifs at h
      cases hnodes : s.mq.queue.nodes with
      | nil => simp [MsgQueue.pop_of_nil (hnodes ▸ hw.rep)] at h
      | cons x xs =>
          obtain ⟨q, hpop, -, hheap, -, -, m, hm⟩ := MsgQueue.pop_of_cons (hnodes ▸ hw.rep)
          simp [hpop, Heap.deref_some (hheap ▸ hm : q.heap.get x = some m)] at h
  | lookup n msg =>
      obtain ⟨⟨m, hm⟩, -⟩ := hw.held msg (by simp [hp, Point.held])
      obtain ⟨hpos, hlt⟩ := hi.held msg m (by simp [hp, Point.held]) hm
      obtain hneg | ⟨id, hid⟩ := MQClass.cases_msgid hlt
      · omega
      · simp [Machine.tau, hp, Heap.deref_some hm, hid, MQClass.index_ok] at h
  | walk n msg cur =>
      cases cur with
      | none => simp [Machine.tau, hp] at h
      | some cur =>
          obtain ⟨m, hm⟩ := hmsg msg (by simp [hp, Point.held])
          simp only [Machine.tau, hp, hm, ok_bind] at h
          exact hderef _ _ (bind_eq_error_of_ok h fun _ => ⟨_, rfl⟩)
  | next n msg cur =>
      simp only [Machine.tau, hp] at h
      exact hderef _ _ (bind_eq_error_of_ok h fun _ => ⟨_, rfl⟩)
  | free n msg =>
      obtain ⟨m, hm⟩ := hmsg msg (by simp [hp, Point.held])
      simp [Machine.tau, hp, hm, MsgQueue.deleteMessage] at h

theorem rangeChecked_iff (hw : Wf s) (hi : IdsInRange s) (l : Label) :
    RangeChecked s l ↔ PassesNoNegativeId l := by
  cases l with
  | call c =>
      constructor
      · intro hchecked
        by_contra hid
        exact not_rangeChecked_call hw hid hchecked
      · exact rangeChecked_call hw
  | interrupt m alloc => exact rangeChecked_interrupt hw
  | loop n =>
      refine iff_of_true (fun i h => ?_) trivial
      simp only [Machine.step] at h
      split at h <;> cases h
  | ret =>
      refine iff_of_true (fun i h => ?_) trivial
      simp only [Machine.step] at h
      split at h <;> cases h
  | tau => exact iff_of_true (hi.tau_ne_badIndex hw) trivial

theorem RangeChecked.step_ne_badIndex {l : Label} (hw : Wf s) (h : RangeChecked s l) (i : ℤ) :
    s.step l ≠ .error (.badIndex i) := by
  intro herr
  cases l with
  | call c =>
      simp only [Machine.step] at herr
      split_ifs at herr
      · exact h.1 i (bind_eq_error_of_ok herr fun _ => ⟨_, rfl⟩)
      · cases herr
  | interrupt m alloc =>
      simp only [Machine.step] at herr
      split_ifs at herr
      · rcases MsgQueue.post_cases hw.rep m .interrupt alloc with ⟨q, hok, -⟩ | ⟨q, hok, -⟩ <;>
          simp [hok] at herr
      · cases herr
  | loop n => exact h i herr
  | ret => exact h i herr
  | tau => exact h i herr

/-- In every run in which no negative id gets past the test of an operation, `QueueBlock`
is indexed within its bounds, by `Loop` too, and an operation fails on an id out of range
and changes nothing when it fails; an operation in such a run does so exactly if no
negative id gets past its own test. -/
theorem messageIds_rangeChecked {b : Bool} {s : Machine}
    (hs : Reaches Machine.step (fun _ l => PassesNoNegativeId l) (.constructed b) s) (l : Label) :
    (PassesNoNegativeId l → ∀ i, s.step l ≠ .error (.badIndex i)) ∧
      (RangeChecked s l ↔ PassesNoNegativeId l) := by
  have hw := reaches_wf hs
  have hiff := rangeChecked_iff hw (reaches_idsInRange hs) l
  exact ⟨fun hid => (hiff.mpr hid).step_ne_badIndex hw, hiff⟩

/-- A message with the largest id is posted and popped. -/
def largestIdRun : List Label := [.call (.post ⟨25, none, .caller⟩ true), .loop 1, .tau]

theorem messageIds_rangeChecked_largestIdRun :
    ∃ s, execute Machine.step (.constructed true) largestIdRun = .ok s ∧
      s.point = .lookup 1 0 ∧ ∀ i, s.step .tau ≠ .error (.badIndex i) := by
  let s := after Machine.step (.constructed true) largestIdRun
  have hrun : execute Machine.step (.constructed true) largestIdRun = .ok s := rfl
  have hreach : Reaches Machine.step (fun _ l => PassesNoNegativeId l) (.constructed true) s := by
    refine Reaches.start.execute (fun u l hl => ?_) hrun
    simp only [largestIdRun, List.mem_cons, List.not_mem_nil, or_false] at hl
    rcases hl with rfl | rfl | rfl <;> simp [PassesNoNegativeId, MSG_ID_NOMESSAGE]
  exact ⟨s, hrun, rfl, (messageIds_rangeChecked hreach .tau).1 trivial⟩

/-- A message with id -2 is accepted, and `Loop` looks it up at `QueueBlock[-2]`. -/
theorem negative_id_indexes_queueBlock :
    ¬∀ s, Reaches Machine.step (fun _ _ => True) (.constructed true) s →
      (∀ l, RangeChecked s l) ∧ ∀ l i, s.step l ≠ .error (.badIndex i) := by
  intro hall
  have hrun : execute Machine.step (.constructed true)
      [.call (.post ⟨-2, none, .caller⟩ true), .loop 1, .tau, .tau] =
      .error (.badIndex (-2)) := rfl
  obtain ⟨s, l, hs, herr⟩ := exists_reaches_of_execute_error hrun
  exact (hall s hs).2 l _ herr

end EmbeddedKernel.Mq
