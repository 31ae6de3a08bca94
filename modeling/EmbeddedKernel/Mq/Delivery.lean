import EmbeddedKernel.Mq.Cursor

/-!
# Delivery of one message

The dispatch of a message walks the subscription list of its id while the
handlers it calls add and remove entries.  At every moment the entries that were
subscribed when the dispatch began split into those whose turn has come and those
whose turn has not, and the current list ends with the entries of the second part
that are still subscribed.
-/

namespace EmbeddedKernel.Mq

open Library

/-! ## Projections of a trace -/

def calledNodes (es : List Event) : List ℕ :=
  es.filterMap fun
    | .called x _ => some x
    | _ => none

/-- The nodes subscribed to `id` and not unsubscribed since, most recently subscribed
first. -/
def subscribers (id : Fin MSG_MAX_MSG_IDS) (es : List Event) : List ℕ :=
  es.foldl
    (fun xs e =>
      match e with
      | .subscribed j x => if j = id then x :: xs else xs
      | .unsubscribed j x => if j = id then xs.filter (· ≠ x) else xs
      | _ => xs)
    []

@[simp] theorem calledNodes_append (es fs : List Event) :
    calledNodes (es ++ fs) = calledNodes es ++ calledNodes fs := by
  simp [calledNodes]

theorem mem_calledNodes {es : List Event} {x : ℕ} :
    x ∈ calledNodes es ↔ ∃ i, Event.called x i ∈ es := by
  simp only [calledNodes, List.mem_filterMap]
  constructor
  · rintro ⟨e, he, hx⟩
    cases e <;> simp_all
    exact ⟨_, he⟩
  · rintro ⟨i, hi⟩
    exact ⟨_, hi, rfl⟩

theorem Effect.calledNodes_eq {s t : MQClass} {es : List Event} (h : Effect s t es) :
    calledNodes es = [] := by
  rw [List.eq_nil_iff_forall_not_mem]
  intro x hx
  obtain ⟨i, hi⟩ := mem_calledNodes.mp hx
  cases h with
  | quiet hes _ _ _ => exact hes _ hi
  | pushed _ _ => simp at hi
  | removed _ => simp at hi
  | appended _ _ _ => simp at hi

theorem Effect.popped_notMem {s t : MQClass} {es : List Event} (h : Effect s t es) (p : Payload) :
    Event.popped p ∉ es := by
  intro hp
  cases h with
  | quiet hes _ _ _ => exact hes _ hp
  | pushed _ _ => simp at hp
  | removed _ => simp at hp
  | appended _ _ _ => simp at hp

theorem Effect.size_le {s t : MQClass} {es : List Event} (h : Effect s t es) :
    s.handlers.size ≤ t.handlers.size := by
  cases h with
  | quiet _ hhandlers _ _ => rw [hhandlers]
  | appended hhandlers _ _ => rw [hhandlers]
  | pushed _ ht =>
      subst ht
      simp [MQClass.push]
  | removed hr => rw [hr.size]

theorem Effect.eq_size_of_subscribed {s t : MQClass} {es : List Event} (h : Effect s t es)
    {j : Fin MSG_MAX_MSG_IDS} {x : ℕ} (hx : Event.subscribed j x ∈ es) :
    x = s.handlers.size := by
  cases h with
  | quiet hes _ _ _ => exact (hes _ hx).elim
  | appended _ _ _ => simp at hx
  | removed _ => simp at hx
  | pushed _ _ =>
      simp only [List.mem_singleton, Event.subscribed.injEq] at hx
      exact hx.2

/-- The event leaves the subscription lists alone. -/
def Event.KeepsLists : Event → Prop
  | .subscribed _ _ | .unsubscribed _ _ => False
  | _ => True

theorem subscribers_append_of_keepsLists {id : Fin MSG_MAX_MSG_IDS} (es : List Event)
    {fs : List Event} (h : ∀ e ∈ fs, e.KeepsLists) :
    subscribers id (es ++ fs) = subscribers id es := by
  rw [subscribers, List.foldl_append, ← subscribers]
  induction fs with
  | nil => rfl
  | cons e fs ih =>
      have he : e.KeepsLists := h e (by simp)
      have hfs := ih fun f hf => h f (by simp [hf])
      rw [List.foldl_cons]
      cases e
      case subscribed => exact he.elim
      case unsubscribed => exact he.elim
      all_goals exact hfs

/-- A call or an interrupt changes the lists as its events say. -/
theorem Effect.subscribers {s t : MQClass} {fs : List Event} (h : Effect s t fs)
    (hs : s.Subscriptions) {id : Fin MSG_MAX_MSG_IDS} {es : List Event}
    (hnodes : s.nodes id = subscribers id es) : t.nodes id = subscribers id (es ++ fs) := by
  cases h with
  | quiet hes hhandlers hblock _ =>
      rw [MQClass.nodes_congr hhandlers hblock, hnodes, subscribers_append_of_keepsLists]
      intro e he
      have hquiet := hes e he
      cases e <;> simp_all [Event.Quiet, Event.KeepsLists]
  | appended hhandlers hblock _ =>
      rw [MQClass.nodes_congr hhandlers hblock, hnodes, subscribers_append_of_keepsLists]
      simp [Event.KeepsLists]
  | @pushed id' h _ ht =>
      subst ht
      have hp := MQClass.pushed_push id' hs h
      by_cases hid : id' = id
      · subst hid
        rw [hp.nodes_self, hnodes]
        simp [Mq.subscribers]
      · rw [hp.nodes_other id (Ne.symm hid), hnodes]
        simp [Mq.subscribers, hid]
  | @removed id' x hr =>
      by_cases hid : id' = id
      · subst hid
        rw [hr.nodes_self, hnodes]
        simp [Mq.subscribers]
      · rw [hr.nodes_other id (Ne.symm hid), hnodes]
        simp [Mq.subscribers, hid]

theorem TauStep.subscribers {s t : Machine} (h : TauStep s t) {id : Fin MSG_MAX_MSG_IDS}
    (hnodes : s.mq.nodes id = subscribers id s.trace) :
    t.mq.nodes id = subscribers id t.trace := by
  cases h with
  | pop hp hn hq hrep hheap hx hm =>
      rw [subscribers_append_of_keepsLists _ (by simp [Event.KeepsLists])]
      exact hnodes
  | call hp hm hnode =>
      rw [subscribers_append_of_keepsLists _ (by simp [Event.KeepsLists])]
      exact hnodes
  | free hp hm contexts =>
      rw [subscribers_append_of_keepsLists]
      · exact hnodes
      · intro e he
        simp only [List.mem_append, List.mem_map, List.mem_singleton] at he
        rcases he with ⟨c, -, rfl⟩ | rfl <;> trivial
  | leave hp => exact hnodes
  | idle hp hn hq => exact hnodes
  | lookup hp hm hid => exact hnodes
  | exhausted hp => exact hnodes
  | advance hp hnode => exact hnodes
  | decrement hp => exact hnodes

/-- In every run the list of an id holds the entries subscribed to it and not
unsubscribed since, most recently subscribed first. -/
theorem reaches_subscribers {b : Bool} {s : Machine} {good : Machine → Label → Prop}
    (hs : Reaches Machine.step good (.constructed b) s) (id : Fin MSG_MAX_MSG_IDS) :
    s.mq.nodes id = subscribers id s.trace := by
  have hboth : Wf s ∧ s.mq.nodes id = subscribers id s.trace := by
    refine hs.invariant (fun s => Wf s ∧ s.mq.nodes id = subscribers id s.trace)
      ⟨wf_constructed b, MQClass.nodes_eq rfl⟩ ?_
    intro s l t hinv _ hstep
    obtain ⟨hw, hnodes⟩ := hinv
    refine ⟨hw.step hstep, ?_⟩
    cases hw.stepped hstep with
    | call hruns hperform hpoint htrace heff hwhich =>
        rw [htrace]
        exact heff.subscribers hw.subscriptions hnodes
    | interrupt hpoint hlive htrace heff hes =>
        rw [htrace]
        exact heff.subscribers hw.subscriptions hnodes
    | loop hp => exact hnodes
    | ret hp => exact hnodes
    | tau htau => exact htau.subscribers hnodes
  exact hboth.2

/-! ## The walk of one dispatch -/

/-- `x` was unsubscribed from `id` while the calls so far were all of entries in front of
it in `xs`. -/
def UnsubscribedBeforeTurn (id : Fin MSG_MAX_MSG_IDS) (xs : List ℕ) (es : List Event) (x : ℕ) :
    Prop :=
  ∃ earlier later front back, es = earlier ++ Event.unsubscribed id x :: later ∧
    xs = front ++ x :: back ∧ ∀ y ∈ calledNodes earlier, y ∈ front

/-- The entries of `todo` that have not been unsubscribed. -/
def remaining (id : Fin MSG_MAX_MSG_IDS) (es : List Event) (todo : List ℕ) : List ℕ :=
  todo.filter fun x => Event.unsubscribed id x ∉ es

/-- Where the cursor of `Loop` is when `front ++ rest` is the list and the entries of
`rest` are still to be called. -/
def Positioned (n : ℤ) (msg : ℕ) (front rest : List ℕ) : Point → Prop
  | .lookup n' msg' => n' = n ∧ msg' = msg ∧ front = []
  | .walk n' msg' cur => n' = n ∧ msg' = msg ∧ cur = rest.head?
  | .running n' msg' cur => n' = n ∧ msg' = msg ∧ front.getLast? = some cur
  | .next n' msg' cur => n' = n ∧ msg' = msg ∧ front.getLast? = some cur
  | .free n' msg' => n' = n ∧ msg' = msg ∧ rest = []
  | _ => False

/-- The dispatch of the message `msg`, begun in `s₀`, has recorded `es` and arrived in
`s`; the turn of the entries of `done` has come, that of `todo` has not. -/
structure Dispatch (s₀ : Machine) (n : ℤ) (msg : ℕ) (id : Fin MSG_MAX_MSG_IDS) (m : Payload)
    (s : Machine) (es : List Event) (front done todo : List ℕ) : Prop where
  trace : s.trace = s₀.trace ++ es
  message : ∃ m', s.mq.queue.heap.get msg = some m' ∧ m'.toPayload = m
  split : s₀.mq.nodes id = done ++ todo
  list : s.mq.nodes id = front ++ remaining id es todo
  positioned : Positioned n msg front (remaining id es todo) s.point
  called : (calledNodes es).Sublist done
  settled : ∀ x ∈ done, x ∈ calledNodes es ∨ UnsubscribedBeforeTurn id (s₀.mq.nodes id) es x
  gone : es.Pairwise fun a b => ∀ x i, a = .unsubscribed id x → b ≠ .called x i
  entry : ∀ x ∈ remaining id es todo, s.mq.handlerAt x = s₀.mq.handlerAt x
  invocation : ∀ x i, Event.called x i ∈ es →
    ∃ e, s₀.mq.handlerAt x = some e ∧ i = e.call m.msgid m.context
  unpopped : ∀ p, Event.popped p ∉ es
  contents : s.mq.queue.contents = s₀.mq.queue.contents ++ postedMessages es
  size : s₀.mq.handlers.size ≤ s.mq.handlers.size
  fresh : ∀ j x, Event.subscribed j x ∈ es → s₀.mq.handlers.size ≤ x

variable {s₀ s t : Machine} {n : ℤ} {msg : ℕ} {id : Fin MSG_MAX_MSG_IDS} {m : Payload}
  {es fs : List Event} {front done todo : List ℕ}

theorem remaining_append (id : Fin MSG_MAX_MSG_IDS) (es fs : List Event) (todo : List ℕ) :
    remaining id (es ++ fs) todo =
      (remaining id es todo).filter fun x => Event.unsubscribed id x ∉ fs := by
  rw [remaining, remaining, List.filter_filter]
  apply List.filter_congr
  intro x _
  simp [Bool.and_comm]

theorem remaining_append_of_keepsLists (id : Fin MSG_MAX_MSG_IDS) (es : List Event)
    (todo : List ℕ) (h : ∀ e ∈ fs, e.KeepsLists) :
    remaining id (es ++ fs) todo = remaining id es todo := by
  rw [remaining_append, List.filter_eq_self]
  intro x _
  simp only [decide_eq_true_eq]
  exact fun hx => h _ hx

theorem UnsubscribedBeforeTurn.append {x : ℕ} {xs : List ℕ}
    (h : UnsubscribedBeforeTurn id xs es x) (fs : List Event) :
    UnsubscribedBeforeTurn id xs (es ++ fs) x := by
  obtain ⟨earlier, later, front, back, rfl, hxs, hcalls⟩ := h
  exact ⟨earlier, later ++ fs, front, back, by simp, hxs, hcalls⟩

/-- An entry that is gone before its turn has come. -/
theorem Dispatch.unsubscribedBeforeTurn
    (h : Dispatch s₀ n msg id m s es front done todo) {x : ℕ} (hx : x ∈ todo)
    (hgone : x ∉ remaining id es todo) :
    UnsubscribedBeforeTurn id (s₀.mq.nodes id) es x := by
  have hmem : Event.unsubscribed id x ∈ es := by
    by_contra hnot
    exact hgone (List.mem_filter.mpr ⟨hx, by simpa using hnot⟩)
  obtain ⟨earlier, later, hes⟩ := List.append_of_mem hmem
  obtain ⟨as, bs, rfl⟩ := List.append_of_mem hx
  refine ⟨earlier, later, done ++ as, bs, hes, by rw [h.split, List.append_assoc], ?_⟩
  intro y hy
  have hcalled : y ∈ calledNodes es := by
    rw [hes, calledNodes_append]
    exact List.mem_append_left _ hy
  exact List.mem_append_left _ (h.called.subset hcalled)

/-- How a call or an interrupt changes a list whose second part is still to be walked. -/
theorem Effect.list {s t : MQClass} {fs : List Event} {front rest : List ℕ}
    (h : Effect s t fs) (hs : s.Subscriptions) (hlist : s.nodes id = front ++ rest) :
    ∃ front', t.nodes id = front' ++ (rest.filter fun x => Event.unsubscribed id x ∉ fs) ∧
      ((∀ e ∈ fs, e.KeepsLists) → front' = front) ∧
      ∀ cur, front.getLast? = some cur → Event.unsubscribed id cur ∉ fs →
        front'.getLast? = some cur := by
  cases h with
  | quiet hes hhandlers hblock _ =>
      refine ⟨front, ?_, fun _ => rfl, fun cur hcur _ => hcur⟩
      rw [MQClass.nodes_congr hhandlers hblock, hlist, List.filter_eq_self.mpr]
      intro x _
      simp only [decide_eq_true_eq]
      exact fun hx => hes _ hx
  | appended hhandlers hblock _ =>
      refine ⟨front, ?_, fun _ => rfl, fun cur hcur _ => hcur⟩
      rw [MQClass.nodes_congr hhandlers hblock, hlist, List.filter_eq_self.mpr]
      simp
  | @pushed id' h _ ht =>
      subst ht
      have hp := MQClass.pushed_push id' hs h
      by_cases hid : id = id'
      · subst hid
        refine ⟨s.handlers.size :: front, ?_, fun hkeeps => ?_, fun cur hcur _ => ?_⟩
        · rw [hp.nodes_self, hlist, List.filter_eq_self.mpr (by simp)]
          rfl
        · simp [Event.KeepsLists] at hkeeps
        · rw [List.getLast?_cons, hcur]
          rfl
      · refine ⟨front, ?_, fun _ => rfl, fun cur hcur _ => hcur⟩
        rw [hp.nodes_other id hid, hlist, List.filter_eq_self.mpr (by simp)]
  | @removed id' y hr =>
      by_cases hid : id = id'
      · subst hid
        refine ⟨front.filter (· ≠ y), ?_, fun hkeeps => ?_, fun cur hcur hspare => ?_⟩
        · rw [hr.nodes_self, hlist, List.filter_append]
          congr 1
          apply List.filter_congr
          simp
        · simp [Event.KeepsLists] at hkeeps
        · obtain ⟨as, rfl⟩ := List.getLast?_eq_some_iff.mp hcur
          have hne : cur ≠ y := by
            rintro rfl
            simp at hspare
          simp [List.filter_append, hne]
      · refine ⟨front, ?_, fun _ => rfl, fun cur hcur _ => hcur⟩
        rw [hr.nodes_other id hid, hlist, List.filter_eq_self.mpr]
        intro x _
        simp [hid]

theorem Dispatch.effect (h : Dispatch s₀ n msg id m s es front done todo) (hw : Wf s)
    (heff : Effect s.mq t.mq fs) (hpoint : t.point = s.point) (htrace : t.trace = s.trace ++ fs)
    (hfs : (∀ e ∈ fs, e.KeepsLists) ∨
      ∃ n' msg' cur, s.point = .running n' msg' cur ∧ Event.unsubscribed id cur ∉ fs) :
    ∃ front', Dispatch s₀ n msg id m t (es ++ fs) front' done todo := by
  obtain ⟨front', hlist, hkeeps, hlast⟩ := heff.list hw.subscriptions h.list
  rw [← remaining_append] at hlist
  have hcalled := heff.calledNodes_eq
  have hnocall : ∀ a b, b ∈ fs → ∀ x i, a = Event.unsubscribed id x → b ≠ .called x i := by
    intro a b hb x i _ hbx
    have hmem := mem_calledNodes.mpr ⟨i, hbx ▸ hb⟩
    simp [hcalled] at hmem
  have hpositioned : Positioned n msg front' (remaining id (es ++ fs) todo) s.point := by
    have hpos := h.positioned
    rcases hfs with hfs | ⟨n', msg', cur, hp, hspare⟩
    · rw [hkeeps hfs, remaining_append_of_keepsLists id es todo hfs]
      exact hpos
    · rw [hp] at hpos ⊢
      exact ⟨hpos.1, hpos.2.1, hlast cur hpos.2.2 hspare⟩
  obtain ⟨m', hm', hpay⟩ := h.message
  obtain ⟨m'', hm'', hpay'⟩ := heff.keeps msg m' hm'
  refine ⟨front', ?_⟩
  constructor
  · rw [htrace, h.trace, List.append_assoc]
  · exact ⟨m'', hm'', hpay'.trans hpay⟩
  · exact h.split
  · exact hlist
  · rw [hpoint]
    exact hpositioned
  · simpa [hcalled] using h.called
  · intro x hx
    rcases h.settled x hx with hcall | hgone
    · exact Or.inl (by simp [hcall])
    · exact Or.inr (hgone.append fs)
  · apply List.pairwise_append.mpr
    exact ⟨h.gone, List.pairwise_of_forall_mem_list fun a _ b hb => hnocall a b hb,
      fun a _ b hb => hnocall a b hb⟩
  · intro x hx
    rw [remaining_append, List.mem_filter] at hx
    rw [← h.entry x hx.1]
    apply heff.handlerAt hw.subscriptions
    · rw [h.list]
      exact List.mem_append_right _ hx.1
    · simpa using hx.2
  · intro x i hx
    rcases List.mem_append.mp hx with hx | hx
    · exact h.invocation x i hx
    · have hmem := mem_calledNodes.mpr ⟨i, hx⟩
      simp [hcalled] at hmem
  · intro p hp
    rcases List.mem_append.mp hp with hp | hp
    · exact h.unpopped p hp
    · exact heff.popped_notMem p hp
  · rw [heff.contents, h.contents, postedMessages_append, List.append_assoc]
  · exact h.size.trans heff.size_le
  · intro j x hx
    rcases List.mem_append.mp hx with hx | hx
    · exact h.fresh j x hx
    · rw [heff.eq_size_of_subscribed hx]
      exact h.size

/-- Moving the cursor over an unchanged list. -/
theorem Dispatch.move (h : Dispatch s₀ n msg id m s es front done todo) (p : Point)
    (hp : Positioned n msg front (remaining id es todo) p) :
    Dispatch s₀ n msg id m { s with point := p } es front done todo :=
  { h with positioned := hp }

/-- Calling the entry under the cursor: its turn has come, and so has that of the entries
in front of it, which are gone. -/
theorem Dispatch.call {cur : ℕ} {node : MessageHandler}
    (h : Dispatch s₀ n msg id m s es front done todo)
    (hrest : (remaining id es todo).head? = some cur)
    (hnode : s.mq.handlers.get cur = some node) :
    ∃ front' done' todo', Dispatch s₀ n msg id m
      { s with
        point := .running n msg cur
        trace := s.trace ++ [.called cur (node.handler.call m.msgid m.context)] }
      (es ++ [.called cur (node.handler.call m.msgid m.context)]) front' done' todo' := by
  obtain ⟨rest, hrest⟩ := List.head?_eq_some_iff.mp hrest
  obtain ⟨skipped, todo', htodo, hskipped, hcur, hrest'⟩ := List.filter_eq_cons_iff.mp hrest
  have hcurmem : cur ∈ remaining id es todo := by simp [hrest]
  have hremaining : ∀ xs, remaining id
      (es ++ [.called cur (node.handler.call m.msgid m.context)]) xs = remaining id es xs :=
    fun xs => remaining_append_of_keepsLists id es xs (by simp [Event.KeepsLists])
  have hskip : ∀ x ∈ skipped, x ∉ remaining id es todo := by
    intro x hx hmem
    exact hskipped x hx (List.mem_filter.mp hmem).2
  refine ⟨front ++ [cur], done ++ skipped ++ [cur], todo', ?_⟩
  constructor
  · rw [h.trace, List.append_assoc]
  · exact h.message
  · rw [h.split, htodo]
    simp
  · rw [hremaining, show s.mq.nodes id = _ from h.list, hrest, remaining, hrest']
    simp
  · exact ⟨rfl, rfl, by simp⟩
  · rw [calledNodes_append, List.append_assoc]
    exact h.called.append (List.sublist_append_right skipped [cur])
  · intro x hx
    simp only [List.mem_append, List.mem_singleton] at hx
    rcases hx with (hx | hx) | rfl
    · rcases h.settled x hx with hcall | hgone
      · exact Or.inl (by simp [hcall])
      · exact Or.inr (hgone.append _)
    · have hxtodo : x ∈ todo := by simp [htodo, hx]
      exact Or.inr ((h.unsubscribedBeforeTurn hxtodo (hskip x hx)).append _)
    · exact Or.inl (by simp [calledNodes])
  · apply List.pairwise_append.mpr
    refine ⟨h.gone, List.pairwise_singleton _ _, ?_⟩
    intro a ha b hb x i hax hbx
    rw [List.mem_singleton.mp hb, Event.called.injEq] at hbx
    obtain ⟨rfl, -⟩ := hbx
    rw [hax] at ha
    simp [ha] at hcur
  · intro x hx
    rw [hremaining, remaining, hrest'] at hx
    exact h.entry x (by simp [hrest, hx])
  · intro x i hx
    rcases List.mem_append.mp hx with hx | hx
    · exact h.invocation x i hx
    · rw [List.mem_singleton, Event.called.injEq] at hx
      obtain ⟨rfl, rfl⟩ := hx
      refine ⟨node.handler, ?_, rfl⟩
      rw [← h.entry x hcurmem]
      simp [MQClass.handlerAt, hnode]
  · simpa using h.unpopped
  · rw [postedMessages_append]
    simpa [postedMessages] using h.contents
  · exact h.size
  · simpa using h.fresh

/-- A statement of `Loop` inside the dispatch. -/
theorem Dispatch.tau (h : Dispatch s₀ n msg id m s es front done todo) (hw : Wf s)
    (hid : m.msgid = (id : ℕ)) (hp : ∀ n msg, s.point ≠ .free n msg) (htau : TauStep s t) :
    ∃ es' front' done' todo', Dispatch s₀ n msg id m t es' front' done' todo' := by
  have hpos := h.positioned
  obtain ⟨m', hm', hpay⟩ := h.message
  cases htau with
  | leave hq => simp [hq, Positioned] at hpos
  | idle hq => simp [hq, Positioned] at hpos
  | pop hq => simp [hq, Positioned] at hpos
  | decrement hq => simp [hq, Positioned] at hpos
  | free hq => exact (hp _ _ hq).elim
  | @lookup _ _ m'' id' hq hm'' hid' =>
      rw [hq] at hpos
      obtain ⟨rfl, rfl, rfl⟩ := hpos
      rw [hm'] at hm''
      cases hm''
      have hid'' : id' = id := by
        rw [hpay, hid] at hid'
        exact Fin.ext (by exact_mod_cast hid'.symm)
      subst hid''
      refine ⟨es, [], done, todo, h.move _ ⟨rfl, rfl, ?_⟩⟩
      have hhead := (hw.subscriptions.chain id').head?_eq
      rwa [h.list, List.nil_append] at hhead
  | exhausted hq =>
      rw [hq] at hpos
      obtain ⟨rfl, rfl, hhead⟩ := hpos
      exact ⟨es, front, done, todo, h.move _ ⟨rfl, rfl, List.head?_eq_none_iff.mp hhead.symm⟩⟩
  | call hq hm'' hnode =>
      rw [hq] at hpos
      obtain ⟨rfl, rfl, hhead⟩ := hpos
      rw [hm'] at hm''
      cases hm''
      rw [hpay]
      exact ⟨_, h.call hhead.symm hnode⟩
  | advance hq hnode =>
      rw [hq] at hpos
      obtain ⟨rfl, rfl, hlast⟩ := hpos
      refine ⟨es, front, done, todo, h.move _ ⟨rfl, rfl, ?_⟩⟩
      obtain ⟨as, rfl⟩ := List.getLast?_eq_some_iff.mp hlast
      have hchain := hw.subscriptions.chain id
      rw [h.list, List.append_assoc, List.singleton_append] at hchain
      exact hchain.nxt_eq_head? hnode

/-- The dispatch of a message is under way. -/
def Point.dispatching : Point → Bool
  | .lookup _ _ | .walk _ _ _ | .running _ _ _ | .next _ _ _ => true
  | _ => false

/-- A step of a dispatch in which no handler unsubscribes the entry it is called through. -/
def DispatchStep (s : Machine) (l : Label) : Prop :=
  s.point.dispatching = true ∧ SparesOwnEntry s l

theorem Dispatch.step {l : Label} (h : Dispatch s₀ n msg id m s es front done todo) (hw : Wf s)
    (hid : m.msgid = (id : ℕ)) (hgood : DispatchStep s l) (hstep : s.step l = .ok t) :
    ∃ es' front' done' todo', Dispatch s₀ n msg id m t es' front' done' todo' := by
  have hpos := h.positioned
  cases hw.stepped hstep with
  | @call c _ rc fs hruns hperform hpoint htrace heff hwhich =>
      cases hp : s.point with
      | running n' msg' cur =>
          refine ⟨_, (h.effect hw heff hpoint htrace ?_).imp fun _ h' => ⟨_, _, h'⟩⟩
          refine Or.inr ⟨n', msg', cur, hp, fun hmem => ?_⟩
          rw [hp] at hpos
          obtain ⟨rfl, rfl, -⟩ := hpos
          obtain ⟨e, he, huns⟩ := hwhich id cur hmem
          obtain ⟨m', hm', hpay⟩ := h.message
          exact hgood.2 _ _ huns ⟨n', msg', cur, m', e, hp, hm', he, by rw [hpay, hid], rfl⟩
      | outside => simp [hp, Positioned] at hpos
      | test n' => simp [hp, Positioned] at hpos
      | lookup n' msg' => simp [Machine.callerRuns, hp] at hruns
      | walk n' msg' cur => simp [Machine.callerRuns, hp] at hruns
      | next n' msg' cur => simp [Machine.callerRuns, hp] at hruns
      | free n' msg' => simp [Machine.callerRuns, hp] at hruns
      | decrement n' => simp [Machine.callerRuns, hp] at hruns
  | interrupt hpoint hlive htrace heff hes =>
      refine ⟨_, (h.effect hw heff hpoint htrace ?_).imp fun _ h' => ⟨_, _, h'⟩⟩
      refine Or.inl fun e he => ?_
      rw [(hes e he).1]
      trivial
  | loop hp => simp [hp, Positioned] at hpos
  | ret hp =>
      rw [hp] at hpos
      obtain ⟨rfl, rfl, hlast⟩ := hpos
      exact ⟨es, front, done, todo, h.move _ ⟨rfl, rfl, hlast⟩⟩
  | tau htau =>
      refine h.tau hw hid (fun n' msg' hp => ?_) htau
      simp [DispatchStep, hp, Point.dispatching] at hgood

theorem Dispatch.begin {m : Message} (hp : s₀.point = .lookup n msg)
    (hm : s₀.mq.queue.heap.get msg = some m) :
    Dispatch s₀ n msg id m.toPayload s₀ [] [] [] (s₀.mq.nodes id) where
  trace := by simp
  message := ⟨m, hm, rfl⟩
  split := rfl
  list := by simp [remaining]
  positioned := by rw [hp]; exact ⟨rfl, rfl, rfl⟩
  called := by simp [calledNodes]
  settled := by simp
  gone := List.Pairwise.nil
  entry := fun _ _ => rfl
  invocation := by simp
  unpopped := by simp
  contents := by simp [postedMessages]
  size := le_refl _
  fresh := by simp

theorem reaches_dispatch {m : Message} (hw : Wf s₀) (hp : s₀.point = .lookup n msg)
    (hm : s₀.mq.queue.heap.get msg = some m) (hid : m.msgid = (id : ℕ))
    (hs : Reaches Machine.step DispatchStep s₀ s) :
    Wf s ∧ ∃ es front done todo, Dispatch s₀ n msg id m.toPayload s es front done todo := by
  refine hs.invariant (fun s => Wf s ∧ ∃ es front done todo,
    Dispatch s₀ n msg id m.toPayload s es front done todo)
    ⟨hw, _, _, _, _, Dispatch.begin hp hm⟩ ?_
  intro s l t hinv hgood hstep
  obtain ⟨hws, es, front, done, todo, h⟩ := hinv
  exact ⟨hws.step hstep, h.step hws hid hgood hstep⟩

/-! ## The dispatch comes to its end -/

/-- If the handlers still to be called just return, the walk comes to its end. -/
theorem walk_completes {p : Ptr} {rest : List ℕ} {m : Message}
    (hp : s.point = .walk n msg p) (hm : s.mq.queue.heap.get msg = some m)
    (hchain : Chain MessageHandler.pNextHandler s.mq.handlers p rest) :
    ∃ ls s', (∀ l ∈ ls, l = .tau ∨ l = .ret) ∧ execute Machine.step s ls = .ok s' ∧
      s'.point = .free n msg := by
  induction rest generalizing s p with
  | nil =>
      have hnone : p = none := hchain
      subst hnone
      refine ⟨[.tau], { s with point := .free n msg }, by simp, ?_, rfl⟩
      simp only [execute, Machine.step, Machine.tau, hp, ok_bind]
  | cons cur rest ih =>
      obtain ⟨rfl, node, hnode, htail⟩ := chain_cons.mp hchain
      let s' : Machine := { s with
        point := .walk n msg node.pNextHandler
        trace := s.trace ++ [.called cur (node.handler.call m.msgid m.context)] }
      obtain ⟨ls, u, hls, hexec, hu⟩ := ih (s := s') rfl hm htail
      refine ⟨.tau :: .ret :: .tau :: ls, u, by simpa using hls, ?_, hu⟩
      rw [← hexec]
      simp only [execute, Machine.step, Machine.tau, hp, Heap.deref_some hm,
        Heap.deref_some hnode, ok_bind, s']

/-- From every point of a dispatch its end can be reached. -/
theorem Dispatch.completes (h : Dispatch s₀ n msg id m s es front done todo) (hw : Wf s)
    (hid : m.msgid = (id : ℕ)) :
    ∃ ls s', (∀ l ∈ ls, l = .tau ∨ l = .ret) ∧ execute Machine.step s ls = .ok s' ∧
      s'.point = .free n msg := by
  have hpos := h.positioned
  obtain ⟨m', hm', hpay⟩ := h.message
  have hchain := hw.subscriptions.chain id
  have hrest : Chain MessageHandler.pNextHandler s.mq.handlers (remaining id es todo).head?
      (remaining id es todo) := by
    rw [h.list] at hchain
    obtain ⟨q, -, hq⟩ := chain_append.mp hchain
    rwa [hq.head?_eq] at hq
  have hnext : ∀ cur, front.getLast? = some cur →
      ∃ node, s.mq.handlers.get cur = some node ∧
        node.pNextHandler = (remaining id es todo).head? := by
    intro cur hlast
    obtain ⟨as, rfl⟩ := List.getLast?_eq_some_iff.mp hlast
    rw [h.list, List.append_assoc, List.singleton_append] at hchain
    obtain ⟨node, hnode⟩ := hchain.get_of_mem (x := cur) (by simp)
    exact ⟨node, hnode, hchain.nxt_eq_head? hnode⟩
  cases hp : s.point with
  | outside => simp [hp, Positioned] at hpos
  | test n' => simp [hp, Positioned] at hpos
  | decrement n' => simp [hp, Positioned] at hpos
  | lookup n' msg' =>
      rw [hp] at hpos
      obtain ⟨rfl, rfl, -⟩ := hpos
      obtain ⟨ls, s', hls, hexec, hs'⟩ := walk_completes
        (s := { s with point := .walk n' msg' (s.mq.queueBlock id) }) rfl hm' hchain
      refine ⟨.tau :: ls, s', by simpa using hls, ?_, hs'⟩
      rw [← hexec]
      simp only [execute, Machine.step, Machine.tau, hp, Heap.deref_some hm', hpay, hid,
        MQClass.index_ok, ok_bind]
  | walk n' msg' cur =>
      rw [hp] at hpos
      obtain ⟨rfl, rfl, rfl⟩ := hpos
      exact walk_completes hp hm' hrest
  | running n' msg' cur =>
      rw [hp] at hpos
      obtain ⟨rfl, rfl, hlast⟩ := hpos
      obtain ⟨node, hnode, hhead⟩ := hnext cur hlast
      obtain ⟨ls, s', hls, hexec, hs'⟩ := walk_completes
        (s := { s with point := .walk n' msg' node.pNextHandler }) rfl hm' (hhead ▸ hrest)
      refine ⟨.ret :: .tau :: ls, s', by simpa using hls, ?_, hs'⟩
      rw [← hexec]
      simp only [execute, Machine.step, Machine.tau, hp, Heap.deref_some hnode, ok_bind]
  | next n' msg' cur =>
      rw [hp] at hpos
      obtain ⟨rfl, rfl, hlast⟩ := hpos
      obtain ⟨node, hnode, hhead⟩ := hnext cur hlast
      obtain ⟨ls, s', hls, hexec, hs'⟩ := walk_completes
        (s := { s with point := .walk n' msg' node.pNextHandler }) rfl hm' (hhead ▸ hrest)
      refine ⟨.tau :: ls, s', by simpa using hls, ?_, hs'⟩
      rw [← hexec]
      simp only [execute, Machine.step, Machine.tau, hp, Heap.deref_some hnode, ok_bind]
  | free n' msg' =>
      rw [hp] at hpos
      obtain ⟨rfl, rfl, -⟩ := hpos
      exact ⟨[], s, by simp, rfl, hp⟩

/-! ## Who is called -/

theorem Dispatch.notMem_called (h : Dispatch s₀ n msg id m s es front done todo)
    (hnodup : (s₀.mq.nodes id).Nodup) {x : ℕ}
    (hx : UnsubscribedBeforeTurn id (s₀.mq.nodes id) es x) : x ∉ calledNodes es := by
  obtain ⟨earlier, later, as, bs, hes, hsplit, hearlier⟩ := hx
  have hgone := h.gone
  rw [hes, List.pairwise_append, List.pairwise_cons] at hgone
  rw [hes, calledNodes_append, List.mem_append]
  rintro (hcall | hcall)
  · -- a call before `x` was unsubscribed was of an entry in front of it
    rw [hsplit] at hnodup
    exact (List.nodup_append.mp hnodup).2.2 x (hearlier x hcall) x (by simp) rfl
  · obtain ⟨i, hi⟩ := mem_calledNodes.mp hcall
    simp only [List.mem_cons, reduceCtorEq, false_or] at hi
    exact hgone.2.1.1 _ hi x i rfl rfl

theorem Dispatch.mem_called (h : Dispatch s₀ n msg id m s es front done todo)
    (hp : s.point = .free n msg) {x : ℕ} (hx : x ∈ s₀.mq.nodes id)
    (hturn : ¬UnsubscribedBeforeTurn id (s₀.mq.nodes id) es x) : x ∈ calledNodes es := by
  have hpos := h.positioned
  rw [hp] at hpos
  obtain ⟨-, -, hrest⟩ := hpos
  rw [h.split, List.mem_append] at hx
  rcases hx with hx | hx
  · exact (h.settled x hx).resolve_right hturn
  · exact (hturn (h.unsubscribedBeforeTurn hx (by simp [hrest]))).elim

/-- A function gets the context of the message, a receiver its id as well. -/
theorem Dispatch.invocation_cases (h : Dispatch s₀ n msg id m s es front done todo) {x : ℕ}
    {i : Invocation} (hi : Event.called x i ∈ es) :
    (∃ f, s₀.mq.handlerAt x = some (.mhFunction f) ∧ i = .msgHandler f m.context) ∨
      ∃ r, s₀.mq.handlerAt x = some (.mhClass r) ∧ i = .eventHandler r m.msgid m.context := by
  obtain ⟨e, he, hcall⟩ := h.invocation x i hi
  cases e with
  | mhFunction f => exact Or.inl ⟨f, he, hcall⟩
  | mhClass r => exact Or.inr ⟨r, he, hcall⟩

/-- The dispatch of a popped message, at every moment while its handlers subscribe,
unsubscribe and post: the entries called so far are entries subscribed when the dispatch
began, each once, in the order of the list, a function with the context of the message and
a receiver with its id and context; an entry unsubscribed before its turn and an entry
subscribed meanwhile are not called; every other entry has been called when the dispatch
ends, which it does if the handlers return; and what the handlers post is appended to the
queue, with nothing popped from it. -/
theorem dispatch_delivers {b : Bool} {s₀ s₁ : Machine} {n : ℤ} {msg : ℕ} {m : Message}
    {id : Fin MSG_MAX_MSG_IDS}
    (hs₀ : Reaches Machine.step (fun _ _ => True) (.constructed b) s₀)
    (hpoint : s₀.point = .lookup n msg) (hm : s₀.mq.queue.heap.get msg = some m)
    (hid : m.msgid = (id : ℕ)) (hs₁ : Reaches Machine.step DispatchStep s₀ s₁) :
    s₀.mq.nodes id = subscribers id s₀.trace ∧
    ∃ es, s₁.trace = s₀.trace ++ es ∧
      (calledNodes es).Sublist (s₀.mq.nodes id) ∧ (calledNodes es).Nodup ∧
      (∀ x i, Event.called x i ∈ es →
        (∃ f, s₀.mq.handlerAt x = some (.mhFunction f) ∧ i = .msgHandler f m.context) ∨
        ∃ r, s₀.mq.handlerAt x = some (.mhClass r) ∧ i = .eventHandler r m.msgid m.context) ∧
      (∀ x, UnsubscribedBeforeTurn id (s₀.mq.nodes id) es x → x ∉ calledNodes es) ∧
      (∀ x, Event.subscribed id x ∈ es → x ∉ calledNodes es) ∧
      (s₁.point = .free n msg → ∀ x ∈ s₀.mq.nodes id,
        ¬UnsubscribedBeforeTurn id (s₀.mq.nodes id) es x → x ∈ calledNodes es) ∧
      (∃ ls s₂, (∀ l ∈ ls, l = .tau ∨ l = .ret) ∧ execute Machine.step s₁ ls = .ok s₂ ∧
        s₂.point = .free n msg) ∧
      (∀ p, Event.popped p ∉ es) ∧
      s₁.mq.queue.contents = s₀.mq.queue.contents ++ postedMessages es := by
  have hw := reaches_wf hs₀
  have hchain := hw.subscriptions.chain id
  have hnodup := hchain.nodup
  obtain ⟨hw₁, es, front, done, todo, h⟩ := reaches_dispatch hw hpoint hm hid hs₁
  have hsub : (calledNodes es).Sublist (s₀.mq.nodes id) := by
    rw [h.split]
    exact h.called.trans (List.sublist_append_left done todo)
  refine ⟨reaches_subscribers hs₀ id, es, h.trace, hsub, hsub.nodup hnodup,
    fun x i => h.invocation_cases, fun x => h.notMem_called hnodup, fun x hx hcall => ?_,
    fun hp x => h.mem_called hp, h.completes hw₁ hid, h.unpopped, h.contents⟩
  obtain ⟨node, hnode⟩ := hchain.get_of_mem (hsub.subset hcall)
  have hlt := Heap.lt_size_of_get hnode
  have hle := h.fresh id x hx
  omega

/-- Two functions are subscribed to a message, which has just been popped. -/
def poppedRun : List Label :=
  [.call (.subscribeFunction 3 0x100 true), .call (.subscribeFunction 3 0x200 true),
    .call (.post ⟨3, none, .caller⟩ true), .loop 1, .tau]

/-- The first function called unsubscribes the other one. -/
def unsubscribingDispatch : List Label :=
  [.tau, .tau, .call (.unsubscribeFunction 3 0x100), .ret, .tau, .tau]

theorem dispatch_delivers_unsubscribingDispatch :
    ∃ s₀ s₁ es, execute Machine.step (.constructed true) poppedRun = .ok s₀ ∧
      execute Machine.step s₀ unsubscribingDispatch = .ok s₁ ∧ s₁.point = .free 1 0 ∧
      s₁.trace = s₀.trace ++ es ∧ (calledNodes es).Sublist (s₀.mq.nodes ⟨3, by decide⟩) := by
  let s₀ := after Machine.step (.constructed true) poppedRun
  let s₁ := after Machine.step s₀ unsubscribingDispatch
  have hs₀ : execute Machine.step (.constructed true) poppedRun = .ok s₀ := rfl
  have htau : ∀ s : Machine, s.point.dispatching = true → DispatchStep s .tau :=
    fun _ hs => ⟨hs, trivial⟩
  have hs₁ : Reaches Machine.step DispatchStep s₀ s₁ := by
    have hwalk : Reaches Machine.step DispatchStep s₀ (after Machine.step s₀ [.tau]) :=
      .next .start (htau _ rfl) rfl
    have hrunning : Reaches Machine.step DispatchStep s₀ (after Machine.step s₀ [.tau, .tau]) :=
      hwalk.next (htau _ rfl) rfl
    have hspare : DispatchStep (after Machine.step s₀ [.tau, .tau])
        (.call (.unsubscribeFunction 3 0x100)) := by
      refine ⟨rfl, fun msgid handler huns hown => ?_⟩
      obtain ⟨n, msg, cur, m, e, hp, -, he, -, haddr⟩ := hown
      have hp' : Point.running 1 0 1 = .running n msg cur := hp
      cases hp'
      have he' : some (Handler.mhFunction 0x200) = some e := he
      cases he'
      cases huns
      exact absurd haddr (by decide)
    have hcalled : Reaches Machine.step DispatchStep s₀
        (after Machine.step s₀ (unsubscribingDispatch.take 3)) := hrunning.next hspare rfl
    have hnext : Reaches Machine.step DispatchStep s₀
        (after Machine.step s₀ (unsubscribingDispatch.take 4)) :=
      hcalled.next (l := .ret) (show DispatchStep _ .ret from ⟨rfl, trivial⟩) rfl
    have hlast : Reaches Machine.step DispatchStep s₀
        (after Machine.step s₀ (unsubscribingDispatch.take 5)) := hnext.next (htau _ rfl) rfl
    exact hlast.next (htau _ rfl) rfl
  have hid : (3 : ℤ) = ((⟨3, by decide⟩ : Fin MSG_MAX_MSG_IDS) : ℕ) := rfl
  obtain ⟨-, es, htrace, hsub, -⟩ :=
    dispatch_delivers (reaches_of_execute hs₀) (m := ⟨⟨3, none, .caller⟩, none⟩)
      (show s₀.point = .lookup 1 0 from rfl) rfl hid hs₁
  exact ⟨s₀, s₁, es, hs₀, rfl, rfl, htrace, hsub⟩

end EmbeddedKernel.Mq
