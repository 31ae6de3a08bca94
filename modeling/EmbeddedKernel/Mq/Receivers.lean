import EmbeddedKernel.Mq.AddressSpaces

/-!
# The lifetime of receivers

`~EventReceiver` has an empty body, so a receiver that is destroyed while an
entry names it stays in its lists, and `Loop` calls it.  If every receiver is
unsubscribed by its owner before it is destroyed, every entry names a live
receiver and `Loop` calls live receivers only.
-/

namespace EmbeddedKernel.Mq

open Library

/-- Some list has an entry for the receiver. -/
def MQClass.Mentions (s : MQClass) (r : Addr) : Prop := ∃ id, Handler.mhClass r ∈ s.entries id

instance (s : MQClass) (r : Addr) : Decidable (s.Mentions r) :=
  inferInstanceAs (Decidable (∃ id, Handler.mhClass r ∈ s.entries id))

/-- Only live receivers are subscribed. -/
def SubscribesLive (s : Machine) : Label → Prop
  | .call (.subscribeReceiver _ r _) => r ∈ s.live
  | _ => True

/-- Only live receivers are subscribed, and only receivers without an entry are destroyed. -/
def KeepsLifetimes (s : Machine) (l : Label) : Prop :=
  SubscribesLive s l ∧ ∀ r, l = .call (.destroyReceiver r) → ¬s.mq.Mentions r

/-- Every handler node that is not deleted is in a list. -/
def MQClass.Owned (s : MQClass) : Prop := ∀ x e, s.handlerAt x = some e → ∃ id, x ∈ s.nodes id

/-- Every entry for a receiver names a live one. -/
def LiveEntries (s : Machine) : Prop := ∀ r, s.mq.Mentions r → r ∈ s.live

variable {s t : Machine} {es : List Event}

theorem Effect.owned {s t : MQClass} (h : Effect s t es) (hs : s.Subscriptions)
    (ho : s.Owned) : t.Owned := by
  intro x e hx
  cases h with
  | quiet _ hhandlers hblock _ =>
      rw [MQClass.handlerAt_congr hhandlers] at hx
      obtain ⟨id, hid⟩ := ho x e hx
      exact ⟨id, by rwa [MQClass.nodes_congr hhandlers hblock]⟩
  | appended hhandlers hblock _ =>
      rw [MQClass.handlerAt_congr hhandlers] at hx
      obtain ⟨id, hid⟩ := ho x e hx
      exact ⟨id, by rwa [MQClass.nodes_congr hhandlers hblock]⟩
  | @pushed id' h _ ht =>
      subst ht
      have hp := MQClass.pushed_push id' hs h
      by_cases hnew : x = s.handlers.size
      · exact ⟨id', by simp [hp.nodes_self, hnew]⟩
      · have hold : s.handlerAt x = some e := by
          simpa [MQClass.handlerAt, MQClass.push, Heap.get_new, hnew] using hx
        obtain ⟨id, hid⟩ := ho x e hold
        by_cases hj : id = id'
        · subst hj
          exact ⟨id, by simp [hp.nodes_self, hid]⟩
        · exact ⟨id, by rwa [hp.nodes_other id hj]⟩
  | @removed id' y hr =>
      have hxy : x ≠ y := by
        rintro rfl
        simp [MQClass.handlerAt, hr.freed.2] at hx
      rw [hr.handler_keep x hxy] at hx
      obtain ⟨id, hid⟩ := ho x e hx
      by_cases hj : id = id'
      · subst hj
        exact ⟨id, by simpa [hr.nodes_self, hxy] using hid⟩
      · exact ⟨id, by rwa [hr.nodes_other id hj]⟩

/-- Entries are there before a call or interrupt, or subscribed by it. -/
theorem Effect.mem_entries {s t : MQClass} (h : Effect s t es) (hs : s.Subscriptions)
    {id : Fin MSG_MAX_MSG_IDS} {e : Handler} (he : e ∈ t.entries id) :
    e ∈ s.entries id ∨ ∃ x, Event.subscribed id x ∈ es ∧ t.handlerAt x = some e := by
  obtain ⟨x, hx, hxe⟩ := MQClass.mem_entries.mp he
  have hold : x ∈ s.nodes id → s.handlerAt x = some e → e ∈ s.entries id :=
    fun hmem hsame => MQClass.mem_entries.mpr ⟨x, hmem, hsame⟩
  cases h with
  | quiet _ hhandlers hblock _ =>
      rw [MQClass.nodes_congr hhandlers hblock] at hx
      rw [MQClass.handlerAt_congr hhandlers] at hxe
      exact Or.inl (hold hx hxe)
  | appended hhandlers hblock _ =>
      rw [MQClass.nodes_congr hhandlers hblock] at hx
      rw [MQClass.handlerAt_congr hhandlers] at hxe
      exact Or.inl (hold hx hxe)
  | @pushed id' h _ ht =>
      subst ht
      have hp := MQClass.pushed_push id' hs h
      by_cases hj : id = id'
      · subst hj
        rw [hp.nodes_self, List.mem_cons] at hx
        rcases hx with rfl | hx
        · exact Or.inr ⟨_, by simp, hxe⟩
        · obtain ⟨f, hf⟩ := MQClass.handlerAt_of_mem hs hx
          rw [hp.handler_old x f hf] at hxe
          exact Or.inl (hold hx (hf.trans hxe))
      · rw [hp.nodes_other id hj] at hx
        obtain ⟨f, hf⟩ := MQClass.handlerAt_of_mem hs hx
        rw [hp.handler_old x f hf] at hxe
        exact Or.inl (hold hx (hf.trans hxe))
  | @removed id' y hr =>
      have hxy : x ≠ y := by
        rintro rfl
        simp [MQClass.handlerAt, hr.freed.2] at hxe
      rw [hr.handler_keep x hxy] at hxe
      by_cases hj : id = id'
      · subst hj
        rw [hr.nodes_self, List.mem_filter] at hx
        exact Or.inl (hold hx.1 hxe)
      · rw [hr.nodes_other id hj] at hx
        exact Or.inl (hold hx hxe)

theorem TauStep.handlers_eq (h : TauStep s t) :
    t.mq.handlers = s.mq.handlers ∧ t.mq.queueBlock = s.mq.queueBlock ∧ t.live = s.live := by
  cases h <;> exact ⟨rfl, rfl, rfl⟩

/-- The live receivers after a call. -/
def Call.liveAfter (live : List Addr) : Call → List Addr
  | .constructReceiver r => r :: live
  | .destroyReceiver r => live.filter (· ≠ r)
  | _ => live

theorem perform_live {c : Call} {rc : ℤ} (h : s.perform c = .ok (t, rc)) :
    t.live = c.liveAfter s.live := by
  cases c with
  | constructReceiver r =>
      simp only [Machine.perform] at h
      split_ifs at h
      cases h
      rfl
  | destroyReceiver r =>
      simp only [Machine.perform] at h
      split_ifs at h
      cases h
      rfl
  | _ =>
      obtain ⟨⟨x, rc'⟩, -, hst⟩ := bind_eq_ok.mp h
      cases hst
      rfl

theorem entries_congr {s t : MQClass} (hhandlers : t.handlers = s.handlers)
    (hblock : t.queueBlock = s.queueBlock) (id : Fin MSG_MAX_MSG_IDS) :
    t.entries id = s.entries id := by
  rw [MQClass.entries, MQClass.nodes_congr hhandlers hblock]
  exact MQClass.filterMap_handlerAt_congr fun x _ => MQClass.handlerAt_congr hhandlers x

theorem Stepped.owned {l : Label} (h : Stepped s l t) (hw : Wf s) (ho : s.mq.Owned) :
    t.mq.Owned := by
  cases h with
  | call hruns hperform hpoint htrace heff => exact heff.owned hw.subscriptions ho
  | interrupt hpoint hlive htrace heff => exact heff.owned hw.subscriptions ho
  | loop hp => exact ho
  | ret hp => exact ho
  | tau htau =>
      obtain ⟨hhandlers, hblock, -⟩ := htau.handlers_eq
      intro x e hx
      rw [MQClass.handlerAt_congr hhandlers] at hx
      obtain ⟨id, hid⟩ := ho x e hx
      exact ⟨id, by rwa [MQClass.nodes_congr hhandlers hblock]⟩

theorem LiveEntries.step {l : Label} (hw : Wf s) (hl : LiveEntries s)
    (hgood : KeepsLifetimes s l) (h : s.step l = .ok t) : LiveEntries t := by
  intro r hr
  obtain ⟨id, hid⟩ := hr
  cases hw.stepped h with
  | @call c _ rc es hruns hperform hpoint htrace heff hwhich hposted hadded =>
      rw [perform_live hperform]
      rcases heff.mem_entries hw.subscriptions hid with hold | ⟨x, hx, hxr⟩
      · have hlive := hl r ⟨id, hold⟩
        cases c with
        | constructReceiver r' => exact List.mem_cons_of_mem r' hlive
        | destroyReceiver r' =>
            have hne : r ≠ r' := by
              rintro rfl
              exact hgood.2 r rfl ⟨id, hold⟩
            exact List.mem_filter.mpr ⟨hlive, by simpa using hne⟩
        | _ => exact hlive
      · obtain ⟨e, he, hsub⟩ := hadded id x hx
        rw [hxr] at he
        cases he
        cases c with
        | subscribeReceiver msgid handler alloc =>
            cases hsub
            exact hgood.1
        | _ => simp [Call.subscribes] at hsub
  | interrupt hpoint hlive htrace heff hes =>
      rw [hlive]
      rcases heff.mem_entries hw.subscriptions hid with hold | ⟨x, hx, -⟩
      · exact hl r ⟨id, hold⟩
      · cases (hes _ hx).1
  | loop hp => exact hl r ⟨id, hid⟩
  | ret hp => exact hl r ⟨id, hid⟩
  | tau htau =>
      obtain ⟨hhandlers, hblock, hlive⟩ := htau.handlers_eq
      rw [hlive]
      rw [entries_congr hhandlers hblock] at hid
      exact hl r ⟨id, hid⟩

theorem reaches_liveEntries {b : Bool}
    (hs : Reaches Machine.step KeepsLifetimes (.constructed b) s) :
    s.mq.Owned ∧ LiveEntries s := by
  have hall : Wf s ∧ s.mq.Owned ∧ LiveEntries s := by
    refine hs.invariant (fun s => Wf s ∧ s.mq.Owned ∧ LiveEntries s)
      ⟨wf_constructed b, ?_, ?_⟩ ?_
    · intro x e hx
      cases hx
    · rintro r ⟨id, hid⟩
      have hnodes : (MQClass.constructed b).nodes id = [] := MQClass.nodes_eq rfl
      simp [Machine.constructed, MQClass.entries, hnodes] at hid
    · intro s l t hinv hgood hstep
      obtain ⟨hw, ho, hl⟩ := hinv
      exact ⟨hw.step hstep, (hw.stepped hstep).owned hw ho, hl.step hw hgood hstep⟩
  exact hall.2

/-- In every run in which only live receivers are subscribed and only receivers without an
entry are destroyed, `Loop` calls live receivers only, and a destroyed receiver has no
entry; and the destructor leaves the receiver without an entry exactly if it had none. -/
theorem loop_calls_live_receivers {b : Bool} {s : Machine}
    (hs : Reaches Machine.step KeepsLifetimes (.constructed b) s) :
    (∀ t cur r msgid context, s.step .tau = .ok t →
      t.trace = s.trace ++ [.called cur (.eventHandler r msgid context)] → r ∈ s.live) ∧
    (∀ r, r ∉ s.live → ¬s.mq.Mentions r) ∧
    ∀ r t, s.step (.call (.destroyReceiver r)) = .ok t →
      (¬t.mq.Mentions r ↔ ¬s.mq.Mentions r) := by
  have hw := reaches_wf hs
  obtain ⟨ho, hl⟩ := reaches_liveEntries hs
  refine ⟨?_, fun r hr hmentions => hr (hl r hmentions), ?_⟩
  · intro t cur r msgid context hstep htrace
    cases hw.tauStep hstep with
    | @call n msg cur' m node hp hm hnode =>
        obtain ⟨hcur, hcall⟩ : cur' = cur ∧
            node.handler.call m.msgid m.context = .eventHandler r msgid context := by
          simpa using htrace
        have hat : s.mq.handlerAt cur' = some node.handler := by
          simp [MQClass.handlerAt, hnode]
        obtain ⟨id, hid⟩ := ho cur' node.handler hat
        have hr : node.handler = .mhClass r := by
          cases hh : node.handler <;> simp_all [Handler.call]
        rw [hr] at hat
        exact hl r ⟨id, MQClass.mem_entries.mpr ⟨cur', hid, hat⟩⟩
    | pop hp hn hnodes hq hheap hx hm => simp at htrace
    | free hp hm contexts =>
        have hlast := congrArg List.getLast? htrace
        simp at hlast
    | leave hp => simp at htrace
    | idle hp hn hq => simp at htrace
    | lookup hp hm hid => simp at htrace
    | exhausted hp => simp at htrace
    | advance hp hnode => simp at htrace
    | decrement hp => simp at htrace
  · intro r t hstep
    have hmq : t.mq = s.mq := by
      simp only [Machine.step, Machine.perform] at hstep
      split_ifs at hstep
      · cases hstep
        rfl
      · cases hstep
    rw [hmq]

/-- A receiver is unsubscribed and destroyed while a message for it is queued. -/
def unsubscribedBeforeDestroyed : List Label :=
  [.call (.constructReceiver 0x200), .call (.subscribeReceiver 3 0x200 true),
    .call (.post ⟨3, none, .caller⟩ true), .call (.unsubscribeReceiver 3 0x200),
    .call (.destroyReceiver 0x200)]

theorem loop_calls_live_receivers_unsubscribedBeforeDestroyed :
    ∃ s, execute Machine.step (.constructed true) unsubscribedBeforeDestroyed = .ok s ∧
      s.live = [] ∧ ∀ r, r ∉ s.live → ¬s.mq.Mentions r := by
  let s := fun n => after Machine.step (.constructed true) (unsubscribedBeforeDestroyed.take n)
  have h₀ : Reaches Machine.step KeepsLifetimes (.constructed true) (s 0) := .start
  have h₁ : Reaches Machine.step KeepsLifetimes (.constructed true) (s 1) :=
    h₀.next (l := .call (.constructReceiver 0x200)) ⟨trivial, by simp⟩ rfl
  have h₂ : Reaches Machine.step KeepsLifetimes (.constructed true) (s 2) := by
    refine h₁.next (l := .call (.subscribeReceiver 3 0x200 true)) ⟨?_, by simp⟩ rfl
    exact (by decide : (0x200 : Addr) ∈ (s 1).live)
  have h₃ : Reaches Machine.step KeepsLifetimes (.constructed true) (s 3) :=
    h₂.next (l := .call (.post ⟨3, none, .caller⟩ true)) ⟨trivial, by simp⟩ rfl
  have h₄ : Reaches Machine.step KeepsLifetimes (.constructed true) (s 4) :=
    h₃.next (l := .call (.unsubscribeReceiver 3 0x200)) ⟨trivial, by simp⟩ rfl
  have h₅ : Reaches Machine.step KeepsLifetimes (.constructed true) (s 5) := by
    refine h₄.next (l := .call (.destroyReceiver 0x200)) ⟨trivial, fun r hr => ?_⟩ rfl
    cases hr
    decide
  exact ⟨s 5, rfl, rfl, (loop_calls_live_receivers h₅).2.1⟩

/-- A receiver is destroyed while it is subscribed and a message for it is queued. -/
def destroyedWhileSubscribed : List Label :=
  [.call (.constructReceiver 0x200), .call (.subscribeReceiver 3 0x200 true),
    .call (.post ⟨3, none, .caller⟩ true), .call (.destroyReceiver 0x200), .loop 1, .tau, .tau]

theorem loop_calls_destroyed_receiver :
    ¬∀ s, Reaches Machine.step SubscribesLive (.constructed true) s →
      ∀ t cur r msgid context, s.step .tau = .ok t →
        t.trace = s.trace ++ [.called cur (.eventHandler r msgid context)] → r ∈ s.live := by
  intro hall
  let s := fun n => after Machine.step (.constructed true) (destroyedWhileSubscribed.take n)
  have h₁ : Reaches Machine.step SubscribesLive (.constructed true) (s 1) :=
    Reaches.start.next (l := .call (.constructReceiver 0x200)) trivial rfl
  have h₂ : Reaches Machine.step SubscribesLive (.constructed true) (s 2) :=
    h₁.next (l := .call (.subscribeReceiver 3 0x200 true))
      (by decide : (0x200 : Addr) ∈ (s 1).live) rfl
  have h₇ : Reaches Machine.step SubscribesLive (.constructed true) (s 7) := by
    have hrun : execute Machine.step (s 2) (destroyedWhileSubscribed.drop 2) = .ok (s 7) := rfl
    refine h₂.execute (fun u l hl => ?_) hrun
    simp only [destroyedWhileSubscribed, List.drop_succ_cons, List.drop_zero, List.mem_cons,
      List.not_mem_nil, or_false] at hl
    rcases hl with rfl | rfl | rfl | rfl | rfl <;> trivial
  have hlive := hall (s 7) h₇ _ 0 0x200 3 none rfl rfl
  exact absurd hlive (by decide)

end EmbeddedKernel.Mq
