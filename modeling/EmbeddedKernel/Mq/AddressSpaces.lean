import EmbeddedKernel.Mq.Machine

/-!
# Functions and receivers with equal addresses

A function is named by its address in program memory and a receiver by its
address in data memory, and on the AVR the two may be the same number.
`checkHandler` compares the numbers only.  So an operation on a handler of one
kind leaves those of the other kind alone exactly if none of them has its address
and is subscribed to the id.
-/

namespace EmbeddedKernel.Mq

open Library

def Handler.isFunction : Handler → Bool
  | .mhFunction _ => true
  | .mhClass _ => false

theorem Handler.eq_of_addr {e h : Handler} (hkind : e.isFunction = h.isFunction)
    (haddr : e.addr = h.addr) : e = h := by
  cases e <;> cases h <;> simp_all [Handler.isFunction, Handler.addr]

namespace MQClass

/-- The overload of `Subscribe` for a handler of this kind. -/
def subscribeOf (s : MQClass) (msgid : ℤ) (alloc : Bool) : Handler → Except Stop (MQClass × ℤ)
  | .mhFunction f => s.subscribeFunction msgid f alloc
  | .mhClass r => s.subscribeReceiver msgid r alloc

/-- The overload of `Unsubscribe` for a handler of this kind. -/
def unsubscribeOf (s : MQClass) (msgid : ℤ) : Handler → Except Stop (MQClass × ℤ)
  | .mhFunction f => s.unsubscribeFunction msgid f
  | .mhClass r => s.unsubscribeReceiver msgid r

/-- With memory left, subscribing `h` succeeds unless it is subscribed already. -/
def SubscribesUnlessPresent (s : MQClass) (id : Fin MSG_MAX_MSG_IDS) (h : Handler) : Prop :=
  h ∉ s.entries id →
    ∃ s', s.subscribeOf (id : ℕ) true h = .ok (s', 0) ∧ s'.entries id = h :: s.entries id

/-- Unsubscribing `h` removes no entry of the other kind, from any list. -/
def UnsubscribesOwnKind (s : MQClass) (id : Fin MSG_MAX_MSG_IDS) (h : Handler) : Prop :=
  ∃ s' rc, s.unsubscribeOf (id : ℕ) h = .ok (s', rc) ∧
    ∀ j, ∀ e ∈ s.entries j, e.isFunction ≠ h.isFunction → e ∈ s'.entries j

/-- No handler of the other kind with the address of `h` is subscribed to `id`. -/
def NoClash (s : MQClass) (id : Fin MSG_MAX_MSG_IDS) (h : Handler) : Prop :=
  ∀ e ∈ s.entries id, e.isFunction ≠ h.isFunction → e.addr ≠ h.addr

instance (s : MQClass) (id : Fin MSG_MAX_MSG_IDS) (h : Handler) : Decidable (s.NoClash id h) :=
  inferInstanceAs (Decidable (∀ e ∈ s.entries id, _ → _))

variable {s s' : MQClass} {id j : Fin MSG_MAX_MSG_IDS} {e h : Handler} {x : ℕ}

theorem subscribeOf_eq (msgid : ℤ) (alloc : Bool) (h : Handler) :
    ∃ mk : Addr → Handler, mk h.addr = h ∧
      s.subscribeOf msgid alloc h = subscribeHandler mk s msgid h.addr alloc := by
  cases h with
  | mhFunction f => exact ⟨.mhFunction, rfl, rfl⟩
  | mhClass r => exact ⟨.mhClass, rfl, rfl⟩

theorem unsubscribeOf_eq (msgid : ℤ) (h : Handler) :
    s.unsubscribeOf msgid h = unsubscribeHandler s msgid h.addr := by
  cases h <;> rfl

theorem Removed.mem_entries (hr : Removed s s' id x) (he : e ∈ s.entries j)
    (hne : s.handlerAt x ≠ some e) : e ∈ s'.entries j := by
  obtain ⟨y, hy, hye⟩ := MQClass.mem_entries.mp he
  have hyx : y ≠ x := by
    rintro rfl
    exact hne hye
  apply MQClass.mem_entries.mpr
  refine ⟨y, ?_, by rw [hr.handler_keep y hyx, hye]⟩
  by_cases hj : j = id
  · subst hj
    rw [hr.nodes_self]
    exact List.mem_filter.mpr ⟨hy, by simpa using hyx⟩
  · rwa [hr.nodes_other j hj]

theorem Removed.notMem_entries (hr : Removed s s' id x) (hs : Subscriptions s)
    (hx : s.handlerAt x = some e) : e ∉ s'.entries id := by
  intro he
  obtain ⟨y, hy, hye⟩ := MQClass.mem_entries.mp he
  rw [hr.nodes_self, List.mem_filter] at hy
  have hyx : y ≠ x := by simpa using hy.2
  rw [hr.handler_keep y hyx] at hye
  exact hyx (handlerAt_inj hs hy.1 hr.mem hye hx rfl)

theorem subscribesUnlessPresent_iff (hs : Subscriptions s) (hne : h.addr ≠ 0) :
    s.SubscribesUnlessPresent id h ↔ s.NoClash id h := by
  obtain ⟨mk, hself, hmk⟩ := subscribeOf_eq (s := s) (id : ℕ) true h
  constructor
  · intro hsub e he hkind haddr
    have hnot : h ∉ s.entries id := by
      intro hmem
      obtain ⟨y, hy, hye⟩ := MQClass.mem_entries.mp he
      obtain ⟨z, hz, hzh⟩ := MQClass.mem_entries.mp hmem
      have hyz := handlerAt_inj hs hy hz hye hzh haddr
      subst hyz
      rw [hye] at hzh
      cases hzh
      exact hkind rfl
    obtain ⟨s', hok, -⟩ := hsub hnot
    rw [hmk, subscribe_of_present hs mk true ⟨e, he, haddr⟩] at hok
    cases hok
  · intro hclash hnot
    rw [hmk, subscribe_of_absent hs mk hne]
    · rw [hself]
      exact ⟨_, rfl, (pushed_push id hs h).entries_self hs⟩
    · intro e he haddr
      by_cases hkind : e.isFunction = h.isFunction
      · rw [Handler.eq_of_addr hkind haddr] at he
        exact hnot he
      · exact hclash e he hkind haddr

theorem unsubscribesOwnKind_iff (hs : Subscriptions s) :
    s.UnsubscribesOwnKind id h ↔ s.NoClash id h := by
  rw [UnsubscribesOwnKind, unsubscribeOf_eq]
  constructor
  · intro hunsub e he hkind haddr
    obtain ⟨s', rc, hok, hkeep⟩ := hunsub
    obtain ⟨s'', x, hok', hr, hx⟩ := unsubscribe_of_present hs he haddr
    rw [hok] at hok'
    cases hok'
    exact hr.notMem_entries hs hx (hkeep id e he hkind)
  · intro hclash
    by_cases hpresent : ∃ e ∈ s.entries id, e.addr = h.addr
    · obtain ⟨e, he, haddr⟩ := hpresent
      obtain ⟨s', x, hok, hr, hx⟩ := unsubscribe_of_present hs he haddr
      refine ⟨s', 0, hok, fun j f hf hkind => hr.mem_entries hf ?_⟩
      rw [hx]
      rintro heq
      cases heq
      exact hclash e he hkind haddr
    · push Not at hpresent
      exact ⟨s, -1, unsubscribe_of_absent hs hpresent, fun j e he _ => he⟩

end MQClass

/-- After every run, and for every function and every receiver: subscribing it to an id
succeeds unless it is subscribed already, and unsubscribing it removes no entry of the
other kind, exactly if no handler of the other kind with its address is subscribed to
that id. -/
theorem handlerKinds_independent {b : Bool} {s : Machine}
    (hs : Reaches Machine.step (fun _ _ => True) (.constructed b) s) (id : Fin MSG_MAX_MSG_IDS)
    (h : Handler) (hne : h.addr ≠ 0) :
    (s.mq.SubscribesUnlessPresent id h ∧ s.mq.UnsubscribesOwnKind id h) ↔ s.mq.NoClash id h := by
  have hsubs := (reaches_wf hs).subscriptions
  rw [MQClass.subscribesUnlessPresent_iff hsubs hne, MQClass.unsubscribesOwnKind_iff hsubs,
    and_self_iff]

theorem handlerKinds_independent_distinctAddresses :
    ∃ s, execute Machine.step (.constructed true)
        [.call (.subscribeFunction 0 0x100 true), .call (.subscribeReceiver 0 0x200 true)] =
        .ok s ∧
      s.mq.SubscribesUnlessPresent ⟨0, by decide⟩ (.mhClass 0x300) ∧
      s.mq.UnsubscribesOwnKind ⟨0, by decide⟩ (.mhClass 0x200) := by
  let s := after Machine.step (.constructed true)
    [.call (.subscribeFunction 0 0x100 true), .call (.subscribeReceiver 0 0x200 true)]
  have hrun : execute Machine.step (.constructed true)
    [.call (.subscribeFunction 0 0x100 true), .call (.subscribeReceiver 0 0x200 true)] =
    .ok s := rfl
  have hreach := reaches_of_execute hrun
  refine ⟨s, hrun, ?_, ?_⟩
  · exact ((handlerKinds_independent hreach _ (.mhClass 0x300) (by decide)).mpr (by decide)).1
  · exact ((handlerKinds_independent hreach _ (.mhClass 0x200) (by decide)).mpr (by decide)).2

/-- A function and a receiver with the address 0x100: once the function is subscribed, the
receiver cannot be, and unsubscribing the receiver removes the function. -/
theorem receiver_clashes_with_function :
    ¬∀ s, Reaches Machine.step (fun _ _ => True) (.constructed true) s →
      ∀ id h, Handler.addr h ≠ 0 →
        s.mq.SubscribesUnlessPresent id h ∧ s.mq.UnsubscribesOwnKind id h := by
  intro hall
  let s := after Machine.step (.constructed true) [.call (.subscribeFunction 0 0x100 true)]
  have hrun : execute Machine.step (.constructed true)
    [.call (.subscribeFunction 0 0x100 true)] = .ok s := rfl
  obtain ⟨hsub, -⟩ := hall s (reaches_of_execute hrun) ⟨0, by decide⟩ (.mhClass 0x100)
    (by decide)
  obtain ⟨s', hs', -⟩ := hsub (by decide)
  have hfails : s.mq.subscribeOf 0 true (.mhClass 0x100) = .ok (s.mq, -1) := rfl
  have hrc := hfails.symm.trans hs'
  cases hrc

end EmbeddedKernel.Mq
