import EmbeddedKernel.Leds.Blinking
import EmbeddedKernel.Library.Periodic
import EmbeddedKernel.TaskRing.Fairness

/-!
# LEDs that toggle on time

The ring gives every LED its turn, and a turn takes a bounded time.  So an LED does not
only wait for its timeout before it toggles; it also toggles soon after, and the number of
its toggles over any time is known up to the turns of the others.
-/

namespace EmbeddedKernel.Leds

open Library TaskRing Timer

variable {s t : System} {l : Label} {task other : Addr} {led : ToggleLED} {x : ℕ}
  {expired restarted : ℕ}

/-! ## The ring of the LEDs -/

/-- The ring between two calls of `TaskRing::Loop`. -/
def ringSystem (s : System) (es : List TaskRing.Event) : TaskRing.System := ⟨s.ring, false, [], es⟩

def turns (s : System) : Rotation := TaskRing.rotation (ringSystem s [])

/-- The nodes are in the order of their registrations. -/
def Ringed (s : System) : Prop := ∃ es, Shape (ringSystem s es)

theorem ringed_constructed (portb ddrb : BitVec 8) (now : ℕ) :
    Ringed (.constructed portb ddrb now) := ⟨[], shape_constructed⟩

theorem Ringed.pending_le (h : Ringed s) : (turns s).pending ≤ (turns s).members := by
  obtain ⟨es, hshape⟩ := h
  exact hshape.pending_le

/-- `TaskLoop` does not touch the ring. -/
theorem taskLoop_ring (s : System) (ring ring' : TaskInternals) (task : Addr) (led : ToggleLED)
    (expired restarted : ℕ) :
    ({ s with ring := ring }.taskLoop task led expired restarted).ring = ring ∧
      { { s with ring := ring }.taskLoop task led expired restarted with ring := ring' } =
        { s.taskLoop task led expired restarted with ring := ring' } := by
  unfold System.taskLoop
  constructor
  · split_ifs <;> rfl
  · split_ifs <;> rfl

theorem Ringed.start {alloc : Bool} (h : Ringed s) (hstep : s.step (.start task alloc) = .ok t) :
    Ringed t ∧ Rotation.Step (turns s) none (turns t) := by
  obtain ⟨es, hshape⟩ := h
  simp only [System.step] at hstep
  split at hstep
  · cases hstep
  · cases hstep
    unfold TaskInternals.start TaskInternals.registerTask TaskInternals.registerTaskHandler
    split_ifs
    · refine ⟨⟨_, hshape.prepend (.taskStateC task)⟩, ?_⟩
      simpa [turns, TaskRing.rotation, ringSystem] using
        Rotation.Step.join s.ring.heap.size (turns s).pending
    · exact ⟨⟨es, hshape⟩, .stay _⟩

/-- `TaskRing::Loop` on a ring that is not empty calls the LED of the node whose turn it is. -/
theorem Ringed.loop (h : Ringed s) (hstep : s.step (.loop expired restarted) = .ok t) :
    (t = s ∧ s.ring.heap.size = 0) ∨
      ∃ x task led, s.ring.handlerAt x = some (.taskStateC task) ∧ s.leds task = some led ∧
        t = { s.taskLoop task led expired restarted with
          ring := { s.ring with pCur := before x } } ∧
        Ringed t ∧ Rotation.Step (turns s) (some x) (turns t) := by
  obtain ⟨es, hshape⟩ := h
  rcases s.ring.select_cases with ⟨cur, hselect, hcur⟩ | ⟨hselect, hcur, hhead⟩
  · right
    obtain ⟨handler, hregistered⟩ := hshape.registered_of_lt (hshape.call_lt hcur)
    have hget : s.ring.heap.get cur = some ⟨handler, before cur⟩ :=
      hshape.node cur handler hregistered
    simp only [System.step, hselect, Heap.deref_some hget, ok_bind] at hstep
    obtain ⟨u, hu, hstep⟩ := bind_eq_ok.mp hstep
    obtain ⟨ring, hadvance, hstep⟩ := bind_eq_ok.mp hstep
    cases hstep
    -- the two halves of `Loop`, as steps of the task ring
    have hcall : Stepped (ringSystem s es) .loop _ := .call rfl hcur hget
    have hret := Stepped.ret (s := { ringSystem s es with
      ring := { s.ring with pCur := some cur }
      running := true
      trace := es ++ [.called cur handler] }) rfl rfl hget
    have hturn : Rotation.Step (TaskRing.rotation (ringSystem s es)) (some cur)
        (TaskRing.rotation ⟨{ s.ring with pCur := some cur }, true, [], []⟩) :=
      rotation_call hshape rfl hcur
    cases handler with
    | taskStateF f context => simp [System.call] at hu
    | taskStateC task =>
        simp only [System.call] at hu
        cases hled : s.leds task with
        | none => simp [hled] at hu
        | some led =>
            simp only [hled, Except.ok.injEq] at hu
            obtain ⟨hring, hrest⟩ := taskLoop_ring s { s.ring with pCur := some cur }
              { s.ring with pCur := before cur } task led expired restarted
            rw [← hu, hring] at hadvance
            simp only [TaskInternals.advance, Heap.deref_some hget, ok_bind, Except.ok.injEq]
              at hadvance
            rw [← hu, ← hadvance, hrest]
            refine ⟨cur, task, led, by simp [TaskInternals.handlerAt, hget], hled, rfl,
              ⟨_, hret.shape (hcall.shape hshape)⟩, ?_⟩
            cases cur <;> simpa [turns, TaskRing.rotation, ringSystem, before] using hturn
  · left
    simp only [System.step, hselect, hcur] at hstep
    cases hstep
    refine ⟨rfl, ?_⟩
    have hsize : before s.ring.heap.size = before 0 := hshape.head.symm.trans hhead
    exact before_inj hsize

theorem Ringed.step (h : Ringed s) (hstep : s.step l = .ok t) :
    Ringed t ∧ s.ring.heap.size ≤ t.ring.heap.size := by
  cases l with
  | construct task timeout mask reading =>
      cases hstep
      exact ⟨h, le_refl _⟩
  | start task alloc =>
      obtain ⟨hring, hturn⟩ := h.start hstep
      refine ⟨hring, ?_⟩
      obtain ⟨passes, -, hgrows, -⟩ :=
        (Rotation.Steps.refl.tail hturn).accounted h.pending_le
      exact hgrows
  | loop expired restarted =>
      rcases h.loop hstep with ⟨rfl, -⟩ | ⟨x, task, led, -, -, ht, hring, -⟩
      · exact ⟨h, le_refl _⟩
      · refine ⟨hring, ?_⟩
        rw [ht]

/-! ## One LED under watch -/

/-- No LED is constructed any more, and `TaskRing::Loop`, with whatever comes before it, takes
at most `g` ms. -/
def Punctual (g : ℕ) (s : System) : Label → Prop
  | .construct _ _ _ _ => False
  | .start _ _ => True
  | .loop expired restarted => s.now ≤ expired ∧ expired ≤ restarted ∧ restarted ≤ s.now + g

theorem Punctual.rules {g : ℕ} (h : Punctual g s l) : Rules s l := by
  cases l with
  | construct => exact h.elim
  | start => trivial
  | loop => exact ⟨h.1, h.2.1⟩

/-- The timer of an LED with the node `x` is looked at in turn; `before` is the trace at the
beginning. -/
structure Watched (g M : ℕ) (task : Addr) (x timeout base first : ℕ) (before : List Event)
    (s : System) : Prop where
  node : s.ring.handlerAt x = some (.taskStateC task)
  watch : ∃ led last es, s.leds task = some led ∧ led.tm.time.toNat = timeout ∧
    led.tm.tmr = millis last ∧ s.trace = before ++ es ∧
    Watch g M timeout (2 ^ 32) base first (toggles task es).length last s.now ((turns s).since x)

theorem lt_size_of_handlerAt {h : Handler} (hx : s.ring.handlerAt x = some h) :
    x < s.ring.heap.size := by
  obtain ⟨node, hget, -⟩ := Option.map_eq_some_iff.mp hx
  exact Heap.lt_size_of_get hget

/-- A reading that makes `isExpired` false is within the timeout, unless the clock has wrapped
around. -/
theorem le_of_not_isExpired {tm : OSTimer} {last : ℕ} (htmr : tm.tmr = millis last)
    (hle : last ≤ expired) (hlt : expired < last + 2 ^ 32)
    (h : ¬tm.isExpired (millis expired) = true) : expired ≤ last + tm.time.toNat := by
  simp only [OSTimer.isExpired, gt_iff_lt, decide_eq_true_eq, UInt32.lt_iff_toNat_lt,
    UInt32.toNat_sub, htmr, toNat_millis] at h
  omega

variable {g M timeout base first : ℕ} {before : List Event}

/-- The call of another LED. -/
theorem Watched.call_other (h : Watched g M task x timeout base first before s) (hne : other ≠ task)
    (hnode : t.ring.handlerAt x = some (.taskStateC task))
    (hsince : (turns t).since x = (turns s).since x + 1) {ring : TaskInternals}
    (ht : t = { s.taskLoop other led expired restarted with ring := ring })
    (hnow : s.now ≤ expired) (hle : expired ≤ restarted) (hturn : restarted ≤ s.now + g) :
    Watched g M task x timeout base first before t := by
  obtain ⟨own, last, es, hown, htime, htmr, htrace, hwatch⟩ := h.watch
  refine ⟨hnode, own, last, ?_⟩
  rw [hsince]
  by_cases hexpired : led.tm.isExpired (millis expired) = true
  · rw [System.taskLoop, if_pos hexpired] at ht
    subst ht
    refine ⟨es ++ [.toggled other led.toggleflag expired restarted], ?_, htime, htmr, ?_, ?_⟩
    · exact (Function.update_of_ne (Ne.symm hne) _ _).trans hown
    · rw [htrace, List.append_assoc]
    · rw [toggles_append, toggles_toggled, if_neg hne, List.append_nil]
      exact hwatch.other (hnow.trans hle) hturn
  · rw [System.taskLoop, if_neg hexpired] at ht
    subst ht
    exact ⟨es, hown, htime, htmr, htrace, hwatch.other hnow (hle.trans hturn)⟩

/-- The call of the LED itself. -/
theorem Watched.call_self (h : Watched g M task x timeout base first before s)
    (hled : s.leds task = some led) (hnode : t.ring.handlerAt x = some (.taskStateC task))
    (hsince : (turns s).since x < M) {ring : TaskInternals}
    (ht : t = { s.taskLoop task led expired restarted with ring := ring })
    (hnow : s.now ≤ expired) (hle : expired ≤ restarted) (hturn : restarted ≤ s.now + g) :
    Watched g M task x timeout base first before t := by
  obtain ⟨own, last, es, hown, htime, htmr, htrace, hwatch⟩ := h.watch
  rw [hled] at hown
  cases hown
  refine ⟨hnode, ?_⟩
  have hlast : last ≤ expired := hwatch.last_le.trans hnow
  by_cases hexpired : led.tm.isExpired (millis expired) = true
  · have hover := lt_of_isExpired htmr hlast hexpired
    rw [htime] at hover
    rw [System.taskLoop, if_pos hexpired] at ht
    subst ht
    refine ⟨_, restarted, es ++ [.toggled task led.toggleflag expired restarted],
      Function.update_self .., htime, rfl, ?_, ?_⟩
    · rw [htrace, List.append_assoc]
    · rw [toggles_append, toggles_toggled, if_pos rfl, List.length_append]
      exact hwatch.fire hsince hnow hover hle hturn
  · have hlt := hwatch.reading_lt hsince (hle.trans hturn)
    have hwithin := le_of_not_isExpired htmr hlast hlt hexpired
    rw [htime] at hwithin
    rw [System.taskLoop, if_neg hexpired] at ht
    subst ht
    exact ⟨led, last, es, hled, htime, htmr, htrace, hwatch.skip hnow hwithin⟩

theorem Watched.step (h : Watched g M task x timeout base first before s) (hring : Ringed s)
    (hM : s.ring.heap.size ≤ M) (hgood : Punctual g s l) (hstep : s.step l = .ok t) :
    Watched g M task x timeout base first before t := by
  have hx := lt_size_of_handlerAt h.node
  cases l with
  | construct => exact hgood.elim
  | start other alloc =>
      obtain ⟨-, hturn⟩ := hring.start hstep
      obtain ⟨led, last, es, hled, htime, htmr, htrace, hwatch⟩ := h.watch
      have hwatch' := hwatch.mono (hturn.since_none (x := x))
      simp only [System.step] at hstep
      split at hstep
      · cases hstep
      · cases hstep
        refine ⟨?_, led, last, es, hled, htime, htmr, htrace, hwatch'⟩
        have hnode := h.node
        unfold TaskInternals.start TaskInternals.registerTask TaskInternals.registerTaskHandler
        split_ifs
        · obtain ⟨node, hget, hhandler⟩ := Option.map_eq_some_iff.mp hnode
          simp only [TaskInternals.handlerAt, Heap.get_new_of_get _ hget, Option.map_some, hhandler]
        · exact hnode
  | loop expired restarted =>
      obtain ⟨hnow, hle, hturn⟩ := hgood
      rcases hring.loop hstep with ⟨-, hzero⟩ | ⟨y, other, led, hy, hled, ht, -, hrotate⟩
      · omega
      · have hnode : t.ring.handlerAt x = some (.taskStateC task) := by
          rw [ht]
          exact h.node
        by_cases hother : other = task
        · subst hother
          have hsince := (Rotation.since_lt hring.pending_le hx).trans_le hM
          exact h.call_self hled hnode hsince ht hnow hle hturn
        · have hne : x ≠ y := by
            rintro rfl
            rw [h.node] at hy
            cases hy
            exact hother rfl
          have hsince := hrotate.since_other hring.pending_le hne hx
          exact h.call_other hother hnode hsince ht hnow hle hturn

/-- The toggles of an LED over a stretch of turns of at most `g` ms. -/
theorem Ringed.toggles_bounds (hring : Ringed s) (hled : s.leds task = some led) {last : ℕ}
    (htmr : led.tm.tmr = millis last) (hle : last ≤ s.now)
    (hx : s.ring.handlerAt x = some (.taskStateC task))
    (ht : Reaches System.step (Punctual g) s t)
    (hclear : max (last + led.tm.time.toNat) s.now + g * t.ring.heap.size < last + 2 ^ 32) :
    ∃ es, t.trace = s.trace ++ es ∧
      last + (toggles task es).length * (led.tm.time.toNat + 1) ≤ t.now ∧
      t.now ≤ max (last + led.tm.time.toNat) s.now + g * t.ring.heap.size +
        (toggles task es).length * (led.tm.time.toNat + g * t.ring.heap.size) := by
  have hstart : Watched g t.ring.heap.size task x led.tm.time.toNat s.now last s.trace s := by
    refine ⟨hx, led, last, [], hled, rfl, htmr, (List.append_nil _).symm, ?_⟩
    apply watch_start (le_refl _) hle hclear
    exact (le_max_right _ _).trans (Nat.le_add_right _ _)
  -- the ring only grows, so it never has more nodes than at the end
  have hrun : Ringed t ∧ (t.ring.heap.size ≤ t.ring.heap.size →
      Watched g t.ring.heap.size task x led.tm.time.toNat s.now last s.trace t) := by
    refine ht.invariant (fun u => Ringed u ∧ (u.ring.heap.size ≤ t.ring.heap.size →
      Watched g t.ring.heap.size task x led.tm.time.toNat s.now last s.trace u))
      ⟨hring, fun _ => hstart⟩ ?_
    rintro u l v ⟨hu, hwatched⟩ hgood hstep
    obtain ⟨hv, hsize⟩ := hu.step hstep
    refine ⟨hv, fun hv => ?_⟩
    exact (hwatched (hsize.trans hv)).step hu (hsize.trans hv) hgood hstep
  obtain ⟨hring', hwatched⟩ := hrun
  have hend := hwatched (le_refl _)
  obtain ⟨led', last', es, -, -, -, htrace, hwatch⟩ := hend.watch
  have hsince := Rotation.since_lt hring'.pending_le (lt_size_of_handlerAt hend.node)
  exact ⟨es, htrace, hwatch.bounds hsince.le⟩

theorem reaches_ringed {good : System → Label → Prop} {portb ddrb : BitVec 8} {now : ℕ}
    (hs : Reaches System.step good (.constructed portb ddrb now) s) : Ringed s :=
  hs.invariant Ringed (ringed_constructed portb ddrb now) fun _ _ _ h _ hstep => (h.step hstep).1

theorem reaches_blinking {portb ddrb : BitVec 8} {now : ℕ}
    (hs : Reaches System.step Rules (.constructed portb ddrb now) s) : Blinking portb s :=
  hs.invariant (Blinking portb) (blinking_constructed portb ddrb now)
    fun _ _ _ h hgood hstep => h.step hgood hstep

/-- Every LED has the timeout that it was constructed with. -/
def KeepsTimeouts (s : System) : Prop :=
  ∀ task timeout mask reading, Event.constructed task timeout mask reading ∈ s.trace →
    ∃ led, s.leds task = some led ∧ led.tm.time = timeout

theorem KeepsTimeouts.taskLoop (h : KeepsTimeouts s) (task : Addr) {led : ToggleLED}
    (hled : s.leds task = some led) (expired restarted : ℕ) :
    KeepsTimeouts (s.taskLoop task led expired restarted) := by
  unfold System.taskLoop
  split
  · intro other timeout mask reading hmem
    rw [List.mem_append, List.mem_singleton] at hmem
    obtain ⟨x, hx, htime⟩ := h other timeout mask reading (hmem.resolve_right (by simp))
    rcases eq_or_ne other task with rfl | hne
    · rw [hled, Option.some.injEq] at hx
      exact ⟨_, Function.update_self .., by rw [← htime, ← hx]; rfl⟩
    · exact ⟨x, by simpa only [Function.update_of_ne hne] using hx, htime⟩
  · exact h

theorem KeepsTimeouts.step (h : KeepsTimeouts s) (hgood : Rules s l) (hstep : s.step l = .ok t) :
    KeepsTimeouts t := by
  cases l with
  | construct task timeout mask reading =>
      cases hstep
      intro other timeout' mask' reading' hmem
      rw [List.mem_append, List.mem_singleton] at hmem
      rcases hmem with hmem | heq
      · obtain ⟨x, hx, htime⟩ := h other timeout' mask' reading' hmem
        have hne : other ≠ task := by
          rintro rfl
          simp [hgood.2.1] at hx
        exact ⟨x, by simpa only [Function.update_of_ne hne] using hx, htime⟩
      · cases heq
        exact ⟨_, Function.update_self .., rfl⟩
  | start task alloc =>
      simp only [System.step] at hstep
      split at hstep
      · cases hstep
      · cases hstep
        exact h
  | loop expired restarted =>
      rcases step_loop hstep with ⟨ring, rfl⟩ | ⟨task, led, ring, hled, rfl⟩
      · exact h
      · exact h.taskLoop task hled expired restarted

theorem reaches_keepsTimeouts {portb ddrb : BitVec 8} {now : ℕ}
    (hs : Reaches System.step Rules (.constructed portb ddrb now) s) : KeepsTimeouts s :=
  hs.invariant KeepsTimeouts (fun _ _ _ _ hmem => by cases hmem)
    fun _ _ _ h hgood hstep => h.step hgood hstep

/-- The timer of an LED has the timeout of its construction and runs since its last start. -/
theorem timer_of_constructed {portb ddrb : BitVec 8} {now reading last : ℕ} {timeout : UInt32}
    {mask : BitVec 8} (hs : Reaches System.step Rules (.constructed portb ddrb now) s)
    (hmade : Event.constructed task timeout mask reading ∈ s.trace)
    (hlast : (starts task s.trace).getLast? = some last) :
    ∃ led, s.leds task = some led ∧ led.tm.time = timeout ∧ led.tm.tmr = millis last ∧
      last ≤ s.now := by
  obtain ⟨led, hled, htime⟩ := reaches_keepsTimeouts hs task timeout mask reading hmade
  obtain ⟨last', hlast', hle, htmr⟩ := ((reaches_blinking hs).led task led hled).started
  obtain rfl : last = last' := Option.some_inj.mp (hlast.symm.trans hlast')
  exact ⟨led, hled, htime, htmr, hle⟩

/-- From any state of any run on, as long as no LED is constructed and a turn takes at most
`g` ms, the number `c` of toggles of an LED that has been started is known from the clock: if
its timer was last started at `last`, then at least `c` times the timeout it was constructed
with has passed since, and at most `c + 1` times the timeout with a turn for each of the tasks
in the ring.  The timeout must leave these turns before `millis()` is back at `last`: a timer
of 2^32 - 1 ms never expires. -/
theorem leds_onTime (portb ddrb : BitVec 8) (now g : ℕ) (s t : System)
    (hs : Reaches System.step Rules (.constructed portb ddrb now) s)
    (ht : Reaches System.step (Punctual g) s t) (task : Addr) (timeout : UInt32) (mask : BitVec 8)
    (reading x last : ℕ) (hmade : Event.constructed task timeout mask reading ∈ s.trace)
    (hx : s.ring.handlerAt x = some (.taskStateC task))
    (hlast : (starts task s.trace).getLast? = some last)
    (hclear : max (last + timeout.toNat) s.now + g * t.ring.heap.size < last + 2 ^ 32) :
    ∃ es, t.trace = s.trace ++ es ∧
      last + (toggles task es).length * (timeout.toNat + 1) ≤ t.now ∧
      t.now ≤ max (last + timeout.toNat) s.now + g * t.ring.heap.size +
        (toggles task es).length * (timeout.toNat + g * t.ring.heap.size) := by
  obtain ⟨led, hled, rfl, htmr, hle⟩ := timer_of_constructed hs hmade hlast
  exact (reaches_ringed hs).toggles_bounds hled htmr hle hx ht hclear

/-- Two LEDs that are started when they are constructed. -/
def twoStarted : List Label :=
  [.construct 1 50 0x20 0, .construct 2 30 0x08 0, .start 1 true, .start 2 true]

/-- Five turns within 20 ms each. -/
def fiveTurns : List Label :=
  [.loop 20 20, .loop 40 40, .loop 60 60, .loop 80 80, .loop 95 96]

theorem leds_onTime_fiveTurns :
    ∃ s t es, execute System.step (.constructed 0xFF 0 0) twoStarted = .ok s ∧
      execute System.step s fiveTurns = .ok t ∧ t.trace = s.trace ++ es ∧
      (toggles 2 es).length * 31 ≤ 96 ∧ 96 ≤ 70 + (toggles 2 es).length * 70 := by
  let s := after System.step (.constructed 0xFF 0 0) twoStarted
  let t := after System.step s fiveTurns
  have hs : Reaches System.step Rules (.constructed 0xFF 0 0) s := by
    refine .head (l := .construct 1 50 0x20 0) ⟨by decide, rfl, ?_⟩ rfl ?_
    · simp [System.constructed]
    refine .head (l := .construct 2 30 0x08 0) ⟨by decide, rfl, ?_⟩ rfl ?_
    · intro a x hx
      simp only [Function.update_apply, System.constructed] at hx
      split_ifs at hx
      cases hx
      rfl
    refine .head (l := .start 1 true) trivial rfl ?_
    exact .head (l := .start 2 true) trivial rfl .start
  have ht : Reaches System.step (Punctual 20) s t := by
    refine .head (l := .loop 20 20) ⟨by decide, by decide, by decide⟩ rfl ?_
    refine .head (l := .loop 40 40) ⟨by decide, by decide, by decide⟩ rfl ?_
    refine .head (l := .loop 60 60) ⟨by decide, by decide, by decide⟩ rfl ?_
    refine .head (l := .loop 80 80) ⟨by decide, by decide, by decide⟩ rfl ?_
    exact .head (l := .loop 95 96) ⟨by decide, by decide, by decide⟩ rfl .start
  obtain ⟨es, htrace, hleast, hmost⟩ := leds_onTime 0xFF 0 0 20 s t hs ht 2 30 0x08 0 1 0
    (by decide) rfl rfl (by decide)
  have hnow : t.now = 96 := rfl
  rw [hnow] at hleast hmost
  rw [Nat.zero_add] at hleast
  exact ⟨s, t, es, rfl, rfl, htrace, hleast, hmost⟩

end EmbeddedKernel.Leds
