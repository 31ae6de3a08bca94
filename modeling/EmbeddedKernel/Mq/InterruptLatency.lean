import EmbeddedKernel.Library.Service
import EmbeddedKernel.Mq.HeapSections
import EmbeddedKernel.Mq.QueueShape

/-!
# How long interrupts wait

`Post` and `Loop` mask interrupts for a part of their statements.  `untilEnable` counts the
statements to the next `INTEnableMasterInterrupts`; nothing else runs before that.  They are
the steps of `Interleaving`:  in `Post` the test of the id, the `new` and the test of its result
are one, the test of `MsgQueueFirst` is one, and `rc=0` goes with the assignment before it;  in
`Loop` the test of `msg` goes with its assignment, and the test of `MsgQueueFirst` with
`MsgQueueLast=NULL`.
-/

namespace EmbeddedKernel.Mq.Interleaving

open Library MsgQueue

/-- The statements of `Post` up to the one that enables interrupts again. The branch that
appends to a list with messages is the longest. -/
def PostPoint.untilEnable : PostPoint → ℕ
  | .alloc _ => 5
  | .testFirst _ _ => 4
  | .linkLast _ _ => 3
  | .linkFirst _ _ | .setLast _ _ => 2
  | .enable _ _ => 1
  | _ => 0

def LoopPoint.untilEnable : LoopPoint → ℕ
  | .readFirst _ => 4
  | .advance _ _ => 3
  | .clearLast _ _ => 2
  | .enable _ _ => 1
  | _ => 0

def System.untilEnable (s : System) : ℕ := s.post.untilEnable + s.loop.untilEnable

theorem PostPoint.untilEnable_eq_zero {post : PostPoint} :
    post.untilEnable = 0 ↔ ¬post.Critical := by
  cases post <;> simp [PostPoint.untilEnable, PostPoint.Critical]

theorem LoopPoint.untilEnable_eq_zero {loop : LoopPoint} :
    loop.untilEnable = 0 ↔ ¬loop.Critical := by
  cases loop <;> simp [LoopPoint.untilEnable, LoopPoint.Critical]

theorem untilEnable_eq_zero {s : System} : s.untilEnable = 0 ↔ s.NoCriticalSection := by
  rw [System.untilEnable, Nat.add_eq_zero_iff, PostPoint.untilEnable_eq_zero,
    LoopPoint.untilEnable_eq_zero, System.NoCriticalSection]

theorem Shape.untilEnable_le {s : System} {xs : List ℕ} (h : Shape s xs) : s.untilEnable ≤ 5 := by
  by_cases hpost : s.post = .outside
  · cases hloop : s.loop <;> simp [System.untilEnable, hpost, hloop, PostPoint.untilEnable,
      LoopPoint.untilEnable]
  · have hzero := LoopPoint.untilEnable_eq_zero.mpr (h.loop_of_post hpost).1
    rw [System.untilEnable, hzero]
    cases s.post <;> simp [PostPoint.untilEnable]

/-! ## One step -/

/-- The flag is off in the critical sections only, and they come to their end. -/
structure Masking (s t : System) : Prop where
  flag : (s.queue.masterInterrupts = true ↔ s.untilEnable = 0) →
    (t.queue.masterInterrupts = true ↔ t.untilEnable = 0)
  falls : s.untilEnable ≠ 0 → t.untilEnable < s.untilEnable

section Statements

variable {s t : System} {xs : List ℕ}

theorem masking_postStatement {alloc : Bool} (hloop : s.loop.untilEnable = 0)
    (hstep : s.postStatement alloc = .ok t) : Masking s t := by
  unfold System.postStatement at hstep
  cases hp : s.post with
  | outside => simp [hp] at hstep
  | alloc c =>
      simp only [hp] at hstep
      split_ifs at hstep <;> cases hstep <;> constructor <;>
        simp [System.untilEnable, hp, hloop, PostPoint.untilEnable, newMessage]
  | testFirst c p =>
      simp only [hp] at hstep
      split_ifs at hstep <;> cases hstep <;> constructor <;>
        simp [System.untilEnable, hp, hloop, PostPoint.untilEnable]
  | linkLast c p =>
      simp only [hp] at hstep
      obtain ⟨q, hq, hstep⟩ := bind_eq_ok.mp hstep
      cases hstep
      constructor <;>
        simp [System.untilEnable, hp, hloop, PostPoint.untilEnable, linkLast_flag hq]
  | _ =>
      simp only [hp, Except.ok.injEq] at hstep
      subst hstep
      constructor <;>
        simp [System.untilEnable, hp, hloop, PostPoint.untilEnable, MsgQueue.linkFirst,
          MsgQueue.setLast, intDisableMasterInterrupts, intEnableMasterInterrupts]

theorem masking_loopStatement (hpost : s.post = .outside) (hstep : s.loopStatement = .ok t) :
    Masking s t := by
  unfold System.loopStatement at hstep
  cases hl : s.loop with
  | outside => simp [hl] at hstep
  | dispatch n msg => simp [hl] at hstep
  | test n =>
      simp only [hl, Except.ok.injEq] at hstep
      subst hstep
      by_cases hn : n = 0 <;> constructor <;>
        simp [System.untilEnable, hl, hpost, hn, LoopPoint.untilEnable, PostPoint.untilEnable]
  | readFirst n =>
      simp only [hl] at hstep
      split at hstep <;> cases hstep <;> constructor <;>
        simp [System.untilEnable, hl, hpost, LoopPoint.untilEnable]
  | advance n msg =>
      simp only [hl] at hstep
      obtain ⟨m, hm, hstep⟩ := bind_eq_ok.mp hstep
      obtain ⟨q, hq, hstep⟩ := bind_eq_ok.mp hstep
      obtain ⟨m', -, hq⟩ := bind_eq_ok.mp hq
      cases hq
      cases hstep
      constructor <;> simp [System.untilEnable, hl, hpost, LoopPoint.untilEnable]
  | clearLast n msg =>
      simp only [hl, Except.ok.injEq] at hstep
      subst hstep
      constructor <;> simp [System.untilEnable, hl, hpost, LoopPoint.untilEnable, clearLast_flag]
  | free n msg =>
      simp only [hl] at hstep
      obtain ⟨q, hq, hstep⟩ := bind_eq_ok.mp hstep
      obtain ⟨m, -, hq⟩ := bind_eq_ok.mp hq
      cases hq
      cases hstep
      constructor <;>
        simp [System.untilEnable, hl, hpost, LoopPoint.untilEnable, PostPoint.untilEnable]
  | enable n msg =>
      simp only [hl, Except.ok.injEq] at hstep
      subst hstep
      cases msg <;> constructor <;>
        simp [System.untilEnable, hl, hpost, LoopPoint.untilEnable, PostPoint.untilEnable,
          intEnableMasterInterrupts]
  | _ =>
      simp only [hl, Except.ok.injEq] at hstep
      subst hstep
      constructor <;>
        simp [System.untilEnable, hl, hpost, LoopPoint.untilEnable, PostPoint.untilEnable,
          intDisableMasterInterrupts]

theorem Shape.masking_statement (h : Shape s xs) {alloc : Bool}
    (hstep : s.step (.statement alloc) = .ok t) : Masking s t := by
  simp only [System.step] at hstep
  split_ifs at hstep with hpost
  · exact masking_loopStatement hpost hstep
  · exact masking_postStatement
      (LoopPoint.untilEnable_eq_zero.mpr (h.loop_of_post hpost).1) hstep

/-- In a critical section only its own statements run. -/
theorem Shape.statement_of_masked (h : Shape s xs) {l : Label}
    (hcritical : ¬s.NoCriticalSection) (hstep : s.step l = .ok t) :
    ∃ alloc, l = .statement alloc := by
  have hmasked : s.queue.masterInterrupts = false := by
    apply h.masked
    rw [System.NoCriticalSection] at hcritical
    tauto
  cases l with
  | interrupt m alloc => simp [System.step, hmasked] at hstep
  | beginPost m =>
      cases hp : s.post <;> cases hl : s.loop <;>
        simp_all [System.step, System.callerRuns, System.NoCriticalSection, PostPoint.Critical,
          LoopPoint.Critical]
  | beginLoop n =>
      by_cases hout : s.post = .outside ∧ s.loop = .outside
      · simp [System.NoCriticalSection, hout, PostPoint.Critical, LoopPoint.Critical] at hcritical
      · simp [System.step, hout] at hstep
  | handlersDone =>
      cases hp : s.post <;> cases hl : s.loop <;>
        simp_all [System.step, System.NoCriticalSection, PostPoint.Critical, LoopPoint.Critical]
  | statement alloc => exact ⟨alloc, rfl⟩

/-- A critical section never waits. -/
theorem Shape.statement_ok (h : Shape s xs) (hcritical : ¬s.NoCriticalSection) (alloc : Bool) :
    ∃ t, s.step (.statement alloc) = .ok t := by
  by_cases hpost : s.post = .outside
  · simp only [System.step, hpost, if_true, System.loopStatement]
    have hloop : s.loop.Critical := by
      simpa [System.NoCriticalSection, hpost, PostPoint.Critical] using hcritical
    cases hl : s.loop with
    | readFirst n => cases s.queue.msgQueueFirst <;> exact ⟨_, rfl⟩
    | advance n msg =>
        obtain ⟨m, ys, hderef, -, -⟩ := h.advance hpost hl
        simp [advanceFirst, hderef]
    | clearLast n msg => exact ⟨_, rfl⟩
    | enable n msg => exact ⟨_, rfl⟩
    | _ => simp [hl, LoopPoint.Critical] at hloop
  · simp only [System.step, hpost, if_false, System.postStatement]
    cases hp : s.post with
    | outside => exact (hpost hp).elim
    | alloc c => by_cases hacc : Accepts c.payload ∧ alloc = true <;> simp [hacc]
    | testFirst c p => by_cases hfirst : s.queue.msgQueueFirst = none <;> simp [hfirst]
    | linkLast c p =>
        obtain ⟨q, hlink, -⟩ := h.linkLast hp
        simp [hlink]
    | _ => exact ⟨_, rfl⟩

/-- A step that moves between points with interrupts enabled. -/
theorem masking_of_eq (hflag : t.queue.masterInterrupts = s.queue.masterInterrupts)
    (hpost : t.post.untilEnable = s.post.untilEnable)
    (hloop : t.loop.untilEnable = s.loop.untilEnable) (hzero : s.untilEnable = 0) :
    Masking s t := by
  have hsame : t.untilEnable = s.untilEnable := by
    rw [System.untilEnable, hpost, hloop, System.untilEnable]
  constructor
  · rw [hflag, hsame]
    exact id
  · exact fun hne => (hne hzero).elim

theorem Shape.masking (h : Shape s xs) {l : Label} (hstep : s.step l = .ok t) : Masking s t := by
  by_cases hcritical : s.NoCriticalSection
  · have hzero : s.untilEnable = 0 := untilEnable_eq_zero.mpr hcritical
    cases l with
    | interrupt m alloc =>
        obtain ⟨hflag, hflag', hpost, hloop⟩ := HeapSections.interrupt_frame hstep
        exact masking_of_eq (hflag'.trans hflag.symm) (by rw [hpost]) (by rw [hloop]) hzero
    | beginPost m =>
        simp only [System.step] at hstep
        split_ifs at hstep with hruns
        cases hstep
        refine masking_of_eq rfl ?_ rfl hzero
        exact (PostPoint.untilEnable_eq_zero.mpr hcritical.1).symm
    | beginLoop n =>
        simp only [System.step] at hstep
        split_ifs at hstep with hout
        cases hstep
        refine masking_of_eq rfl rfl ?_ hzero
        exact (LoopPoint.untilEnable_eq_zero.mpr hcritical.2).symm
    | handlersDone =>
        simp only [System.step] at hstep
        split at hstep
        · cases hstep
          refine masking_of_eq rfl rfl ?_ hzero
          exact (LoopPoint.untilEnable_eq_zero.mpr hcritical.2).symm
        · cases hstep
    | statement alloc => exact h.masking_statement hstep
  · obtain ⟨alloc, rfl⟩ := h.statement_of_masked hcritical hstep
    exact h.masking_statement hstep

end Statements

/-! ## Whole runs -/

/-- The flag of the machine in every state of a run that starts with interrupts enabled. -/
theorem flag_of_reaches {s : System}
    (hs : Reaches System.step (fun _ _ => True) (.constructed true) s) :
    s.queue.masterInterrupts = true ↔ s.untilEnable = 0 := by
  have hboth : (∃ xs, Shape s xs) ∧ (s.queue.masterInterrupts = true ↔ s.untilEnable = 0) := by
    refine hs.invariant
      (fun s => (∃ xs, Shape s xs) ∧ (s.queue.masterInterrupts = true ↔ s.untilEnable = 0))
      ⟨⟨[], shape_constructed true⟩, by simp [System.constructed, MsgQueue.constructed,
        System.untilEnable, PostPoint.untilEnable, LoopPoint.untilEnable]⟩ ?_
    rintro s l t ⟨⟨xs, h⟩, hflag⟩ - hstep
    exact ⟨h.step hstep, (h.masking hstep).flag hflag⟩
  exact hboth.2

/-- Interrupts are disabled in the critical sections of `Post` and `Loop` and nowhere else.
In a critical section no other code runs, and the next statement always can: no list makes
it follow a null or stale pointer.  So an interrupt waits for five statements of the model at
most, whatever the queue holds, and whoever called. -/
theorem interrupts_bounded {run : ℕ → System} {N : ℕ} (hstart : run 0 = .constructed true)
    (hrun : IsRun System.step (fun _ _ => True) run N) :
    (∀ n ≤ N, (run n).queue.masterInterrupts = false ↔ ¬(run n).NoCriticalSection) ∧
      (∀ n ≤ N, (run n).queue.masterInterrupts = false →
        (∀ alloc, ∃ t, (run n).step (.statement alloc) = .ok t) ∧
          ∀ l t, (run n).step l = .ok t → ∃ alloc, l = .statement alloc) ∧
      ∀ n, n + 5 ≤ N → ∃ i ≤ 5, (run (n + i)).queue.masterInterrupts = true := by
  have hreaches : ∀ n ≤ N, Reaches System.step (fun _ _ => True) (.constructed true) (run n) :=
    fun n hn => hstart ▸ hrun.reaches hn
  have hoff : ∀ n ≤ N, (run n).queue.masterInterrupts = false ↔ ¬(run n).NoCriticalSection := by
    intro n hn
    rw [← untilEnable_eq_zero, ← flag_of_reaches (hreaches n hn), Bool.not_eq_true]
  refine ⟨hoff, fun n hn hflag => ?_, fun n hn => ?_⟩
  · obtain ⟨xs, h⟩ := reaches_shape (hreaches n hn)
    have hcritical := (hoff n hn).mp hflag
    exact ⟨h.statement_ok hcritical, fun l t => h.statement_of_masked hcritical⟩
  · obtain ⟨xs, h⟩ := reaches_shape (hreaches n (by omega))
    refine hrun.within (fun s => s.queue.masterInterrupts = true) System.untilEnable ?_ ?_
      h.untilEnable_le hn
    · exact fun k hk hzero => (flag_of_reaches (hreaches k hk)).mpr hzero
    · intro k hk l hstep
      obtain ⟨ys, hk'⟩ := reaches_shape (hreaches k hk.le)
      exact (hk'.masking hstep).falls

/-- A `Post` that finds a message in the list. -/
def longestPost : List Label :=
  [Label.interrupt ⟨4, none, .mq⟩ true, Label.beginPost ⟨3, none, .caller⟩] ++
    List.replicate 6 (Label.statement true)

/-- Five statements are needed. -/
theorem interrupts_bounded_longestPost :
    let run : ℕ → System := fun n => after System.step (.constructed true) (longestPost.take n)
    (∀ i < 5, (run (3 + i)).queue.masterInterrupts = false) ∧
      ∃ i ≤ 5, (run (3 + i)).queue.masterInterrupts = true := by
  intro run
  have hrun : IsRun System.step (fun _ _ => True) run longestPost.length :=
    isRun_of_execute (t := run longestPost.length) (fun _ _ _ => trivial) rfl
  exact ⟨by decide, (interrupts_bounded rfl hrun).2.2 3 (by decide)⟩

end EmbeddedKernel.Mq.Interleaving
