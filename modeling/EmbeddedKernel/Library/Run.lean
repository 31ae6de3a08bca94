import EmbeddedKernel.Library.Heap

/-!
# Runs of a labelled machine

A machine is a step function that takes a label, for the choice made by the
environment, and either moves on or stops.  `Reaches` collects the states met
by runs whose steps all satisfy a condition; invariants of such runs need one
lemma about a single step.
-/

namespace EmbeddedKernel.Library

universe u

/-- Why a machine does not take a step: the label does not apply in this state,
or the code would index an array out of its bounds, follow the null pointer or a
pointer to a deleted object, overrun a buffer, or walk for ever. -/
inductive Stop
  | notEnabled
  | badIndex (i : ℤ)
  | nullPointer
  | freed (p : ℕ)
  | overrun
  | endless
  deriving DecidableEq

/-- Reading the object a pointer points to. -/
def Heap.deref {α : Type*} (h : Heap α) : Ptr → Except Stop α
  | none => .error .nullPointer
  | some p =>
      match h.get p with
      | none => .error (.freed p)
      | some a => .ok a

theorem Heap.deref_some {α : Type*} {h : Heap α} {p : ℕ} {a : α} (hp : h.get p = some a) :
    h.deref (some p) = .ok a := by
  simp [Heap.deref, hp]

theorem Heap.deref_eq_ok {α : Type*} {h : Heap α} {p : Ptr} {a : α} :
    h.deref p = .ok a ↔ ∃ x, p = some x ∧ h.get x = some a := by
  cases p with
  | none => simp [Heap.deref]
  | some x => cases hx : h.get x <;> simp [Heap.deref, hx]

theorem Heap.get_of_deref {α : Type*} {h : Heap α} {p : ℕ} {a : α}
    (hp : h.deref (some p) = .ok a) : h.get p = some a := by
  obtain ⟨x, hx, hget⟩ := Heap.deref_eq_ok.mp hp
  cases hx
  exact hget

theorem bind_eq_ok {ε : Type*} {α β : Type u} {x : Except ε α} {f : α → Except ε β} {b : β} :
    (x >>= f) = .ok b ↔ ∃ a, x = .ok a ∧ f a = .ok b := by
  cases x with
  | error e => simp [bind, Except.bind]
  | ok a => simp [bind, Except.bind]

@[simp] theorem ok_bind {ε : Type*} {α β : Type u} (a : α) (f : α → Except ε β) :
    ((.ok a : Except ε α) >>= f) = f a := rfl

/-- An error that the rest of a computation cannot raise comes from its first part. -/
theorem bind_eq_error_of_ok {ε : Type*} {α β : Type u} {x : Except ε α} {f : α → Except ε β}
    {e : ε} (h : (x >>= f) = .error e) (hf : ∀ a, ∃ b, f a = .ok b) : x = .error e := by
  cases x with
  | error e' => simpa [bind, Except.bind] using h
  | ok a =>
      obtain ⟨b, hb⟩ := hf a
      rw [ok_bind, hb] at h
      cases h

variable {σ ι ε : Type*}

/-- The states reached from `s₀` by steps that all satisfy `good`. -/
inductive Reaches (step : σ → ι → Except ε σ) (good : σ → ι → Prop) (s₀ : σ) : σ → Prop
  | start : Reaches step good s₀ s₀
  | next {s t : σ} {l : ι} (hs : Reaches step good s₀ s) (hgood : good s l)
      (hstep : step s l = .ok t) : Reaches step good s₀ t

variable {step : σ → ι → Except ε σ} {good good' : σ → ι → Prop} {s₀ s t : σ}

theorem Reaches.invariant (Inv : σ → Prop) (hinit : Inv s₀)
    (hstep : ∀ s l t, Inv s → good s l → step s l = .ok t → Inv t)
    (hs : Reaches step good s₀ s) : Inv s := by
  induction hs with
  | start => exact hinit
  | next _ hgood hst ih => exact hstep _ _ _ ih hgood hst

theorem Reaches.trans {u : σ} (hs : Reaches step good s₀ s) (hu : Reaches step good s u) :
    Reaches step good s₀ u := by
  induction hu with
  | start => exact hs
  | next _ hgood hst ih => exact .next ih hgood hst

/-- A run with its first step taken off. -/
theorem Reaches.head {l : ι} (hgood : good s₀ l) (hstep : step s₀ l = .ok s)
    (ht : Reaches step good s t) : Reaches step good s₀ t :=
  (Reaches.start.next hgood hstep).trans ht

theorem Reaches.mono (hs : Reaches step good s₀ s)
    (hsub : ∀ s l, good s l → good' s l) : Reaches step good' s₀ s := by
  induction hs with
  | start => exact .start
  | next _ hgood hst ih => exact .next ih (hsub _ _ hgood) hst

/-- The labels `ls` lead from one state to the other by steps that all satisfy `good`. -/
inductive Path (step : σ → ι → Except ε σ) (good : σ → ι → Prop) : σ → List ι → σ → Prop
  | nil {s : σ} : Path step good s [] s
  | cons {s t u : σ} {l : ι} {ls : List ι} (hgood : good s l) (hstep : step s l = .ok t)
      (hrest : Path step good t ls u) : Path step good s (l :: ls) u

theorem Path.reaches {ls : List ι} (h : Path step good s ls t) : Reaches step good s t := by
  induction h with
  | nil => exact .start
  | cons hgood hstep _ ih => exact .head hgood hstep ih

/-- If the labels marked by `p` lower a measure and the others do not raise it, then it
bounds how often marked labels occur. -/
theorem Path.countP_le {ls : List ι} (h : Path step good s ls t) (Inv : σ → Prop)
    (rank : σ → ℕ) (p : ι → Bool)
    (hstep : ∀ s l t, Inv s → good s l → step s l = .ok t →
      Inv t ∧ rank t + (if p l then 1 else 0) ≤ rank s) (hs : Inv s) :
    ls.countP p + rank t ≤ rank s := by
  induction h with
  | nil => simp
  | @cons s t u l ls hgood hst _ ih =>
      obtain ⟨ht, hrank⟩ := hstep s l t hs hgood hst
      have hrest := ih ht
      rw [List.countP_cons]
      omega

/-- Execute a list of labels. -/
def execute (step : σ → ι → Except ε σ) : σ → List ι → Except ε σ
  | s, [] => .ok s
  | s, l :: ls => step s l >>= fun t => execute step t ls

/-- The state after a list of labels that are all executed. -/
def after (step : σ → ι → Except ε σ) (s : σ) (ls : List ι) : σ :=
  match execute step s ls with
  | .ok t => t
  | .error _ => s

theorem execute_after {ls : List ι} (h : (execute step s ls).isOk = true) :
    execute step s ls = .ok (after step s ls) := by
  unfold after
  cases hrun : execute step s ls with
  | ok t => rfl
  | error e => simp [hrun, Except.isOk, Except.toBool] at h

theorem path_of_execute {ls : List ι} (hgood : ∀ u, ∀ l ∈ ls, good u l)
    (h : execute step s ls = .ok t) : Path step good s ls t := by
  induction ls generalizing s with
  | nil =>
      cases h
      exact .nil
  | cons l ls ih =>
      obtain ⟨u, hu, hrest⟩ := bind_eq_ok.mp h
      refine .cons (hgood s l (by simp)) hu (ih (fun v k hk => ?_) hrest)
      exact hgood v k (List.mem_cons_of_mem l hk)

theorem Reaches.execute {ls : List ι} (hs : Reaches step good s₀ s)
    (hgood : ∀ u, ∀ l ∈ ls, good u l) (h : execute step s ls = .ok t) :
    Reaches step good s₀ t := by
  induction ls generalizing s with
  | nil =>
      cases h
      exact hs
  | cons l ls ih =>
      obtain ⟨u, hu, hrest⟩ := bind_eq_ok.mp h
      refine ih (hs.next (hgood s l (by simp)) hu) (fun v k hk => ?_) hrest
      exact hgood v k (List.mem_cons_of_mem l hk)

theorem reaches_of_execute {ls : List ι} (h : execute step s₀ ls = .ok t) :
    Reaches step (fun _ _ => True) s₀ t :=
  Reaches.start.execute (fun _ _ _ => trivial) h

/-- A list of labels that stops gives a reachable state in which the step is not taken. -/
theorem exists_reaches_of_execute_error {ls : List ι} {e : ε}
    (h : execute step s₀ ls = .error e) :
    ∃ s l, Reaches step (fun _ _ => True) s₀ s ∧ step s l = .error e := by
  suffices hgen : ∀ s, Reaches step (fun _ _ => True) s₀ s → execute step s ls = .error e →
      ∃ s l, Reaches step (fun _ _ => True) s₀ s ∧ step s l = .error e from
    hgen s₀ .start h
  clear h
  induction ls with
  | nil =>
      intro s _ h
      cases h
  | cons l ls ih =>
      intro s hs h
      cases hstep : step s l with
      | error e' =>
          refine ⟨s, l, hs, ?_⟩
          simpa [execute, hstep, bind, Except.bind] using h
      | ok u =>
          apply ih u (hs.next trivial hstep)
          simpa [execute, hstep] using h

/-! ## Calls with results -/

section Calls

variable {σ α : Type u} {ι ε : Type*}

/-- Make a list of calls and collect their results. -/
def callAll (call : σ → ι → Except ε (σ × α)) : σ → List ι → Except ε (σ × List α)
  | s, [] => .ok (s, [])
  | s, l :: ls => do
      let (s, a) ← call s l
      let (s, as) ← callAll call s ls
      .ok (s, a :: as)

theorem callAll_cons {call : σ → ι → Except ε (σ × α)} {s t u : σ} {l : ι} {ls : List ι} {a : α}
    {as : List α} (hl : call s l = .ok (t, a)) (hls : callAll call t ls = .ok (u, as)) :
    callAll call s (l :: ls) = .ok (u, a :: as) := by
  simp only [callAll, hl, ok_bind, hls]

theorem callAll_concat {call : σ → ι → Except ε (σ × α)} {s t u : σ} {l : ι} {ls : List ι} {a : α}
    {as : List α} (hls : callAll call s ls = .ok (t, as)) (hl : call t l = .ok (u, a)) :
    callAll call s (ls ++ [l]) = .ok (u, as ++ [a]) := by
  induction ls generalizing s as with
  | nil =>
      cases hls
      exact callAll_cons hl rfl
  | cons k ls ih =>
      obtain ⟨⟨s₁, b⟩, hk, hrest⟩ := bind_eq_ok.mp hls
      obtain ⟨⟨t', bs⟩, hbs, heq⟩ := bind_eq_ok.mp hrest
      cases heq
      exact callAll_cons hk (ih hbs)

/-- The results of a list of calls to something that cannot fail. -/
def answerAll {τ : Type*} (answer : τ → ι → τ × α) : τ → List ι → τ × List α
  | t, [] => (t, [])
  | t, l :: ls =>
      let next := answerAll answer (answer t l).1 ls
      (next.1, (answer t l).2 :: next.2)

/-- If every allowed call gives the result of the specification and keeps the two states
related, then so does every list of allowed calls. -/
theorem callAll_refines {τ : Type*} {call : σ → ι → Except ε (σ × α)} {answer : τ → ι → τ × α}
    {allowed : ι → Prop} (R : σ → τ → Prop)
    (hcall : ∀ s t l, R s t → allowed l →
      ∃ s', call s l = .ok (s', (answer t l).2) ∧ R s' (answer t l).1)
    {s : σ} {t : τ} {ls : List ι} (hR : R s t) (hls : ∀ l ∈ ls, allowed l) :
    ∃ s', callAll call s ls = .ok (s', (answerAll answer t ls).2) ∧
      R s' (answerAll answer t ls).1 := by
  induction ls generalizing s t with
  | nil => exact ⟨s, rfl, hR⟩
  | cons l ls ih =>
      obtain ⟨s₁, hl, hR₁⟩ := hcall s t l hR (hls l (by simp))
      obtain ⟨s', hrest, hR'⟩ := ih hR₁ fun k hk => hls k (List.mem_cons_of_mem l hk)
      exact ⟨s', callAll_cons hl hrest, hR'⟩

/-- Every call of the list satisfies `P` in the state in which it is made. -/
def Throughout {τ : Type*} (next : τ → ι → τ) (P : τ → ι → Prop) : τ → List ι → Prop
  | _, [] => True
  | t, l :: ls => P t l ∧ Throughout next P (next t l) ls

/-- Conditions that agree in the states of an invariant agree for every list of calls, if
calls that meet them keep the invariant. -/
theorem throughout_iff {τ : Type*} {next : τ → ι → τ} {P Q : τ → ι → Prop} (Inv : τ → Prop)
    (hiff : ∀ t l, Inv t → (P t l ↔ Q t l)) (hkeep : ∀ t l, Inv t → P t l → Inv (next t l))
    {t : τ} {ls : List ι} (ht : Inv t) : Throughout next P t ls ↔ Throughout next Q t ls := by
  induction ls generalizing t with
  | nil => exact Iff.rfl
  | cons l ls ih =>
      constructor
      · rintro ⟨hl, hls⟩
        exact ⟨(hiff t l ht).mp hl, (ih (hkeep t l ht hl)).mp hls⟩
      · rintro ⟨hl, hls⟩
        have hP := (hiff t l ht).mpr hl
        exact ⟨hP, (ih (hkeep t l ht hP)).mpr hls⟩

end Calls

end EmbeddedKernel.Library
