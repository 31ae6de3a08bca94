import EmbeddedKernel.Library.Run

/-!
# Forward simulation between machines

A concrete machine is simulated by an abstract one when every step it takes is
matched by some steps of the abstract machine, possibly none, and every fault it
runs into is a fault of the abstract machine in the matching state.
-/

namespace EmbeddedKernel.Library

variable {σ τ ι κ ε : Type*}

/-- `R` relates the states of the concrete machine to those of the abstract one. -/
structure Simulation (step : σ → ι → Except ε σ) (step' : τ → κ → Except ε τ) (fault : ε → Prop)
    (R : σ → τ → Prop) : Prop where
  matched : ∀ s l t a, R s a → step s l = .ok t →
    ∃ b, Reaches step' (fun _ _ => True) a b ∧ R t b
  faulty : ∀ s l e a, R s a → step s l = .error e → fault e → ∃ l', step' a l' = .error e

variable {step : σ → ι → Except ε σ} {step' : τ → κ → Except ε τ} {fault : ε → Prop}
  {R : σ → τ → Prop} {good : σ → ι → Prop} {s₀ s : σ} {a₀ : τ}

/-- Every run of the concrete machine is matched by a run of the abstract one. -/
theorem Simulation.reaches (h : Simulation step step' fault R) (hstart : R s₀ a₀)
    (hs : Reaches step good s₀ s) : ∃ a, Reaches step' (fun _ _ => True) a₀ a ∧ R s a := by
  induction hs with
  | start => exact ⟨a₀, .start, hstart⟩
  | next _ _ hstep ih =>
      obtain ⟨a, ha, hR⟩ := ih
      obtain ⟨b, hb, hR'⟩ := h.matched _ _ _ a hR hstep
      exact ⟨b, ha.trans hb, hR'⟩

/-- A step that is matched by one step of the abstract machine. -/
theorem Reaches.single {l : κ} {a b : τ} (h : step' a l = .ok b) :
    Reaches step' (fun _ _ => True) a b :=
  Reaches.start.next trivial h

/-- If every step of the concrete machine that satisfies `good` is matched by one step of the
abstract machine that satisfies `good'`, then so is every run. -/
theorem Reaches.matched {good' : τ → κ → Prop}
    (hmatch : ∀ s l t a, R s a → good s l → step s l = .ok t →
      ∃ l' b, good' a l' ∧ step' a l' = .ok b ∧ R t b)
    (hstart : R s₀ a₀) (hs : Reaches step good s₀ s) :
    ∃ a, Reaches step' good' a₀ a ∧ R s a := by
  induction hs with
  | start => exact ⟨a₀, .start, hstart⟩
  | next _ hgood hstep ih =>
      obtain ⟨a, ha, hR⟩ := ih
      obtain ⟨l', b, hgood', hb, hR'⟩ := hmatch _ _ _ a hR hgood hstep
      exact ⟨b, ha.next hgood' hb, hR'⟩

end EmbeddedKernel.Library
