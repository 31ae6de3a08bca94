import EmbeddedKernel.Library.Run

/-!
# Components without common state

Two computations correspond when they end in the same way with related results.  If every
call to a joint system corresponds to a call to one of its two components, and leaves the
other one as it is, then in every sequence of calls each component does what it does alone.
-/

namespace EmbeddedKernel.Library

universe u

section Outcome

variable {ε : Type*} {α β γ δ : Type u} {Q : α → β → Prop} {Q' : γ → δ → Prop}

/-- Both computations end with related results, or with the same error. -/
inductive Outcome (Q : α → β → Prop) : Except ε α → Except ε β → Prop
  | ok {a : α} {b : β} (h : Q a b) : Outcome Q (.ok a) (.ok b)
  | error (e : ε) : Outcome Q (.error e) (.error e)

theorem Outcome.bind {x : Except ε α} {y : Except ε β} {f : α → Except ε γ} {g : β → Except ε δ}
    (h : Outcome Q x y) (hnext : ∀ a b, Q a b → Outcome Q' (f a) (g b)) :
    Outcome Q' (x >>= f) (y >>= g) := by
  cases h with
  | ok hQ => exact hnext _ _ hQ
  | error e => exact .error e

theorem Outcome.exists_left {x : Except ε α} {b : β} (h : Outcome Q x (.ok b)) :
    ∃ a, x = .ok a ∧ Q a b := by
  cases h with
  | ok hQ => exact ⟨_, rfl, hQ⟩

theorem Outcome.exists_right {a : α} {y : Except ε β} (h : Outcome Q (.ok a) y) :
    ∃ b, y = .ok b ∧ Q a b := by
  cases h with
  | ok hQ => exact ⟨_, rfl, hQ⟩

end Outcome

section Independent

variable {σ τ α β : Type u} {ι κ ε : Type*}

/-- The calls of each side, made to the joint system in states in which both are at rest, are
the calls to the component alone. -/
structure Independent (joint : σ × τ → ι ⊕ κ → Except ε ((σ × τ) × (α ⊕ β)))
    (left : σ → ι → Except ε (σ × α)) (right : τ → κ → Except ε (τ × β)) (restLeft : σ → Prop)
    (restRight : τ → Prop) : Prop where
  left_call : ∀ s t l, restLeft s → restRight t →
    Outcome (fun x r => x = ((r.1, t), .inl r.2) ∧ restLeft r.1) (joint (s, t) (.inl l)) (left s l)
  right_call : ∀ s t l, restLeft s → restRight t →
    Outcome (fun x r => x = ((s, r.1), .inr r.2) ∧ restRight r.1) (joint (s, t) (.inr l))
      (right t l)

namespace Independent

variable {joint : σ × τ → ι ⊕ κ → Except ε ((σ × τ) × (α ⊕ β))}
  {left : σ → ι → Except ε (σ × α)} {right : τ → κ → Except ε (τ × β)} {restLeft : σ → Prop}
  {restRight : τ → Prop} {s s' : σ} {t t' : τ} {calls : List (ι ⊕ κ)}

/-- What the joint system does in a sequence of calls is what its components do in their own
calls. -/
theorem of_joint (h : Independent joint left right restLeft restRight) (hs : restLeft s)
    (ht : restRight t) {results : List (α ⊕ β)}
    (hrun : callAll joint (s, t) calls = .ok ((s', t'), results)) :
    callAll left s (calls.filterMap Sum.getLeft?) = .ok (s', results.filterMap Sum.getLeft?) ∧
      callAll right t (calls.filterMap Sum.getRight?) =
        .ok (t', results.filterMap Sum.getRight?) ∧
      results.map Sum.isLeft = calls.map Sum.isLeft := by
  induction calls generalizing s t results with
  | nil =>
      cases hrun
      exact ⟨rfl, rfl, rfl⟩
  | cons call calls ih =>
      obtain ⟨⟨x, a⟩, hcall, htail⟩ := bind_eq_ok.mp hrun
      obtain ⟨⟨y, as⟩, hcalls, heq⟩ := bind_eq_ok.mp htail
      cases heq
      cases call with
      | inl l =>
          obtain ⟨r, hr, hx, hrest⟩ := (hcall ▸ h.left_call s t l hs ht).exists_right
          cases hx
          obtain ⟨hleft, hright, hsides⟩ := ih hrest ht hcalls
          refine ⟨callAll_cons hr hleft, hright, ?_⟩
          rw [List.map_cons, List.map_cons, hsides]
          rfl
      | inr l =>
          obtain ⟨r, hr, hx, hrest⟩ := (hcall ▸ h.right_call s t l hs ht).exists_right
          cases hx
          obtain ⟨hleft, hright, hsides⟩ := ih hs hrest hcalls
          refine ⟨hleft, callAll_cons hr hright, ?_⟩
          rw [List.map_cons, List.map_cons, hsides]
          rfl

/-- If both components get through their own calls, the joint system gets through all. -/
theorem to_joint (h : Independent joint left right restLeft restRight) (hs : restLeft s)
    (ht : restRight t) {as : List α} {bs : List β}
    (hleft : callAll left s (calls.filterMap Sum.getLeft?) = .ok (s', as))
    (hright : callAll right t (calls.filterMap Sum.getRight?) = .ok (t', bs)) :
    ∃ results, callAll joint (s, t) calls = .ok ((s', t'), results) := by
  induction calls generalizing s t as bs with
  | nil =>
      cases hleft
      cases hright
      exact ⟨[], rfl⟩
  | cons call calls ih =>
      cases call with
      | inl l =>
          obtain ⟨⟨s₁, a⟩, hl, htail⟩ := bind_eq_ok.mp hleft
          obtain ⟨⟨s₂, as'⟩, hls, heq⟩ := bind_eq_ok.mp htail
          cases heq
          obtain ⟨x, hx, rfl, hrest⟩ := (hl ▸ h.left_call s t l hs ht).exists_left
          obtain ⟨results, hresults⟩ := ih hrest ht hls hright
          exact ⟨_, callAll_cons hx hresults⟩
      | inr l =>
          obtain ⟨⟨t₁, b⟩, hl, htail⟩ := bind_eq_ok.mp hright
          obtain ⟨⟨t₂, bs'⟩, hls, heq⟩ := bind_eq_ok.mp htail
          cases heq
          obtain ⟨x, hx, rfl, hrest⟩ := (hl ▸ h.right_call s t l hs ht).exists_left
          obtain ⟨results, hresults⟩ := ih hs hrest hleft hls
          exact ⟨_, callAll_cons hx hresults⟩

end Independent

end Independent

end EmbeddedKernel.Library
