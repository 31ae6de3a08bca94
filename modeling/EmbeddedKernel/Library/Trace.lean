import Mathlib.Data.List.Basic
import Mathlib.Data.List.Induction

/-!
# Statements about every entry of a trace

`Everywhere P xs` says that each entry of `xs` satisfies `P` together with the
entries before it.  Extending a trace asks for the new entries only.
-/

namespace EmbeddedKernel.Library

variable {α : Type*} {P : List α → α → Prop} {xs ys : List α} {a : α}

def Everywhere (P : List α → α → Prop) (xs : List α) : Prop :=
  ∀ before a after, xs = before ++ a :: after → P before a

theorem everywhere_nil : Everywhere P [] := by
  intro before a after h
  simp at h

theorem Everywhere.concat (h : Everywhere P xs) (ha : P xs a) : Everywhere P (xs ++ [a]) := by
  intro before b after heq
  rcases List.eq_nil_or_concat' after with rfl | ⟨after, c, rfl⟩
  · obtain ⟨rfl, hab⟩ := List.append_inj' heq rfl
    cases hab
    exact ha
  · have hsplit : xs ++ [a] = (before ++ b :: after) ++ [c] := by simp [heq]
    exact h before b after (List.append_inj' hsplit rfl).1

theorem Everywhere.append_of_forall (h : Everywhere P xs) (hys : ∀ a ∈ ys, ∀ before, P before a) :
    Everywhere P (xs ++ ys) := by
  induction ys using List.reverseRecOn with
  | nil => simpa using h
  | append_singleton ys a ih =>
      rw [← List.append_assoc]
      exact (ih fun b hb => hys b (by simp [hb])).concat (hys a (by simp) _)

end EmbeddedKernel.Library
