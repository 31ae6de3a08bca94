import Mathlib.Data.List.Nodup

/-!
# Sets listed in order of insertion

A finite set together with the order in which its elements were put in, the last
one first.  Putting in an element that is there already changes nothing, and taking
one out leaves the order of the others as it is.
-/

namespace EmbeddedKernel.Library

structure OrderedSet (α : Type*) where
  toList : List α
  nodup : toList.Nodup

namespace OrderedSet

variable {α : Type*}

instance : Membership α (OrderedSet α) := ⟨fun s a => a ∈ s.toList⟩

def empty : OrderedSet α := ⟨[], List.nodup_nil⟩

variable [DecidableEq α]

instance (s : OrderedSet α) (a : α) : Decidable (a ∈ s) :=
  inferInstanceAs (Decidable (a ∈ s.toList))

def insert (s : OrderedSet α) (a : α) : OrderedSet α :=
  ⟨s.toList.insert a, s.nodup.insert⟩

def erase (s : OrderedSet α) (a : α) : OrderedSet α :=
  ⟨s.toList.erase a, s.nodup.erase a⟩

theorem toList_insert_of_notMem {s : OrderedSet α} {a : α} (h : a ∉ s) :
    (s.insert a).toList = a :: s.toList :=
  List.insert_of_not_mem h

theorem toList_erase (s : OrderedSet α) (a : α) :
    (s.erase a).toList = s.toList.filter (· ≠ a) := by
  change s.toList.erase a = _
  rw [s.nodup.erase_eq_filter]
  apply List.filter_congr
  intro x _
  by_cases hx : x = a <;> simp [hx]

theorem erase_of_notMem {s : OrderedSet α} {a : α} (h : a ∉ s) : s.erase a = s := by
  cases s
  simp only [erase, mk.injEq]
  exact List.erase_of_not_mem h

theorem erase_erase (s : OrderedSet α) (a : α) : (s.erase a).erase a = s.erase a :=
  erase_of_notMem s.nodup.not_mem_erase

end OrderedSet

end EmbeddedKernel.Library
