import Mathlib

/-!
# Object heaps with allocation identities

A heap is the list of the objects allocated so far.  A pointer is the position
of its object, so that `new` always hands out a fresh identity, and deleting an
object leaves an empty cell behind.  A stale pointer therefore never becomes
valid again, and reading one is visible as `get p = none`.
-/

namespace EmbeddedKernel.Library

/-- A pointer, `none` being the null pointer. -/
abbrev Ptr := Option ℕ

structure Heap (α : Type*) where
  cells : List (Option α)
  deriving DecidableEq

namespace Heap

variable {α : Type*}

def empty : Heap α := ⟨[]⟩

def size (h : Heap α) : ℕ := h.cells.length

/-- The live object at `p`. -/
def get (h : Heap α) (p : ℕ) : Option α := h.cells[p]?.join

/-- Allocation. The new object lives at `h.size`. -/
def new (h : Heap α) (a : α) : Heap α := ⟨h.cells ++ [some a]⟩

/-- Assignment through a pointer to a live object. -/
def modify (h : Heap α) (p : ℕ) (f : α → α) : Heap α :=
  ⟨h.cells.modify p (Option.map f)⟩

def delete (h : Heap α) (p : ℕ) : Heap α := ⟨h.cells.set p none⟩

/-- The object at `p` has been allocated and deleted. -/
def Freed (h : Heap α) (p : ℕ) : Prop := p < h.size ∧ h.get p = none

instance (h : Heap α) (p : ℕ) : Decidable (h.Freed p) :=
  inferInstanceAs (Decidable (_ ∧ h.get p = none))

@[simp] theorem get_empty (p : ℕ) : (empty : Heap α).get p = none := by
  simp [empty, get]

@[simp] theorem size_empty : (empty : Heap α).size = 0 := rfl

@[simp] theorem size_new (h : Heap α) (a : α) : (h.new a).size = h.size + 1 := by
  simp [size, new]

@[simp] theorem size_modify (h : Heap α) (p : ℕ) (f : α → α) :
    (h.modify p f).size = h.size := by
  simp [size, modify]

@[simp] theorem size_delete (h : Heap α) (p : ℕ) : (h.delete p).size = h.size := by
  simp [size, delete]

theorem lt_size_of_get {h : Heap α} {p : ℕ} {a : α} (hp : h.get p = some a) :
    p < h.size := by
  by_contra hge
  have hnone : h.cells[p]? = none := List.getElem?_eq_none (not_lt.mp hge)
  simp [get, hnone] at hp

theorem get_size (h : Heap α) : h.get h.size = none := by
  simp [get, size]

theorem get_new (h : Heap α) (a : α) (p : ℕ) :
    (h.new a).get p = if p = h.size then some a else h.get p := by
  rcases lt_trichotomy p h.size with hlt | rfl | hgt
  · have hne : p ≠ h.size := hlt.ne
    simp only [get, new, if_neg hne]
    rw [List.getElem?_append_left hlt]
  · simp [get, new, size]
  · have hne : p ≠ h.size := hgt.ne'
    have hlen : h.cells.length < p := hgt
    rw [if_neg hne]
    simp only [get, new]
    rw [List.getElem?_eq_none (by simp; omega), List.getElem?_eq_none (by omega)]

@[simp] theorem get_new_size (h : Heap α) (a : α) : (h.new a).get h.size = some a := by
  simp [get_new]

theorem get_new_of_get {h : Heap α} {p : ℕ} {b : α} (a : α) (hp : h.get p = some b) :
    (h.new a).get p = some b := by
  rw [get_new, if_neg (lt_size_of_get hp).ne, hp]

theorem get_modify (h : Heap α) (p q : ℕ) (f : α → α) :
    (h.modify p f).get q = if q = p then (h.get q).map f else h.get q := by
  by_cases hqp : q = p
  · subst hqp
    cases hc : h.cells[q]? <;> simp [get, modify, hc]
  · have hpq : p ≠ q := fun h => hqp h.symm
    simp [get, modify, hqp, hpq]

@[simp] theorem get_modify_self (h : Heap α) (p : ℕ) (f : α → α) :
    (h.modify p f).get p = (h.get p).map f := by
  simp [get_modify]

theorem get_modify_of_ne (h : Heap α) {p q : ℕ} (f : α → α) (hne : q ≠ p) :
    (h.modify p f).get q = h.get q := by
  simp [get_modify, hne]

theorem get_delete (h : Heap α) (p q : ℕ) :
    (h.delete p).get q = if q = p then none else h.get q := by
  by_cases hqp : q = p
  · subst hqp
    by_cases hlt : q < h.cells.length <;> simp [get, delete, hlt]
  · have hpq : p ≠ q := fun h => hqp h.symm
    simp [get, delete, hqp, hpq]

@[simp] theorem get_delete_self (h : Heap α) (p : ℕ) : (h.delete p).get p = none := by
  simp [get_delete]

theorem get_delete_of_ne (h : Heap α) {p q : ℕ} (hne : q ≠ p) :
    (h.delete p).get q = h.get q := by
  simp [get_delete, hne]

end Heap

end EmbeddedKernel.Library
