import EmbeddedKernel.Library.Heap

/-!
# Singly linked chains in a heap

`Segment` follows the next pointers from one pointer to another and records the
nodes on the way; a `Chain` is a segment that ends at the null pointer.  The
nodes of a chain are determined by its head and are pairwise distinct, so the
bounded walk `follow` computes them.  The remaining lemmas say what a chain
becomes when a node is pushed, appended or unlinked, and when the heap changes
elsewhere.
-/

namespace EmbeddedKernel.Library

variable {α : Type*} (nxt : α → Ptr)

/-- The nodes `xs` lead from `p` to `q`. -/
def Segment (h : Heap α) : Ptr → List ℕ → Ptr → Prop
  | p, [], q => p = q
  | p, x :: xs, q => p = some x ∧ ∃ a, h.get x = some a ∧ Segment h (nxt a) xs q

/-- The nodes `xs` lead from `p` to the null pointer. -/
def Chain (h : Heap α) (p : Ptr) (xs : List ℕ) : Prop := Segment nxt h p xs none

/-- At most `n` nodes met on the way from a pointer. -/
def follow (h : Heap α) : ℕ → Ptr → List ℕ
  | 0, _ => []
  | _ + 1, none => []
  | n + 1, some x =>
      match h.get x with
      | none => []
      | some a => x :: follow h n (nxt a)

/-- `x` is met on the way from `p`. -/
def ReachableFrom (h : Heap α) (p : Ptr) (x : ℕ) : Prop :=
  ∃ xs, Segment nxt h p xs (some x) ∧ ∃ a, h.get x = some a

variable {nxt} {h h' : Heap α} {p q r : Ptr} {x : ℕ} {xs ys : List ℕ}

@[simp] theorem segment_nil : Segment nxt h p [] q ↔ p = q := Iff.rfl

@[simp] theorem segment_cons :
    Segment nxt h p (x :: xs) q ↔
      p = some x ∧ ∃ a, h.get x = some a ∧ Segment nxt h (nxt a) xs q := Iff.rfl

@[simp] theorem chain_nil : Chain nxt h p [] ↔ p = none := Iff.rfl

@[simp] theorem chain_cons :
    Chain nxt h p (x :: xs) ↔
      p = some x ∧ ∃ a, h.get x = some a ∧ Chain nxt h (nxt a) xs := Iff.rfl

theorem segment_append :
    Segment nxt h p (xs ++ ys) q ↔
      ∃ m, Segment nxt h p xs m ∧ Segment nxt h m ys q := by
  induction xs generalizing p with
  | nil => simp
  | cons x xs ih =>
      simp only [List.cons_append, segment_cons, ih]
      constructor
      · rintro ⟨hp, a, ha, m, hxs, hys⟩
        exact ⟨m, ⟨hp, a, ha, hxs⟩, hys⟩
      · rintro ⟨m, ⟨hp, a, ha, hxs⟩, hys⟩
        exact ⟨hp, a, ha, m, hxs, hys⟩

theorem chain_append :
    Chain nxt h p (xs ++ ys) ↔ ∃ m, Segment nxt h p xs m ∧ Chain nxt h m ys :=
  segment_append

/-- A segment only depends on the next pointers of its own nodes. -/
theorem Segment.congr (hseg : Segment nxt h p xs q)
    (hsame : ∀ x ∈ xs, (h'.get x).map nxt = (h.get x).map nxt) :
    Segment nxt h' p xs q := by
  induction xs generalizing p with
  | nil => exact hseg
  | cons x xs ih =>
      obtain ⟨hp, a, ha, htail⟩ := hseg
      have hx := hsame x (by simp)
      rw [ha, Option.map_some, Option.map_eq_some_iff] at hx
      obtain ⟨b, hb, hab⟩ := hx
      refine ⟨hp, b, hb, ?_⟩
      rw [hab]
      exact ih htail fun y hy => hsame y (List.mem_cons_of_mem x hy)

theorem Chain.congr (hchain : Chain nxt h p xs)
    (hsame : ∀ x ∈ xs, (h'.get x).map nxt = (h.get x).map nxt) :
    Chain nxt h' p xs :=
  Segment.congr hchain hsame

theorem Segment.get_of_mem (hseg : Segment nxt h p xs q) (hx : x ∈ xs) :
    ∃ a, h.get x = some a := by
  induction xs generalizing p with
  | nil => simp at hx
  | cons y ys ih =>
      obtain ⟨-, a, ha, htail⟩ := hseg
      rcases List.mem_cons.mp hx with rfl | hx
      · exact ⟨a, ha⟩
      · exact ih htail hx

theorem Chain.get_of_mem (hchain : Chain nxt h p xs) (hx : x ∈ xs) :
    ∃ a, h.get x = some a :=
  Segment.get_of_mem hchain hx

theorem Chain.head_mem (hchain : Chain nxt h (some x) xs) : x ∈ xs := by
  cases xs with
  | nil => simp at hchain
  | cons y ys =>
      cases hchain.1
      exact List.mem_cons_self

theorem Chain.head?_eq (hchain : Chain nxt h p xs) : p = xs.head? := by
  cases xs with
  | nil => exact hchain
  | cons x xs => exact hchain.1

/-- The next pointer of a node of a chain leads to what follows it there. -/
theorem Chain.nxt_eq_head? {a : α} (hchain : Chain nxt h p (xs ++ x :: ys))
    (ha : h.get x = some a) : nxt a = ys.head? := by
  obtain ⟨m, -, -, b, hb, htail⟩ := chain_append.mp hchain
  rw [ha] at hb
  cases hb
  exact Chain.head?_eq htail

theorem Chain.nxt_mem {a : α} {y : ℕ} (hchain : Chain nxt h p xs) (hx : x ∈ xs)
    (ha : h.get x = some a) (hy : nxt a = some y) : y ∈ xs := by
  obtain ⟨as, bs, rfl⟩ := List.append_of_mem hx
  obtain ⟨m, -, -, b, hb, htail⟩ := chain_append.mp hchain
  rw [ha] at hb
  cases hb
  rw [hy] at htail
  exact List.mem_append_right as (List.mem_cons_of_mem x (Chain.head_mem htail))

theorem Chain.size_notMem (hchain : Chain nxt h p xs) : h.size ∉ xs := by
  intro hmem
  obtain ⟨a, ha⟩ := hchain.get_of_mem hmem
  rw [h.get_size] at ha
  cases ha

/-- The head pointer determines the chain. -/
theorem Chain.unique (hxs : Chain nxt h p xs) (hys : Chain nxt h p ys) : xs = ys := by
  induction xs generalizing p ys with
  | nil =>
      cases ys with
      | nil => rfl
      | cons y ys =>
          rw [chain_nil] at hxs
          simp [hxs] at hys
  | cons x xs ih =>
      obtain ⟨rfl, a, ha, hxs⟩ := chain_cons.mp hxs
      cases ys with
      | nil => simp at hys
      | cons y ys =>
          obtain ⟨hxy, b, hb, hys⟩ := chain_cons.mp hys
          cases hxy
          rw [ha] at hb
          cases hb
          rw [ih hxs hys]

/-- A chain does not meet a node twice, since the way onwards from a node is
determined by it. -/
theorem Chain.nodup (hchain : Chain nxt h p xs) : xs.Nodup := by
  induction xs generalizing p with
  | nil => exact List.nodup_nil
  | cons x xs ih =>
      have hall := hchain
      obtain ⟨rfl, a, ha, htail⟩ := chain_cons.mp hchain
      refine List.nodup_cons.mpr ⟨fun hx => ?_, ih htail⟩
      obtain ⟨as, bs, rfl⟩ := List.append_of_mem hx
      obtain ⟨m, -, hm⟩ := chain_append.mp htail
      have hm' := hm
      obtain ⟨rfl, -⟩ := chain_cons.mp hm'
      have heq := congrArg List.length (hm.unique hall)
      simp at heq
      omega

theorem Chain.length_le_size (hchain : Chain nxt h p xs) : xs.length ≤ h.size := by
  have hsub : xs ⊆ List.range h.size := by
    intro x hx
    obtain ⟨a, ha⟩ := hchain.get_of_mem hx
    exact List.mem_range.mpr (Heap.lt_size_of_get ha)
  simpa using (hchain.nodup.subperm hsub).length_le

theorem Chain.follow_eq (hchain : Chain nxt h p xs) {n : ℕ} (hn : xs.length ≤ n) :
    follow nxt h n p = xs := by
  induction n generalizing p xs with
  | zero =>
      have hnil : xs = [] := List.length_eq_zero_iff.mp (Nat.le_zero.mp hn)
      simp [hnil, follow]
  | succ n ih =>
      cases xs with
      | nil =>
          rw [chain_nil] at hchain
          simp [hchain, follow]
      | cons x xs =>
          obtain ⟨rfl, a, ha, htail⟩ := chain_cons.mp hchain
          simp only [follow, ha]
          rw [ih htail (by simpa using hn)]

/-! ## Updates -/

/-- Pushing a fresh node in front of a chain. -/
theorem Chain.push (hchain : Chain nxt h p xs) {a : α} (ha : nxt a = p) :
    Chain nxt (h.new a) (some h.size) (h.size :: xs) := by
  refine ⟨rfl, a, by simp, ?_⟩
  rw [ha]
  refine Chain.congr hchain fun x hx => ?_
  obtain ⟨b, hb⟩ := hchain.get_of_mem hx
  rw [Heap.get_new_of_get a hb, hb]

/-- Changing a node outside a chain leaves the chain as it is. -/
theorem Chain.modify_of_notMem (hchain : Chain nxt h p xs) {y : ℕ} (hy : y ∉ xs)
    (f : α → α) : Chain nxt (h.modify y f) p xs := by
  refine hchain.congr fun x hx => ?_
  rw [Heap.get_modify_of_ne]
  rintro rfl
  exact hy hx

theorem Chain.delete_of_notMem (hchain : Chain nxt h p xs) {y : ℕ} (hy : y ∉ xs) :
    Chain nxt (h.delete y) p xs := by
  refine hchain.congr fun x hx => ?_
  rw [Heap.get_delete_of_ne]
  rintro rfl
  exact hy hx

theorem Chain.new (hchain : Chain nxt h p xs) (a : α) : Chain nxt (h.new a) p xs := by
  refine hchain.congr fun x hx => ?_
  obtain ⟨b, hb⟩ := hchain.get_of_mem hx
  rw [Heap.get_new_of_get a hb, hb]

/-- Redirecting the last node of a segment. -/
theorem Segment.redirect (hseg : Segment nxt h p (xs ++ [x]) q) (hx : x ∉ xs)
    {f : α → α} (hf : ∀ a, nxt (f a) = r) :
    Segment nxt (h.modify x f) p (xs ++ [x]) r := by
  obtain ⟨m, hxs, hm, a, ha, -⟩ := segment_append.mp hseg
  refine segment_append.mpr ⟨m, ?_, hm, f a, by simp [ha], hf a⟩
  refine hxs.congr fun y hy => ?_
  rw [Heap.get_modify_of_ne]
  rintro rfl
  exact hx hy

/-- Appending a detached node behind the last node of a chain. -/
theorem Chain.snoc {y : ℕ} {b : α} (hchain : Chain nxt h p (xs ++ [x]))
    (hy : y ∉ xs ++ [x]) (hb : h.get y = some b) (hend : nxt b = none)
    {f : α → α} (hf : ∀ a, nxt (f a) = some y) :
    Chain nxt (h.modify x f) p (xs ++ [x] ++ [y]) := by
  have hx : x ∉ xs := by
    have hnodup := hchain.nodup
    rw [List.nodup_append_comm] at hnodup
    exact (List.nodup_cons.mp hnodup).1
  have hyx : y ≠ x := fun hyx => hy (by simp [hyx])
  refine chain_append.mpr ⟨some y, Segment.redirect hchain hx hf, ?_⟩
  refine ⟨rfl, b, ?_, hend⟩
  rw [Heap.get_modify_of_ne _ _ hyx, hb]

/-- Unlinking the head. -/
theorem Chain.unlink_head {a : α} (hchain : Chain nxt h p (x :: xs))
    (ha : h.get x = some a) : Chain nxt (h.delete x) (nxt a) xs := by
  have hnodup := hchain.nodup
  obtain ⟨-, b, hb, htail⟩ := chain_cons.mp hchain
  rw [ha] at hb
  cases hb
  exact htail.delete_of_notMem (List.nodup_cons.mp hnodup).1

/-- Unlinking a node that has a predecessor. -/
theorem Chain.unlink_next {y : ℕ} {a : α}
    (hchain : Chain nxt h p (xs ++ [x] ++ y :: ys)) (ha : h.get y = some a)
    {f : α → α} (hf : ∀ b, nxt (f b) = nxt a) :
    Chain nxt ((h.modify x f).delete y) p (xs ++ [x] ++ ys) := by
  have hnodup := hchain.nodup
  obtain ⟨m, hseg, hrest⟩ := chain_append.mp hchain
  obtain ⟨-, b, hb, htail⟩ := chain_cons.mp hrest
  rw [ha] at hb
  cases hb
  have hfront := List.nodup_append.mp hnodup
  have hx : x ∉ xs := by
    have hxs := hfront.1
    rw [List.nodup_append_comm] at hxs
    exact (List.nodup_cons.mp hxs).1
  have hxys : x ∉ ys := fun hmem =>
    hfront.2.2 x (by simp) x (List.mem_cons_of_mem y hmem) rfl
  have hyfront : y ∉ xs ++ [x] := fun hmem => hfront.2.2 y hmem y (by simp) rfl
  have hall : Chain nxt (h.modify x f) p (xs ++ [x] ++ ys) :=
    chain_append.mpr ⟨nxt a, hseg.redirect hx hf, htail.modify_of_notMem hxys f⟩
  refine hall.delete_of_notMem fun hmem => ?_
  rcases List.mem_append.mp hmem with hmem | hmem
  · exact hyfront hmem
  · exact (List.nodup_cons.mp hfront.2.1).1 hmem

/-! ## Reachability -/

theorem Chain.reachableFrom_iff (hchain : Chain nxt h p xs) :
    ReachableFrom nxt h p x ↔ x ∈ xs := by
  constructor
  · rintro ⟨as, has, a, ha⟩
    induction as generalizing p xs with
    | nil =>
        rw [segment_nil] at has
        subst has
        exact hchain.head_mem
    | cons y as ih =>
        obtain ⟨rfl, b, hb, has⟩ := has
        cases xs with
        | nil => simp at hchain
        | cons z xs =>
            obtain ⟨hyz, c, hc, htail⟩ := chain_cons.mp hchain
            cases hyz
            rw [hb] at hc
            cases hc
            exact List.mem_cons_of_mem y (ih htail has)
  · intro hx
    obtain ⟨as, bs, rfl⟩ := List.append_of_mem hx
    obtain ⟨m, has, hm, a, ha, -⟩ := chain_append.mp hchain
    exact ⟨as, hm ▸ has, a, ha⟩

/-- The only node of a chain without a successor is its last one. -/
theorem Chain.nxt_eq_none_iff {a : α} (hchain : Chain nxt h p xs) (hx : x ∈ xs)
    (ha : h.get x = some a) : nxt a = none ↔ xs.getLast? = some x := by
  obtain ⟨as, bs, rfl⟩ := List.append_of_mem hx
  have hnodup := hchain.nodup
  obtain ⟨m, -, -, b, hb, htail⟩ := chain_append.mp hchain
  rw [ha] at hb
  cases hb
  cases bs with
  | nil => simpa using htail
  | cons y bs =>
      obtain ⟨hy, -⟩ := htail
      have hlast : x ≠ (y :: bs).getLast (by simp) := by
        intro heq
        have hmem : x ∈ y :: bs := heq ▸ List.getLast_mem (by simp)
        exact (List.nodup_cons.mp (List.nodup_append.mp hnodup).2.1).1 hmem
      simp [hy, List.getLast?_eq_getLast_of_ne_nil, Ne.symm hlast]

end EmbeddedKernel.Library
