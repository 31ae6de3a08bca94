import EmbeddedKernel.DataLog.ReadRange

/-!
# Ranges of pages and single pages

`ReadFT` and `ReadAll` return the result of the last page they read, and `ReadFT`
drops its devlock.  So their results agree with those of single calls of `ReadPage`
unless an earlier page fails and the last one does not; their output agrees unless
the devlock is given, whose confirmation is not printed.
-/

namespace EmbeddedKernel.DataLog

open Iic Library

section Output

variable {σ τ : Type*} {twi : Twi σ} {d : LogData} {frames : ℤ → Frame} {p n : ℕ}

theorem readEach_cons (read : ℤ → τ → τ × ℤ) (w : τ) (i : ℤ) (ps : List ℤ) :
    readEach read w (i :: ps) =
      ((readEach read (read i w).1 ps).1, (read i w).2 :: (readEach read (read i w).1 ps).2) :=
  rfl

theorem readEach_congr {read read' : ℤ → τ → τ × ℤ} {ps : List ℤ} (w : τ)
    (h : ∀ i ∈ ps, ∀ w, read i w = read' i w) : readEach read w ps = readEach read' w ps := by
  induction ps generalizing w with
  | nil => rfl
  | cons i ps ih =>
      rw [readEach_cons, readEach_cons, h i (by simp),
        ih _ fun j hj => h j (List.mem_cons_of_mem i hj)]

theorem readPage_of_ne_devlock {dl : ℤ} (f : Frame) (w : World σ) (hp : p ≤ 2043)
    (hdl : dl ≠ DEVLOCK) : readPage twi d f p dl w = readPage twi d f p 0 w := by
  have hzero : (0 : ℤ) ≠ DEVLOCK := by decide
  rw [readPage_accepted _ _ _ _ (Or.inl hp), readPage_accepted _ _ _ _ (Or.inl hp), okText, okText,
    if_neg hdl, if_neg hzero]

theorem serial_isPrefix_readPage (f : Frame) (pg dl : ℤ) (w : World σ) :
    w.serial <+: (readPage twi d f pg dl w).1.serial := by
  have hok : w.serial <+: (ok pg dl w).1.serial := by
    unfold ok
    split_ifs
    · exact List.prefix_append _ _
    · exact List.prefix_append _ _
    · exact List.prefix_refl _
  rw [readPage_eq]
  simp only
  split_ifs
  · exact hok
  · exact hok.trans (List.prefix_append _ _)

theorem serial_isPrefix_readEach (dl : ℤ) (w : World σ) (ps : List ℤ) :
    w.serial <+: (readEach (fun i => readPage twi d (frames i) i dl) w ps).1.serial := by
  induction ps generalizing w with
  | nil => exact List.prefix_refl _
  | cons i ps ih => exact (serial_isPrefix_readPage _ _ _ _).trans (ih _)

/-- The confirmation of the devlock starts with a letter that the refusal does not have. -/
theorem okText_devlock : ∃ rest, okText DEVLOCK = 86 :: rest :=
  ⟨(ascii "VALID: DEVLOCK").tail ++ [13, 10], by decide +kernel⟩

theorem notMem_refusal : (86 : UInt8) ∉ refusal := by decide +kernel

theorem serial_readEach_refused (twi : Twi σ) (d : LogData) (frames : ℤ → Frame) (w : World σ)
    (ps : List ℤ) (hps : ∀ i ∈ ps, 2044 ≤ i) :
    ∃ text, (readEach (fun i => readPage twi d (frames i) i 0) w ps).1.serial = w.serial ++ text ∧
      86 ∉ text := by
  induction ps generalizing w with
  | nil => exact ⟨[], by simp [readEach, answerAll]⟩
  | cons i ps ih =>
      obtain ⟨text, hserial, htext⟩ :=
        ih (w.print refusal) fun j hj => hps j (List.mem_cons_of_mem i hj)
      refine ⟨refusal ++ text, ?_, ?_⟩
      · rw [readEach_cons, readPage_refused _ _ (hps i (by simp)), hserial]
        simp [World.print]
      · simp [notMem_refusal, htext]

theorem mem_of_concat_isPrefix {α : Type*} {xs ys text : List α} {a : α}
    (h : xs ++ [a] <+: ys ++ text) (hle : ys.length ≤ xs.length) : a ∈ text := by
  obtain ⟨rest, hrest⟩ := h
  rw [List.append_assoc, List.singleton_append] at hrest
  rcases List.append_eq_append_iff.mp hrest with ⟨mid, hys, hmid⟩ | ⟨mid, hxs, hmid⟩
  · have hnil : mid = [] := by
      rw [hys, List.length_append] at hle
      exact List.length_eq_zero_iff.mp (by omega)
    subst hnil
    rw [List.nil_append] at hmid
    simp [← hmid]
  · simp [hmid]

theorem serial_ne_of_refused (w v : World σ) (hp : 2044 ≤ p)
    (hle : w.serial.length ≤ v.serial.length) :
    (readEach (fun i => readPage twi d (frames i) i 0) w (pages p (n + 1))).1.serial ≠
      (readEach (fun i => readPage twi d (frames i) i DEVLOCK) v (pages p (n + 1))).1.serial := by
  intro heq
  obtain ⟨text, hserial, htext⟩ := serial_readEach_refused twi d frames w (pages p (n + 1))
    fun i hi => by
      have hlow := (mem_pages.mp hi).1
      omega
  obtain ⟨rest, hrest⟩ := okText_devlock
  have hfirst : v.serial ++ [86] <+: (readPage twi d (frames p) p DEVLOCK v).1.serial := by
    rw [readPage_accepted _ _ _ _ (Or.inr rfl), hrest]
    simp
  have hall : v.serial ++ [86] <+: w.serial ++ text := by
    rw [← hserial, heq, pages_succ, readEach_cons]
    exact hfirst.trans (serial_isPrefix_readEach _ _ _)
  exact htext (mem_of_concat_isPrefix hall hle)

theorem readPage_devlock {w v : World σ} (f : Frame) (hp : p ≤ 2043) (hbus : w.bus = v.bus)
    (hle : w.serial.length ≤ v.serial.length) :
    (readPage twi d f p 0 w).1.bus = (readPage twi d f p DEVLOCK v).1.bus ∧
      (readPage twi d f p 0 w).1.serial.length <
        (readPage twi d f p DEVLOCK v).1.serial.length := by
  obtain ⟨rest, hrest⟩ := okText_devlock
  have hzero : okText 0 = [] := if_neg (by decide)
  rw [readPage_accepted _ _ _ _ (Or.inl hp), readPage_accepted _ _ _ _ (Or.inl hp), hrest, hzero,
    hbus]
  refine ⟨rfl, ?_⟩
  simp only [List.append_nil, List.length_append, List.length_cons]
  omega

theorem serial_ne_of_length_lt (w v : World σ) (hbus : w.bus = v.bus)
    (hlt : w.serial.length < v.serial.length) :
    (readEach (fun i => readPage twi d (frames i) i 0) w (pages p n)).1.serial ≠
      (readEach (fun i => readPage twi d (frames i) i DEVLOCK) v (pages p n)).1.serial := by
  induction n generalizing p w v with
  | zero =>
      intro heq
      have hserial : w.serial = v.serial := heq
      rw [hserial] at hlt
      exact lt_irrefl _ hlt
  | succ n ih =>
      rcases le_or_gt p 2043 with hsmall | hlarge
      · obtain ⟨hbus', hlt'⟩ := readPage_devlock (frames p) hsmall hbus hlt.le
        rw [pages_succ, readEach_cons, readEach_cons]
        exact ih _ _ hbus' hlt'
      · exact serial_ne_of_refused w v hlarge hlt.le

/-- The devlock changes the output of every range of pages. -/
theorem serial_ne_of_devlock (w : World σ) :
    (readEach (fun i => readPage twi d (frames i) i 0) w (pages p (n + 1))).1.serial ≠
      (readEach (fun i => readPage twi d (frames i) i DEVLOCK) w (pages p (n + 1))).1.serial := by
  rcases le_or_gt p 2043 with hsmall | hlarge
  · obtain ⟨hbus, hlt⟩ := readPage_devlock (frames p) hsmall (rfl : w.bus = w.bus) le_rfl
    rw [pages_succ, readEach_cons, readEach_cons]
    exact serial_ne_of_length_lt _ _ hbus hlt
  · exact serial_ne_of_refused w w hlarge le_rfl

end Output

/-! ## Results on a bus that refuses bytes -/

variable {port : Fin 8} {frames : ℤ → Frame} {w : World FaultyBus} {p n : ℕ} {dl : ℤ}

/-- The reading of page number `k` is acknowledged; the transfers are numbered from the next
one on. -/
def PageRead (s : FaultyBus) (k : ℕ) : Prop := s.acks (s.transfer + 2 * k + 1) 0 = true

instance (s : FaultyBus) (k : ℕ) : Decidable (PageRead s k) := inferInstanceAs (Decidable (_ = _))

/-- If the reading of the last of `n` pages is acknowledged, then so is every other. -/
def NoneHidden (s : FaultyBus) (n : ℕ) : Prop :=
  PageRead s (n - 1) → ∀ k < n, PageRead s k

def singleReads (port : Fin 8) (frames : ℤ → Frame) (dl : ℤ) (w : World FaultyBus) (ps : List ℤ) :
    World FaultyBus × List ℤ :=
  readEach (fun i => readPage FaultyBus.twi (device port) (frames i) i dl) w ps

/-- One call makes two transfers, and its result is that of the second. -/
theorem readPage_faulty (port : Fin 8) (f : Frame) (dl : ℤ) (w : World FaultyBus)
    (hp : p ≤ 2043) :
    ∃ w', readPage FaultyBus.twi (device port) f p dl w =
        (w', if PageRead w.bus 0 then 0 else -2) ∧
      ∀ k, PageRead w'.bus k ↔ PageRead w.bus (k + 1) := by
  obtain ⟨s', buffer, rc, hdata, hacks, htransfer, -, hacked, hnot⟩ :=
    pageData_faulty port f w.bus (show p ≤ 2047 by omega)
  have hrc : rc = if PageRead w.bus 0 then 0 else -2 := by
    split_ifs with hread
    · exact (hacked hread).1
    · exact (hnot hread).1
  rw [readPage_accepted _ _ _ _ (Or.inl hp), hdata, hrc]
  refine ⟨_, rfl, fun k => ?_⟩
  simp only [PageRead, hacks, htransfer]
  rw [show w.bus.transfer + 2 + 2 * k + 1 = w.bus.transfer + 2 * (k + 1) + 1 by omega]

theorem results_singleReads (port : Fin 8) (frames : ℤ → Frame) (dl : ℤ) (w : World FaultyBus)
    (hend : p + n ≤ 2044) :
    (singleReads port frames dl w (pages p n)).2 =
      (List.range n).map fun k => if PageRead w.bus k then 0 else -2 := by
  induction n generalizing p w with
  | zero => rfl
  | succ n ih =>
      obtain ⟨w', hpage, hread⟩ := readPage_faulty port (frames p) dl w (show p ≤ 2043 by omega)
      have hrest := ih (p := p + 1) w' (by omega)
      simp only [hread] at hrest
      rw [singleReads, pages_succ, readEach_cons, hpage, List.range_succ_eq_map, List.map_cons,
        List.map_map]
      exact congrArg _ hrest

theorem results_zero_iff (hend : p + n ≤ 2044) :
    (∀ rc ∈ (singleReads port frames dl w (pages p n)).2, rc = 0) ↔
      ∀ k < n, PageRead w.bus k := by
  rw [results_singleReads port frames dl w hend]
  simp only [List.mem_map, List.mem_range]
  constructor
  · intro h k hk
    have hzero := h _ ⟨k, hk, rfl⟩
    by_contra hnot
    rw [if_neg hnot] at hzero
    cases hzero
  · rintro h _ ⟨k, hk, rfl⟩
    exact if_pos (h k hk)

theorem last_zero_iff (hend : p + (n + 1) ≤ 2044) (rc : ℤ) :
    (singleReads port frames dl w (pages p (n + 1))).2.getLastD rc = 0 ↔ PageRead w.bus n := by
  rw [results_singleReads port frames dl w hend, List.range_succ, List.map_append,
    List.map_singleton, List.getLastD_concat]
  split_ifs with hread
  · exact iff_of_true rfl hread
  · exact iff_of_false (by decide) hread

/-- The last result is 0 exactly if all are, unless it hides a failure. -/
theorem last_eq_all_iff (hend : p + (n + 1) ≤ 2044) (rc : ℤ) :
    ((singleReads port frames dl w (pages p (n + 1))).2.getLastD rc = 0 ↔
        ∀ r ∈ (singleReads port frames dl w (pages p (n + 1))).2, r = 0) ↔
      NoneHidden w.bus (n + 1) := by
  rw [last_zero_iff hend, results_zero_iff hend]
  constructor
  · intro h hlast
    exact h.mp hlast
  · intro h
    exact ⟨h, fun hall => hall n (Nat.lt_succ_self n)⟩

/-- `ReadFT` prints what the single calls print, and returns 0 exactly if all of them do. -/
def RangeAgrees (port : Fin 8) (frames : ℤ → Frame) (s e : ℕ) (dl : ℤ) (w : World FaultyBus) :
    Prop :=
  ∃ fuel w' rc, readFT FaultyBus.twi (device port) frames fuel s e dl w = some (w', rc) ∧
    w'.serial = (singleReads port frames dl w (pages s (e - s + 1))).1.serial ∧
    (rc = 0 ↔ ∀ r ∈ (singleReads port frames dl w (pages s (e - s + 1))).2, r = 0)

/-- `ReadAll` returns 0 exactly if the calls for all pages do. -/
def AllAgrees (port : Fin 8) (frames : ℤ → Frame) (w : World FaultyBus) : Prop :=
  ∃ fuel w' rc, readAll FaultyBus.twi (device port) frames fuel w = some (w', rc) ∧
    (rc = 0 ↔ ∀ r ∈ (singleReads port frames 0 w (pages 0 2044)).2, r = 0)

theorem rangeAgrees_iff {s e : ℕ} (hse : s ≤ e) (hs : s ≤ 2046) (he : e ≤ 2047) :
    RangeAgrees port frames s e dl w ↔
      (singleReads port frames 0 w (pages s (e - s + 1))).1.serial =
        (singleReads port frames dl w (pages s (e - s + 1))).1.serial ∧
      ((singleReads port frames 0 w (pages s (e - s + 1))).2.getLastD 1 = 0 ↔
        ∀ r ∈ (singleReads port frames dl w (pages s (e - s + 1))).2, r = 0) := by
  have hcount : ((e : ℤ) - s + 1).toNat = e - s + 1 := by omega
  have hrun : readFT FaultyBus.twi (device port) frames (e - s + 2) s e dl w =
      some ((singleReads port frames 0 w (pages s (e - s + 1))).1,
        (singleReads port frames 0 w (pages s (e - s + 1))).2.getLastD 1) := by
    rw [readFT, readRange_eq_readEach (by omega) (by omega) (by omega) (by omega) (by omega),
      hcount]
    rfl
  constructor
  · rintro ⟨fuel, w', rc, hrun', hserial, hrc⟩
    cases readRange_unique hrun' hrun
    exact ⟨hserial, hrc⟩
  · rintro ⟨hserial, hrc⟩
    exact ⟨_, _, _, hrun, hserial, hrc⟩

theorem allAgrees_iff :
    AllAgrees port frames w ↔
      ((singleReads port frames 0 w (pages 0 2044)).2.getLastD 0 = 0 ↔
        ∀ r ∈ (singleReads port frames 0 w (pages 0 2044)).2, r = 0) := by
  have hrun : readAll FaultyBus.twi (device port) frames 2045 w =
      some ((singleReads port frames 0 w (pages 0 2044)).1,
        (singleReads port frames 0 w (pages 0 2044)).2.getLastD 0) := by
    apply readLoop_eq (by decide) (by decide) _ _ (by decide)
    · intro k hk
      apply decide_eq_true
      omega
    · rfl
  constructor
  · rintro ⟨fuel, w', rc, hrun', hrc⟩
    obtain ⟨-, hlast⟩ := Prod.mk.inj (readLoop_unique hrun' hrun)
    rwa [hlast] at hrc
  · intro hrc
    exact ⟨_, _, _, hrun, hrc⟩

/-- `ReadFT` agrees with the single calls exactly if the devlock is not given and the last page
does not hide the failure of another; `ReadAll` exactly if the last page does not. -/
theorem multiPage_agrees_iff (port : Fin 8) (frames : ℤ → Frame) (s e : ℕ) (dl : ℤ)
    (w : World FaultyBus) (hse : s ≤ e)
    (hrange : e ≤ 2043 ∨ dl = DEVLOCK ∧ s ≤ 2046 ∧ e ≤ 2047) :
    (RangeAgrees port frames s e dl w ↔ dl ≠ DEVLOCK ∧ NoneHidden w.bus (e - s + 1)) ∧
      (AllAgrees port frames w ↔ NoneHidden w.bus 2044) := by
  refine ⟨?_, allAgrees_iff.trans (last_eq_all_iff (p := 0) (by decide) 0)⟩
  rw [rangeAgrees_iff hse (by omega) (by omega)]
  by_cases hlock : dl = DEVLOCK
  · subst hlock
    exact iff_of_false (fun h => serial_ne_of_devlock w h.1) (fun h => h.1 rfl)
  · have hend : e ≤ 2043 := by
      rcases hrange with hend | hlocked
      · exact hend
      · exact (hlock hlocked.1).elim
    have hsame : singleReads port frames dl w (pages s (e - s + 1)) =
        singleReads port frames 0 w (pages s (e - s + 1)) := by
      apply readEach_congr
      intro i hi w
      obtain ⟨hlo, hhi⟩ := mem_pages.mp hi
      obtain ⟨k, rfl⟩ := Int.eq_ofNat_of_zero_le (show 0 ≤ i by omega)
      exact readPage_of_ne_devlock _ w (by omega) hlock
    rw [hsame, last_eq_all_iff (by omega)]
    exact ⟨fun h => ⟨hlock, h.2⟩, fun h => ⟨rfl, h.2⟩⟩

theorem multiPage_agrees_iff_allRead :
    RangeAgrees 0 (fun _ => ⟨fun _ => 0, []⟩) 5 9 0 (erasedFaulty fun _ _ => true) ∧
      AllAgrees 0 (fun _ => ⟨fun _ => 0, []⟩) (erasedFaulty fun _ _ => true) := by
  obtain ⟨hrange, hall⟩ := multiPage_agrees_iff 0 (fun _ => ⟨fun _ => 0, []⟩) 5 9 0
    (erasedFaulty fun _ _ => true) (by decide) (Or.inl (by decide))
  exact ⟨hrange.mpr ⟨by decide, fun _ _ _ => rfl⟩, hall.mpr fun _ _ _ => rfl⟩

/-- The reading of the first of two pages is refused, and the result is 0; with the devlock the
output differs even if nothing is refused. -/
theorem multiPage_disagrees :
    ¬RangeAgrees 0 (fun _ => ⟨fun _ => 0, []⟩) 0 1 0 (erasedFaulty fun t _ => t ≠ 1) ∧
      ¬RangeAgrees 0 (fun _ => ⟨fun _ => 0, []⟩) 0 1 DEVLOCK (erasedFaulty fun _ _ => true) ∧
      ¬AllAgrees 0 (fun _ => ⟨fun _ => 0, []⟩) (erasedFaulty fun t _ => t ≠ 1) := by
  refine ⟨fun h => ?_, fun h => ?_, fun h => ?_⟩
  · have hrc := ((rangeAgrees_iff (by decide) (by decide) (by decide)).mp h).2
    have hhidden := (last_eq_all_iff (p := 0) (by decide) 1).mp hrc
    exact absurd (hhidden (by decide) 0 (by decide)) (by decide)
  · have hserial := ((rangeAgrees_iff (by decide) (by decide) (by decide)).mp h).1
    exact serial_ne_of_devlock _ hserial
  · have hhidden := (last_eq_all_iff (p := 0) (by decide) 0).mp (allAgrees_iff.mp h)
    exact absurd (hhidden (by decide) 0 (by decide)) (by decide)

end EmbeddedKernel.DataLog
