import EmbeddedKernel.DataLog.ReadFaults

/-!
# Ranges of pages

The loop of `ReadFT` counts with a wrapping `int` up to and with the last page, and
its guards compare products that have wrapped.
-/

namespace EmbeddedKernel.DataLog

open Iic Library

section Loop

variable {τ : Type*} {more : ℤ → Bool} {read : ℤ → τ → τ × ℤ} {s e : ℤ} {n fuel : ℕ} {x y : τ × ℤ}

/-- The numbers of `n` pages from `s` on. -/
def pages (s : ℤ) (n : ℕ) : List ℤ := (List.range n).map fun k : ℕ => s + k

theorem pages_succ (s : ℤ) (n : ℕ) : pages s (n + 1) = s :: pages (s + 1) n := by
  unfold pages
  rw [List.range_succ_eq_map, List.map_cons, List.map_map]
  congr 1
  · simp
  · apply List.map_congr_left
    intro k _
    simp only [Function.comp_apply, Nat.succ_eq_add_one]
    omega

/-- Reading a list of pages one by one, with their results. -/
def readEach (read : ℤ → τ → τ × ℤ) (w : τ) (ps : List ℤ) : τ × List ℤ :=
  answerAll (fun w i => read i w) w ps

/-- A loop that goes through `n` pages and stops before the counter wraps returns the result of
the last one. -/
theorem readLoop_eq (hlo : -32768 ≤ s) (hhi : s + n ≤ 32767) (hmore : ∀ k < n, more (s + k) = true)
    (hend : more (s + n) = false) (hfuel : n < fuel) (rc : ℤ) (w : τ) :
    readLoop more read fuel s rc w =
      some ((readEach read w (pages s n)).1, (readEach read w (pages s n)).2.getLastD rc) := by
  induction n generalizing s fuel rc w with
  | zero =>
      obtain ⟨fuel, rfl⟩ := Nat.exists_eq_add_one_of_ne_zero (n := fuel) (by omega)
      have hstop : ¬more s = true := by simpa using hend
      rw [readLoop, if_neg hstop]
      rfl
  | succ n ih =>
      obtain ⟨fuel, rfl⟩ := Nat.exists_eq_add_one_of_ne_zero (n := fuel) (by omega)
      have hgo : more s = true := by simpa using hmore 0 (by omega)
      have hnext : Avr.wrap16 (s + 1) = s + 1 := Avr.wrap16_of_mem (by omega) (by omega)
      have hshift : ∀ k : ℕ, s + 1 + k = s + (k + 1 : ℕ) := by
        intro k
        push_cast
        ring
      have hfuel' : n < fuel := by omega
      have hrest := ih (s := s + 1) (by omega) (by omega)
        (fun k hk => by rw [hshift]; exact hmore (k + 1) (by omega)) (by rw [hshift]; exact hend)
        hfuel' (read s w).2 (read s w).1
      have heach : readEach read w (pages s (n + 1)) =
          ((readEach read (read s w).1 (pages (s + 1) n)).1,
            (read s w).2 :: (readEach read (read s w).1 (pages (s + 1) n)).2) := by
        rw [pages_succ]
        rfl
      rw [readLoop, if_pos hgo, hnext, heach, List.getLastD_cons]
      exact hrest

/-- A loop whose condition holds of every `int` does not end. -/
theorem readLoop_eq_none (hmore : ∀ i, -32768 ≤ i → i ≤ 32767 → more i = true) (fuel : ℕ)
    (hlo : -32768 ≤ s) (hhi : s ≤ 32767) (rc : ℤ) (w : τ) :
    readLoop more read fuel s rc w = none := by
  induction fuel generalizing s rc w with
  | zero => rfl
  | succ fuel ih =>
      rw [readLoop, if_pos (hmore s hlo hhi)]
      apply ih
      · unfold Avr.wrap16
        omega
      · unfold Avr.wrap16
        omega

theorem readLoop_mono {fuel' : ℕ} {rc : ℤ} {w : τ} (hle : fuel ≤ fuel')
    (h : readLoop more read fuel s rc w = some x) : readLoop more read fuel' s rc w = some x := by
  induction fuel generalizing s rc w fuel' with
  | zero => cases h
  | succ fuel ih =>
      obtain ⟨fuel', rfl⟩ := Nat.exists_eq_add_one_of_ne_zero (n := fuel') (by omega)
      rw [readLoop] at h ⊢
      split_ifs at h ⊢ with hgo
      · exact ih (by omega) h
      · exact h

theorem readLoop_unique {fuel' : ℕ} {rc : ℤ} {w : τ} (hx : readLoop more read fuel s rc w = some x)
    (hy : readLoop more read fuel' s rc w = some y) : x = y := by
  have hx' := readLoop_mono (le_max_left fuel fuel') hx
  have hy' := readLoop_mono (le_max_right fuel fuel') hy
  exact Option.some.inj (hx'.symm.trans hy')

/-! ## The guards -/

/-- The pages are ones that the EEPROM has, in order. -/
def InRange (s e : ℤ) : Prop := 0 ≤ s ∧ s ≤ e ∧ 32 * e ≤ E2_END_ADDR

theorem inRange_iff (hle : s ≤ e) : InRange s e ↔ 0 ≤ s ∧ e ≤ 2047 := by
  unfold InRange E2_END_ADDR
  omega

theorem mem_pages {i : ℤ} : i ∈ pages s n ↔ s ≤ i ∧ i < s + n := by
  simp only [pages, List.mem_map, List.mem_range]
  constructor
  · rintro ⟨k, hk, rfl⟩
    omega
  · rintro ⟨hlo, hhi⟩
    exact ⟨(i - s).toNat, by omega, by omega⟩

/-- The guards that let `ReadFT` pass: the products never exceed the last address, as unsigned
numbers of 16 bits. -/
theorem readRange_eq (read : ℤ → τ → τ × ℤ) (fuel : ℕ) (s e : ℤ) (w : τ) :
    readRange read fuel s e w =
      if s > e ∨ s % 2048 = 2047 then some (w, 1)
      else readLoop (fun i => i ≤ e) read fuel s 1 w := by
  have hnever : ∀ x : ℤ, ¬Avr.toUnsigned (Avr.wrap16 (x * 32)) > E2_END_ADDR := by
    intro x
    unfold Avr.toUnsigned E2_END_ADDR
    omega
  have hlast : Avr.toUnsigned (Avr.wrap16 (s * 32)) > E2_END_ADDR - 32 ↔ s % 2048 = 2047 := by
    unfold Avr.toUnsigned Avr.wrap16 E2_END_ADDR
    omega
  unfold readRange
  rw [if_neg (hnever e), if_neg (hnever s)]
  by_cases hgt : s > e
  · rw [if_pos hgt, if_pos (Or.inl hgt)]
  · rw [if_neg hgt]
    by_cases hmod : s % 2048 = 2047
    · rw [if_pos (hlast.mpr hmod), if_pos (Or.inr hmod)]
    · rw [if_neg fun h => hmod (hlast.mp h), if_neg fun h => h.elim hgt hmod]

/-! ## Calls of `ReadPage` -/

/-- A read that also lists the pages for which it is called. -/
def listed (read : ℤ → τ → τ × ℤ) (i : ℤ) (w : τ × List ℤ) : (τ × List ℤ) × ℤ :=
  (((read i w.1).1, w.2 ++ [i]), (read i w.1).2)

theorem readEach_listed (w : τ × List ℤ) (ps : List ℤ) :
    readEach (listed read) w ps =
      (((readEach read w.1 ps).1, w.2 ++ ps), (readEach read w.1 ps).2) := by
  induction ps generalizing w with
  | nil => simp [readEach, answerAll]
  | cons i ps ih =>
      have hrest := ih (listed read i w).1
      simp only [readEach, answerAll, listed] at hrest ⊢
      rw [hrest]
      simp

theorem readLoop_listed (more : ℤ → Bool) (read : ℤ → τ → τ × ℤ) (fuel : ℕ) (s rc : ℤ)
    (w : τ × List ℤ) :
    (readLoop more (listed read) fuel s rc w).map (fun x => (x.1.1, x.2)) =
      readLoop more read fuel s rc w.1 := by
  induction fuel generalizing s rc w with
  | zero => rfl
  | succ fuel ih =>
      rw [readLoop, readLoop]
      split_ifs
      · exact ih _ _ _
      · rfl

theorem readRange_listed (read : ℤ → τ → τ × ℤ) (fuel : ℕ) (s e : ℤ) (w : τ × List ℤ) :
    (readRange (listed read) fuel s e w).map (fun x => (x.1.1, x.2)) =
      readRange read fuel s e w.1 := by
  rw [readRange_eq, readRange_eq]
  split_ifs
  · rfl
  · exact readLoop_listed _ _ _ _ _ _

theorem readRange_eq_readEach (hlo : -32768 ≤ s) (hhi : e < 32767) (hle : s ≤ e)
    (hmod : s % 2048 ≠ 2047) (hfuel : (e - s + 1).toNat < fuel) (w : τ) :
    readRange read fuel s e w =
      some ((readEach read w (pages s (e - s + 1).toNat)).1,
        (readEach read w (pages s (e - s + 1).toNat)).2.getLastD 1) := by
  have hpass : ¬(s > e ∨ s % 2048 = 2047) := by omega
  rw [readRange_eq, if_neg hpass]
  apply readLoop_eq hlo (by omega) _ _ hfuel
  · intro k hk
    apply decide_eq_true
    omega
  · apply decide_eq_false
    omega

theorem readRange_eq_none (hlo : -32768 ≤ s) (hhi : s ≤ 32767) (hmod : s % 2048 ≠ 2047)
    (fuel : ℕ) (w : τ) : readRange read fuel s 32767 w = none := by
  have hpass : ¬(s > 32767 ∨ s % 2048 = 2047) := by omega
  rw [readRange_eq, if_neg hpass]
  exact readLoop_eq_none (fun i _ hi => decide_eq_true hi) fuel hlo hhi 1 w

theorem readRange_unique {fuel' : ℕ} {w : τ} (hx : readRange read fuel s e w = some x)
    (hy : readRange read fuel' s e w = some y) : x = y := by
  rw [readRange_eq] at hx hy
  split_ifs at hx hy with hstop
  · exact Option.some.inj (hx.symm.trans hy)
  · exact readLoop_unique hx hy

end Loop

/-! ## Pages that are refused, and pages that are read -/

variable {σ : Type*} {twi : Twi σ} {d : LogData} {pg : ℤ}

/-- What `ok` prints for a page it refuses. -/
def refusal : List UInt8 :=
  ascii ("ERROR: Invalid address!\nYou can only enter values between 0 and 2043, " ++
    "unless you have the devlock.") ++ [13, 10]

theorem readPage_refused (f : Frame) (w : World σ) (hpg : 2044 ≤ pg) :
    readPage twi d f pg 0 w = (w.print refusal, 1) := by
  have hok : ok pg 0 w = (w.print refusal, true) := if_pos ⟨hpg, by decide⟩
  simp only [readPage, hok, if_true]

theorem readEach_refused (twi : Twi σ) (d : LogData) (frames : ℤ → Frame) (w : World σ)
    (ps : List ℤ) (hps : ∀ i ∈ ps, 2044 ≤ i) :
    (readEach (fun i => readPage twi d (frames i) i 0) w ps).1.bus = w.bus ∧
      (readEach (fun i => readPage twi d (frames i) i 0) w ps).2.getLastD 1 = 1 := by
  induction ps generalizing w with
  | nil => exact ⟨rfl, rfl⟩
  | cons i ps ih =>
      have hi : readPage twi d (frames i) i 0 w = (w.print refusal, 1) :=
        readPage_refused (frames i) w (hps i (by simp))
      have hrest := ih (w.print refusal) fun j hj => hps j (List.mem_cons_of_mem i hj)
      simp only [readEach, answerAll, hi, List.getLastD_cons] at hrest ⊢
      exact hrest

theorem start_isPrefix_readPage (f : Frame) (w : World (σ × List (σ × Operation)))
    (hpg : pg < 2044) :
    w.bus.2 ++ [(w.bus.1, Operation.start)] <+:
      (readPage (recorded twi) d f pg 0 w).1.bus.2 := by
  have hok : ok pg 0 w = (w, false) := ok_accept w hpg (by decide)
  have hbus : (readPage (recorded twi) d f pg 0 w).1.bus =
      (pageData (recorded twi) d f pg w.bus).1 := by
    rw [readPage_eq, hok]
    rfl
  have hwrite : w.bus.2 ++ [(w.bus.1, Operation.start)] <+:
      (iicWrite (recorded twi) d.iicAddrE2 (withAddress (pageHigh pg) (pageLow pg) f.junk) 2
        w.bus).1.2 := isPrefix_iicWrite _ _ _ _
  rw [hbus]
  exact hwrite.trans ((List.prefix_append _ _).trans (isPrefix_iicRead _ _ _ _))

theorem isPrefix_readEach (twi : Twi σ) (d : LogData) (frames : ℤ → Frame)
    (w : World (σ × List (σ × Operation))) (ps : List ℤ) :
    w.bus.2 <+: (readEach (fun i => readPage (recorded twi) d (frames i) i 0) w ps).1.bus.2 := by
  induction ps generalizing w with
  | nil => exact List.prefix_refl _
  | cons i ps ih =>
      have hfirst : w.bus.2 <+: (readPage (recorded twi) d (frames i) i 0 w).1.bus.2 := by
        rcases le_or_gt 2044 i with hlarge | hsmall
        · rw [readPage_refused _ _ hlarge]
          exact List.prefix_refl _
        · exact (List.prefix_append _ _).trans (start_isPrefix_readPage _ _ hsmall)
      exact hfirst.trans (ih _)

theorem readEach_touches (twi : Twi σ) (d : LogData) (frames : ℤ → Frame)
    (w : World (σ × List (σ × Operation))) {s : ℤ} (n : ℕ) (hs : s < 2044) :
    (readEach (fun i => readPage (recorded twi) d (frames i) i 0) w (pages s (n + 1))).1.bus.2 ≠
      w.bus.2 := by
  have hstart : w.bus.2 ++ [(w.bus.1, Operation.start)] <+:
      (readPage (recorded twi) d (frames s) s 0 w).1.bus.2 := start_isPrefix_readPage _ _ hs
  have hall := hstart.trans (isPrefix_readEach twi d frames _ (pages (s + 1) n))
  have hlength := hall.length_le
  rw [pages_succ]
  intro heq
  have hsame : (readEach (fun i => readPage (recorded twi) d (frames i) i 0)
      (readPage (recorded twi) d (frames s) s 0 w).1 (pages (s + 1) n)).1.bus.2 = w.bus.2 := heq
  rw [hsame, List.length_append, List.length_singleton] at hlength
  omega

/-! ## Which ranges are enforced -/

/-- `ReadFT` on a recorded unit, with the list of the pages for which it calls `ReadPage`. -/
def readFTListed (twi : Twi σ) (d : LogData) (frames : ℤ → Frame) (fuel : ℕ) (s e : ℤ)
    (w : World (σ × List (σ × Operation))) :
    Option ((World (σ × List (σ × Operation)) × List ℤ) × ℤ) :=
  readRange (listed fun i => readPage (recorded twi) d (frames i) i 0) fuel s e (w, [])

/-- `ReadFT` ends; it reads only pages in the range of the EEPROM, each once and in order; and
outside of the range it fails without an operation on the bus.  `reads`, of the final state
and the pages for which `ReadPage` is called, says what counts as reading. -/
def Enforces (twi : Twi σ) (d : LogData) (frames : ℤ → Frame) (s e dl : ℤ)
    (w : World (σ × List (σ × Operation)))
    (reads : World (σ × List (σ × Operation)) → List ℤ → Prop) : Prop :=
  ∃ fuel w' calls rc, readFT (recorded twi) d frames fuel s e dl w = some (w', rc) ∧
    readFTListed twi d frames fuel s e w = some ((w', calls), rc) ∧
    (reads w' calls → InRange s e ∧ calls = pages s (e - s + 1).toNat) ∧
    (¬InRange s e → rc ≠ 0 ∧ w'.bus.2 = w.bus.2)

variable {frames : ℤ → Frame} {s e dl : ℤ} {w w' : World (σ × List (σ × Operation))}
  {reads : World (σ × List (σ × Operation)) → List ℤ → Prop} {calls : List ℤ} {rc : ℤ} {fuel : ℕ}

theorem enforces_iff_of_listed (h : readFTListed twi d frames fuel s e w = some ((w', calls), rc)) :
    Enforces twi d frames s e dl w reads ↔
      (reads w' calls → InRange s e ∧ calls = pages s (e - s + 1).toNat) ∧
      (¬InRange s e → rc ≠ 0 ∧ w'.bus.2 = w.bus.2) := by
  constructor
  · rintro ⟨fuel', w'', calls', rc', -, hlisted, hreads, houtside⟩
    have heq := readRange_unique hlisted h
    cases heq
    exact ⟨hreads, houtside⟩
  · rintro ⟨hreads, houtside⟩
    refine ⟨fuel, w', calls, rc, ?_, h, hreads, houtside⟩
    have hmap := readRange_listed (fun i => readPage (recorded twi) d (frames i) i 0) fuel s e
      (w, [])
    rw [← readFTListed, h] at hmap
    exact hmap.symm

theorem readFTListed_eq (hlo : -32768 ≤ s) (hhi : e < 32767) (hle : s ≤ e)
    (hmod : s % 2048 ≠ 2047) {n : ℕ} (hn : n = (e - s + 1).toNat) :
    readFTListed twi d frames (n + 1) s e w =
      some (((readEach (fun i => readPage (recorded twi) d (frames i) i 0) w (pages s n)).1,
        pages s n),
        (readEach (fun i => readPage (recorded twi) d (frames i) i 0) w
          (pages s n)).2.getLastD 1) := by
  rw [readFTListed, readRange_eq_readEach hlo hhi hle hmod (by omega), readEach_listed, hn]
  rfl

theorem not_enforces_of_none (h : ∀ fuel, readFTListed twi d frames fuel s e w = none) :
    ¬Enforces twi d frames s e dl w reads := by
  rintro ⟨fuel, w', calls, rc, -, hlisted, -⟩
  rw [h fuel] at hlisted
  cases hlisted

/-- `ReadFT` ends and enforces its range exactly if the guards refuse the call, because `s > e`
or the product for `s` comes out as the last page, or else the range is one of the EEPROM.  If
only operations on the bus count as reading, then also ranges from page 2044 on will do that
end below the largest `int`, for `ReadPage` refuses all of their pages. -/
theorem readFT_enforces_iff (twi : Twi σ) (d : LogData) (frames : ℤ → Frame) (s e dl : ℤ)
    (w : World (σ × List (σ × Operation))) (hs : -32768 ≤ s ∧ s ≤ 32767)
    (he : -32768 ≤ e ∧ e ≤ 32767) :
    (Enforces twi d frames s e dl w (fun _ calls => calls ≠ []) ↔
      e < s ∨ s % 2048 = 2047 ∨ (0 ≤ s ∧ e ≤ 2047)) ∧
    (Enforces twi d frames s e dl w (fun w' _ => w'.bus.2 ≠ w.bus.2) ↔
      e < s ∨ s % 2048 = 2047 ∨ (0 ≤ s ∧ e ≤ 2047) ∨ (2044 ≤ s ∧ e < 32767)) := by
  by_cases hguard : s > e ∨ s % 2048 = 2047
  · have hlisted : readFTListed twi d frames 0 s e w = some ((w, []), 1) := by
      rw [readFTListed, readRange_eq, if_pos hguard]
    rw [enforces_iff_of_listed hlisted, enforces_iff_of_listed hlisted]
    constructor
    · refine iff_of_true ⟨fun h => (h rfl).elim, fun _ => ⟨by decide, rfl⟩⟩ ?_
      omega
    · refine iff_of_true ⟨fun h => (h rfl).elim, fun _ => ⟨by decide, rfl⟩⟩ ?_
      omega
  · push Not at hguard
    obtain ⟨hle, hmod⟩ := hguard
    rcases Int.lt_or_eq_of_le he.2 with hlt | rfl
    · set n := (e - s + 1).toNat with hn
      set out := readEach (fun i => readPage (recorded twi) d (frames i) i 0) w (pages s n)
        with hout
      have hlisted : readFTListed twi d frames (n + 1) s e w =
          some ((out.1, pages s n), out.2.getLastD 1) := readFTListed_eq hs.1 hlt hle hmod hn
      have hcalls : pages s n ≠ [] := List.ne_nil_of_mem (mem_pages.mpr ⟨le_refl s, by omega⟩)
      rw [enforces_iff_of_listed hlisted, enforces_iff_of_listed hlisted]
      by_cases hrange : InRange s e
      · have hbounds := (inRange_iff hle).mp hrange
        constructor
        · refine iff_of_true ⟨fun _ => ⟨hrange, rfl⟩, fun h => (h hrange).elim⟩ ?_
          omega
        · refine iff_of_true ⟨fun _ => ⟨hrange, rfl⟩, fun h => (h hrange).elim⟩ ?_
          omega
      · have hbounds : ¬(0 ≤ s ∧ e ≤ 2047) := fun h => hrange ((inRange_iff hle).mpr h)
        constructor
        · refine iff_of_false (fun h => hrange (h.1 hcalls).1) ?_
          omega
        · rcases le_or_gt 2044 s with hlarge | hsmall
          · obtain ⟨hbus, hrc⟩ := readEach_refused (recorded twi) d frames w (pages s n)
              fun i hi => hlarge.trans (mem_pages.mp hi).1
            rw [← hout] at hbus hrc
            refine iff_of_true ⟨fun h => (h (by rw [hbus])).elim, fun _ => ⟨?_, by rw [hbus]⟩⟩ ?_
            · rw [hrc]
              decide
            · omega
          · have htouched : out.1.bus.2 ≠ w.bus.2 := by
              rw [hout, show n = (n - 1) + 1 by omega]
              exact readEach_touches twi d frames w (n - 1) hsmall
            refine iff_of_false (fun h => hrange (h.1 htouched).1) ?_
            omega
    · have hnone : ∀ fuel, readFTListed twi d frames fuel s 32767 w = none :=
        fun fuel => readRange_eq_none hs.1 hs.2 hmod fuel _
      constructor
      · refine iff_of_false (not_enforces_of_none hnone) ?_
        omega
      · refine iff_of_false (not_enforces_of_none hnone) ?_
        omega

def erasedRecord : World (Bus × List (Bus × Operation)) := ⟨(erased.bus, []), []⟩

theorem readFT_enforces_iff_lastPages :
    Enforces Bus.twi (device 0) (fun _ => ⟨fun _ => 0, []⟩) 2040 2047 0 erasedRecord
      (fun _ calls => calls ≠ []) :=
  (readFT_enforces_iff Bus.twi (device 0) (fun _ => ⟨fun _ => 0, []⟩) 2040 2047 0 erasedRecord
    (by decide) (by decide)).1.mpr (by decide)

/-- Up to the largest `int` the loop does not end, and a range that goes beyond the EEPROM is
read. -/
theorem readFT_not_enforced :
    (∀ fuel, readFT (recorded Bus.twi) (device 0) (fun _ => ⟨fun _ => 0, []⟩) fuel 0 32767 0
      erasedRecord = none) ∧
    ¬Enforces Bus.twi (device 0) (fun _ => ⟨fun _ => 0, []⟩) 0 32767 0 erasedRecord
      (fun _ calls => calls ≠ []) ∧
    ¬Enforces Bus.twi (device 0) (fun _ => ⟨fun _ => 0, []⟩) 0 2500 0 erasedRecord
      (fun w' _ => w'.bus.2 ≠ erasedRecord.bus.2) := by
  refine ⟨fun fuel => ?_, ?_, ?_⟩
  · exact readRange_eq_none (by decide) (by decide) (by decide) fuel _
  · apply not_enforces_of_none
    intro fuel
    exact readRange_eq_none (by decide) (by decide) (by decide) fuel _
  · rw [enforces_iff_of_listed (readFTListed_eq (by decide) (by decide) (by decide) (by decide)
      (show 2500 + 1 = _ from rfl))]
    rintro ⟨hreads, -⟩
    have hrange := (hreads (readEach_touches _ _ _ _ 2500 (by decide))).1
    exact absurd ((inRange_iff (by decide)).mp hrange) (by decide)

end EmbeddedKernel.DataLog
