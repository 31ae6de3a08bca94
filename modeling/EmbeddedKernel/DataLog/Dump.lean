import EmbeddedKernel.DataLog.CircularLog
import EmbeddedKernel.DataLog.ReadAgreement

/-!
# Reading the log back

The record number at `L_ADDR` is that of the oldest record once the log has started over.
So the records from there to the last one, and then those before it, are the strings of
the last calls of `WriteAuto` in the order in which they were made.
-/

namespace EmbeddedKernel.DataLog

open Iic Library

variable {port : Fin 8} {frames : ℤ → Frame} {w : World Bus}

/-- What a list of strings prints. -/
def texts (strings : List CString) : List UInt8 := strings.flatMap CString.chars

/-- The records from `p` on hold the strings. -/
def HoldStrings (b : Bus) (port : Fin 8) (p : ℕ) (strings : List CString) : Prop :=
  ∀ j (hj : j < strings.length), HoldsString b port (p + j) (strings.get ⟨j, hj⟩)

theorem HoldStrings.head {b : Bus} {p : ℕ} {data : CString} {strings : List CString}
    (h : HoldStrings b port p (data :: strings)) : HoldsString b port p data :=
  h 0 (Nat.succ_pos _)

theorem HoldStrings.tail {b : Bus} {p : ℕ} {data : CString} {strings : List CString}
    (h : HoldStrings b port p (data :: strings)) : HoldStrings b port (p + 1) strings := by
  intro j hj
  have hnext := h (j + 1) (Nat.succ_lt_succ hj)
  rw [← Nat.add_assoc, Nat.add_right_comm] at hnext
  exact hnext

theorem HoldStrings.congr {b b' : Bus} {p : ℕ} {strings : List CString}
    (h : HoldStrings b port p strings) (hsame : ∀ q, b'.memory q = b.memory q) :
    HoldStrings b' port p strings :=
  fun j hj => (h j hj).congr fun i _ => by rw [hsame]

theorem HoldStrings.append {b : Bus} {p : ℕ} {xs ys : List CString}
    (hxs : HoldStrings b port p xs) (hys : HoldStrings b port (p + xs.length) ys) :
    HoldStrings b port p (xs ++ ys) := by
  intro j hj
  rcases Nat.lt_or_ge j xs.length with hlt | hge
  · have hheld := hxs j hlt
    simpa [List.getElem_append_left hlt] using hheld
  · have hlt : j - xs.length < ys.length := by
      rw [List.length_append] at hj
      omega
    have hheld := hys (j - xs.length) hlt
    have hpage : p + xs.length + (j - xs.length) = p + j := by omega
    rw [hpage] at hheld
    simpa [List.getElem_append_right hge] using hheld

/-- Reading records one by one prints the strings that they hold. -/
theorem readEach_strings (frames : ℤ → Frame) {p : ℕ} {strings : List CString}
    (hend : p + strings.length ≤ 2044) (h : HoldStrings w.bus port p strings) :
    ∃ w', readEach (fun i => readPage Bus.twi (device port) (frames i) i 0) w
        (pages p strings.length) = (w', List.replicate strings.length 0) ∧
      (∀ q, w'.bus.memory q = w.bus.memory q) ∧ w'.serial = w.serial ++ texts strings := by
  induction strings generalizing p w with
  | nil => exact ⟨w, rfl, fun _ => rfl, by simp [texts]⟩
  | cons data strings ih =>
      rw [List.length_cons] at hend
      have hp : p ≤ 2043 := by omega
      have hlock : (0 : ℤ) ≠ DEVLOCK := by decide
      obtain ⟨w₁, hread, hmemory, -⟩ :=
        readPage_spec port (frames p) 0 w (show p ≤ 2047 by omega) (Or.inl hp)
      obtain ⟨w₁', hread', hserial⟩ := readPage_of_holdsString (frames p) hp hlock h.head
      obtain rfl : w₁ = w₁' := congrArg Prod.fst (hread.symm.trans hread')
      obtain ⟨w', heach, hmemory', hserial'⟩ :=
        ih (by omega) (h.tail.congr hmemory)
      refine ⟨w', ?_, fun q => (hmemory' q).trans (hmemory q), ?_⟩
      · rw [List.length_cons, pages_succ, readEach_cons, hread, List.replicate_succ]
        have hnext : ((p : ℤ) + 1) = (p + 1 : ℕ) := by push_cast; ring
        rw [hnext, heach]
      · rw [hserial', hserial, List.append_assoc]
        rfl

theorem getLastD_replicate_zero {n : ℕ} (hn : 0 < n) (rc : ℤ) :
    (List.replicate n (0 : ℤ)).getLastD rc = 0 := by
  obtain ⟨n, rfl⟩ := Nat.exists_eq_add_one_of_ne_zero hn.ne'
  rw [List.replicate_succ', List.getLastD_concat]

/-- `ReadFT` over records that hold strings. -/
theorem readFT_strings (frames : ℤ → Frame) {p : ℕ} {strings : List CString} (hne : strings ≠ [])
    (hend : p + strings.length ≤ 2044) (h : HoldStrings w.bus port p strings) {fuel : ℕ}
    (hfuel : strings.length < fuel) (dl : ℤ) :
    ∃ w', readFT Bus.twi (device port) frames fuel p (p + strings.length - 1 : ℤ) dl w =
        some (w', 0) ∧
      (∀ q, w'.bus.memory q = w.bus.memory q) ∧ w'.serial = w.serial ++ texts strings := by
  have hpos : 0 < strings.length := List.length_pos_of_ne_nil hne
  obtain ⟨w', heach, hmemory, hserial⟩ := readEach_strings frames hend h
  have hcount : ((p + strings.length - 1 : ℤ) - p + 1).toNat = strings.length := by omega
  refine ⟨w', ?_, hmemory, hserial⟩
  rw [readFT, readRange_eq_readEach (by omega) (by omega) (by omega) (by omega) (by omega), hcount,
    heach, getLastD_replicate_zero hpos]

/-- Nothing to read. -/
theorem readFT_empty (fuel : ℕ) {s e : ℤ} (hlt : e < s) (dl : ℤ) :
    readFT Bus.twi (device port) frames fuel s e dl w = some (w, 1) := by
  rw [readFT, readRange_eq, if_pos (Or.inl hlt)]

theorem readAll_strings (frames : ℤ → Frame) {strings : List CString} (hall : strings.length = 2044)
    (h : HoldStrings w.bus port 0 strings) {fuel : ℕ} (hfuel : 2044 < fuel) :
    ∃ w', readAll Bus.twi (device port) frames fuel w = some (w', 0) ∧
      w'.serial = w.serial ++ texts strings := by
  obtain ⟨w', heach, -, hserial⟩ := readEach_strings frames (by omega) h
  rw [hall] at heach
  refine ⟨w', ?_, hserial⟩
  rw [readAll, readLoop_eq (n := 2044) (by omega) (by omega) _ _ hfuel]
  · have hzero : ((0 : ℕ) : ℤ) = 0 := rfl
    rw [hzero] at heach
    rw [heach, getLastD_replicate_zero (by decide)]
  · intro k hk
    apply decide_eq_true
    omega
  · apply decide_eq_false
    omega

/-! ## After any number of calls -/

theorem Logged.holdStrings {b b' : Bus} {calls : AutoCalls} (h : Logged port b b' calls) {i n : ℕ}
    (hend : i + n ≤ calls.length) (hwindow : calls.length ≤ i + 2044)
    (hslots : i % 2044 + n ≤ 2044) :
    HoldStrings b' port (i % 2044) (((calls.drop i).take n).map Prod.snd) := by
  intro j hj
  rw [List.length_map] at hj
  have hheld := h.window.slots hend hwindow hslots hj
  simpa using hheld

/-- The older and the newer strings in a log that has started over. -/
def older (calls : AutoCalls) : List CString :=
  ((calls.drop (calls.length - 2044)).take (2044 - calls.length % 2044)).map Prod.snd

def newer (calls : AutoCalls) : List CString :=
  (calls.drop (calls.length - calls.length % 2044)).map Prod.snd

section Laps

variable {calls : AutoCalls} (hlong : 2044 ≤ calls.length)

include hlong

theorem length_older : (older calls).length = 2044 - calls.length % 2044 := by
  rw [older, List.length_map, List.length_take, List.length_drop]
  omega

omit hlong in
theorem length_newer : (newer calls).length = calls.length % 2044 := by
  have hle := Nat.mod_le calls.length 2044
  rw [newer, List.length_map, List.length_drop]
  omega

theorem older_append_newer :
    older calls ++ newer calls = (calls.drop (calls.length - 2044)).map Prod.snd := by
  have hsplit : calls.length - calls.length % 2044 =
      calls.length - 2044 + (2044 - calls.length % 2044) := by
    have hmod := Nat.mod_lt calls.length (show 0 < 2044 by decide)
    omega
  rw [older, newer, ← List.map_append, hsplit, ← List.drop_drop, List.take_append_drop]

theorem Logged.holdStrings_older {b b' : Bus} (h : Logged port b b' calls) :
    HoldStrings b' port (calls.length % 2044) (older calls) := by
  have hmod := Nat.mod_lt calls.length (show 0 < 2044 by decide)
  have hslot : (calls.length - 2044) % 2044 = calls.length % 2044 := by
    rw [← Nat.mod_eq_sub_mod hlong]
  have hhold := h.holdStrings (i := calls.length - 2044) (n := 2044 - calls.length % 2044)
    (by omega) (by omega) (by omega)
  rwa [hslot] at hhold

omit hlong in
theorem Logged.holdStrings_newer {b b' : Bus} (h : Logged port b b' calls) :
    HoldStrings b' port 0 (newer calls) := by
  have hmod := Nat.mod_lt calls.length (show 0 < 2044 by decide)
  have hle := Nat.mod_le calls.length 2044
  have hslot : (calls.length - calls.length % 2044) % 2044 = 0 :=
    Nat.sub_mod_eq_zero_of_mod_eq (Nat.mod_mod _ _).symm
  have hhold := h.holdStrings (i := calls.length - calls.length % 2044)
    (n := calls.length % 2044) (by omega) (by omega) (by omega)
  rw [hslot, List.take_of_length_le (by rw [List.length_drop]; omega)] at hhold
  exact hhold

end Laps

/-- The strings come back: after `Reset` and any number of calls of `WriteAuto`, reading from
the first record to the last one written, or, when the log has started over, from the record
number that `get_addr` gives to the last record and then from the first one on, prints the
strings of the last 2044 calls, the oldest first. -/
theorem log_readBack (w : World Bus) (port : Fin 8) (f : Frame) (calls : AutoCalls)
    (hs : ∀ c ∈ calls, c.2.chars.length ≤ 31) (frames : ℤ → Frame) (dl : ℤ) (fuel : ℕ)
    (hfuel : 2044 < fuel) :
    ∃ w₀ w', reset Bus.twi (device port) f DEVLOCK w = .ok w₀ ∧
      writeAutoAll port w₀ calls = .ok (w', List.replicate calls.length 0) ∧
      (∀ g, (getAddr Bus.twi (device port) g w').2 = (calls.length % 2044 : ℕ)) ∧
      (calls.length < 2044 → ∃ v rc,
        readFT Bus.twi (device port) frames fuel 0 (calls.length - 1) dl w' = some (v, rc) ∧
        (rc = 0 ↔ calls ≠ []) ∧ v.serial = w'.serial ++ texts (calls.map Prod.snd)) ∧
      (2044 ≤ calls.length → ∃ v₁ v₂ rc,
        readFT Bus.twi (device port) frames fuel (calls.length % 2044 : ℕ) 2043 dl w' =
          some (v₁, 0) ∧
        readFT Bus.twi (device port) frames fuel 0 ((calls.length % 2044 : ℕ) - 1) dl v₁ =
          some (v₂, rc) ∧
        (rc = 0 ↔ calls.length % 2044 ≠ 0) ∧
        v₂.serial = w'.serial ++ texts ((calls.drop (calls.length - 2044)).map Prod.snd)) ∧
      (2044 ≤ calls.length → ∃ v, readAll Bus.twi (device port) frames fuel w' = some (v, 0) ∧
        v.serial = w'.serial ++ texts (newer calls) ++ texts (older calls)) := by
  obtain ⟨w₀, hreset, hzero, -⟩ := reset_spec port f w
  obtain ⟨w', hcalls, hlog⟩ := writeAutoAll_spec port w₀ calls hzero hs
  refine ⟨w₀, w', hreset, hcalls, fun g => ?_, fun hshort => ?_, fun hlong => ?_, fun hlong => ?_⟩
  · obtain ⟨w'', hget, -⟩ := getAddr_spec g (Nat.mod_lt _ (by decide)) hlog.counts
    rw [hget]
  · by_cases hnil : calls = []
    · subst hnil
      exact ⟨w', 1, readFT_empty fuel (by decide) dl, by simp, by simp [texts]⟩
    · have hhold := hlog.holdStrings (i := 0) (n := calls.length) (by omega) (by omega) (by omega)
      rw [List.drop_zero, List.take_length, Nat.zero_mod] at hhold
      obtain ⟨v, hread, -, hserial⟩ := readFT_strings frames (by simpa using hnil)
        (by rw [List.length_map]; omega) hhold (show _ < fuel by rw [List.length_map]; omega) dl
      rw [List.length_map] at hread
      refine ⟨v, 0, ?_, by simp [hnil], hserial⟩
      simpa using hread
  · have hmod := Nat.mod_lt calls.length (show 0 < 2044 by decide)
    have holder := length_older hlong
    have hcount : (newer calls).length = calls.length % 2044 := length_newer
    obtain ⟨v₁, hfirst, hmemory, hserial₁⟩ := readFT_strings frames
      (List.ne_nil_of_length_pos (by omega)) (by omega) (hlog.holdStrings_older hlong)
      (show _ < fuel by omega) dl
    have hend : ((calls.length % 2044 : ℕ) + (older calls).length - 1 : ℤ) = 2043 := by omega
    rw [hend] at hfirst
    rw [← older_append_newer hlong, texts, List.flatMap_append]
    by_cases hlap : calls.length % 2044 = 0
    · have hnil : newer calls = [] := List.eq_nil_of_length_eq_zero (by omega)
      refine ⟨v₁, v₁, 1, hfirst, readFT_empty fuel (by omega) dl, by simp [hlap], ?_⟩
      rw [hserial₁, hnil, List.flatMap_nil, List.append_nil]
      rfl
    · obtain ⟨v₂, hsecond, -, hserial₂⟩ := readFT_strings frames (w := v₁)
        (List.ne_nil_of_length_pos (by omega)) (by omega)
        (hlog.holdStrings_newer.congr hmemory) (show _ < fuel by omega) dl
      have hend' : ((0 : ℕ) + (newer calls).length - 1 : ℤ) = (calls.length % 2044 : ℕ) - 1 := by
        omega
      rw [hend'] at hsecond
      refine ⟨v₁, v₂, 0, hfirst, hsecond, by simp [hlap], ?_⟩
      rw [hserial₂, hserial₁, List.append_assoc]
      rfl
  · have hmod := Nat.mod_lt calls.length (show 0 < 2044 by decide)
    have holder := length_older hlong
    have hcount : (newer calls).length = calls.length % 2044 := length_newer
    have hall : HoldStrings w'.bus port 0 (newer calls ++ older calls) := by
      refine hlog.holdStrings_newer.append ?_
      rw [Nat.zero_add, hcount]
      exact hlog.holdStrings_older hlong
    obtain ⟨v, hread, hserial⟩ :=
      readAll_strings frames (by rw [List.length_append]; omega) hall hfuel
    refine ⟨v, hread, ?_⟩
    rw [hserial, texts, List.flatMap_append, List.append_assoc]
    rfl

theorem texts_oneLap :
    texts ((oneLap.drop 1).map Prod.snd) = List.replicate 2043 65 ++ [66, 67] := by
  have hdrop : ∀ n : ℕ, ∀ c c' : Frames × CString, c.2.chars = [65] → c'.2.chars = [66, 67] →
      texts (((List.replicate n c ++ [c']).map) Prod.snd) = List.replicate n 65 ++ [66, 67] := by
    intro n c c' hc hc'
    induction n with
    | zero => simp [texts, hc']
    | succ n ih =>
        simp only [texts, List.replicate_succ, List.cons_append, List.map_cons,
          List.flatMap_cons] at ih ⊢
        rw [ih, hc]
        rfl
  rw [oneLap, List.drop_append_of_le_length (by rw [List.length_replicate]; decide),
    List.drop_replicate]
  exact hdrop 2043 _ _ rfl rfl

theorem log_readBack_oneLap :
    ∃ w₀ w' v₁ v₂, reset Bus.twi (device 3) ⟨fun _ => 0, []⟩ DEVLOCK erased = .ok w₀ ∧
      writeAutoAll 3 w₀ oneLap = .ok (w', List.replicate 2045 0) ∧
      readFT Bus.twi (device 3) (fun _ => ⟨fun _ => 9, []⟩) 2045 1 2043 0 w' = some (v₁, 0) ∧
      readFT Bus.twi (device 3) (fun _ => ⟨fun _ => 9, []⟩) 2045 0 0 0 v₁ = some (v₂, 0) ∧
      v₂.serial = w'.serial ++ (List.replicate 2043 65 ++ [66, 67]) := by
  have hs : ∀ c ∈ oneLap, c.2.chars.length ≤ 31 := by
    intro c hc
    rcases List.mem_append.mp hc with hc | hc
    · obtain rfl := List.eq_of_mem_replicate hc
      decide
    · obtain rfl := List.mem_singleton.mp hc
      decide
  obtain ⟨w₀, w', hreset, hcalls, -, -, hlaps, -⟩ :=
    log_readBack erased 3 ⟨fun _ => 0, []⟩ oneLap hs
    (fun _ => ⟨fun _ => 9, []⟩) 0 2045 (by decide)
  rw [oneLap_length] at hcalls hlaps
  obtain ⟨v₁, v₂, rc, hfirst, hsecond, hrc, hserial⟩ := hlaps (by decide)
  obtain rfl : rc = 0 := hrc.mpr (by decide)
  refine ⟨w₀, w', v₁, v₂, hreset, hcalls, hfirst, hsecond, ?_⟩
  rw [hserial, ← texts_oneLap]

end EmbeddedKernel.DataLog
