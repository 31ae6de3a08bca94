import EmbeddedKernel.DataLog.PageStore
import EmbeddedKernel.Library.CircularBuffer

/-!
# The log that starts over

`WriteAuto` writes to the record whose number is stored as four decimal digits at
`L_ADDR`, and `upd_addr` moves this number on, from 2043 back to 0.  `Reset`
writes `"0000"` there, as the record 2044.
-/

namespace EmbeddedKernel.DataLog

open Iic Library

/-! ## The counter -/

theorem ofChar_digit {x : ℤ} (hpos : 0 ≤ x) (hle : x ≤ 9) :
    Avr.ofChar (Avr.toUChar (x + 48)) = x + 48 := by
  have hchar := Avr.toNat_toUChar (x + 48)
  unfold Avr.ofChar
  split_ifs with hlt <;> omega

/-- A decimal digit of the counter, from the first one on. -/
def digit (k : ℕ) : ℕ → ℤ
  | 0 => k / 10 / 10 / 10 % 10
  | 1 => k / 10 / 10 % 10
  | 2 => k / 10 % 10
  | _ => k % 10

theorem digit_mem (k i : ℕ) : 0 ≤ digit k i ∧ digit k i ≤ 9 := by
  unfold digit
  split <;> omega

theorem encode_eq_digit (k : ℕ) {i : ℕ} (hi : i < 4) :
    encode k i = Avr.toUChar (digit k i + 48) := by
  interval_cases i <;> rfl

theorem decode_digits {data : ℕ → UInt8} {d : ℕ → ℤ} (hd : ∀ i, 0 ≤ d i ∧ d i ≤ 9)
    (hdata : ∀ i < 4, data i = Avr.toUChar (d i + 48)) :
    decode data = 1000 * d 0 + 100 * d 1 + 10 * d 2 + d 3 := by
  have hzero := hd 0
  have hone := hd 1
  have htwo := hd 2
  have hthree := hd 3
  unfold decode
  rw [hdata 0 (by decide), hdata 1 (by decide), hdata 2 (by decide), hdata 3 (by decide),
    ofChar_digit hzero.1 hzero.2, ofChar_digit hone.1 hone.2, ofChar_digit htwo.1 htwo.2,
    ofChar_digit hthree.1 hthree.2]
  simp (disch := omega) only [add_sub_cancel_right, Avr.wrap16_of_mem]
  omega

/-- The counter is read as it was written. -/
theorem decode_encode {k : ℕ} (hk : k < 2044) {data : ℕ → UInt8}
    (hdata : ∀ i < 4, data i = encode k i) : decode data = k := by
  rw [decode_digits (digit_mem k) fun i hi => (hdata i hi).trans (encode_eq_digit k hi)]
  simp only [digit]
  omega

theorem nextAddr_eq {k : ℕ} (hk : k < 2044) : nextAddr k = ((k + 1) % 2044 : ℕ) := by
  have hwrap : Avr.wrap16 ((k : ℤ) + 1) = k + 1 := Avr.wrap16_of_mem (by omega) (by omega)
  unfold nextAddr
  rw [hwrap]
  split_ifs with hlast <;> omega

/-- The record number of `WriteAuto` for a value of the counter. -/
def autoPage (v : ℤ) : ℤ := if v ≥ 2044 then 0 else v

theorem autoPage_lt (v : ℤ) : autoPage v < 2044 := by
  unfold autoPage
  split_ifs <;> omega

/-- The counter at a port is `k`. -/
def Counts (b : Bus) (port : Fin 8) (k : ℕ) : Prop :=
  ∀ i < 4, b.memory port (0xff80 + i) = encode k i

/-- The counter has the same digits. -/
def SameCell (b b' : Bus) (port : Fin 8) : Prop :=
  ∀ i < 4, b'.memory port (0xff80 + i) = b.memory port (0xff80 + i)

variable {port : Fin 8} {k : ℕ} {w : World Bus}

theorem L_ADDR_bytes :
    (Avr.toUChar (L_ADDR / 256)).toNat * 256 + (Avr.toUChar L_ADDR).toNat = 0xff80 := by
  decide

theorem getAddr_spec (f : Frame) (hk : k < 2044) (hcount : Counts w.bus port k) :
    ∃ w', getAddr Bus.twi (device port) f w = (w', (k : ℤ)) ∧
      ∀ q, w'.bus.memory q = w.bus.memory q := by
  obtain ⟨b', b'', buffer, hwrite, hread, hmemory, hbuffer⟩ :=
    memory_iicRead port w.bus (Avr.toUChar (L_ADDR / 256)) (Avr.toUChar L_ADDR) f.junk (n := 4)
      (by rw [L_ADDR_bytes]; decide)
  rw [L_ADDR_bytes] at hbuffer
  have hdecode : decode buffer = k :=
    decode_encode hk fun i hi => (hbuffer i hi).trans (hcount i hi)
  refine ⟨World.println ⟨b'', w.serial⟩ (printed ((List.range 4).map buffer) f.beyond), ?_,
    hmemory⟩
  simp only [getAddr, hwrite, hread, hdecode]

theorem updAddr_spec (f : Frame) (w : World Bus) (port : Fin 8) (hk : k < 2044) :
    ∃ w', updAddr Bus.twi (device port) f k w = w' ∧
      Counts w'.bus port ((k + 1) % 2044) ∧
      ∀ a < 0xff80, w'.bus.memory port a = w.bus.memory port a := by
  obtain ⟨b', hwrite, hself, -, -⟩ :=
    memory_iicWrite port w.bus (Avr.toUChar (L_ADDR / 256)) (Avr.toUChar L_ADDR)
      (encode (nextAddr k)) (show (6 : UInt16).toNat = 4 + 2 from rfl)
      (by rw [L_ADDR_bytes]; decide)
  rw [L_ADDR_bytes] at hself
  refine ⟨_, rfl, ?_, ?_⟩
  · intro i hi
    simp only [updAddr, World.print, World.println, hwrite]
    rw [hself, if_pos (by omega), Nat.add_sub_cancel_left, nextAddr_eq hk]
  · intro a ha
    simp only [updAddr, World.print, World.println, hwrite]
    rw [hself, if_neg (by omega)]

/-! ## One call -/

/-- A call of `WriteAuto` for the record `k`: the three functions it calls, with only output
in between.  The first two leave the counter as it is. -/
def AutoCall (port : Fin 8) (fs : Frames) (data : CString) (k : ℕ) (w w' : World Bus) : Prop :=
  ∃ w₁ w₂ w₃ w₄ : World Bus,
    getAddr Bus.twi (device port) fs.getAddr w = (w₁, (k : ℤ)) ∧
    SameCell w.bus w₁.bus port ∧
    w₂.bus = w₁.bus ∧
    write Bus.twi (device port) fs.write k data 0 w₂ = .ok (w₃, 0) ∧
    SameCell w₂.bus w₃.bus port ∧
    w₄.bus = w₃.bus ∧
    w' = updAddr Bus.twi (device port) fs.updAddr k w₄

theorem writeAuto_spec (fs : Frames) {data : CString} (hs : data.chars.length ≤ 31)
    (hk : k < 2044) (hcount : Counts w.bus port k) :
    ∃ w', writeAuto Bus.twi (device port) fs data w = .ok (w', 0) ∧
      AutoCall port fs data k w w' ∧ Counts w'.bus port ((k + 1) % 2044) ∧
      HoldsString w'.bus port k data ∧
      ∀ p < 2044, p ≠ k → SamePage w.bus w'.bus port p := by
  have hnot : ¬(k : ℤ) ≥ 2044 := by omega
  obtain ⟨w₁, hget, hread⟩ := getAddr_spec fs.getAddr hk hcount
  -- between the calls only the serial output changes
  set w₂ : World Bus := ((((w₁.print (ascii "WriteAuto - addr1: ")).println
    (ascii (toString (k : ℤ)))).print (ascii "WriteAuto - addr2: ")).println
    (ascii (toString (k : ℤ)))) with hw₂
  obtain ⟨w₃, hwrite, hstored, -⟩ :=
    write_spec port fs.write data 0 w₂ (show k ≤ 2047 by omega) (Or.inl (by omega)) hs
  set w₄ : World Bus := (w₃.print (ascii "WriteAuto - writing result: ")).println
    (ascii (toString (0 : ℤ))) with hw₄
  obtain ⟨w', hupdate, hnext, hbelow⟩ := updAddr_spec fs.updAddr w₄ port hk
  have hrecords : ∀ p < 2044, SamePage w₃.bus w'.bus port p :=
    fun p hp i hi => hbelow (32 * p + i) (by omega)
  refine ⟨w', ?_, ⟨w₁, w₂, w₃, w₄, hget, ?_, rfl, hwrite, ?_, rfl, hupdate.symm⟩, hnext, ?_, ?_⟩
  · simp only [writeAuto, hget, hnot, if_false, ← hw₂, hwrite, ok_bind, ← hw₄, if_true, hupdate]
  · intro i _
    rw [hread]
  · intro i _
    exact hstored.above _ (by omega)
  · exact HoldsString.congr ⟨hs, fs.write.junk, hstored.self⟩ (hrecords k hk)
  · intro p hp hne i hi
    have hkept : SamePage w₂.bus w₃.bus port p := hstored.samePage fun h => hne h.2.symm
    rw [hrecords p hp i hi, hkept i hi]
    exact congrFun (hread port) _

theorem reset_spec (port : Fin 8) (f : Frame) (w : World Bus) :
    ∃ w₀, reset Bus.twi (device port) f DEVLOCK w = .ok w₀ ∧ Counts w₀.bus port 0 ∧
      ∀ p < 2044, SamePage w.bus w₀.bus port p := by
  obtain ⟨w₀, hwrite, hstored, -⟩ :=
    write_spec port f zeros DEVLOCK w (show 2044 ≤ 2047 by decide) (Or.inr rfl) (by decide)
  refine ⟨w₀, ?_, ?_, ?_⟩
  · have hrecord : write Bus.twi (device port) f 2044 zeros DEVLOCK w = .ok (w₀, 0) := hwrite
    simp only [reset, hrecord, ok_bind]
  · intro i hi
    have hdigit : ∀ i < 4, strcpy zeros f.junk i = encode (0 : ℕ) i := by
      intro i hi
      interval_cases i <;> rfl
    rw [hstored.self i (by omega), hdigit i hi]
  · intro p hp
    apply hstored.samePage
    rintro ⟨-, rfl⟩
    omega

/-! ## Any number of calls -/

/-- Calls of `WriteAuto` with their frames and strings. -/
abbrev AutoCalls := List (Frames × CString)

def writeAutoAll (port : Fin 8) (w : World Bus) (calls : AutoCalls) :
    Except Stop (World Bus × List ℤ) :=
  callAll (fun w c => writeAuto Bus.twi (device port) c.1 c.2 w) w calls

/-- The strings of the calls are the last entries of the log. -/
structure Logged (port : Fin 8) (b b' : Bus) (calls : AutoCalls) : Prop where
  counts : Counts b' port (calls.length % 2044)
  window : Window 2044 (fun p c => HoldsString b' port p c.2) calls
  unused : ∀ p < 2044, calls.length ≤ p → SamePage b b' port p

theorem writeAutoAll_spec (port : Fin 8) (w : World Bus) (calls : AutoCalls)
    (hcount : Counts w.bus port 0) (hs : ∀ c ∈ calls, c.2.chars.length ≤ 31) :
    ∃ w', writeAutoAll port w calls = .ok (w', List.replicate calls.length 0) ∧
      Logged port w.bus w'.bus calls := by
  -- from the right: the last call finds the log of the calls before it
  induction calls using List.reverseRecOn with
  | nil => exact ⟨w, rfl, hcount, window_nil, fun _ _ _ _ _ => rfl⟩
  | append_singleton calls c ih =>
      obtain ⟨w₁, hcalls, hlog⟩ := ih fun c' hc' => hs c' (List.mem_append_left _ hc')
      have hk : calls.length % 2044 < 2044 := Nat.mod_lt _ (by decide)
      obtain ⟨w', hauto, -, hnext, hholds, hkept⟩ :=
        writeAuto_spec c.1 (hs c (by simp)) hk hlog.counts
      refine ⟨w', ?_, ?_, ?_, ?_⟩
      · rw [List.length_append, List.length_singleton, List.replicate_succ']
        exact callAll_concat hcalls hauto
      · rwa [List.length_append, List.length_singleton, ← Nat.mod_add_mod]
      · exact hlog.window.concat hholds fun p hp hne c' hc' => hc'.congr (hkept p hp hne)
      · intro p hp hle i hi
        rw [List.length_append, List.length_singleton] at hle
        have hne : p ≠ calls.length % 2044 := by omega
        exact (hkept p hp hne i hi).trans (hlog.unused p hp (by omega) i hi)

/-- The log is circular: after `Reset` and any number of calls of `WriteAuto`, which all return
0, the counter is their number modulo 2044, the last 2044 strings are in the records they
were written to, and records that no call wrote to are as they were.  In each call the
counter is changed by `upd_addr` only. -/
theorem writeAuto_circular (w : World Bus) (port : Fin 8) (f : Frame) (calls : AutoCalls)
    (hs : ∀ c ∈ calls, c.2.chars.length ≤ 31) :
    ∃ w₀ w', reset Bus.twi (device port) f DEVLOCK w = .ok w₀ ∧
      writeAutoAll port w₀ calls = .ok (w', List.replicate calls.length 0) ∧
      (∀ g, (getAddr Bus.twi (device port) g w').2 = (calls.length % 2044 : ℕ)) ∧
      (∀ i (hi : i < calls.length), calls.length ≤ i + 2044 →
        HoldsString w'.bus port (i % 2044) (calls.get ⟨i, hi⟩).2) ∧
      (∀ p < 2044, (∀ i < calls.length, i % 2044 ≠ p) → SamePage w.bus w'.bus port p) ∧
      ∀ i (hi : i < calls.length), ∃ wᵢ wᵢ' rs rs',
        writeAutoAll port w₀ (calls.take i) = .ok (wᵢ, rs) ∧
        writeAutoAll port w₀ (calls.take (i + 1)) = .ok (wᵢ', rs') ∧
        AutoCall port (calls.get ⟨i, hi⟩).1 (calls.get ⟨i, hi⟩).2 (i % 2044) wᵢ wᵢ' := by
  obtain ⟨w₀, hreset, hzero, hrecords⟩ := reset_spec port f w
  obtain ⟨w', hcalls, hlog⟩ := writeAutoAll_spec port w₀ calls hzero hs
  refine ⟨w₀, w', hreset, hcalls, fun g => ?_, hlog.window, fun p hp hunused => ?_, ?_⟩
  · obtain ⟨w'', hget, -⟩ := getAddr_spec g (Nat.mod_lt _ (by decide)) hlog.counts
    rw [hget]
  · intro i hi
    rw [hlog.unused p hp ((unused_iff hp).mp hunused) i hi, hrecords p hp i hi]
  · intro i hi
    obtain ⟨wᵢ, hrun, hlogᵢ⟩ := writeAutoAll_spec port w₀ (calls.take i) hzero
      fun c hc => hs c (List.mem_of_mem_take hc)
    have hlength : (calls.take i).length = i := List.length_take_of_le hi.le
    have hcount : Counts wᵢ.bus port (i % 2044) := hlength ▸ hlogᵢ.counts
    obtain ⟨wᵢ', hauto, hcall, -⟩ := writeAuto_spec (calls.get ⟨i, hi⟩).1
      (hs _ (List.get_mem calls ⟨i, hi⟩)) (Nat.mod_lt i (by decide)) hcount
    have hnext : writeAutoAll port w₀ (calls.take (i + 1)) =
        .ok (wᵢ', List.replicate (calls.take i).length 0 ++ [0]) := by
      rw [List.take_succ_eq_append_getElem hi]
      exact callAll_concat hrun hauto
    exact ⟨wᵢ, wᵢ', _, _, hrun, hnext, hcall⟩

/-- A lap of equal strings and one more. -/
def oneLap : AutoCalls :=
  List.replicate 2044 (⟨⟨fun _ => 1, []⟩, ⟨fun _ => 2, []⟩, ⟨fun _ => 3, []⟩⟩, ⟨[65], by decide⟩) ++
    [(⟨⟨fun _ => 4, []⟩, ⟨fun _ => 5, []⟩, ⟨fun _ => 6, []⟩⟩, ⟨[66, 67], by decide⟩)]

theorem oneLap_length : oneLap.length = 2045 := by
  rw [oneLap, List.length_append, List.length_replicate, List.length_singleton]

theorem writeAuto_circular_oneLap :
    ∃ w₀ w', reset Bus.twi (device 3) ⟨fun _ => 0, []⟩ DEVLOCK erased = .ok w₀ ∧
      writeAutoAll 3 w₀ oneLap = .ok (w', List.replicate 2045 0) ∧
      (∀ g, (getAddr Bus.twi (device 3) g w').2 = 1) ∧
      HoldsString w'.bus 3 0 ⟨[66, 67], by decide⟩ := by
  have hs : ∀ c ∈ oneLap, c.2.chars.length ≤ 31 := by
    intro c hc
    rcases List.mem_append.mp hc with hc | hc
    · obtain rfl := List.eq_of_mem_replicate hc
      decide
    · obtain rfl := List.mem_singleton.mp hc
      decide
  obtain ⟨w₀, w', hreset, hcalls, haddr, hholds, -⟩ :=
    writeAuto_circular erased 3 ⟨fun _ => 0, []⟩ oneLap hs
  rw [oneLap_length] at hcalls haddr
  refine ⟨w₀, w', hreset, hcalls, haddr, ?_⟩
  have hi : 2044 < oneLap.length := by rw [oneLap_length]; decide
  have hlast : (oneLap.get ⟨2044, hi⟩).2 = ⟨[66, 67], by decide⟩ := by
    rw [List.get_eq_getElem]
    unfold oneLap
    rw [List.getElem_append_right (by rw [List.length_replicate])]
    simp only [List.length_replicate, Nat.sub_self, List.getElem_singleton]
  exact hlast ▸ hholds 2044 hi (by rw [oneLap_length]; decide)

end EmbeddedKernel.DataLog
