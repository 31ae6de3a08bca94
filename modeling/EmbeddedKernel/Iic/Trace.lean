import EmbeddedKernel.Iic.Driver
import EmbeddedKernel.Library.Run

/-!
# Transfers under arbitrary statuses

The two-wire unit as an oracle: each completed wait leaves some status in `TWSR`
and, after a reception, some byte in `TWDR`.  The driver's operations on it are
recorded.  A transfer goes on up to the first byte with a bad status, and once the
START test has passed it ends with a STOP on every path.
-/

namespace EmbeddedKernel.Iic

open Library

/-- The registers after each completed wait. -/
structure Oracle where
  twsr : ℕ → UInt8
  twdr : ℕ → UInt8

/-- The unit of an oracle; its state is the number of waits for `TWINT` so far. -/
def Oracle.twi (o : Oracle) : Twi ℕ where
  start t := (o.twsr t, t + 1)
  send _ t := (o.twsr t, t + 1)
  receive _ t := (o.twsr t, o.twdr t, t + 1)
  stop t := t

def operations (x : ℕ × List (ℕ × Operation)) : List Operation := x.2.map Prod.snd

/-- Of `n` bytes, `m` are attempted: all of them if all are good, and otherwise those up to and
with the first bad one. -/
def Attempted (good : ℕ → Prop) (n m : ℕ) : Prop :=
  (m = n ∧ ∀ i < n, good i) ∨ ∃ k < n, m = k + 1 ∧ ¬good k ∧ ∀ i < k, good i

/-- The status that `n` such bytes give. -/
def Reported (good : ℕ → Prop) (n : ℕ) (rc : ℤ) : Prop :=
  (rc = 0 ∧ ∀ i < n, good i) ∨ rc = -2 ∧ ¬∀ i < n, good i

variable {good : ℕ → Prop} {n m : ℕ} {rc : ℤ}

theorem forall_lt_succ_of_zero (hzero : good 0) :
    (∀ i < n + 1, good i) ↔ ∀ i < n, good (i + 1) := by
  constructor
  · intro h i hi
    exact h (i + 1) (by omega)
  · intro h i hi
    cases i with
    | zero => exact hzero
    | succ i => exact h i (by omega)

theorem Attempted.succ (h : Attempted (fun i => good (i + 1)) n m) (hzero : good 0) :
    Attempted good (n + 1) (m + 1) := by
  rcases h with ⟨rfl, hall⟩ | ⟨k, hk, rfl, hbad, hbefore⟩
  · exact Or.inl ⟨rfl, (forall_lt_succ_of_zero hzero).mpr hall⟩
  · exact Or.inr ⟨k + 1, by omega, rfl, hbad, (forall_lt_succ_of_zero hzero).mpr hbefore⟩

theorem attempted_one (n : ℕ) (hzero : ¬good 0) : Attempted good (n + 1) 1 :=
  Or.inr ⟨0, by omega, rfl, hzero, by omega⟩

theorem Attempted.le (h : Attempted good n m) : m ≤ n := by
  rcases h with ⟨rfl, -⟩ | ⟨k, hk, rfl, -⟩ <;> omega

theorem Reported.succ (h : Reported (fun i => good (i + 1)) n rc) (hzero : good 0) :
    Reported good (n + 1) rc := by
  unfold Reported at *
  rwa [forall_lt_succ_of_zero hzero]

theorem reported_refused (n : ℕ) (hzero : ¬good 0) : Reported good (n + 1) (-2) :=
  Or.inr ⟨rfl, fun hall => hzero (hall 0 (by omega))⟩

theorem Reported.eq_zero_iff (h : Reported good n rc) : rc = 0 ↔ ∀ i < n, good i := by
  rcases h with ⟨rfl, hall⟩ | ⟨rfl, hnot⟩
  · exact iff_of_true rfl hall
  · exact iff_of_false (by decide) hnot

theorem Reported.zero_or (h : Reported good n rc) : rc = 0 ∨ rc = -2 := by
  rcases h with ⟨rfl, -⟩ | ⟨rfl, -⟩
  · exact Or.inl rfl
  · exact Or.inr rfl

/-- The course of a transfer: without its address acknowledged nothing is attempted. -/
def Course (addressed : Prop) (good : ℕ → Prop) (n m : ℕ) (rc : ℤ) : Prop :=
  (addressed ∧ Attempted good n m ∧ Reported good n rc) ∨ ¬addressed ∧ m = 0 ∧ rc = -2

namespace Course

variable {addressed : Prop}

theorem attempted (h : Course addressed good n m rc) (haddr : addressed) : Attempted good n m := by
  rcases h with ⟨-, hm, -⟩ | ⟨hnot, -⟩
  · exact hm
  · exact (hnot haddr).elim

theorem eq_zero_of_not (h : Course addressed good n m rc) (hnot : ¬addressed) : m = 0 := by
  rcases h with ⟨haddr, -⟩ | ⟨-, hm, -⟩
  · exact (hnot haddr).elim
  · exact hm

theorem result_iff (h : Course addressed good n m rc) :
    rc = 0 ↔ addressed ∧ ∀ i < n, good i := by
  rcases h with ⟨haddr, -, hrc⟩ | ⟨hnot, -, rfl⟩
  · rw [hrc.eq_zero_iff]
    exact ⟨fun hall => ⟨haddr, hall⟩, fun hall => hall.2⟩
  · exact iff_of_false (by decide) fun hall => hnot hall.1

theorem result_or (h : Course addressed good n m rc) : rc = 0 ∨ rc = -2 := by
  rcases h with ⟨-, -, hrc⟩ | ⟨-, -, hrc⟩
  · exact hrc.zero_or
  · exact Or.inr hrc

end Course

/-! ## Bytes sent -/

/-- Byte `i` of the data sent from time `t` on is acknowledged. -/
def Oracle.Acked (o : Oracle) (t i : ℕ) : Prop := o.twsr (t + i) &&& 0xf8 = 0x28

/-- Byte `i` of the data requested from time `t` on is accepted. -/
def Oracle.Accepted (o : Oracle) (t i : ℕ) : Prop :=
  o.twsr (t + i) &&& 0xf8 = 0x50 ∨ o.twsr (t + i) &&& 0xf8 = 0x58

instance (o : Oracle) (t i : ℕ) : Decidable (o.Acked t i) :=
  inferInstanceAs (Decidable (_ = _))

instance (o : Oracle) (t i : ℕ) : Decidable (o.Accepted t i) :=
  inferInstanceAs (Decidable (_ ∨ _))

variable (o : Oracle)

theorem Oracle.acked_succ (t : ℕ) : o.Acked (t + 1) = fun i => o.Acked t (i + 1) := by
  funext i
  rw [Acked, Acked, Nat.add_right_comm t 1 i]
  rfl

theorem Oracle.accepted_succ (t : ℕ) : o.Accepted (t + 1) = fun i => o.Accepted t (i + 1) := by
  funext i
  rw [Accepted, Accepted, Nat.add_right_comm t 1 i]
  rfl

theorem Oracle.recorded_start (t : ℕ) (log : List (ℕ × Operation)) :
    (recorded o.twi).start (t, log) =
      (o.twsr t, t + 1, log ++ [(t, Operation.start)]) := by
  simp [twi]

theorem sendList_oracle (xs : List UInt8) (t : ℕ) (log : List (ℕ × Operation)) :
    ∃ m rc new, sendList (recorded o.twi) xs (t, log) = ((t + m, log ++ new), rc) ∧
      new.map Prod.snd = (xs.take m).map Operation.send ∧
      Attempted (o.Acked t) xs.length m ∧ Reported (o.Acked t) xs.length rc := by
  induction xs generalizing t log with
  | nil =>
      refine ⟨0, 0, [], ?_, rfl, Or.inl ⟨rfl, by simp⟩, Or.inl ⟨rfl, by simp⟩⟩
      simp [sendList]
  | cons x xs ih =>
      have hsend : (recorded o.twi).send x (t, log) =
          (o.twsr t, t + 1, log ++ [(t, Operation.send x)]) := rfl
      by_cases hack : o.Acked t 0
      · obtain ⟨m, rc, new, hrest, hnew, hm, hrc⟩ := ih (t + 1) (log ++ [(t, Operation.send x)])
        rw [o.acked_succ] at hm hrc
        refine ⟨m + 1, rc, (t, Operation.send x) :: new, ?_, ?_, hm.succ hack, hrc.succ hack⟩
        · have hgood : ¬o.twsr t &&& 0xf8 ≠ 0x28 := not_not.mpr hack
          simp only [sendList, hsend, hgood, if_false, hrest, List.append_assoc,
            List.singleton_append, Nat.add_right_comm t 1 m]
          rfl
        · simp [hnew]
      · refine ⟨1, -2, [(t, Operation.send x)], ?_, rfl, attempted_one _ hack,
          reported_refused _ hack⟩
        have hbad : o.twsr t &&& 0xf8 ≠ 0x28 := hack
        simp only [sendList, hsend]
        rw [if_pos hbad]

theorem iicWrite_of_passed (addr : UInt8) (dbytes : ℕ → UInt8) (n : UInt16) (t : ℕ)
    (log : List (ℕ × Operation)) (hstart : o.twsr t &&& 0x08 ≠ 0) :
    ∃ m rc new, iicWrite (recorded o.twi) addr dbytes n (t, log) =
        ((t + 2 + m,
          log ++ (t, Operation.start) :: (t + 1, Operation.send (addr &&& 0xfe)) :: new ++
            [(t + 2 + m, Operation.stop)]), rc) ∧
      new.map Prod.snd = (List.range m).map (fun i => Operation.send (dbytes i)) ∧
      Course (o.twsr (t + 1) &&& 0xf8 = 0x18) (o.Acked (t + 2)) n.toNat m rc := by
  have htwo : (recorded o.twi).send (addr &&& 0xfe) (t + 1, log ++ [(t, Operation.start)]) =
      (o.twsr (t + 1), t + 2,
        log ++ [(t, Operation.start)] ++ [(t + 1, Operation.send (addr &&& 0xfe))]) := rfl
  rw [iicWrite_eq]
  simp only [o.recorded_start]
  rw [if_pos hstart]
  simp only [htwo]
  by_cases haddr : o.twsr (t + 1) &&& 0xf8 = 0x18
  · obtain ⟨m, rc, new, hlist, hnew, hm, hrc⟩ :=
      sendList_oracle o ((List.range n.toNat).map dbytes) (t + 2)
        (log ++ [(t, Operation.start)] ++ [(t + 1, Operation.send (addr &&& 0xfe))])
    rw [List.length_map, List.length_range] at hm hrc
    refine ⟨m, rc, new, ?_, ?_, Or.inl ⟨haddr, hm, hrc⟩⟩
    · rw [if_pos haddr, hlist]
      simp [Oracle.twi]
    · have hle := hm.le
      rw [hnew, ← List.map_take, List.take_range, min_eq_left hle, List.map_map]
      rfl
  · refine ⟨0, -2, [], ?_, rfl, Or.inr ⟨haddr, rfl, rfl⟩⟩
    rw [if_neg haddr]
    simp [Oracle.twi]

theorem iicWrite_of_failed (addr : UInt8) (dbytes : ℕ → UInt8) (n : UInt16) (t : ℕ)
    (log : List (ℕ × Operation)) (hstart : ¬o.twsr t &&& 0x08 ≠ 0) :
    iicWrite (recorded o.twi) addr dbytes n (t, log) =
      ((t + 1, log ++ [(t, Operation.start)]), -1) := by
  rw [iicWrite_eq]
  simp only [o.recorded_start]
  exact if_neg hstart

/-- Once the START test has passed, `IICWrite` sends the address and, if that is acknowledged,
the bytes of the buffer up to the first one that is not; then comes the only STOP.  The
result is 0 exactly if everything was acknowledged, and otherwise -2. -/
theorem iicWrite_trace (o : Oracle) (addr : UInt8) (dbytes : ℕ → UInt8) (n : UInt16)
    (hstart : o.twsr 0 &&& 0x08 ≠ 0) :
    ∃ m, operations (iicWrite (recorded o.twi) addr dbytes n (0, [])).1 =
        Operation.start :: Operation.send (addr &&& 0xfe) ::
          ((List.range m).map fun i => Operation.send (dbytes i)) ++ [Operation.stop] ∧
      (o.twsr 1 &&& 0xf8 ≠ 0x18 → m = 0) ∧
      (o.twsr 1 &&& 0xf8 = 0x18 → Attempted (o.Acked 2) n.toNat m) ∧
      ((iicWrite (recorded o.twi) addr dbytes n (0, [])).2 = 0 ↔
        o.twsr 1 &&& 0xf8 = 0x18 ∧ ∀ i < n.toNat, o.Acked 2 i) ∧
      ((iicWrite (recorded o.twi) addr dbytes n (0, [])).2 = 0 ∨
        (iicWrite (recorded o.twi) addr dbytes n (0, [])).2 = -2) := by
  obtain ⟨m, rc, new, hwrite, hnew, hcourse⟩ := iicWrite_of_passed o addr dbytes n 0 [] hstart
  rw [hwrite]
  exact ⟨m, by simp [operations, hnew], hcourse.eq_zero_of_not, hcourse.attempted,
    hcourse.result_iff, hcourse.result_or⟩

def refusing : Oracle where
  twsr t := if t = 0 then 0x08 else if t = 1 then 0x18 else if t < 4 then 0x28 else 0x30
  twdr _ := 0xff

theorem iicWrite_trace_refusing :
    ∃ m, operations (iicWrite (recorded refusing.twi) 0xd1 (fun i => UInt8.ofNat i) 60000
        (0, [])).1 =
        Operation.start :: Operation.send 0xd0 ::
          ((List.range m).map fun i => Operation.send (UInt8.ofNat i)) ++ [Operation.stop] ∧
      Attempted (refusing.Acked 2) 60000 m := by
  obtain ⟨m, htrace, -, hm, -⟩ :=
    iicWrite_trace refusing 0xd1 (fun i => UInt8.ofNat i) 60000 (by decide)
  exact ⟨m, htrace, hm (by decide)⟩

/-! ## Bytes received -/

/-- The requests for the first `m` of `n` bytes; `TWEA` is set on all but that of byte `n - 1`. -/
def requests (n m : ℕ) : List Operation := (List.range m).map fun i => .receive (i ≠ n - 1)

theorem requests_succ (h : m ≤ n) :
    requests (n + 1) (m + 1) = .receive (n ≠ 0) :: requests n m := by
  unfold requests
  rw [List.range_succ_eq_map, List.map_cons, List.map_map]
  have hfirst : decide (0 ≠ n + 1 - 1) = decide (n ≠ 0) := by
    apply decide_eq_decide.mpr
    omega
  rw [hfirst]
  congr 1
  apply List.map_congr_left
  intro j hj
  have hlt := List.mem_range.mp hj
  have hlater : decide (j + 1 ≠ n + 1 - 1) = decide (j ≠ n - 1) := by
    apply decide_eq_decide.mpr
    omega
  simp only [Function.comp_apply, Nat.succ_eq_add_one, hlater]

theorem receiveList_oracle (k i : ℕ) (dbytes : ℕ → UInt8) (t : ℕ) (log : List (ℕ × Operation)) :
    ∃ m buffer rc new, receiveList (recorded o.twi) k i dbytes (t, log) =
        ((t + m, log ++ new), buffer, rc) ∧
      new.map Prod.snd = requests k m ∧
      Attempted (o.Accepted t) k m ∧ Reported (o.Accepted t) k rc ∧
      ∀ j, buffer j = if i ≤ j ∧ j < i + m ∧ o.Accepted t (j - i) then o.twdr (t + (j - i))
        else dbytes j := by
  induction k generalizing i dbytes t log with
  | zero =>
      refine ⟨0, dbytes, 0, [], ?_, rfl, Or.inl ⟨rfl, by simp⟩, Or.inl ⟨rfl, by simp⟩, ?_⟩
      · simp [receiveList]
      · intro j
        rw [if_neg (by omega)]
  | succ k ih =>
      have hreceive : (recorded o.twi).receive (k ≠ 0) (t, log) =
          (o.twsr t, o.twdr t, t + 1, log ++ [(t, Operation.receive (k ≠ 0))]) := rfl
      by_cases hack : o.Accepted t 0
      · obtain ⟨m, buffer, rc, new, hrest, hnew, hm, hrc, hbuffer⟩ :=
          ih (i + 1) (Function.update dbytes i (o.twdr t)) (t + 1)
            (log ++ [(t, Operation.receive (k ≠ 0))])
        have hle := hm.le
        rw [o.accepted_succ] at hm hrc
        refine ⟨m + 1, buffer, rc, (t, Operation.receive (k ≠ 0)) :: new, ?_, ?_, hm.succ hack,
          hrc.succ hack, fun j => ?_⟩
        · have hgood : o.twsr t &&& 0xf8 = 0x50 ∨ o.twsr t &&& 0xf8 = 0x58 := hack
          simp only [receiveList, hreceive, hgood, if_true, hrest, List.append_assoc,
            List.singleton_append, Nat.add_right_comm t 1 m]
          rfl
        · rw [List.map_cons, hnew, requests_succ hle]
        · rcases Nat.lt_trichotomy j i with hlt | rfl | hgt
          · rw [hbuffer j, if_neg (by omega), if_neg (by omega), Function.update_of_ne (by omega)]
          · rw [hbuffer j, if_neg (by omega), Function.update_self, if_pos, Nat.sub_self,
              Nat.add_zero]
            exact ⟨le_rfl, by omega, by rwa [Nat.sub_self]⟩
          · obtain ⟨d, rfl⟩ := Nat.exists_eq_add_of_lt hgt
            have hself : i + d + 1 - (i + 1) = d := by omega
            have hnext : i + d + 1 - i = d + 1 := by omega
            rw [hbuffer, hself, hnext, Function.update_of_ne (by omega),
              show t + 1 + d = t + (d + 1) by omega]
            apply if_congr _ rfl rfl
            rw [o.accepted_succ]
            constructor
            · rintro ⟨-, hd, hgood⟩
              exact ⟨by omega, by omega, hgood⟩
            · rintro ⟨-, hd, hgood⟩
              exact ⟨by omega, by omega, hgood⟩
      · refine ⟨1, dbytes, -2, [(t, Operation.receive (k ≠ 0))], ?_, ?_, attempted_one _ hack,
          reported_refused _ hack, fun j => ?_⟩
        · have hbad : ¬(o.twsr t &&& 0xf8 = 0x50 ∨ o.twsr t &&& 0xf8 = 0x58) := hack
          simp only [receiveList, hreceive]
          rw [if_neg hbad]
        · rw [requests_succ (Nat.zero_le k)]
          rfl
        · rw [if_neg]
          rintro ⟨hij, hlt, hgood⟩
          rw [show j - i = 0 by omega] at hgood
          exact hack hgood

theorem iicRead_of_passed (addr : UInt8) (dbytes : ℕ → UInt8) (n : UInt16) (t : ℕ)
    (log : List (ℕ × Operation)) (hstart : o.twsr t &&& 0x08 ≠ 0) :
    ∃ m buffer rc new, iicRead (recorded o.twi) addr dbytes n (t, log) =
        ((t + 2 + m,
          log ++ (t, Operation.start) :: (t + 1, Operation.send (addr ||| 0x01)) :: new ++
            [(t + 2 + m, Operation.stop)]), buffer, rc) ∧
      new.map Prod.snd = requests n.toNat m ∧
      (∀ i, buffer i = if i < m ∧ o.Accepted (t + 2) i then o.twdr (t + 2 + i) else dbytes i) ∧
      Course (o.twsr (t + 1) &&& 0xf8 = 0x40) (o.Accepted (t + 2)) n.toNat m rc := by
  have htwo : (recorded o.twi).send (addr ||| 0x01) (t + 1, log ++ [(t, Operation.start)]) =
      (o.twsr (t + 1), t + 2,
        log ++ [(t, Operation.start)] ++ [(t + 1, Operation.send (addr ||| 0x01))]) := rfl
  rw [iicRead_eq]
  simp only [o.recorded_start]
  rw [if_pos hstart]
  simp only [htwo]
  by_cases haddr : o.twsr (t + 1) &&& 0xf8 = 0x40
  · obtain ⟨m, buffer, rc, new, hlist, hnew, hm, hrc, hbuffer⟩ :=
      receiveList_oracle o n.toNat 0 dbytes (t + 2)
        (log ++ [(t, Operation.start)] ++ [(t + 1, Operation.send (addr ||| 0x01))])
    refine ⟨m, buffer, rc, new, ?_, hnew, ?_, Or.inl ⟨haddr, hm, hrc⟩⟩
    · rw [if_pos haddr, hlist]
      simp [Oracle.twi]
    · simpa using hbuffer
  · refine ⟨0, dbytes, -2, [], ?_, rfl, by simp, Or.inr ⟨haddr, rfl, rfl⟩⟩
    rw [if_neg haddr]
    simp [Oracle.twi]

theorem iicRead_of_failed (addr : UInt8) (dbytes : ℕ → UInt8) (n : UInt16) (t : ℕ)
    (log : List (ℕ × Operation)) (hstart : ¬o.twsr t &&& 0x08 ≠ 0) :
    iicRead (recorded o.twi) addr dbytes n (t, log) =
      ((t + 1, log ++ [(t, Operation.start)]), dbytes, -1) := by
  rw [iicRead_eq]
  simp only [o.recorded_start]
  exact if_neg hstart

/-- Once the START test has passed, `IICRead` sends the address and, if that is acknowledged,
requests bytes up to the first one that is not accepted; then comes the only STOP.  The
bytes accepted are in the buffer, whose other places are unchanged, and the result is 0
exactly if all bytes were accepted, and otherwise -2. -/
theorem iicRead_trace (o : Oracle) (addr : UInt8) (dbytes : ℕ → UInt8) (n : UInt16)
    (hstart : o.twsr 0 &&& 0x08 ≠ 0) :
    ∃ m, operations (iicRead (recorded o.twi) addr dbytes n (0, [])).1 =
        Operation.start :: Operation.send (addr ||| 0x01) :: requests n.toNat m ++
          [Operation.stop] ∧
      (o.twsr 1 &&& 0xf8 ≠ 0x40 → m = 0) ∧
      (o.twsr 1 &&& 0xf8 = 0x40 → Attempted (o.Accepted 2) n.toNat m) ∧
      (∀ i, (iicRead (recorded o.twi) addr dbytes n (0, [])).2.1 i =
        if i < m ∧ o.Accepted 2 i then o.twdr (2 + i) else dbytes i) ∧
      ((iicRead (recorded o.twi) addr dbytes n (0, [])).2.2 = 0 ↔
        o.twsr 1 &&& 0xf8 = 0x40 ∧ ∀ i < n.toNat, o.Accepted 2 i) ∧
      ((iicRead (recorded o.twi) addr dbytes n (0, [])).2.2 = 0 ∨
        (iicRead (recorded o.twi) addr dbytes n (0, [])).2.2 = -2) := by
  obtain ⟨m, buffer, rc, new, hread, hnew, hbuffer, hcourse⟩ :=
    iicRead_of_passed o addr dbytes n 0 [] hstart
  rw [hread]
  exact ⟨m, by simp [operations, hnew], hcourse.eq_zero_of_not, hcourse.attempted, hbuffer,
    hcourse.result_iff, hcourse.result_or⟩

def delivering : Oracle where
  twsr t := if t = 0 then 0x08 else if t = 1 then 0x40 else if t = 4 then 0x58 else 0x50
  twdr t := UInt8.ofNat (100 + t)

theorem iicRead_trace_delivering :
    operations (iicRead (recorded delivering.twi) 0xd0 (fun _ => 0) 3 (0, [])).1 =
        [.start, .send 0xd1, .receive true, .receive true, .receive false, .stop] ∧
      (iicRead (recorded delivering.twi) 0xd0 (fun _ => 0) 3 (0, [])).2.1 2 = 104 ∧
      (iicRead (recorded delivering.twi) 0xd0 (fun _ => 0) 3 (0, [])).2.2 = 0 := by
  have hgood : ∀ i < 3, delivering.Accepted 2 i := by decide
  obtain ⟨m, htrace, -, hm, hbuffer, hrc, -⟩ :=
    iicRead_trace delivering 0xd0 (fun _ => 0) 3 (by decide)
  have hthree : m = 3 := by
    rcases hm (by decide) with ⟨hall, -⟩ | ⟨k, hk, -, hbad, -⟩
    · exact hall
    · exact (hbad (hgood k hk)).elim
  subst hthree
  refine ⟨htrace, ?_, hrc.mpr ⟨by decide, hgood⟩⟩
  rw [hbuffer 2, if_pos ⟨by decide, hgood 2 (by decide)⟩]
  rfl

/-! ## Obtaining the bus -/

/-- The status says that a START or a repeated START has been sent. -/
def Obtained (twsr : UInt8) : Prop := twsr &&& 0xf8 = 0x08 ∨ twsr &&& 0xf8 = 0x10

instance (twsr : UInt8) : Decidable (Obtained twsr) := inferInstanceAs (Decidable (_ ∨ _))

inductive Call
  | write (addr : UInt8) (dbytes : ℕ → UInt8) (nToSend : UInt16)
  | read (addr : UInt8) (dbytes : ℕ → UInt8) (nToRecv : UInt16)

def Call.perform (o : Oracle) (x : ℕ × List (ℕ × Operation)) :
    Call → (ℕ × List (ℕ × Operation)) × ℤ
  | .write addr dbytes n => iicWrite (recorded o.twi) addr dbytes n x
  | .read addr dbytes n =>
      let (x, _, rc) := iicRead (recorded o.twi) addr dbytes n x
      (x, rc)

/-- Whether the bus is held: a START has been obtained and no STOP has followed. -/
def held (o : Oracle) (log : List (ℕ × Operation)) : Bool :=
  log.foldl (fun h e =>
    match e.2 with
    | .start => h || Obtained (o.twsr e.1)
    | .stop => false
    | _ => h) false

def Call.recorded (o : Oracle) (x : ℕ × List (ℕ × Operation)) (c : Call) : List Operation :=
  (((c.perform o x).1).2.drop x.2.length).map Prod.snd

/-- A call that takes a START for what it is: it sends bytes only after one, returns -1
exactly without one, ends with a STOP after one, and leaves the bus free. -/
structure Call.Disciplined (o : Oracle) (x : ℕ × List (ℕ × Operation)) (c : Call) : Prop where
  sends : ∀ byte, Operation.send byte ∈ c.recorded o x → Obtained (o.twsr x.1)
  refused : (c.perform o x).2 = -1 ↔ ¬Obtained (o.twsr x.1)
  stops : Obtained (o.twsr x.1) → Operation.stop ∈ c.recorded o x
  frees : held o (c.perform o x).1.2 = false

theorem held_concat_start (log : List (ℕ × Operation)) (t : ℕ) :
    held o (log ++ [(t, Operation.start)]) = (held o log || Obtained (o.twsr t)) := by
  simp [held]

theorem held_concat_stop (log : List (ℕ × Operation)) (t : ℕ) :
    held o (log ++ [(t, Operation.stop)]) = false := by
  simp [held]

theorem Call.perform_of_passed (c : Call) (x : ℕ × List (ℕ × Operation))
    (hstart : o.twsr x.1 &&& 0x08 ≠ 0) :
    (∃ byte, Operation.send byte ∈ c.recorded o x) ∧ Operation.stop ∈ c.recorded o x ∧
      (c.perform o x).2 ≠ -1 ∧ held o (c.perform o x).1.2 = false := by
  obtain ⟨t, log⟩ := x
  cases c with
  | write addr dbytes n =>
      obtain ⟨m, rc, new, hwrite, -, hcourse⟩ := iicWrite_of_passed o addr dbytes n t log hstart
      have hrc := hcourse.result_or
      refine ⟨⟨addr &&& 0xfe, ?_⟩, ?_, ?_, ?_⟩
      · simp [Call.recorded, Call.perform, hwrite]
      · simp [Call.recorded, Call.perform, hwrite]
      · simp only [Call.perform, hwrite]
        omega
      · simp only [Call.perform, hwrite]
        exact held_concat_stop o _ _
  | read addr dbytes n =>
      obtain ⟨m, buffer, rc, new, hread, -, -, hcourse⟩ :=
        iicRead_of_passed o addr dbytes n t log hstart
      have hrc := hcourse.result_or
      refine ⟨⟨addr ||| 0x01, ?_⟩, ?_, ?_, ?_⟩
      · simp [Call.recorded, Call.perform, hread]
      · simp [Call.recorded, Call.perform, hread]
      · simp only [Call.perform, hread]
        omega
      · simp only [Call.perform, hread]
        exact held_concat_stop o _ _

theorem Call.perform_of_failed (c : Call) (x : ℕ × List (ℕ × Operation))
    (hstart : ¬o.twsr x.1 &&& 0x08 ≠ 0) :
    c.perform o x = ((x.1 + 1, x.2 ++ [(x.1, Operation.start)]), -1) := by
  cases c with
  | write addr dbytes n => exact iicWrite_of_failed o addr dbytes n x.1 x.2 hstart
  | read addr dbytes n =>
      have hread := iicRead_of_failed o addr dbytes n x.1 x.2 hstart
      simp only [Call.perform, hread]

/-- The statuses after a START request on which the test of bit 3 is right. -/
def Recognised (twsr : UInt8) : Prop :=
  twsr &&& 0xf8 = 0x08 ∨ twsr &&& 0x08 = 0 ∧ twsr &&& 0xf8 ≠ 0x10

instance (twsr : UInt8) : Decidable (Recognised twsr) := inferInstanceAs (Decidable (_ ∨ _))

theorem recognised_iff (twsr : UInt8) :
    Recognised twsr ↔ (twsr &&& 0x08 ≠ 0 ↔ Obtained twsr) := by
  have hmask : twsr &&& 0x08 = (twsr &&& 0xf8) &&& 0x08 := by
    rw [UInt8.and_assoc]
    rfl
  unfold Recognised Obtained
  rw [hmask]
  generalize twsr &&& 0xf8 = code
  constructor
  · rintro (rfl | ⟨hclear, hcode⟩)
    · decide
    · refine iff_of_false (not_not.mpr hclear) ?_
      rintro (rfl | rfl)
      · exact absurd hclear (by decide)
      · exact hcode rfl
  · intro h
    by_cases hset : code &&& 0x08 ≠ 0
    · rcases h.mp hset with hcode | rfl
      · exact Or.inl hcode
      · exact absurd hset (by decide)
    · exact Or.inr ⟨not_not.mp hset, fun hcode => hset (h.mpr (Or.inr hcode))⟩

theorem Call.disciplined_iff (c : Call) (x : ℕ × List (ℕ × Operation))
    (hfree : held o x.2 = false) : c.Disciplined o x ↔ Recognised (o.twsr x.1) := by
  rw [recognised_iff]
  by_cases hstart : o.twsr x.1 &&& 0x08 ≠ 0
  · obtain ⟨⟨byte, hbyte⟩, hstop, hrc, hheld⟩ := c.perform_of_passed o x hstart
    constructor
    · intro h
      exact iff_of_true hstart (h.sends byte hbyte)
    · intro h
      have hobtained := h.mp hstart
      exact ⟨fun _ _ => hobtained, iff_of_false hrc (not_not.mpr hobtained), fun _ => hstop, hheld⟩
  · have hperform := c.perform_of_failed o x hstart
    constructor
    · intro h
      refine iff_of_false hstart ?_
      exact h.refused.mp (by rw [hperform])
    · intro h
      have hnot : ¬Obtained (o.twsr x.1) := fun hobtained => hstart (h.mpr hobtained)
      refine ⟨?_, iff_of_true (by rw [hperform]) hnot, fun hobtained => (hnot hobtained).elim, ?_⟩
      · intro byte hbyte
        simp [Call.recorded, hperform] at hbyte
      · rw [hperform, held_concat_start, hfree]
        simpa using hnot

/-- A run of calls takes every START for what it is, exactly if every status after a START
request in it is START itself, or has bit 3 clear and is not the repeated START. -/
theorem disciplined_iff_recognised (o : Oracle) (calls : List Call) :
    Throughout (fun x c => (c.perform o x).1) (fun x c => c.Disciplined o x) (0, []) calls ↔
      Throughout (fun x c => (c.perform o x).1) (fun x _ => Recognised (o.twsr x.1)) (0, [])
        calls := by
  apply throughout_iff (fun x => held o x.2 = false)
  · intro x c hfree
    exact c.disciplined_iff o x hfree
  · intro x c _ h
    exact h.frees
  · rfl

def constant (twsr : UInt8) : Oracle := ⟨fun _ => twsr, fun _ => 0⟩

/-- After a repeated START nothing is sent and the bus stays held, and after the loss of an
arbitration the address is sent. -/
theorem not_disciplined :
    ¬Throughout (fun x c => (Call.perform (constant 0x10) x c).1)
        (fun x c => Call.Disciplined (constant 0x10) x c) (0, [])
        [.write 0xa0 (fun _ => 0) 2] ∧
      held (constant 0x10) (Call.perform (constant 0x10) (0, []) (.write 0xa0 (fun _ => 0) 2)).1.2 =
        true ∧
      ¬Throughout (fun x c => (Call.perform (constant 0x38) x c).1)
        (fun x c => Call.Disciplined (constant 0x38) x c) (0, [])
        [.read 0xa0 (fun _ => 0) 2] := by
  refine ⟨fun h => ?_, by decide, fun h => ?_⟩
  · have hrecognised := (Call.disciplined_iff _ _ _ rfl).mp h.1
    exact absurd hrecognised (by decide)
  · have hrecognised := (Call.disciplined_iff _ _ _ rfl).mp h.1
    exact absurd hrecognised (by decide)

end EmbeddedKernel.Iic
