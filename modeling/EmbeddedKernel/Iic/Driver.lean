import EmbeddedKernel.Avr

/-!
# The IIC driver

`Twi` is the two-wire unit with what is connected to it: each operation the driver
starts ends with a status in `TWSR`, and a reception with a byte in `TWDR`.  The
driver is written over an arbitrary unit.  Its loops count with a 16-bit `int`
that is compared with an unsigned length; they do what the recursion over the
bytes of the buffer does.
-/

namespace EmbeddedKernel.Iic

/-- The two-wire unit, with the status after each completed wait. -/
structure Twi (σ : Type*) where
  start : σ → UInt8 × σ
  send : UInt8 → σ → UInt8 × σ
  receive : Bool → σ → UInt8 × UInt8 × σ
  stop : σ → σ

variable {σ : Type*} (twi : Twi σ)

/-- The loop of `IICWrite` over the bytes. -/
def sendBytes (dbytes : ℕ → UInt8) (nToSend : UInt16) : ℕ → ℤ → σ → σ × ℤ
  | 0, _, s => (s, 0)
  | fuel + 1, idx, s =>
      if Avr.toUnsigned idx < nToSend.toNat then
        let (twsr, s) := twi.send (dbytes (Avr.toUnsigned idx)) s
        if twsr &&& 0xf8 ≠ 0x28 then (s, -2)
        else sendBytes dbytes nToSend fuel (Avr.wrap16 (idx + 1)) s
      else (s, 0)

/-- `IIC::IICWrite`. `dbytes` is the memory from the pointer on. -/
def iicWrite (addr : UInt8) (dbytes : ℕ → UInt8) (nToSend : UInt16) (s : σ) : σ × ℤ :=
  let (twsr, s) := twi.start s
  if twsr &&& 0x08 ≠ 0 then
    let (twsr, s) := twi.send (addr &&& 0xfe) s
    let (s, rc) :=
      if twsr &&& 0xf8 = 0x18 then sendBytes twi dbytes nToSend (nToSend.toNat + 1) 0 s
      else (s, -2)
    (twi.stop s, rc)
  else (s, -1)

/-- The loop of `IICRead`, which acknowledges every byte but the last. -/
def receiveBytes (nToRecv : UInt16) : ℕ → ℤ → (ℕ → UInt8) → σ → σ × (ℕ → UInt8) × ℤ
  | 0, _, dbytes, s => (s, dbytes, 0)
  | fuel + 1, idx, dbytes, s =>
      if Avr.toUnsigned idx < nToRecv.toNat then
        let (twsr, twdr, s) := twi.receive (Avr.toUnsigned idx ≠ (nToRecv - 1).toNat) s
        if twsr &&& 0xf8 = 0x50 ∨ twsr &&& 0xf8 = 0x58 then
          receiveBytes nToRecv fuel (Avr.wrap16 (idx + 1))
            (Function.update dbytes (Avr.toUnsigned idx) twdr) s
        else (s, dbytes, -2)
      else (s, dbytes, 0)

/-- `IIC::IICRead`, with the memory from `dbytes` on after it. -/
def iicRead (addr : UInt8) (dbytes : ℕ → UInt8) (nToRecv : UInt16) (s : σ) :
    σ × (ℕ → UInt8) × ℤ :=
  let (twsr, s) := twi.start s
  if twsr &&& 0x08 ≠ 0 then
    let (twsr, s) := twi.send (addr ||| 0x01) s
    let (s, dbytes, rc) :=
      if twsr &&& 0xf8 = 0x40 then receiveBytes twi nToRecv (nToRecv.toNat + 1) 0 dbytes s
      else (s, dbytes, -2)
    (twi.stop s, dbytes, rc)
  else (s, dbytes, -1)

/-! ## The loops as recursions over the bytes -/

/-- Sending a list of bytes, up to the first one that is not acknowledged. -/
def sendList : List UInt8 → σ → σ × ℤ
  | [], s => (s, 0)
  | b :: bs, s =>
      let (twsr, s) := twi.send b s
      if twsr &&& 0xf8 ≠ 0x28 then (s, -2) else sendList bs s

/-- Receiving `n` bytes from position `i` of the buffer on. -/
def receiveList : ℕ → ℕ → (ℕ → UInt8) → σ → σ × (ℕ → UInt8) × ℤ
  | 0, _, dbytes, s => (s, dbytes, 0)
  | n + 1, i, dbytes, s =>
      let (twsr, twdr, s) := twi.receive (n ≠ 0) s
      if twsr &&& 0xf8 = 0x50 ∨ twsr &&& 0xf8 = 0x58 then
        receiveList n (i + 1) (Function.update dbytes i twdr) s
      else (s, dbytes, -2)

variable {twi}

/-- The unsigned value of the counter, which never reaches the wrap of the comparison. -/
theorem toUnsigned_wrap16_of_le {i : ℕ} (n : UInt16) (h : i ≤ n.toNat) :
    Avr.toUnsigned (Avr.wrap16 i) = i := by
  have hn := n.toNat_lt
  exact Avr.toUnsigned_wrap16 (by omega)

theorem wrap16_succ (i : ℕ) : Avr.wrap16 (Avr.wrap16 i + 1) = Avr.wrap16 ((i + 1 : ℕ) : ℤ) := by
  rw [Avr.wrap16_wrap16_add]
  norm_cast

theorem sendBytes_eq (dbytes : ℕ → UInt8) (nToSend : UInt16) {fuel k i : ℕ} (s : σ)
    (hk : i + k = nToSend.toNat) (hfuel : k < fuel) :
    sendBytes twi dbytes nToSend fuel (Avr.wrap16 i) s =
      sendList twi ((List.range' i k).map dbytes) s := by
  induction k generalizing i fuel s with
  | zero =>
      obtain ⟨fuel, rfl⟩ := Nat.exists_eq_add_one_of_ne_zero (n := fuel) (by omega)
      have hend : ¬Avr.toUnsigned (Avr.wrap16 i) < nToSend.toNat := by
        rw [toUnsigned_wrap16_of_le nToSend (by omega)]
        omega
      simp only [sendBytes, hend, if_false]
      rfl
  | succ k ih =>
      obtain ⟨fuel, rfl⟩ := Nat.exists_eq_add_one_of_ne_zero (n := fuel) (by omega)
      have hidx : Avr.toUnsigned (Avr.wrap16 i) = i := toUnsigned_wrap16_of_le nToSend (by omega)
      have hlt : i < nToSend.toNat := by omega
      simp only [sendBytes, hidx, hlt, if_true, wrap16_succ, List.range'_succ, List.map_cons,
        sendList]
      split_ifs with hack
      · rfl
      · exact ih _ (by omega) (by omega)

theorem receiveBytes_eq (nToRecv : UInt16) {fuel k i : ℕ} (dbytes : ℕ → UInt8) (s : σ)
    (hk : i + k = nToRecv.toNat) (hfuel : k < fuel) :
    receiveBytes twi nToRecv fuel (Avr.wrap16 i) dbytes s = receiveList twi k i dbytes s := by
  induction k generalizing i fuel dbytes s with
  | zero =>
      obtain ⟨fuel, rfl⟩ := Nat.exists_eq_add_one_of_ne_zero (n := fuel) (by omega)
      have hend : ¬Avr.toUnsigned (Avr.wrap16 i) < nToRecv.toNat := by
        rw [toUnsigned_wrap16_of_le nToRecv (by omega)]
        omega
      simp only [receiveBytes, hend, if_false]
      rfl
  | succ k ih =>
      obtain ⟨fuel, rfl⟩ := Nat.exists_eq_add_one_of_ne_zero (n := fuel) (by omega)
      have hidx : Avr.toUnsigned (Avr.wrap16 i) = i := toUnsigned_wrap16_of_le nToRecv (by omega)
      have hlt : i < nToRecv.toNat := by omega
      have hlast : (nToRecv - 1).toNat = nToRecv.toNat - 1 := by
        have hn := nToRecv.toNat_lt
        rw [UInt16.toNat_sub]
        simp only [UInt16.toNat_one]
        omega
      have hack : decide (i ≠ nToRecv.toNat - 1) = decide (k ≠ 0) := by
        apply decide_eq_decide.mpr
        omega
      simp only [receiveBytes, hidx, hlt, if_true, wrap16_succ, hlast, hack, receiveList]
      split_ifs with hstatus
      · exact ih _ _ (by omega) (by omega)
      · rfl

theorem iicWrite_eq (addr : UInt8) (dbytes : ℕ → UInt8) (nToSend : UInt16) (s : σ) :
    iicWrite twi addr dbytes nToSend s =
      let (twsr, s) := twi.start s
      if twsr &&& 0x08 ≠ 0 then
        let (twsr, s) := twi.send (addr &&& 0xfe) s
        let (s, rc) :=
          if twsr &&& 0xf8 = 0x18 then
            sendList twi ((List.range nToSend.toNat).map dbytes) s
          else (s, -2)
        (twi.stop s, rc)
      else (s, -1) := by
  have hloop : ∀ s, sendBytes twi dbytes nToSend (nToSend.toNat + 1) 0 s =
      sendList twi ((List.range nToSend.toNat).map dbytes) s := by
    intro s
    rw [List.range_eq_range']
    exact sendBytes_eq dbytes nToSend (i := 0) s (Nat.zero_add _) (Nat.lt_succ_self _)
  simp only [iicWrite, hloop]

theorem iicRead_eq (addr : UInt8) (dbytes : ℕ → UInt8) (nToRecv : UInt16) (s : σ) :
    iicRead twi addr dbytes nToRecv s =
      let (twsr, s) := twi.start s
      if twsr &&& 0x08 ≠ 0 then
        let (twsr, s) := twi.send (addr ||| 0x01) s
        let (s, dbytes, rc) :=
          if twsr &&& 0xf8 = 0x40 then receiveList twi nToRecv.toNat 0 dbytes s
          else (s, dbytes, -2)
        (twi.stop s, dbytes, rc)
      else (s, dbytes, -1) := by
  have hloop : ∀ s, receiveBytes twi nToRecv (nToRecv.toNat + 1) 0 dbytes s =
      receiveList twi nToRecv.toNat 0 dbytes s := by
    intro s
    exact receiveBytes_eq nToRecv (i := 0) dbytes s (Nat.zero_add _) (Nat.lt_succ_self _)
  simp only [iicRead, hloop]

/-! ## Recording -/

/-- An operation that the driver starts. -/
inductive Operation
  | start
  | send (byte : UInt8)
  | receive (ack : Bool)
  | stop
  deriving DecidableEq

/-- The unit with a record of its operations, each with the state it was started in. -/
def recorded (twi : Twi σ) : Twi (σ × List (σ × Operation)) where
  start x := ((twi.start x.1).1, (twi.start x.1).2, x.2 ++ [(x.1, .start)])
  send byte x := ((twi.send byte x.1).1, (twi.send byte x.1).2, x.2 ++ [(x.1, .send byte)])
  receive ack x :=
    ((twi.receive ack x.1).1, (twi.receive ack x.1).2.1, (twi.receive ack x.1).2.2,
      x.2 ++ [(x.1, .receive ack)])
  stop x := (twi.stop x.1, x.2 ++ [(x.1, .stop)])

@[simp] theorem recorded_start (x : σ × List (σ × Operation)) : (recorded twi).start x =
    ((twi.start x.1).1, (twi.start x.1).2, x.2 ++ [(x.1, .start)]) := rfl

@[simp] theorem recorded_send (byte : UInt8) (x : σ × List (σ × Operation)) :
    (recorded twi).send byte x =
      ((twi.send byte x.1).1, (twi.send byte x.1).2, x.2 ++ [(x.1, .send byte)]) := rfl

@[simp] theorem recorded_receive (ack : Bool) (x : σ × List (σ × Operation)) :
    (recorded twi).receive ack x =
      ((twi.receive ack x.1).1, (twi.receive ack x.1).2.1, (twi.receive ack x.1).2.2,
        x.2 ++ [(x.1, .receive ack)]) := rfl

@[simp] theorem recorded_stop (x : σ × List (σ × Operation)) :
    (recorded twi).stop x = (twi.stop x.1, x.2 ++ [(x.1, .stop)]) := rfl

/-- What is recorded stays. -/
theorem isPrefix_sendList (xs : List UInt8) (x : σ × List (σ × Operation)) :
    x.2 <+: (sendList (recorded twi) xs x).1.2 := by
  induction xs generalizing x with
  | nil => exact List.prefix_refl _
  | cons b xs ih =>
      have hsend : x.2 <+: ((recorded twi).send b x).2.2 := List.prefix_append _ _
      simp only [sendList]
      split_ifs
      · exact hsend
      · exact hsend.trans (ih _)

theorem isPrefix_receiveList (n i : ℕ) (dbytes : ℕ → UInt8) (x : σ × List (σ × Operation)) :
    x.2 <+: (receiveList (recorded twi) n i dbytes x).1.2 := by
  induction n generalizing i dbytes x with
  | zero => exact List.prefix_refl _
  | succ n ih =>
      have hreceive : x.2 <+: ((recorded twi).receive (n ≠ 0) x).2.2.2 := List.prefix_append _ _
      simp only [receiveList]
      split_ifs
      · exact hreceive.trans (ih _ _ _)
      · exact hreceive

/-- The first operation of a transfer is a START. -/
theorem isPrefix_iicWrite (addr : UInt8) (dbytes : ℕ → UInt8) (n : UInt16)
    (x : σ × List (σ × Operation)) :
    x.2 ++ [(x.1, Operation.start)] <+: (iicWrite (recorded twi) addr dbytes n x).1.2 := by
  have hsend : x.2 ++ [(x.1, Operation.start)] <+:
      ((recorded twi).send (addr &&& 0xfe) ((recorded twi).start x).2).2.2 :=
    List.prefix_append _ _
  have hstop : ∀ y : σ × List (σ × Operation), y.2 <+: ((recorded twi).stop y).2 :=
    fun _ => List.prefix_append _ _
  rw [iicWrite_eq]
  simp only
  split_ifs
  · exact (hsend.trans (isPrefix_sendList _ _)).trans (hstop _)
  · exact hsend.trans (hstop _)
  · exact List.prefix_refl _

theorem isPrefix_iicRead (addr : UInt8) (dbytes : ℕ → UInt8) (n : UInt16)
    (x : σ × List (σ × Operation)) :
    x.2 ++ [(x.1, Operation.start)] <+: (iicRead (recorded twi) addr dbytes n x).1.2 := by
  have hsend : x.2 ++ [(x.1, Operation.start)] <+:
      ((recorded twi).send (addr ||| 0x01) ((recorded twi).start x).2).2.2 :=
    List.prefix_append _ _
  have hstop : ∀ y : σ × List (σ × Operation), y.2 <+: ((recorded twi).stop y).2 :=
    fun _ => List.prefix_append _ _
  rw [iicRead_eq]
  simp only
  split_ifs
  · exact (hsend.trans (isPrefix_receiveList _ _ _ _)).trans (hstop _)
  · exact hsend.trans (hstop _)
  · exact List.prefix_refl _

end EmbeddedKernel.Iic
