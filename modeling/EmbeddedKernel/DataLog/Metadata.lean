import EmbeddedKernel.DataLog.PageStore
import EmbeddedKernel.DataLog.CircularLog

/-!
# The metadata area

The records from 2044 on are reserved; the counter of `WriteAuto` is there.  `ok`
refuses them without the devlock, but it lets negative record numbers through, and
their addresses wrap around into all records.
-/

namespace EmbeddedKernel.DataLog

open Iic Library

/-! ## Addresses on the bus -/

/-- The bus with a record of its traffic. -/
abbrev RecordedBus := Bus × List (Bus × Operation)

/-- Where an operation stores a byte. -/
def storeAt : Bus × Operation → Option (Fin 8 × ℕ)
  | (b, .send _) =>
      match b.phase with
      | .writing port => some (port, (b.eeprom port).pointer)
      | _ => none
  | _ => none

/-- Where an operation reads a byte. -/
def fetchAt : Bus × Operation → Option (Fin 8 × ℕ)
  | (b, .receive _) =>
      match b.phase with
      | .reading port => some (port, (b.eeprom port).pointer)
      | _ => none
  | _ => none

def stores (log : List (Bus × Operation)) : List (Fin 8 × ℕ) := log.filterMap storeAt

def fetches (log : List (Bus × Operation)) : List (Fin 8 × ℕ) := log.filterMap fetchAt

/-- `n` addresses from `a` on. -/
def span (port : Fin 8) (a n : ℕ) : List (Fin 8 × ℕ) := (List.range' a n).map (Prod.mk port)

variable {b : Bus} {port : Fin 8}

@[simp] theorem stores_append (log log' : List (Bus × Operation)) :
    stores (log ++ log') = stores log ++ stores log' := by
  simp [stores]

@[simp] theorem fetches_append (log log' : List (Bus × Operation)) :
    fetches (log ++ log') = fetches log ++ fetches log' := by
  simp [fetches]

@[simp] theorem stores_nil : stores [] = [] := rfl

@[simp] theorem fetches_nil : fetches [] = [] := rfl

@[simp] theorem stores_cons (x : Bus × Operation) (log : List (Bus × Operation)) :
    stores (x :: log) = (storeAt x).toList ++ stores log := by
  cases h : storeAt x <;> simp [stores, h]

@[simp] theorem fetches_cons (x : Bus × Operation) (log : List (Bus × Operation)) :
    fetches (x :: log) = (fetchAt x).toList ++ fetches log := by
  cases h : fetchAt x <;> simp [fetches, h]

@[simp] theorem mem_span {x : Fin 8 × ℕ} {a n : ℕ} :
    x ∈ span port a n ↔ x.1 = port ∧ a ≤ x.2 ∧ x.2 < a + n := by
  obtain ⟨q, c⟩ := x
  simp only [span, List.mem_map, List.mem_range'_1, Prod.mk.injEq, exists_eq_right_right]
  tauto

/-- Storing bytes that do not leave the physical page. -/
theorem sendList_recorded (bs : List UInt8) (log : List (Bus × Operation))
    (hp : b.phase = .writing port) (hfit : (b.eeprom port).pointer % 128 + bs.length ≤ 128) :
    ∃ new, sendList (recorded Bus.twi) bs (b, log) =
        (((sendList Bus.twi bs b).1, log ++ new), (sendList Bus.twi bs b).2) ∧
      stores new = span port (b.eeprom port).pointer bs.length ∧ fetches new = [] := by
  induction bs generalizing b log with
  | nil => exact ⟨[], by simp [sendList], rfl, rfl⟩
  | cons x bs ih =>
      rw [List.length_cons] at hfit
      have hack : ¬((0x28 : UInt8) &&& 0xf8 ≠ 0x28) := by decide
      have hsend : Bus.twi.send x b =
          (0x28, b.setEeprom port ((b.eeprom port).store x) (.writing port)) := by
        simp [Bus.twi, Bus.send, hp]
      obtain ⟨new, hlist, hstores, hfetches⟩ :=
        ih (b := b.setEeprom port ((b.eeprom port).store x) (.writing port))
          (log ++ [(b, .send x)]) rfl (by
            simp only [Bus.setEeprom_eeprom_self, Eeprom.store, Eeprom.nextInPage]
            omega)
      refine ⟨(b, .send x) :: new, ?_, ?_, ?_⟩
      · simp only [sendList, recorded_send, hsend, hack, if_false]
        rw [hlist]
        simp
      · have hnext : span port ((b.eeprom port).store x).pointer bs.length =
            span port ((b.eeprom port).pointer + 1) bs.length := by
          rcases Nat.eq_zero_or_pos bs.length with hzero | hpos
          · simp [hzero, span]
          · congr 1
            simp only [Eeprom.store, Eeprom.nextInPage]
            omega
        rw [Bus.setEeprom_eeprom_self] at hstores
        rw [stores_cons, hstores, hnext]
        simp [storeAt, hp, span, List.range'_succ]
      · simpa [fetchAt] using hfetches

theorem receiveList_recorded {n : ℕ} (i : ℕ) (dbytes : ℕ → UInt8) (log : List (Bus × Operation))
    (hp : b.phase = .reading port) (hend : (b.eeprom port).pointer + n ≤ 65536) :
    ∃ new, receiveList (recorded Bus.twi) n i dbytes (b, log) =
        (((receiveList Bus.twi n i dbytes b).1, log ++ new), (receiveList Bus.twi n i dbytes b).2) ∧
      stores new = [] ∧ fetches new = span port (b.eeprom port).pointer n := by
  induction n generalizing b i dbytes log with
  | zero => exact ⟨[], by simp [receiveList], rfl, rfl⟩
  | succ n ih =>
      have hstatus : ∀ ack : Bool, (if ack then (0x50 : UInt8) else 0x58) &&& 0xf8 = 0x50 ∨
          (if ack then (0x50 : UInt8) else 0x58) &&& 0xf8 = 0x58 := by decide
      have hreceive : ∀ ack, Bus.twi.receive ack b = (if ack then 0x50 else 0x58,
          (b.eeprom port).memory (b.eeprom port).pointer,
          b.setEeprom port (b.eeprom port).skip (.reading port)) := by
        intro ack
        simp [Bus.twi, Bus.receive, hp]
      obtain ⟨new, hlist, hstores, hfetches⟩ :=
        ih (b := b.setEeprom port (b.eeprom port).skip (.reading port)) (i + 1)
          (Function.update dbytes i ((b.eeprom port).memory (b.eeprom port).pointer))
          (log ++ [(b, .receive (n ≠ 0))]) rfl (by
            simp only [Bus.setEeprom_eeprom_self, Eeprom.skip]
            omega)
      refine ⟨(b, .receive (n ≠ 0)) :: new, ?_, ?_, ?_⟩
      · simp only [receiveList, recorded_receive, hreceive, hstatus, if_true]
        rw [hlist]
        simp
      · simpa [storeAt] using hstores
      · have hnext : span port (b.eeprom port).skip.pointer n =
            span port ((b.eeprom port).pointer + 1) n := by
          rcases Nat.eq_zero_or_pos n with hzero | hpos
          · simp [hzero, span]
          · congr 1
            simp only [Eeprom.skip]
            omega
        rw [Bus.setEeprom_eeprom_self] at hfetches
        rw [fetches_cons, hfetches, hnext]
        simp [fetchAt, hp, span, List.range'_succ]

/-- A write to an EEPROM stores the bytes behind the address. -/
theorem iicWrite_recorded (port : Fin 8) (b : Bus) {dbytes : ℕ → UInt8} {n : UInt16}
    {bs : List UInt8} (log : List (Bus × Operation))
    (hbytes : (List.range n.toNat).map dbytes = dbytes 0 :: dbytes 1 :: bs)
    (hfit : ((dbytes 0).toNat * 256 + (dbytes 1).toNat) % 128 + bs.length ≤ 128) :
    ∃ new, iicWrite (recorded Bus.twi) (Bus.address port) dbytes n (b, log) =
        (((iicWrite Bus.twi (Bus.address port) dbytes n b).1, log ++ new),
          (iicWrite Bus.twi (Bus.address port) dbytes n b).2) ∧
      stores new = span port ((dbytes 0).toNat * 256 + (dbytes 1).toNat) bs.length ∧
      fetches new = [] := by
  have hstart : ¬(0x08 : UInt8) &&& 0x08 = 0 := by decide
  have haddr : (0x18 : UInt8) &&& 0xf8 = 0x18 := by decide
  have hack : ¬((0x28 : UInt8) &&& 0xf8 ≠ 0x28) := by decide
  have hsend : Bus.twi.send (Bus.address port &&& 0xfe) { b with phase := .started } =
      (0x18, { b with phase := .addressHigh port }) := Bus.select_write _ port
  let started : List (Bus × Operation) :=
    [(b, .start), ({ b with phase := .started }, .send (Bus.address port &&& 0xfe)),
      ({ b with phase := .addressHigh port }, .send (dbytes 0)),
      ({ b with phase := .addressLow port (dbytes 0) }, .send (dbytes 1))]
  obtain ⟨new, hlist, hstores, hfetches⟩ :=
    sendList_recorded (b := b.setEeprom port ((b.eeprom port).setPointer (dbytes 0) (dbytes 1))
      (.writing port)) bs (log ++ started) rfl (by simpa [Eeprom.setPointer] using hfit)
  have hhigh : ∀ x, Bus.twi.send x { b with phase := .addressHigh port } =
      (0x28, { b with phase := .addressLow port x }) := fun _ => rfl
  have hlow : ∀ x y, Bus.twi.send y { b with phase := .addressLow port x } =
      (0x28, b.setEeprom port ((b.eeprom port).setPointer x y) (.writing port)) := fun _ _ => rfl
  simp only [started, List.append_assoc, List.cons_append, List.nil_append] at hlist
  rw [Iic.iicWrite_eq, Iic.iicWrite_eq]
  simp only [recorded_start, recorded_send, recorded_stop,
    show Bus.twi.start b = (0x08, { b with phase := .started }) from rfl, hstart, ne_eq,
    not_false_eq_true, if_true, hsend, haddr, hbytes, sendList, hhigh, hlow, hack, if_false,
    List.append_assoc, List.cons_append, List.nil_append, hlist]
  refine ⟨_, rfl, ?_, ?_⟩
  · simpa [storeAt, Eeprom.setPointer] using hstores
  · simpa [fetchAt] using hfetches

/-- A read from an EEPROM fetches the bytes from the pointer on. -/
theorem iicRead_recorded (port : Fin 8) (b : Bus) {n : UInt16} (dbytes : ℕ → UInt8)
    (log : List (Bus × Operation))
    (hend : (b.eeprom port).pointer + n.toNat ≤ 65536) :
    ∃ new, iicRead (recorded Bus.twi) (Bus.address port) dbytes n (b, log) =
        (((iicRead Bus.twi (Bus.address port) dbytes n b).1, log ++ new),
          (iicRead Bus.twi (Bus.address port) dbytes n b).2) ∧
      stores new = [] ∧ fetches new = span port (b.eeprom port).pointer n.toNat := by
  have hstart : ¬(0x08 : UInt8) &&& 0x08 = 0 := by decide
  have haddr : (0x40 : UInt8) &&& 0xf8 = 0x40 := by decide
  have hsend : Bus.twi.send (Bus.address port ||| 0x01) { b with phase := .started } =
      (0x40, { b with phase := .reading port }) := Bus.select_read _ port
  let started : List (Bus × Operation) :=
    [(b, .start), ({ b with phase := .started }, .send (Bus.address port ||| 0x01))]
  obtain ⟨new, hlist, hstores, hfetches⟩ :=
    receiveList_recorded (b := { b with phase := .reading port }) 0 dbytes (log ++ started) rfl hend
  simp only [started, List.append_assoc, List.cons_append, List.nil_append] at hlist
  rw [Iic.iicRead_eq, Iic.iicRead_eq]
  simp only [recorded_start, recorded_send, recorded_stop,
    show Bus.twi.start b = (0x08, { b with phase := .started }) from rfl, hstart, ne_eq,
    not_false_eq_true, if_true, hsend, haddr, List.append_assoc, List.cons_append, List.nil_append,
    hlist]
  refine ⟨_, rfl, ?_, ?_⟩
  · simpa [storeAt] using hstores
  · simpa [fetchAt] using hfetches

/-! ## The functions of the logger -/

/-- A transfer that starts with an address. -/
theorem iicWrite_withAddress (port : Fin 8) (b : Bus) (high low : UInt8) (data : ℕ → UInt8)
    {n : ℕ} {len : UInt16}
    (log : List (Bus × Operation)) (hlen : len.toNat = n + 2)
    (hfit : (high.toNat * 256 + low.toNat) % 128 + n ≤ 128) :
    ∃ new, iicWrite (recorded Bus.twi) (device port).iicAddrE2 (withAddress high low data) len
          (b, log) =
        (((iicWrite Bus.twi (device port).iicAddrE2 (withAddress high low data) len b).1,
          log ++ new),
          (iicWrite Bus.twi (device port).iicAddrE2 (withAddress high low data) len b).2) ∧
      stores new = span port (high.toNat * 256 + low.toNat) n ∧ fetches new = [] := by
  have hbytes : (List.range len.toNat).map (withAddress high low data) =
      withAddress high low data 0 :: withAddress high low data 1 :: (List.range n).map data := by
    rw [hlen, map_withAddress]
    rfl
  have hspec := iicWrite_recorded port b log hbytes
    (by simpa [withAddress] using hfit)
  rwa [List.length_map, List.length_range] at hspec

/-- Setting the pointer and reading `n` bytes from it. -/
theorem iicRead_withAddress (port : Fin 8) (b : Bus) (high low : UInt8) (junk : ℕ → UInt8)
    {n : UInt16} (log : List (Bus × Operation))
    (hend : high.toNat * 256 + low.toNat + n.toNat ≤ 65536) :
    ∃ b' b'' buffer log' new,
      iicWrite (recorded Bus.twi) (device port).iicAddrE2 (withAddress high low junk) 2 (b, log) =
        ((b', log'), 0) ∧
      iicRead (recorded Bus.twi) (device port).iicAddrE2 junk n (b', log') =
        ((b'', log ++ new), buffer, 0) ∧
      stores new = [] ∧ fetches new = span port (high.toNat * 256 + low.toNat) n.toNat ∧
      (∀ q, b''.memory q = b.memory q) ∧
      ∀ j < n.toNat, buffer j = b.memory port (high.toNat * 256 + low.toNat + j) := by
  obtain ⟨b', b'', buffer, hwrite, hread, hmemory, hbuffer⟩ :=
    memory_iicRead port b high low junk hend
  obtain ⟨pre, hpre, hprestores, hprefetches⟩ :=
    iicWrite_withAddress port b high low junk log
      (show (2 : UInt16).toNat = 0 + 2 from rfl) (by omega)
  obtain ⟨b₁, hwrite', -, -, hpointer⟩ :=
    memory_iicWrite port b high low junk (show (2 : UInt16).toNat = 0 + 2 from rfl) (by omega)
  rw [hwrite] at hwrite'
  cases hwrite'
  have hpointer := hpointer rfl
  obtain ⟨new, hnew, hstores, hfetches⟩ :=
    iicRead_recorded port b' junk (log ++ pre) (n := n)
      (by rw [hpointer]; exact hend)
  refine ⟨b', b'', buffer, log ++ pre, pre ++ new, ?_, ?_, ?_, ?_, hmemory, hbuffer⟩
  · rw [hpre, hwrite]
  · have hplain : iicRead Bus.twi (Bus.address port) junk n b' = (b'', buffer, 0) := hread
    rw [hplain, List.append_assoc] at hnew
    exact hnew
  · simp [hprestores, hstores, span]
  · simp [hprefetches, hfetches, hpointer]

/-- The world with an empty record of the traffic. -/
def recording (w : World Bus) : World RecordedBus := ⟨(w.bus, []), w.serial⟩

variable {w : World RecordedBus} {page dl : ℤ} {data : CString}

theorem ok_reject (w : World RecordedBus) (hpage : 2044 ≤ page) (hdl : dl ≠ DEVLOCK) :
    ∃ text, ok page dl w = (w.println text, true) :=
  ⟨_, if_pos ⟨hpage, hdl⟩⟩

theorem write_recorded (port : Fin 8) (f : Frame) (page : ℤ) (data : CString) (dl : ℤ)
    (w : World RecordedBus) (hpage : page < 2044)
    (hdl : dl ≠ DEVLOCK) (hs : data.chars.length ≤ 31) :
    ∃ w' new, write (recorded Bus.twi) (device port) f page data dl w = .ok (w', 0) ∧
      w'.bus.2 = w.bus.2 ++ new ∧ stores new = span port (32 * (page % 2048).toNat) 32 ∧
      ∀ a, a < 32 * (page % 2048).toNat ∨ 32 * (page % 2048).toNat + 32 ≤ a →
        w'.bus.1.memory port a = w.bus.1.memory port a := by
  have haddr := pageHigh_pageLow_emod page
  have hlen : (34 : UInt16).toNat = 32 + 2 := rfl
  have hfit : ((pageHigh page).toNat * 256 + (pageLow page).toNat) % 128 + 32 ≤ 128 := by omega
  obtain ⟨b', hwrite, hself, -, -⟩ :=
    memory_iicWrite port w.bus.1 (pageHigh page) (pageLow page) (strcpy data f.junk) hlen hfit
  obtain ⟨new, hnew, hstores, -⟩ :=
    iicWrite_withAddress port w.bus.1 (pageHigh page) (pageLow page)
      (strcpy data f.junk) w.bus.2 hlen hfit
  rw [haddr] at hself hstores
  rw [hwrite] at hnew
  refine ⟨⟨(b', w.bus.2 ++ new), w.serial⟩, new, ?_, rfl, hstores, fun a ha => ?_⟩
  · rw [write_of_fits w (Or.inl hpage) hs hnew, ok_accept w hpage hdl]
  · rw [hself, if_neg (by omega)]

theorem readPage_recorded (port : Fin 8) (f : Frame) (w : World RecordedBus) (hpage : page < 2044)
    (hdl : dl ≠ DEVLOCK) :
    ∃ w' new, readPage (recorded Bus.twi) (device port) f page dl w = (w', 0) ∧
      w'.bus.2 = w.bus.2 ++ new ∧ fetches new = span port (32 * (page % 2048).toNat) 32 := by
  have haddr := pageHigh_pageLow_emod page
  obtain ⟨b', b'', buffer, log', new, hwrite, hread, -, hfetches, -⟩ :=
    iicRead_withAddress port w.bus.1 (pageHigh page) (pageLow page) f.junk (n := 32) w.bus.2
      (by rw [haddr]; simp only [UInt16.reduceToNat]; omega)
  rw [haddr] at hfetches
  refine ⟨World.print ⟨(b'', w.bus.2 ++ new), w.serial⟩
    (printed ((List.range 32).map buffer) f.beyond), new, ?_, rfl, hfetches⟩
  simp only [readPage, ok_accept w hpage hdl, Bool.false_eq_true, if_false, hwrite, hread]

/-! ## The counter of `WriteAuto` -/

/-- The value of four characters as decimal digits, which they need not be. -/
def counterValue (data : ℕ → UInt8) : ℤ :=
  (Avr.ofChar (data 0) - 48) * 1000 + (Avr.ofChar (data 1) - 48) * 100 +
    (Avr.ofChar (data 2) - 48) * 10 + (Avr.ofChar (data 3) - 48)

theorem decode_eq_wrap16 (data : ℕ → UInt8) : decode data = Avr.wrap16 (counterValue data) := by
  simp only [decode, counterValue, Avr.wrap16]
  omega

theorem counterValue_congr {data data' : ℕ → UInt8} (h : ∀ i < 4, data i = data' i) :
    counterValue data = counterValue data' := by
  unfold counterValue
  rw [h 0 (by decide), h 1 (by decide), h 2 (by decide), h 3 (by decide)]

theorem getAddr_recorded (port : Fin 8) (f : Frame) (w : World RecordedBus) :
    ∃ w' new, getAddr (recorded Bus.twi) (device port) f w =
        (w', Avr.wrap16 (counterValue fun i => w.bus.1.memory port (0xff80 + i))) ∧
      w'.bus.2 = w.bus.2 ++ new ∧ stores new = [] ∧
      ∀ q, w'.bus.1.memory q = w.bus.1.memory q := by
  obtain ⟨b', b'', buffer, log', new, hwrite, hread, hstores, -, hmemory, hbuffer⟩ :=
    iicRead_withAddress port w.bus.1 (Avr.toUChar (L_ADDR / 256)) (Avr.toUChar L_ADDR) f.junk
      (n := 4) w.bus.2 (by rw [L_ADDR_bytes]; decide)
  rw [L_ADDR_bytes] at hbuffer
  have hvalue := counterValue_congr hbuffer
  refine ⟨World.println ⟨(b'', w.bus.2 ++ new), w.serial⟩
    (printed ((List.range 4).map buffer) f.beyond), new, ?_, rfl, hstores, hmemory⟩
  simp only [getAddr, hwrite, hread, decode_eq_wrap16, hvalue]

theorem updAddr_recorded (port : Fin 8) (f : Frame) (caddr : ℤ) (w : World RecordedBus) :
    ∃ new, (updAddr (recorded Bus.twi) (device port) f caddr w).bus.2 = w.bus.2 ++ new ∧
      stores new = span port 0xff80 4 ∧
      ∀ a, 0xff84 ≤ a → (updAddr (recorded Bus.twi) (device port) f caddr w).bus.1.memory port a =
        w.bus.1.memory port a := by
  have hlen : (6 : UInt16).toNat = 4 + 2 := rfl
  have hfit : ((Avr.toUChar (L_ADDR / 256)).toNat * 256 + (Avr.toUChar L_ADDR).toNat) % 128 + 4 ≤
      128 := by
    rw [L_ADDR_bytes]
    decide
  obtain ⟨b', hwrite, hself, -, -⟩ :=
    memory_iicWrite port w.bus.1 (Avr.toUChar (L_ADDR / 256)) (Avr.toUChar L_ADDR)
      (encode (nextAddr caddr)) hlen hfit
  obtain ⟨new, hnew, hstores, -⟩ :=
    iicWrite_withAddress port w.bus.1 (Avr.toUChar (L_ADDR / 256))
      (Avr.toUChar L_ADDR) (encode (nextAddr caddr)) w.bus.2 hlen hfit
  rw [L_ADDR_bytes] at hself hstores
  rw [hwrite] at hnew
  refine ⟨new, ?_, hstores, fun a ha => ?_⟩
  · simp only [updAddr, World.print, World.println, hnew]
  · simp only [updAddr, World.print, World.println, hnew]
    rw [hself, if_neg (by omega)]

theorem writeAuto_recorded (port : Fin 8) (fs : Frames) (w : World RecordedBus)
    (hs : data.chars.length ≤ 31) :
    let page := autoPage (Avr.wrap16 (counterValue fun i => w.bus.1.memory port (0xff80 + i)))
    ∃ w' new, writeAuto (recorded Bus.twi) (device port) fs data w = .ok (w', 0) ∧
      w'.bus.2 = w.bus.2 ++ new ∧
      stores new = span port (32 * (page % 2048).toNat) 32 ++ span port 0xff80 4 ∧
      ∀ a, 32 * (page % 2048).toNat + 32 ≤ a → 0xff84 ≤ a →
        w'.bus.1.memory port a = w.bus.1.memory port a := by
  intro page
  obtain ⟨w₁, new₁, hget, hlog₁, hstores₁, hmemory₁⟩ := getAddr_recorded port fs.getAddr w
  set v := Avr.wrap16 (counterValue fun i => w.bus.1.memory port (0xff80 + i)) with hv
  -- between the calls only the serial output changes
  set w₂ : World RecordedBus := ((((w₁.print (ascii "WriteAuto - addr1: ")).println
    (ascii (toString v))).print (ascii "WriteAuto - addr2: ")).println
    (ascii (toString page))) with hw₂
  obtain ⟨w₃, new₃, hwrite, hlog₃, hstores₃, hmemory₃⟩ :=
    write_recorded port fs.write page data 0 w₂ (autoPage_lt v) (by decide) hs
  set w₄ : World RecordedBus := (w₃.print (ascii "WriteAuto - writing result: ")).println
    (ascii (toString (0 : ℤ))) with hw₄
  obtain ⟨new₅, hlog₅, hstores₅, hmemory₅⟩ := updAddr_recorded port fs.updAddr page w₄
  refine ⟨updAddr (recorded Bus.twi) (device port) fs.updAddr page w₄, new₁ ++ new₃ ++ new₅,
    ?_, ?_, ?_, ?_⟩
  · have hpage : (if v ≥ 2044 then 0 else v) = page := rfl
    have hwrite' : write (recorded Bus.twi) (device port) fs.write page data 0 w₂ =
      .ok (w₃, 0) := hwrite
    simp only [writeAuto, hget, hpage, ← hw₂, hwrite', ok_bind, ← hw₄, if_true]
  · have hsame₂ : w₂.bus = w₁.bus := rfl
    have hsame₄ : w₄.bus = w₃.bus := rfl
    rw [hlog₅, hsame₄, hlog₃, hsame₂, hlog₁]
    simp
  · rw [stores_append, stores_append, hstores₁, hstores₃, hstores₅]
    rfl
  · intro a ha hcell
    have hsame₂ : w₂.bus = w₁.bus := rfl
    have hsame₄ : w₄.bus = w₃.bus := rfl
    rw [hmemory₅ a hcell, hsame₄, hmemory₃ a (Or.inr ha), hsame₂, hmemory₁ port]

/-! ## Protection -/

/-- Addresses of the records 0 to 2043. -/
def InRecords (xs : List (Fin 8 × ℕ)) : Prop := ∀ x ∈ xs, x.2 < 0xff80

/-- The accesses of a call are in the records, and what is not a record number is refused
without any traffic. -/
def Protected (accesses : List (Bus × Operation) → List (Fin 8 × ℕ)) (page : ℤ)
    (out : World RecordedBus × ℤ) : Prop :=
  InRecords (accesses out.1.bus.2) ∧
    (¬(0 ≤ page ∧ page ≤ 2043) → out.2 ≠ 0 ∧ out.1.bus.2 = [])

def WriteProtected (port : Fin 8) (f : Frame) (page : ℤ) (data : CString) (dl : ℤ)
    (w : World Bus) : Prop :=
  ∃ out, write (recorded Bus.twi) (device port) f page data dl (recording w) = .ok out ∧
    Protected stores page out

def ReadProtected (port : Fin 8) (f : Frame) (page dl : ℤ) (w : World Bus) : Prop :=
  Protected fetches page (readPage (recorded Bus.twi) (device port) f page dl (recording w))

/-- `WriteAuto` stores its record elsewhere, and of the metadata area changes the counter
only. -/
def AutoProtected (port : Fin 8) (fs : Frames) (data : CString) (w : World Bus) : Prop :=
  ∃ w' rc record,
    writeAuto (recorded Bus.twi) (device port) fs data (recording w) = .ok (w', rc) ∧
    stores w'.bus.2 = record ++ span port 0xff80 4 ∧ InRecords record ∧
    ∀ a, 0xff84 ≤ a → w'.bus.1.memory port a = w.bus.memory port a

theorem inRecords_span {q : ℕ} (hq : q < 2044) : InRecords (span port (32 * q) 32) := by
  intro x hx
  have hlt := (mem_span.mp hx).2.2
  omega

theorem not_inRecords_span {q : ℕ} (hq : 2044 ≤ q) : ¬InRecords (span port (32 * q) 32) := by
  intro h
  have hlt := h (port, 32 * q) (mem_span.mpr ⟨rfl, le_refl _, by omega⟩)
  omega

section

variable {accesses : List (Bus × Operation) → List (Fin 8 × ℕ)} {out : World RecordedBus × ℤ}

theorem protected_of_refused (hnil : accesses [] = []) (hlog : out.1.bus.2 = [])
    (hrc : out.2 ≠ 0) : Protected accesses page out := by
  refine ⟨?_, fun _ => ⟨hrc, hlog⟩⟩
  rw [hlog, hnil]
  intro x hx
  cases hx

theorem protected_iff_of_accepted (hpage : page < 2044) (hrc : out.2 = 0)
    (haccess : accesses out.1.bus.2 = span port (32 * (page % 2048).toNat) 32) :
    Protected accesses page out ↔ 0 ≤ page := by
  constructor
  · intro h
    by_contra hneg
    exact (h.2 (by omega)).1 hrc
  · intro hpos
    refine ⟨?_, fun hout => (hout ⟨hpos, by omega⟩).elim⟩
    rw [haccess]
    exact inRecords_span (by omega)

end

theorem writeProtected_iff (port : Fin 8) (f : Frame) (w : World Bus) (hdl : dl ≠ DEVLOCK)
    (hs : data.chars.length ≤ 31) : WriteProtected port f page data dl w ↔ 0 ≤ page := by
  rcases le_or_gt 2044 page with hlarge | hsmall
  · obtain ⟨text, hok⟩ := ok_reject (recording w) hlarge hdl
    have hwrite : write (recorded Bus.twi) (device port) f page data dl (recording w) =
        .ok ((recording w).println text, 1) := by
      simp only [write, hok, if_true]
    have hprotected : Protected stores page ((recording w).println text, 1) :=
      protected_of_refused rfl rfl one_ne_zero
    exact iff_of_true ⟨_, hwrite, hprotected⟩ (by omega)
  · obtain ⟨w', new, hwrite, hlog, hstores, -⟩ :=
      write_recorded port f page data dl (recording w) hsmall hdl hs
    have hlog : w'.bus.2 = new := hlog
    have haccepted : Protected stores page (w', 0) ↔ 0 ≤ page :=
      protected_iff_of_accepted hsmall rfl (by rw [hlog, hstores])
    rw [← haccepted, WriteProtected, hwrite]
    constructor
    · rintro ⟨out, hout, h⟩
      cases hout
      exact h
    · intro h
      exact ⟨_, rfl, h⟩

theorem readProtected_iff (port : Fin 8) (f : Frame) (w : World Bus) (hdl : dl ≠ DEVLOCK) :
    ReadProtected port f page dl w ↔ 0 ≤ page := by
  unfold ReadProtected
  rcases le_or_gt 2044 page with hlarge | hsmall
  · obtain ⟨text, hok⟩ := ok_reject (recording w) hlarge hdl
    have hread : readPage (recorded Bus.twi) (device port) f page dl (recording w) =
        ((recording w).println text, 1) := by
      simp only [readPage, hok, if_true]
    rw [hread]
    exact iff_of_true (protected_of_refused rfl rfl one_ne_zero) (by omega)
  · obtain ⟨w', new, hread, hlog, hfetches⟩ := readPage_recorded port f (recording w) hsmall hdl
    have hlog : w'.bus.2 = new := hlog
    rw [hread]
    exact protected_iff_of_accepted hsmall rfl (by rw [hlog, hfetches])

/-- The values of the counter for which `WriteAuto` leaves the metadata area alone. -/
theorem autoPage_emod_lt (v : ℤ) :
    (autoPage (Avr.wrap16 v) % 2048).toNat < 2044 ↔ v % 65536 < 32768 ∨ v % 2048 < 2044 := by
  unfold autoPage Avr.wrap16
  split_ifs <;> omega

theorem autoProtected_iff (port : Fin 8) (fs : Frames) (w : World Bus)
    (hs : data.chars.length ≤ 31) :
    let v := counterValue fun i => w.bus.memory port (0xff80 + i)
    AutoProtected port fs data w ↔ v % 65536 < 32768 ∨ v % 2048 < 2044 := by
  intro v
  obtain ⟨w', new, hauto, hlog, hstores, hmemory⟩ :=
    writeAuto_recorded port fs (recording w) hs
  have hlog : w'.bus.2 = new := hlog
  rw [← autoPage_emod_lt v]
  constructor
  · rintro ⟨w'', rc, record, hauto', hrecord, hin, -⟩
    rw [hauto] at hauto'
    cases hauto'
    rw [hlog, hstores] at hrecord
    rw [← List.append_cancel_right hrecord] at hin
    by_contra hge
    exact not_inRecords_span (not_lt.mp hge) hin
  · intro hlt
    refine ⟨w', 0, _, hauto, by rw [hlog]; exact hstores, inRecords_span hlt, fun a ha => ?_⟩
    refine hmemory a ?_ ha
    have hbound : 32 * (autoPage (Avr.wrap16 v) % 2048).toNat + 32 ≤ a := by omega
    exact hbound

/-- Without the devlock the metadata area is safe from `Write` and `ReadPage` exactly for
record numbers that are not negative.  It is safe from `WriteAuto` exactly if the 16-bit
value of the counter is not negative, or negative and of a record below 2044 when the address
wraps around. -/
theorem metadata_protected (port : Fin 8) (w : World Bus) (data : CString)
    (hs : data.chars.length ≤ 31) :
    (∀ f page dl, dl ≠ DEVLOCK →
      (WriteProtected port f page data dl w ∧ ReadProtected port f page dl w ↔ 0 ≤ page)) ∧
    ∀ fs, AutoProtected port fs data w ↔
      (counterValue fun i => w.bus.memory port (0xff80 + i)) % 65536 < 32768 ∨
        (counterValue fun i => w.bus.memory port (0xff80 + i)) % 2048 < 2044 := by
  refine ⟨fun f page dl hdl => ?_, fun fs => autoProtected_iff port fs w hs⟩
  rw [writeProtected_iff port f w hdl hs, readProtected_iff port f w hdl, and_self]

def emptyString : CString := ⟨[], by decide⟩

/-- Record 5 is protected, and an erased counter means record 0. -/
theorem metadata_protected_erased :
    WriteProtected 0 emptyFrames.write 5 zeros 0 erased ∧
      ReadProtected 0 emptyFrames.write 2044 0 erased ∧
      AutoProtected 0 emptyFrames zeros erased := by
  obtain ⟨hpage, hauto⟩ := metadata_protected 0 erased zeros (by decide)
  refine ⟨?_, ?_, ?_⟩
  · exact ((hpage emptyFrames.write 5 0 (by decide)).mpr (by decide)).1
  · exact ((hpage emptyFrames.write 2044 0 (by decide)).mpr (by decide)).2
  · exact (hauto emptyFrames).mpr (by decide)

/-- An EEPROM with the characters `000/` in the counter, one less than `0000`. -/
def belowZero : World Bus :=
  ⟨⟨fun _ => ⟨fun a => if a = 0xff83 then 47 else 48, 0⟩, .idle⟩, []⟩

/-- Record -1 is accepted and stored at `0xffe0`, also by `WriteAuto`. -/
theorem minusOne_unprotected :
    (¬WriteProtected 0 emptyFrames.write (-1) emptyString 0 erased ∧
      ∃ w', write (recorded Bus.twi) (device 0) emptyFrames.write (-1) emptyString 0
          (recording erased) = .ok (w', 0) ∧ (0, 0xffe0) ∈ stores w'.bus.2) ∧
    ¬AutoProtected 0 emptyFrames emptyString belowZero := by
  refine ⟨⟨?_, ?_⟩, ?_⟩
  · rw [writeProtected_iff 0 _ _ (by decide) (by decide)]
    decide
  · obtain ⟨w', new, hwrite, hlog, hstores, -⟩ :=
      write_recorded 0 emptyFrames.write (-1) emptyString 0
        (recording erased) (by decide) (by decide) (by decide)
    have hlog : w'.bus.2 = new := hlog
    refine ⟨w', hwrite, ?_⟩
    rw [hlog, hstores]
    decide
  · intro h
    have hvalue := (autoProtected_iff 0 emptyFrames belowZero (by decide)).mp h
    exact absurd hvalue (by decide)

end EmbeddedKernel.DataLog
