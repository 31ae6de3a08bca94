import EmbeddedKernel.DataLog.Eeprom
import EmbeddedKernel.DataLog.Model

/-!
# The EEPROM as a store of pages

A record number is turned into an address in wrapping 16-bit arithmetic, and its
two bytes set the pointer of the EEPROM.  For the records 0 to 2047 this is 32
times the number, so records do not overlap and none of them straddles a physical
page; what is read back is the string written last.
-/

namespace EmbeddedKernel.DataLog

open Iic Library

/-- The logger for the EEPROM at a port. -/
def device (port : Fin 8) : LogData := .constructed (UInt8.ofNat port)

variable {w : World Bus} {port : Fin 8} {p : ℕ} {dl : ℤ}

/-- The memories of all EEPROMs are the same, but for the record `p` at `port`, whose bytes
are now `data`. -/
structure Stored (b b' : Bus) (port : Fin 8) (p : ℕ) (data : ℕ → UInt8) : Prop where
  self : ∀ i < 32, b'.memory port (32 * p + i) = data i
  below : ∀ a < 32 * p, b'.memory port a = b.memory port a
  above : ∀ a, 32 * p + 32 ≤ a → b'.memory port a = b.memory port a
  other : ∀ q, q ≠ port → b'.memory q = b.memory q

theorem map_withAddress (high low : UInt8) (data : ℕ → UInt8) (n : ℕ) :
    (List.range (n + 2)).map (withAddress high low data) =
      high :: low :: (List.range n).map data := by
  rw [List.range_succ_eq_map, List.range_succ_eq_map]
  simp [withAddress, Function.comp_def]

/-- Storing bytes that do not leave the physical page. -/
theorem memory_iicWrite (port : Fin 8) (b : Bus) (high low : UInt8) (data : ℕ → UInt8) {n : ℕ}
    {len : UInt16} (hlen : len.toNat = n + 2)
    (hfit : (high.toNat * 256 + low.toNat) % 128 + n ≤ 128) :
    ∃ b', iicWrite Bus.twi (device port).iicAddrE2 (withAddress high low data) len b = (b', 0) ∧
      (∀ a, b'.memory port a =
        if high.toNat * 256 + low.toNat ≤ a ∧ a < high.toNat * 256 + low.toNat + n then
          data (a - (high.toNat * 256 + low.toNat))
        else b.memory port a) ∧
      (∀ q, q ≠ port → b'.memory q = b.memory q) ∧
      (n = 0 → (b'.eeprom port).pointer = high.toNat * 256 + low.toNat) := by
  have hbytes : (List.range len.toNat).map (withAddress high low data) =
      withAddress high low data 0 :: withAddress high low data 1 :: (List.range n).map data := by
    rw [hlen, map_withAddress]
    rfl
  refine ⟨_, Bus.iicWrite_eq hbytes, fun a => ?_, fun q hq => ?_, fun hn => ?_⟩
  · rw [Bus.memory, Bus.setEeprom_eeprom_self]
    rw [Eeprom.memory_storeList (by simpa [Eeprom.setPointer, withAddress] using hfit)]
    simp only [Eeprom.setPointer, withAddress, List.length_map, List.length_range]
    split_ifs with ha
    · simp [show a - (high.toNat * 256 + low.toNat) < n by omega]
    · rfl
  · rw [Bus.memory, Bus.setEeprom_eeprom_of_ne _ _ _ hq]
    rfl
  · subst hn
    rw [Bus.setEeprom_eeprom_self]
    rfl

/-- Setting the pointer and reading `n` bytes from it. -/
theorem memory_iicRead (port : Fin 8) (b : Bus) (high low : UInt8) (junk : ℕ → UInt8) {n : UInt16}
    (hend : high.toNat * 256 + low.toNat + n.toNat ≤ 65536) :
    ∃ b' b'' buffer,
      iicWrite Bus.twi (device port).iicAddrE2 (withAddress high low junk) 2 b = (b', 0) ∧
      iicRead Bus.twi (device port).iicAddrE2 junk n b' = (b'', buffer, 0) ∧
      (∀ q, b''.memory q = b.memory q) ∧
      ∀ j < n.toNat, buffer j = b.memory port (high.toNat * 256 + low.toNat + j) := by
  obtain ⟨b', hwrite, hself, hother, hpointer⟩ :=
    memory_iicWrite port b high low junk (show (2 : UInt16).toNat = 0 + 2 from rfl) (by omega)
  have hpointer := hpointer rfl
  have hmemory : b'.memory port = b.memory port := by
    funext a
    rw [hself a, if_neg (by omega)]
  have hbelow : (b'.eeprom port).pointer < 65536 := by
    have hhigh := high.toNat_lt
    have hlow := low.toNat_lt
    omega
  obtain ⟨pointer, buffer, hread, hbuffer⟩ := Bus.iicRead_eq port (b := b') junk (n := n) hbelow
  refine ⟨b', _, buffer, hwrite, hread, fun q => ?_, fun j hj => ?_⟩
  · by_cases hq : q = port
    · subst hq
      rw [Bus.memory, Bus.setEeprom_eeprom_self]
      exact hmemory
    · rw [Bus.memory, Bus.setEeprom_eeprom_of_ne _ _ _ hq]
      exact hother q hq
  · rw [hbuffer j hj, hpointer, Nat.mod_eq_of_lt (by omega), ← hmemory]
    rfl

/-- The two transfers of a reading get the record. -/
theorem memory_iicRead_record (port : Fin 8) (b : Bus) (junk : ℕ → UInt8) (hp : p ≤ 2047) :
    ∃ b' b'' buffer,
      iicWrite Bus.twi (device port).iicAddrE2 (withAddress (pageHigh p) (pageLow p) junk) 2 b =
        (b', 0) ∧
      iicRead Bus.twi (device port).iicAddrE2 junk 32 b' = (b'', buffer, 0) ∧
      (∀ q, b''.memory q = b.memory q) ∧
      ∀ j < 32, buffer j = b.memory port (32 * p + j) := by
  have haddr := pageHigh_pageLow hp
  have hend : (pageHigh p).toNat * 256 + (pageLow p).toNat + (32 : UInt16).toNat ≤ 65536 := by
    rw [haddr]
    simp only [UInt16.reduceToNat]
    omega
  obtain ⟨b', b'', buffer, hwrite, hread, hmemory, hbuffer⟩ :=
    memory_iicRead port b (pageHigh p) (pageLow p) junk hend
  rw [haddr] at hbuffer
  exact ⟨b', b'', buffer, hwrite, hread, hmemory, hbuffer⟩

/-! ## Single operations -/

/-- What `ok` prints for a page it accepts. -/
def okText (dl : ℤ) : List UInt8 :=
  if dl = DEVLOCK then ascii "VALID: DEVLOCK" ++ [13, 10] else []

theorem ok_of_accepted {σ : Type*} {page : ℤ} (w : World σ) (hpage : page < 2044 ∨ dl = DEVLOCK) :
    ok page dl w = (w.print (okText dl), false) := by
  have hreject : ¬(page ≥ 2044 ∧ dl ≠ DEVLOCK) := by
    rintro ⟨hp, hne⟩
    rcases hpage with hpage | hdl
    · omega
    · exact hne hdl
  unfold ok
  rw [if_neg hreject]
  by_cases hlock : dl = DEVLOCK
  · simp [hlock, okText, World.println]
  · simp [hlock, okText, World.print]

theorem ok_eq {σ : Type*} (w : World σ) (hdl : p ≤ 2043 ∨ dl = DEVLOCK) :
    ok p dl w = (w.print (okText dl), false) :=
  ok_of_accepted w (hdl.imp_left fun hp => by omega)

/-- `Write` on an accepted page sends the string if the record has room for it. -/
theorem write_of_fits {σ : Type*} {twi : Twi σ} {d : LogData} {f : Frame} {page : ℤ}
    {data : CString} (w : World σ) {bus : σ} {rc : ℤ} (hpage : page < 2044 ∨ dl = DEVLOCK)
    (hlength : data.chars.length ≤ 31)
    (hwrite : iicWrite twi d.iicAddrE2
      (withAddress (pageHigh page) (pageLow page) (strcpy data f.junk)) 34 w.bus = (bus, rc)) :
    write twi d f page data dl w = .ok (⟨bus, (ok page dl w).1.serial⟩, rc) := by
  have hfits : ¬data.chars.length + 1 > 32 := by omega
  simp only [write, ok_of_accepted w hpage, hfits, Bool.false_eq_true, if_false, World.print,
    hwrite]

theorem write_spec (port : Fin 8) (f : Frame) (data : CString) (dl : ℤ) (w : World Bus)
    (hp : p ≤ 2047) (hdl : p ≤ 2043 ∨ dl = DEVLOCK) (hs : data.chars.length ≤ 31) :
    ∃ w', write Bus.twi (device port) f p data dl w = .ok (w', 0) ∧
      Stored w.bus w'.bus port p (strcpy data f.junk) ∧ w'.serial = w.serial ++ okText dl := by
  have haddr := pageHigh_pageLow hp
  obtain ⟨b', hwrite, hself, hother, -⟩ :=
    memory_iicWrite port w.bus (pageHigh p) (pageLow p) (strcpy data f.junk)
      (show (34 : UInt16).toNat = 32 + 2 from rfl) (by omega)
  rw [haddr] at hself
  refine ⟨⟨b', w.serial ++ okText dl⟩, ?_, ⟨?_, ?_, ?_, hother⟩, rfl⟩
  · have hpage : (p : ℤ) < 2044 ∨ dl = DEVLOCK := hdl.imp_left fun hp => by omega
    rw [write_of_fits w hpage hs hwrite, ok_of_accepted w hpage]
    rfl
  · intro i hi
    rw [hself, if_pos (by omega), Nat.add_sub_cancel_left]
  · intro a ha
    rw [hself, if_neg (by omega)]
  · intro a ha
    rw [hself, if_neg (by omega)]

theorem readPage_spec (port : Fin 8) (f : Frame) (dl : ℤ) (w : World Bus) (hp : p ≤ 2047)
    (hdl : p ≤ 2043 ∨ dl = DEVLOCK) :
    ∃ w', readPage Bus.twi (device port) f p dl w = (w', 0) ∧
      (∀ q, w'.bus.memory q = w.bus.memory q) ∧
      w'.serial = w.serial ++ okText dl ++
        printed ((List.range 32).map fun i => w.bus.memory port (32 * p + i)) f.beyond := by
  obtain ⟨b', b'', buffer, hwrite, hread, hmemory, hbuffer⟩ :=
    memory_iicRead_record port w.bus f.junk hp
  refine ⟨⟨b'', w.serial ++ okText dl ++ printed ((List.range 32).map buffer) f.beyond⟩, ?_,
    hmemory, ?_⟩
  · simp only [readPage, ok_eq w hdl, Bool.false_eq_true, if_false, World.print, hwrite, hread]
  · have hsame : (List.range 32).map buffer =
        (List.range 32).map fun i => w.bus.memory port (32 * p + i) := by
      apply List.map_congr_left
      intro i hi
      exact hbuffer i (List.mem_range.mp hi)
    simp only [hsame]

/-! ## Sequences of operations -/

/-- A call of a public function of the logger at a port. -/
inductive Op
  | write (port : Fin 8) (page : ℤ) (data : CString) (dl : ℤ) (f : Frame)
  | readPage (port : Fin 8) (page : ℤ) (dl : ℤ) (f : Frame)

namespace Op

/-- The page is a record and the string fits into it. -/
def Valid : Op → Prop
  | .write _ page data _ _ => 0 ≤ page ∧ page ≤ 2043 ∧ data.chars.length ≤ 31
  | .readPage _ page _ _ => 0 ≤ page ∧ page ≤ 2043

def perform (w : World Bus) : Op → Except Stop (World Bus × ℤ)
  | .write port page data dl f => DataLog.write Bus.twi (device port) f page data dl w
  | .readPage port page dl f => .ok (DataLog.readPage Bus.twi (device port) f page dl w)

/-- The string the call writes to this page. -/
def writes (port : Fin 8) (page : ℤ) : Op → Option CString
  | .write port' page' data _ _ => if port' = port ∧ page' = page then some data else none
  | .readPage _ _ _ _ => none

end Op

/-- A sequence of calls with their return values. -/
def performAll (ops : List Op) (w : World Bus) : Except Stop (World Bus × List ℤ) :=
  callAll Op.perform w ops

def lastWritten (port : Fin 8) (page : ℤ) : List Op → Option CString
  | [] => none
  | op :: ops => (lastWritten port page ops).or (op.writes port page)

/-- The record `p` at `port` holds the string. -/
def HoldsString (b : Bus) (port : Fin 8) (p : ℕ) (data : CString) : Prop :=
  data.chars.length ≤ 31 ∧
    ∃ junk, ∀ i < 32, b.memory port (32 * p + i) = strcpy data junk i

def SamePage (b b' : Bus) (port : Fin 8) (p : ℕ) : Prop :=
  ∀ i < 32, b'.memory port (32 * p + i) = b.memory port (32 * p + i)

theorem HoldsString.congr {b b' : Bus} {data : CString} (h : HoldsString b port p data)
    (hsame : SamePage b b' port p) : HoldsString b' port p data := by
  obtain ⟨hlen, junk, hjunk⟩ := h
  exact ⟨hlen, junk, fun i hi => (hsame i hi).trans (hjunk i hi)⟩

/-- Records do not overlap. -/
theorem Stored.samePage {b b' : Bus} {port' : Fin 8} {p' : ℕ} {data : ℕ → UInt8}
    (h : Stored b b' port p data) (hne : ¬(port = port' ∧ p = p')) : SamePage b b' port' p' := by
  intro i hi
  by_cases hport : port' = port
  · subst hport
    have hp : p ≠ p' := fun heq => hne ⟨rfl, heq⟩
    rcases Nat.lt_or_gt_of_ne hp with hlt | hgt
    · exact h.above _ (by omega)
    · exact h.below _ (by omega)
  · rw [h.other port' hport]

/-- What a valid call does to the pages: it returns 0 and changes the record it writes. -/
theorem Op.perform_spec (op : Op) (w : World Bus) (hvalid : op.Valid) :
    ∃ w', op.perform w = .ok (w', 0) ∧
      (∀ port (p : ℕ) data, op.writes port p = some data → HoldsString w'.bus port p data) ∧
      (∀ port (p : ℕ), op.writes port p = none → SamePage w.bus w'.bus port p) ∧
      ∀ port a, 0xff80 ≤ a → w'.bus.memory port a = w.bus.memory port a := by
  cases op with
  | write port page data dl f =>
      obtain ⟨hpos, hle, hlen⟩ := hvalid
      obtain ⟨p, rfl⟩ := Int.eq_ofNat_of_zero_le hpos
      have hp : p ≤ 2043 := by omega
      obtain ⟨w', hok, hstored, -⟩ := write_spec port f data dl w (by omega) (Or.inl hp) hlen
      refine ⟨w', hok, ?_, ?_, ?_⟩
      · intro port' p' data' hwrites
        simp only [Op.writes] at hwrites
        split_ifs at hwrites with heq
        obtain ⟨rfl, hp'⟩ := heq
        have hpp : p = p' := by exact_mod_cast hp'
        subst hpp
        cases hwrites
        exact ⟨hlen, f.junk, hstored.self⟩
      · intro port' p' hwrites
        simp only [Op.writes] at hwrites
        split_ifs at hwrites with heq
        apply hstored.samePage
        rintro ⟨rfl, rfl⟩
        exact heq ⟨rfl, rfl⟩
      · intro port' a ha
        by_cases hport : port' = port
        · subst hport
          exact hstored.above a (by omega)
        · rw [hstored.other port' hport]
  | readPage port page dl f =>
      obtain ⟨hpos, hle⟩ := hvalid
      obtain ⟨p, rfl⟩ := Int.eq_ofNat_of_zero_le hpos
      have hp : p ≤ 2043 := by omega
      obtain ⟨w', hread, hmemory, -⟩ := readPage_spec port f dl w (by omega) (Or.inl hp)
      refine ⟨w', ?_, by simp [Op.writes], fun port' p' _ i _ => by rw [hmemory],
        fun port' a _ => by rw [hmemory]⟩
      exact congrArg Except.ok hread

theorem performAll_spec (ops : List Op) (w : World Bus) (hvalid : ∀ op ∈ ops, op.Valid) :
    ∃ w', performAll ops w = .ok (w', List.replicate ops.length 0) ∧
      (∀ port (p : ℕ) data, lastWritten port p ops = some data →
        HoldsString w'.bus port p data) ∧
      (∀ port (p : ℕ), lastWritten port p ops = none → SamePage w.bus w'.bus port p) ∧
      ∀ port a, 0xff80 ≤ a → w'.bus.memory port a = w.bus.memory port a := by
  induction ops generalizing w with
  | nil =>
      refine ⟨w, rfl, ?_, fun _ _ _ _ _ => rfl, fun _ _ _ => rfl⟩
      intro port p data h
      cases h
  | cons op ops ih =>
      obtain ⟨w₁, hop, hwritten, hkept, hmeta⟩ := op.perform_spec w (hvalid op (by simp))
      obtain ⟨w', hops, hwritten', hkept', hmeta'⟩ :=
        ih w₁ fun o ho => hvalid o (List.mem_cons_of_mem op ho)
      refine ⟨w', ?_, ?_, ?_, fun port a ha => (hmeta' port a ha).trans (hmeta port a ha)⟩
      · exact callAll_cons hop hops
      · intro port p data hlast
        cases hlater : lastWritten port p ops with
        | some data' =>
            rw [lastWritten, hlater, Option.some_or] at hlast
            obtain rfl := Option.some.inj hlast
            exact hwritten' port p _ hlater
        | none =>
            rw [lastWritten, hlater, Option.none_or] at hlast
            exact (hwritten port p data hlast).congr (hkept' port p hlater)
      · intro port p hlast
        rw [lastWritten, Option.or_eq_none_iff] at hlast
        intro i hi
        exact (hkept' port p hlast.1 i hi).trans (hkept port p hlast.2 i hi)

theorem readPage_of_holdsString {data : CString} (f : Frame) (hp : p ≤ 2043)
    (hlock : dl ≠ DEVLOCK) (h : HoldsString w.bus port p data) :
    ∃ w', readPage Bus.twi (device port) f p dl w = (w', 0) ∧
      w'.serial = w.serial ++ data.chars := by
  obtain ⟨hlen, junk, hjunk⟩ := h
  obtain ⟨w', hread, -, hserial⟩ := readPage_spec port f dl w (by omega) (Or.inl hp)
  refine ⟨w', hread, ?_⟩
  have hrecord : ((List.range 32).map fun i => w.bus.memory port (32 * p + i)) =
      (List.range 32).map (strcpy data junk) := by
    apply List.map_congr_left
    intro i hi
    exact hjunk i (List.mem_range.mp hi)
  rw [hserial, hrecord, printed_strcpy hlen]
  simp [okText, hlock]

/-- After every sequence of writes and reads of records through loggers with distinct ports,
all of which return 0: reading a record returns 0 and prints the string written to it last,
and records that were not written, the bytes from `L_ADDR` on and the other devices are as
they were. -/
theorem pageStore_faithful (w : World Bus) (ops : List Op) (hvalid : ∀ op ∈ ops, op.Valid) :
    ∃ w', performAll ops w = .ok (w', List.replicate ops.length 0) ∧
      ∀ port,
        (∀ (p : ℕ) data, p ≤ 2043 → lastWritten port p ops = some data →
          ∀ f dl, dl ≠ DEVLOCK → ∃ w'', readPage Bus.twi (device port) f p dl w' = (w'', 0) ∧
            w''.serial = w'.serial ++ data.chars) ∧
        (∀ p ≤ 2043, lastWritten port (p : ℕ) ops = none → SamePage w.bus w'.bus port p) ∧
        ∀ a, 0xff80 ≤ a → w'.bus.memory port a = w.bus.memory port a := by
  obtain ⟨w', hrun, hwritten, hkept, hmeta⟩ := performAll_spec ops w hvalid
  refine ⟨w', hrun, fun port => ⟨?_, fun p _ => hkept port p, hmeta port⟩⟩
  intro p data hp hlast f dl hlock
  exact readPage_of_holdsString f hp hlock (hwritten port p data hlast)

/-- EEPROMs with all bits set. -/
def erased : World Bus := ⟨⟨fun _ => ⟨fun _ => 0xff, 0⟩, .idle⟩, []⟩

/-- Frames without contents. -/
def emptyFrames : Frames := ⟨⟨fun _ => 0, []⟩, ⟨fun _ => 0, []⟩, ⟨fun _ => 0, []⟩⟩

/-- Two loggers write to a record with an address beyond the range of `int`, one of them twice. -/
def twoDevices : List Op :=
  [.write 0 1500 ⟨[65, 66, 67], by decide⟩ 0 ⟨fun _ => 7, []⟩,
    .write 1 1500 ⟨[68, 69], by decide⟩ 0 ⟨fun _ => 8, []⟩,
    .readPage 1 1500 0 ⟨fun _ => 9, []⟩,
    .write 0 1500 ⟨[70], by decide⟩ 0 ⟨fun _ => 0, []⟩]

theorem pageStore_faithful_twoDevices :
    ∃ w', performAll twoDevices erased = .ok (w', [0, 0, 0, 0]) ∧
      (∀ f, ∃ w'', readPage Bus.twi (device 0) f 1500 0 w' = (w'', 0) ∧
        w''.serial = w'.serial ++ [70]) ∧
      (∀ f, ∃ w'', readPage Bus.twi (device 1) f 1500 0 w' = (w'', 0) ∧
        w''.serial = w'.serial ++ [68, 69]) ∧
      SamePage erased.bus w'.bus 0 1499 := by
  have hvalid : ∀ op ∈ twoDevices, op.Valid := by
    simp [twoDevices, Op.Valid]
  obtain ⟨w', hrun, hstore⟩ := pageStore_faithful erased twoDevices hvalid
  refine ⟨w', hrun, fun f => ?_, fun f => ?_, (hstore 0).2.1 1499 (by decide) rfl⟩
  · exact (hstore 0).1 1500 _ (by decide) rfl f 0 (by decide)
  · exact (hstore 1).1 1500 _ (by decide) rfl f 0 (by decide)

end EmbeddedKernel.DataLog
