import Tcp118.Library.LastWrite
import Tcp118.Packet.Fields

/-!
# Sequences of setter calls

Five fields and three unassigned bits share the third header word.  Whatever setters are called, in
whatever order, each getter returns what its own setter was given last.

* `HeaderField`: the fields of the third header word, with `read` and `write`;
* `SetterCall`, `SetterCall.apply`: a call of a setter, and what it does;
* `SetterCall.read_apply`, `SetterCall.getSeqNum_apply`, …: one call changes what it is meant to,
  and nothing else;
* `ReadsBack`, `setters_independent`: what the getters return after any sequence of calls.
-/

namespace Tcp118

open LastWrite

/-! ### The fields of the third header word -/

/-- The fields of the third header word. -/
inductive HeaderField
  | ack
  | last
  | close
  | unassigned
  | size
  | checksum
  deriving DecidableEq

namespace HeaderField

/-- The lowest bit. -/
def shift : HeaderField → ℕ
  | ack => 31
  | last => 30
  | close => 29
  | unassigned => 26
  | size => 16
  | checksum => 0

/-- The number of bits. -/
def len : HeaderField → ℕ
  | unassigned => 3
  | size => 10
  | checksum => 16
  | _ => 1

/-- The mask that clears the field. -/
def mask (f : HeaderField) : ℕ := 2 ^ 32 - 1 - (2 ^ f.len - 1) * 2 ^ f.shift

def read (f : HeaderField) (pkt : Packet) : ℕ := getField pkt f.shift (2 ^ f.len - 1)

def write (f : HeaderField) (pkt : Packet) (v : ℕ) : Packet := setField pkt f.mask f.shift v

variable {f g : HeaderField} {pkt : Packet} {v : ℕ}

theorem clears (f : HeaderField) : ClearsField f.mask f.shift f.len := by
  cases f <;> decide

theorem inside (f : HeaderField) : f.shift + f.len ≤ 32 := by
  cases f <;> decide

/-- Different fields have no bit in common. -/
theorem disjoint (h : f ≠ g) : g.shift + g.len ≤ f.shift ∨ f.shift + f.len ≤ g.shift := by
  revert h
  cases f <;> cases g <;> decide

@[simp] theorem read_write_self (hv : v < 2 ^ f.len) : f.read (f.write pkt v) = v :=
  getField_setField_self f.clears f.inside hv

theorem read_write_of_ne (h : f ≠ g) (hv : v < 2 ^ f.len) :
    g.read (f.write pkt v) = g.read pkt :=
  getField_setField_of_disjoint f.clears f.inside hv g.inside (disjoint h)

/-- The other header words hold no bit of a field. -/
theorem read_setWord32 {k w : ℕ} (h : k ≠ 2) : f.read (pkt.setWord32 k w) = f.read pkt := by
  unfold read getField
  rw [Packet.word32_setWord32_of_ne h.symm]

theorem read_copyBody {buff : List UInt8} {n : ℕ} : f.read (copyBody pkt buff n) = f.read pkt :=
  getField_copyBody

end HeaderField

/-! ### Calls -/

/-- A call of a setter, with arguments of the setter's types; a body has at most `MAX_BODY_SIZE`
bytes. -/
inductive SetterCall
  | setSeqNum (seqNum : UInt32)
  | setACKNum (ackNum : UInt32)
  | setACK (ack : Bool)
  | setLast (last : Bool)
  | setClose (close : Bool)
  | setSize (size : UInt16)
  | setChecksum (checksum : UInt16)
  | setBody (buff : List UInt8) (h : buff.length ≤ maxBodySize)

namespace SetterCall

/-- The packet a call leaves. -/
def apply (pkt : Packet) : SetterCall → Packet
  | setSeqNum seqNum => Tcp118.setSeqNum pkt seqNum.toNat
  | setACKNum ackNum => Tcp118.setACKNum pkt ackNum.toNat
  | setACK ack => Tcp118.setACK pkt ack
  | setLast last => Tcp118.setLast pkt last
  | setClose close => Tcp118.setClose pkt close
  | setSize size => Tcp118.setSize pkt size.toNat
  | setChecksum checksum => Tcp118.setChecksum pkt checksum.toNat
  | setBody buff _ => (Tcp118.setBody pkt buff buff.length).1

/-! What a call gives to each getter. -/

def givenSeqNum : SetterCall → Option ℕ
  | setSeqNum seqNum => some seqNum.toNat
  | _ => none

def givenACKNum : SetterCall → Option ℕ
  | setACKNum ackNum => some ackNum.toNat
  | _ => none

def givenACK : SetterCall → Option Bool
  | setACK ack => some ack
  | _ => none

def givenLast : SetterCall → Option Bool
  | setLast last => some last
  | _ => none

def givenClose : SetterCall → Option Bool
  | setClose close => some close
  | _ => none

/-- The size, clamped. -/
def givenSize : SetterCall → Option ℕ
  | setSize size => some (min size.toNat maxBodySize)
  | _ => none

def givenChecksum : SetterCall → Option ℕ
  | setChecksum checksum => some checksum.toNat
  | _ => none

/-- The byte at offset `i` of the body region, if the call covers it. -/
def givenByte (i : ℕ) : SetterCall → Option UInt8
  | setBody buff _ => buff[i]?
  | _ => none

/-- The field of the third header word that a call writes, and the value. -/
def field : SetterCall → Option (HeaderField × ℕ)
  | setACK ack => some (.ack, ack.toNat)
  | setLast last => some (.last, last.toNat)
  | setClose close => some (.close, close.toNat)
  | setSize size => some (.size, min size.toNat maxBodySize)
  | setChecksum checksum => some (.checksum, checksum.toNat)
  | _ => none

/-- What a call writes to the field `f`. -/
def given (f : HeaderField) (c : SetterCall) : Option ℕ :=
  c.field.bind fun p => if p.1 = f then some p.2 else none

variable {c : SetterCall} {f : HeaderField} {pkt : Packet}

/-! ### One call -/

/-- A call for a field of the third header word writes that field. -/
theorem apply_of_field {v : ℕ} (h : c.field = some (f, v)) :
    c.apply pkt = f.write pkt v ∧ v < 2 ^ f.len := by
  cases c with
  | setACK ack =>
    cases h
    exact ⟨rfl, boolToNat_lt ack⟩
  | setLast last =>
    cases h
    exact ⟨rfl, boolToNat_lt last⟩
  | setClose close =>
    cases h
    exact ⟨rfl, boolToNat_lt close⟩
  | setSize size =>
    cases h
    have hmask : HeaderField.size.mask = 0xFC00FFFF := by decide
    have htemp : min size.toNat maxBodySize =
        if size.toNat > maxBodySize then maxBodySize else size.toNat := by
      split_ifs <;> omega
    constructor
    · rw [HeaderField.write, hmask, htemp]
      rfl
    · exact lt_of_le_of_lt (Nat.min_le_right _ _) (by decide)
  | setChecksum checksum =>
    cases h
    have hlt : checksum.toNat < 2 ^ 16 := checksum.toNat_lt
    have hmask : HeaderField.checksum.mask = 0xFFFF0000 := by decide
    have hand : checksum.toNat &&& 0x0000FFFF = checksum.toNat := by
      rw [show (0x0000FFFF : ℕ) = 2 ^ 16 - 1 from rfl, Nat.and_two_pow_sub_one_eq_mod,
        Nat.mod_eq_of_lt hlt]
    constructor
    · rw [HeaderField.write, hmask, ← hand]
      rfl
    · exact hlt
  | setSeqNum | setACKNum | setBody => cases h

/-- Any other call leaves the third header word alone. -/
theorem read_apply_of_none (h : c.field = none) : f.read (c.apply pkt) = f.read pkt := by
  cases c with
  | setSeqNum => exact HeaderField.read_setWord32 (by decide)
  | setACKNum => exact HeaderField.read_setWord32 (by decide)
  | setBody => exact HeaderField.read_copyBody
  | setACK | setLast | setClose | setSize | setChecksum => cases h

/-- A call changes the field it is for. -/
theorem read_apply (f : HeaderField) (pkt : Packet) (c : SetterCall) :
    f.read (c.apply pkt) = (c.given f).getD (f.read pkt) := by
  unfold given
  cases hc : c.field with
  | none => exact read_apply_of_none hc
  | some p =>
    obtain ⟨g, v⟩ := p
    obtain ⟨happly, hv⟩ : c.apply pkt = g.write pkt v ∧ v < 2 ^ g.len := apply_of_field hc
    rw [happly, Option.bind_some]
    by_cases hg : g = f
    · subst hg
      simp [hv]
    · simp [hg, HeaderField.read_write_of_ne hg hv]

/-- The first two header words are written by their own setters only. -/
theorem getSeqNum_apply (pkt : Packet) (c : SetterCall) :
    getSeqNum (c.apply pkt) = c.givenSeqNum.getD (getSeqNum pkt) := by
  cases c with
  | setSeqNum seqNum => exact Packet.word32_setWord32_self (by norm_num) seqNum.toNat_lt
  | setACKNum => exact Packet.word32_setWord32_of_ne (by decide)
  | setBody => exact word32_copyBody (by norm_num)
  | setACK | setLast | setClose | setSize | setChecksum => exact word32_setField_of_ne (by decide)

theorem getACKNum_apply (pkt : Packet) (c : SetterCall) :
    getACKNum (c.apply pkt) = c.givenACKNum.getD (getACKNum pkt) := by
  cases c with
  | setSeqNum => exact Packet.word32_setWord32_of_ne (by decide)
  | setACKNum ackNum => exact Packet.word32_setWord32_self (by norm_num) ackNum.toNat_lt
  | setBody => exact word32_copyBody (by norm_num)
  | setACK | setLast | setClose | setSize | setChecksum => exact word32_setField_of_ne (by decide)

/-- The body is written by `setBody` only, and only where it covers it. -/
theorem byte_apply {i : ℕ} (hi : i < maxBodySize) (pkt : Packet) (c : SetterCall) :
    (c.apply pkt).byte (headerSize + i) = (c.givenByte i).getD (pkt.byte (headerSize + i)) := by
  have hne : ∀ (k w : ℕ), k < 3 →
      (pkt.setWord32 k w).byte (headerSize + i) = pkt.byte (headerSize + i) := fun k w hk =>
    Packet.byte_setWord32_of_ne (by simp only [headerSize]; omega)
  cases c with
  | setBody buff h =>
    have hcopied : (Tcp118.setBody pkt buff buff.length).1 = copyBody pkt buff buff.length :=
      congrArg (copyBody pkt buff) (copiedLen_of_le h)
    change (Tcp118.setBody pkt buff buff.length).1.byte (headerSize + i) =
      (buff[i]?).getD (pkt.byte (headerSize + i))
    have hin : headerSize + i < packetSize := by
      simp only [headerSize, maxBodySize, packetSize] at *
      omega
    rw [hcopied, byte_copyBody hin, Nat.add_sub_cancel_left]
    by_cases hlt : i < buff.length
    · simp [hlt]
    · simp [hlt]
  | setSeqNum | setACKNum => exact hne _ _ (by norm_num)
  | setACK | setLast | setClose | setSize | setChecksum => exact hne _ _ (by norm_num)

end SetterCall

/-! ### Sequences of calls -/

/-- What the getters return after `calls`: what their own setters were given last, or what they
returned before; a body byte is the one of the last body that covered it. -/
structure ReadsBack (calls : List SetterCall) (pkt pkt' : Packet) : Prop where
  seqNum : getSeqNum pkt' = lastOr SetterCall.givenSeqNum calls (getSeqNum pkt)
  ackNum : getACKNum pkt' = lastOr SetterCall.givenACKNum calls (getACKNum pkt)
  ack : getACK pkt' = lastOr SetterCall.givenACK calls (getACK pkt)
  last : getLast (some pkt') = lastOr SetterCall.givenLast calls (getLast (some pkt))
  close : getClose pkt' = lastOr SetterCall.givenClose calls (getClose pkt)
  size : getSize pkt' = lastOr SetterCall.givenSize calls (getSize pkt)
  checksum : getChecksum pkt' = lastOr SetterCall.givenChecksum calls (getChecksum pkt)
  unassigned : getField pkt' 26 0x7 = getField pkt 26 0x7
  body : ∀ i < maxBodySize, pkt'.byte (headerSize + i) =
    lastOr (SetterCall.givenByte i) calls (pkt.byte (headerSize + i))

section Runs

variable (calls : List SetterCall) (pkt : Packet)

/-- A field of the third header word after a sequence of calls. -/
theorem read_calls (f : HeaderField) :
    f.read (calls.foldl SetterCall.apply pkt) = lastOr (SetterCall.given f) calls (f.read pkt) :=
  get_foldl (SetterCall.read_apply f) calls pkt

/-- A one-bit field, read as a boolean. -/
theorem flag_calls (f : HeaderField) (givenFlag : SetterCall → Option Bool)
    (h : ∀ c, (SetterCall.given f c).map (· != 0) = givenFlag c) :
    (f.read (calls.foldl SetterCall.apply pkt) != 0) =
      lastOr givenFlag calls (f.read pkt != 0) := by
  rw [read_calls, map_lastOr (· != 0)]
  congr 1
  funext c
  exact h c

/-- **The header fields and the body are independent**: after any sequence of setter calls each
getter returns what its own setter was given last. -/
theorem setters_independent : ReadsBack calls pkt (calls.foldl SetterCall.apply pkt) where
  seqNum := get_foldl SetterCall.getSeqNum_apply calls pkt
  ackNum := get_foldl SetterCall.getACKNum_apply calls pkt
  ack := by
    refine flag_calls calls pkt .ack _ fun c => ?_
    cases c <;> simp [SetterCall.given, SetterCall.field, SetterCall.givenACK]
  last := by
    refine flag_calls calls pkt .last _ fun c => ?_
    cases c <;> simp [SetterCall.given, SetterCall.field, SetterCall.givenLast]
  close := by
    refine flag_calls calls pkt .close _ fun c => ?_
    cases c <;> simp [SetterCall.given, SetterCall.field, SetterCall.givenClose]
  size := by
    have h := read_calls calls pkt .size
    have hgiven : SetterCall.given .size = SetterCall.givenSize := by
      funext c
      cases c <;> rfl
    rwa [hgiven] at h
  checksum := by
    have h := read_calls calls pkt .checksum
    have hgiven : SetterCall.given .checksum = SetterCall.givenChecksum := by
      funext c
      cases c <;> rfl
    rwa [hgiven] at h
  unassigned := by
    have h := read_calls calls pkt .unassigned
    have hnone : ∀ c ∈ calls, SetterCall.given .unassigned c = none := by
      intro c _
      cases c <;> rfl
    rwa [lastOr_of_none hnone] at h
  body := fun i hi => get_foldl (g := fun p => p.byte (headerSize + i))
    (SetterCall.byte_apply hi) calls pkt

end Runs

/-- Two sizes, a checksum and a flag: the getters return the last of each. -/
example : lastOr SetterCall.givenSize
    [.setSize 7, .setChecksum 0xFFFF, .setSize 2000, .setACK true] 0 = 1012 := by decide

end Tcp118
