import Tcp118.Packet.Basic
import Mathlib.Tactic.NormNum

/-!
# Reading packets back

* `getField_setField_self`, `getField_setField_of_disjoint`: the fields of the third header word
  are independent;
* `getSeqNum_generatePacket`, …, `getClose_generatePacket`: the header of a generated packet.
-/

namespace Tcp118

/-! ### Fields of the third header word -/

/-- `mask` clears the `len` bits from `shift` on and keeps the others. -/
def ClearsField (mask shift len : ℕ) : Prop :=
  ∀ i < 32, mask.testBit i = !decide (shift ≤ i ∧ i < shift + len)

instance (mask shift len : ℕ) : Decidable (ClearsField mask shift len) :=
  inferInstanceAs (Decidable (∀ i < 32, _))

theorem setField_lt {w mask shift len value : ℕ} (hw : w < 2 ^ 32) (hs : shift + len ≤ 32)
    (hv : value < 2 ^ len) : (w &&& mask) ||| (value <<< shift) < 2 ^ 32 := by
  apply Nat.or_lt_two_pow
  · exact lt_of_le_of_lt Nat.and_le_left hw
  · rw [Nat.shiftLeft_eq]
    calc value * 2 ^ shift < 2 ^ len * 2 ^ shift := Nat.mul_lt_mul_of_pos_right hv (by positivity)
      _ = 2 ^ (shift + len) := by rw [Nat.add_comm, pow_add]
      _ ≤ 2 ^ 32 := Nat.pow_le_pow_right (by norm_num) hs

/-- The bits of the third header word after a field has been written. -/
theorem testBit_setField {pkt : Packet} {mask shift len value i : ℕ}
    (hm : ClearsField mask shift len) (hs : shift + len ≤ 32) (hv : value < 2 ^ len)
    (hi : i < 32) :
    ((setField pkt mask shift value).word32 2).testBit i =
      if shift ≤ i ∧ i < shift + len then value.testBit (i - shift)
      else (pkt.word32 2).testBit i := by
  rw [setField, Packet.word32_setWord32_self (by norm_num) (setField_lt (pkt.word32_lt 2) hs hv),
    Nat.testBit_or, Nat.testBit_and, hm i hi, Nat.testBit_shiftLeft]
  by_cases h1 : shift ≤ i
  · by_cases h2 : i < shift + len
    · simp [h1, h2]
    · have : value.testBit (i - shift) = false :=
        Nat.testBit_lt_two_pow (lt_of_lt_of_le hv (Nat.pow_le_pow_right (by norm_num) (by omega)))
      simp [h1, h2, this]
  · simp [h1]

theorem testBit_getField {pkt : Packet} {shift len i : ℕ} :
    (getField pkt shift (2 ^ len - 1)).testBit i =
      ((pkt.word32 2).testBit (shift + i) && decide (i < len)) := by
  rw [getField, Nat.testBit_and, Nat.testBit_shiftRight, Nat.testBit_two_pow_sub_one]

/-- A field reads as it was written. -/
theorem getField_setField_self {pkt : Packet} {mask shift len value : ℕ}
    (hm : ClearsField mask shift len) (hs : shift + len ≤ 32) (hv : value < 2 ^ len) :
    getField (setField pkt mask shift value) shift (2 ^ len - 1) = value := by
  apply Nat.eq_of_testBit_eq
  intro i
  rw [testBit_getField]
  by_cases hi : i < len
  · rw [testBit_setField hm hs hv (by omega), if_pos (by omega)]
    simp [hi]
  · have : value.testBit i = false :=
      Nat.testBit_lt_two_pow (lt_of_lt_of_le hv (Nat.pow_le_pow_right (by norm_num) (by omega)))
    simp [hi, this]

/-- Writing one field leaves the fields beside it. -/
theorem getField_setField_of_disjoint {pkt : Packet} {mask shift len value shift' len' : ℕ}
    (hm : ClearsField mask shift len) (hs : shift + len ≤ 32) (hv : value < 2 ^ len)
    (hs' : shift' + len' ≤ 32) (h : shift' + len' ≤ shift ∨ shift + len ≤ shift') :
    getField (setField pkt mask shift value) shift' (2 ^ len' - 1) =
      getField pkt shift' (2 ^ len' - 1) := by
  apply Nat.eq_of_testBit_eq
  intro i
  rw [testBit_getField, testBit_getField]
  by_cases hi : i < len'
  · rw [testBit_setField hm hs hv (by omega), if_neg (by omega)]
  · simp [hi]

theorem clears_ack : ClearsField 0x7FFFFFFF 31 1 := by decide
theorem clears_last : ClearsField 0xBFFFFFFF 30 1 := by decide
theorem clears_close : ClearsField 0xDFFFFFFF 29 1 := by decide
theorem clears_size : ClearsField 0xFC00FFFF 16 10 := by decide
theorem clears_checksum : ClearsField 0xFFFF0000 0 16 := by decide

theorem boolToNat_lt (b : Bool) : b.toNat < 2 ^ 1 := by cases b <;> decide

theorem and_0xFFFF_lt (x : ℕ) : x &&& 0x0000FFFF < 2 ^ 16 :=
  lt_of_le_of_lt Nat.and_le_right (by norm_num)

theorem word32_setField_of_ne {pkt : Packet} {mask shift value k : ℕ} (h : k ≠ 2) :
    (setField pkt mask shift value).word32 k = pkt.word32 k :=
  Packet.word32_setWord32_of_ne h

theorem byte_setField_of_ne {pkt : Packet} {mask shift value i : ℕ} (h : i / 4 ≠ 2) :
    (setField pkt mask shift value).byte i = pkt.byte i :=
  Packet.byte_setWord32_of_ne h

/-! ### The body -/

theorem byte_copyBody {pkt : Packet} {buff : List UInt8} {n i : ℕ} (hi : i < packetSize) :
    (copyBody pkt buff n).byte i =
      if headerSize ≤ i ∧ i < headerSize + n then buff.getD (i - headerSize) 0 else pkt.byte i :=
  Packet.byte_ofBytes hi

theorem byte_copyBody_of_lt {pkt : Packet} {buff : List UInt8} {n i : ℕ} (hi : i < headerSize) :
    (copyBody pkt buff n).byte i = pkt.byte i := by
  simp only [headerSize] at hi
  rw [byte_copyBody (by simp only [packetSize]; omega), if_neg (by simp only [headerSize]; omega)]

/-- The body lies behind the three header words. -/
theorem word32_copyBody {pkt : Packet} {buff : List UInt8} {n k : ℕ} (hk : k < 3) :
    (copyBody pkt buff n).word32 k = pkt.word32 k := by
  have h : ∀ j < 4, (copyBody pkt buff n).byte (4 * k + j) = pkt.byte (4 * k + j) := fun j hj =>
    byte_copyBody_of_lt (by simp only [headerSize]; omega)
  have h0 := h 0 (by omega)
  rw [Nat.add_zero] at h0
  unfold Packet.word32
  rw [h0, h 1 (by omega), h 2 (by omega), h 3 (by omega)]

theorem getField_copyBody {pkt : Packet} {buff : List UInt8} {n shift mask : ℕ} :
    getField (copyBody pkt buff n) shift mask = getField pkt shift mask := by
  unfold getField
  rw [word32_copyBody (by omega)]

/-! ### Generated packets -/

theorem byte_zeroPacket (i : ℕ) : zeroPacket.byte i = 0 := by
  by_cases h : i < packetSize
  · exact Packet.byte_ofBytes h
  · simp [Packet.byte, h]

theorem word32_zeroPacket (k : ℕ) : zeroPacket.word32 k = 0 := by
  simp [Packet.word32, byte_zeroPacket]

/-- The number of bytes `setBody` copies. -/
def copiedLen (count : ℕ) : ℕ :=
  (if toInt32 count > maxBodySize then (maxBodySize : ℤ) else toInt32 count).toNat

/-- The size `setSize` stores. -/
def storedSize (count : ℕ) : ℕ :=
  if count % 2 ^ 16 > maxBodySize then maxBodySize else count % 2 ^ 16

theorem storedSize_le (count : ℕ) : storedSize count ≤ maxBodySize := by
  unfold storedSize
  split_ifs <;> omega

theorem storedSize_lt (count : ℕ) : storedSize count < 2 ^ 10 :=
  lt_of_le_of_lt (storedSize_le count) (by norm_num)

theorem storedSize_of_le {count : ℕ} (h : count ≤ maxBodySize) : storedSize count = count := by
  unfold storedSize
  simp only [maxBodySize] at *
  rw [Nat.mod_eq_of_lt (by omega), if_neg (by omega)]

/-- The narrowing to `int` in `setBody` loses nothing. -/
theorem copiedLen_eq_min {count : ℕ} (h : count < 2 ^ 31) :
    copiedLen count = min count maxBodySize := by
  unfold copiedLen
  rw [toInt32_of_lt h]
  simp only [maxBodySize]
  split_ifs <;> omega

theorem copiedLen_of_le {count : ℕ} (h : count ≤ maxBodySize) : copiedLen count = count := by
  rw [copiedLen_eq_min (by simp only [maxBodySize] at h; omega), Nat.min_eq_left h]

/-- `setBody` returns the number of bytes it copies. -/
theorem setBody_snd {count : ℕ} (h : count < 2 ^ 31) (pkt : Packet) (buff : List UInt8) :
    (setBody pkt buff count).2 = copiedLen count := by
  unfold setBody copiedLen
  dsimp only
  rw [toInt32_of_lt h]
  split_ifs <;> omega

/-- The narrowing to `uint16_t` on the way to `setSize` loses a large count, unless what is left of
it is clamped too. -/
theorem storedSize_eq_min_iff {count : ℕ} :
    storedSize count = min count maxBodySize ↔
      count < 2 ^ 16 ∨ maxBodySize ≤ count % 2 ^ 16 := by
  unfold storedSize
  simp only [maxBodySize]
  split_ifs <;> omega

theorem setSize_eq (pkt : Packet) (count : ℕ) :
    setSize pkt (count % 2 ^ 16) = setField pkt 0xFC00FFFF 16 (storedSize count) := rfl

section Generated

variable (seqNum ackNum : ℕ) (ack last close : Bool) (buff : List UInt8) (count : ℕ)

/-- A generated packet before its checksum is stored. -/
def unsealedPacket : Packet :=
  copyBody (setSize (setClose (setLast (setACK (setACKNum (setSeqNum zeroPacket seqNum) ackNum)
    ack) last) close) (count % 2 ^ 16)) buff (copiedLen count)

theorem generatePacket_eq :
    generatePacket seqNum ackNum ack last close buff count =
      setChecksum (unsealedPacket seqNum ackNum ack last close buff count)
        (checksum (unsealedPacket seqNum ackNum ack last close buff count).byte packetSize) := rfl

/-- Storing the checksum changes no field above it. -/
theorem getField_generatePacket (shift len : ℕ) (h : 16 ≤ shift) (hs : shift + len ≤ 32) :
    getField (generatePacket seqNum ackNum ack last close buff count) shift (2 ^ len - 1) =
      getField (setSize (setClose (setLast (setACK (setACKNum (setSeqNum zeroPacket seqNum)
        ackNum) ack) last) close) (count % 2 ^ 16)) shift (2 ^ len - 1) := by
  rw [generatePacket_eq, setChecksum,
    getField_setField_of_disjoint clears_checksum (by omega) (and_0xFFFF_lt _) hs (by omega),
    unsealedPacket, getField_copyBody]

theorem getSize_generatePacket :
    getSize (generatePacket seqNum ackNum ack last close buff count) = storedSize count := by
  have h := getField_generatePacket seqNum ackNum ack last close buff count 16 10
    (by omega) (by omega)
  rw [setSize_eq, getField_setField_self clears_size (by omega) (storedSize_lt count)] at h
  exact h

/-- A one-bit field above the size is untouched by `setSize`. -/
theorem getField_setSize {pkt : Packet} {size shift : ℕ} (h : 26 ≤ shift) (hs : shift < 32)
    (hsize : size < 2 ^ 16) :
    getField (setSize pkt size) shift (2 ^ 1 - 1) = getField pkt shift (2 ^ 1 - 1) := by
  have hlt := storedSize_lt size
  unfold storedSize at hlt
  rw [Nat.mod_eq_of_lt hsize] at hlt
  exact getField_setField_of_disjoint clears_size (by omega) hlt (by omega) (by omega)

theorem getClose_generatePacket :
    getClose (generatePacket seqNum ackNum ack last close buff count) = close := by
  have h := getField_generatePacket seqNum ackNum ack last close buff count 29 1
    (by omega) (by omega)
  rw [getField_setSize (by omega) (by omega) (Nat.mod_lt _ (by norm_num)), setClose,
    getField_setField_self clears_close (by omega) (boolToNat_lt close)] at h
  rw [getClose, show (0x1 : ℕ) = 2 ^ 1 - 1 from rfl, h]
  cases close <;> rfl

theorem getLast_generatePacket :
    getLast (some (generatePacket seqNum ackNum ack last close buff count)) = last := by
  have h := getField_generatePacket seqNum ackNum ack last close buff count 30 1
    (by omega) (by omega)
  rw [getField_setSize (by omega) (by omega) (Nat.mod_lt _ (by norm_num)), setClose,
    getField_setField_of_disjoint clears_close (by omega) (boolToNat_lt close) (by omega)
      (by omega),
    setLast, getField_setField_self clears_last (by omega) (boolToNat_lt last)] at h
  rw [getLast, show (0x1 : ℕ) = 2 ^ 1 - 1 from rfl, h]
  cases last <;> rfl

theorem getACK_generatePacket :
    getACK (generatePacket seqNum ackNum ack last close buff count) = ack := by
  have h := getField_generatePacket seqNum ackNum ack last close buff count 31 1
    (by omega) (by omega)
  rw [getField_setSize (by omega) (by omega) (Nat.mod_lt _ (by norm_num)), setClose,
    getField_setField_of_disjoint clears_close (by omega) (boolToNat_lt close) (by omega)
      (by omega),
    setLast, getField_setField_of_disjoint clears_last (by omega) (boolToNat_lt last) (by omega)
      (by omega),
    setACK, getField_setField_self clears_ack (by omega) (boolToNat_lt ack)] at h
  rw [getACK, show (0x1 : ℕ) = 2 ^ 1 - 1 from rfl, h]
  cases ack <;> rfl

/-- The first two header words are written once and then left alone. -/
theorem word32_generatePacket {k : ℕ} (hk : k < 2) :
    (generatePacket seqNum ackNum ack last close buff count).word32 k =
      (setACKNum (setSeqNum zeroPacket seqNum) ackNum).word32 k := by
  rw [generatePacket_eq, setChecksum, word32_setField_of_ne (by omega), unsealedPacket,
    word32_copyBody (by omega), setSize, word32_setField_of_ne (by omega), setClose,
    word32_setField_of_ne (by omega), setLast, word32_setField_of_ne (by omega), setACK,
    word32_setField_of_ne (by omega)]

theorem getSeqNum_generatePacket (h : seqNum < 2 ^ 32) :
    getSeqNum (generatePacket seqNum ackNum ack last close buff count) = seqNum := by
  rw [getSeqNum, word32_generatePacket _ _ _ _ _ _ _ (by omega), setACKNum,
    Packet.word32_setWord32_of_ne (by omega), setSeqNum,
    Packet.word32_setWord32_self (by omega) h]

theorem getACKNum_generatePacket (h : ackNum < 2 ^ 32) :
    getACKNum (generatePacket seqNum ackNum ack last close buff count) = ackNum := by
  rw [getACKNum, word32_generatePacket _ _ _ _ _ _ _ (by omega), setACKNum,
    Packet.word32_setWord32_self (by omega) h]

/-- The body region holds the copied bytes. -/
theorem byte_generatePacket {i : ℕ} (hi : i < packetSize) (h : headerSize ≤ i) :
    (generatePacket seqNum ackNum ack last close buff count).byte i =
      if i < headerSize + copiedLen count then buff.getD (i - headerSize) 0 else 0 := by
  simp only [headerSize] at h
  have hne : i / 4 ≠ 2 := by omega
  have hne1 : i / 4 ≠ 1 := by omega
  have hne0 : i / 4 ≠ 0 := by omega
  rw [generatePacket_eq, setChecksum, byte_setField_of_ne hne, unsealedPacket, byte_copyBody hi]
  by_cases hlt : i < headerSize + copiedLen count
  · rw [if_pos ⟨h, hlt⟩, if_pos hlt]
  · rw [if_neg (fun h' => hlt h'.2), if_neg hlt, setSize, byte_setField_of_ne hne, setClose,
      byte_setField_of_ne hne, setLast, byte_setField_of_ne hne, setACK, byte_setField_of_ne hne,
      setACKNum, Packet.byte_setWord32_of_ne hne1, setSeqNum, Packet.byte_setWord32_of_ne hne0,
      byte_zeroPacket]

end Generated

end Tcp118
