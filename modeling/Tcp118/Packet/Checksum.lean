import Tcp118.Packet.Fields

/-!
# The checksum of `packet118.c`

* `sumWords_eq`, `foldCarry_eq`: the two loops are the accumulator and the final fold of an
  end-around-carry sum of 16-bit words;
* `checksum_eq_zero_iff`: an even buffer has checksum `0` exactly when its words have a positive
  sum divisible by `65535`;
* `checksum_sealed`: storing the checksum of a packet whose checksum field is zero makes the
  packet verify; so every generated packet does, and the all-zero packet does not.
-/

namespace Tcp118

open EndAroundCarry

/-- The plain sum of the first `k` words. -/
def wordSum (addr : ℕ → UInt8) (k : ℕ) : ℕ := ((List.range k).map (word16 addr)).sum

theorem sumWords_eq (addr : ℕ → UInt8) (k : ℕ) :
    sumWords addr k = accumulate (2 ^ 16) ((List.range k).map (word16 addr)) := by
  induction k with
  | zero => rfl
  | succ k ih =>
    rw [List.range_succ, List.map_append, List.map_singleton, accumulate_append_singleton,
      sumWords, foldSum_eq, ih]

theorem foldCarry_eq (sum : ℕ) : foldCarry sum = foldDown (2 ^ 16) sum := by
  induction sum using Nat.strong_induction_on with
  | _ sum ih =>
    rw [foldCarry, Nat.shiftRight_eq_div_pow]
    split_ifs with h
    · rw [foldSum_eq, ih _ (fold_lt (by norm_num) (by omega)),
        ← foldDown_of_le (by norm_num) (by omega)]
    · rw [foldDown_of_lt (by omega)]

/-- The sum a checksum complements, for an even number of bytes. -/
theorem checksum_even (addr : ℕ → UInt8) (k : ℕ) :
    checksum addr (2 * k) = 2 ^ 16 - 1 - foldDown (2 ^ 16) (sumWords addr k) := by
  have hlt := foldDown_lt (B := 2 ^ 16) (by norm_num) (sumWords addr k)
  unfold checksum
  simp only [show 2 * k / 2 = k by omega, lt_irrefl, if_false, foldCarry_eq]
  omega

/-- The folded sum of the words is the plain sum modulo `65535`. -/
theorem foldDown_sumWords_modEq (addr : ℕ → UInt8) (k : ℕ) :
    foldDown (2 ^ 16) (sumWords addr k) ≡ wordSum addr k [MOD 2 ^ 16 - 1] := by
  rw [sumWords_eq]
  exact (foldDown_modEq (by norm_num) _).trans (accumulate_modEq (by norm_num) _)

theorem checksum_eq_zero_iff (addr : ℕ → UInt8) (k : ℕ) :
    checksum addr (2 * k) = 0 ↔ 0 < wordSum addr k ∧ wordSum addr k ≡ 0 [MOD 2 ^ 16 - 1] := by
  have hlt := foldDown_lt (B := 2 ^ 16) (by norm_num) (sumWords addr k)
  have htop := foldDown_eq_top (B := 2 ^ 16) (by norm_num) (sumWords addr k)
  have hpos := accumulate_pos_iff (B := 2 ^ 16) ((List.range k).map (word16 addr))
  have hmod := accumulate_modEq (B := 2 ^ 16) (by norm_num) ((List.range k).map (word16 addr))
  rw [checksum_even]
  have hzero : 2 ^ 16 - 1 - foldDown (2 ^ 16) (sumWords addr k) = 0 ↔
      foldDown (2 ^ 16) (sumWords addr k) = 2 ^ 16 - 1 := by omega
  rw [hzero, htop, sumWords_eq, hpos]
  exact and_congr_right fun _ => ⟨fun h => hmod.symm.trans h, fun h => hmod.trans h⟩

/-! ### Sealing a packet -/

theorem word16_four (pkt : Packet) : word16 pkt.byte 4 = pkt.word32 2 % 2 ^ 16 := by
  have h0 := (pkt.byte 8).toNat_lt
  have h1 := (pkt.byte 9).toNat_lt
  unfold word16 Packet.word32
  simp only [Nat.reduceMul, Nat.reduceAdd]
  omega

theorem word16_five (pkt : Packet) : word16 pkt.byte 5 = pkt.word32 2 / 2 ^ 16 := by
  have h0 := (pkt.byte 8).toNat_lt
  have h1 := (pkt.byte 9).toNat_lt
  unfold word16 Packet.word32
  simp only [Nat.reduceMul, Nat.reduceAdd]
  omega

theorem getChecksum_eq (pkt : Packet) : getChecksum pkt = pkt.word32 2 % 2 ^ 16 := by
  unfold getChecksum getField
  exact Nat.and_two_pow_sub_one_eq_mod _ 16

/-- Storing the checksum changes the fifth 16-bit word only. -/
theorem word16_setChecksum_of_ne (pkt : Packet) (cs : ℕ) {k : ℕ} (hk : k ≠ 4) :
    word16 (setChecksum pkt cs).byte k = word16 pkt.byte k := by
  by_cases h5 : k = 5
  · subst h5
    rw [word16_five, word16_five, ← Nat.shiftRight_eq_div_pow, ← Nat.shiftRight_eq_div_pow]
    apply Nat.eq_of_testBit_eq
    intro i
    rw [Nat.testBit_shiftRight, Nat.testBit_shiftRight]
    by_cases hi : 16 + i < 32
    · rw [setChecksum, testBit_setField clears_checksum (by omega) (and_0xFFFF_lt cs) hi,
        if_neg (by omega)]
    · have hbig : ∀ p : Packet, (p.word32 2).testBit (16 + i) = false := fun p =>
        Nat.testBit_lt_two_pow
          (lt_of_lt_of_le (p.word32_lt 2) (Nat.pow_le_pow_right (by norm_num) (by omega)))
      rw [hbig, hbig]
  · unfold word16 setChecksum
    rw [byte_setField_of_ne (by omega), byte_setField_of_ne (by omega)]

theorem word16_setChecksum_self (pkt : Packet) {cs : ℕ} (hcs : cs < 2 ^ 16) :
    word16 (setChecksum pkt cs).byte 4 = cs := by
  have hand : cs &&& 0x0000FFFF = cs := by
    rw [show (0x0000FFFF : ℕ) = 2 ^ 16 - 1 from rfl, Nat.and_two_pow_sub_one_eq_mod,
      Nat.mod_eq_of_lt hcs]
  rw [word16_four, ← getChecksum_eq, getChecksum, setChecksum, hand]
  exact getField_setField_self clears_checksum (by omega) hcs

/-- Storing the checksum of a packet whose checksum field is zero makes it verify. -/
theorem checksum_sealed {pkt : Packet} (h : getChecksum pkt = 0) :
    checksum (setChecksum pkt (checksum pkt.byte packetSize)).byte packetSize = 0 := by
  have hsize : packetSize = 2 * 512 := rfl
  have hlt := foldDown_lt (B := 2 ^ 16) (by norm_num) (sumWords pkt.byte 512)
  have hmod := foldDown_sumWords_modEq pkt.byte 512
  have hcs := checksum_even pkt.byte 512
  rw [hsize]
  set cs := checksum pkt.byte (2 * 512) with hcsdef
  -- only the fifth word changes, from zero to the checksum
  have hsum : wordSum (setChecksum pkt cs).byte 512 = wordSum pkt.byte 512 + cs := by
    have hagree := sum_range_of_agree (f := word16 (setChecksum pkt cs).byte)
      (g := word16 pkt.byte) (j := 4) (n := 512) (by omega)
      (fun k _ hk => word16_setChecksum_of_ne pkt cs hk)
    rw [word16_setChecksum_self pkt (by omega), word16_four, ← getChecksum_eq, h,
      Nat.add_zero] at hagree
    exact hagree
  rw [checksum_eq_zero_iff, hsum]
  constructor
  · rcases Nat.eq_zero_or_pos cs with h0 | h0
    · have hpos : 0 < foldDown (2 ^ 16) (sumWords pkt.byte 512) := by omega
      have hword := (accumulate_pos_iff (B := 2 ^ 16) ((List.range 512).map (word16 pkt.byte))).1
        (by
          rw [← sumWords_eq]
          by_contra hz
          rw [show sumWords pkt.byte 512 = 0 by omega, foldDown_of_lt (by norm_num)] at hpos
          omega)
      exact Nat.add_pos_left hword _
    · omega
  · have hcs' : cs + foldDown (2 ^ 16) (sumWords pkt.byte 512) = 2 ^ 16 - 1 := by omega
    have hmod' := hmod.add_left cs
    rw [hcs', Nat.add_comm cs] at hmod'
    exact hmod'.symm.trans (by simp [Nat.ModEq])

theorem checksum_generatePacket (seqNum ackNum : ℕ) (ack last close : Bool) (buff : List UInt8)
    (count : ℕ) :
    checksum (generatePacket seqNum ackNum ack last close buff count).byte packetSize = 0 := by
  rw [generatePacket_eq]
  apply checksum_sealed
  have hzero : getField (setACKNum (setSeqNum zeroPacket seqNum) ackNum) 0 (2 ^ 16 - 1) = 0 := by
    rw [getField, setACKNum, Packet.word32_setWord32_of_ne (by omega), setSeqNum,
      Packet.word32_setWord32_of_ne (by omega), word32_zeroPacket]
    rfl
  rw [getChecksum, show (0xFFFF : ℕ) = 2 ^ 16 - 1 from rfl, unsealedPacket, getField_copyBody,
    setSize_eq,
    getField_setField_of_disjoint clears_size (by omega) (storedSize_lt count) (by omega)
      (by omega),
    setClose, getField_setField_of_disjoint clears_close (by omega) (boolToNat_lt close)
      (by omega) (by omega),
    setLast, getField_setField_of_disjoint clears_last (by omega) (boolToNat_lt last) (by omega)
      (by omega),
    setACK, getField_setField_of_disjoint clears_ack (by omega) (boolToNat_lt ack) (by omega)
      (by omega), hzero]

/-- The packet that simulated corruption sends does not verify. -/
theorem checksum_zeroPacket : checksum zeroPacket.byte packetSize ≠ 0 := by
  have hsum : wordSum zeroPacket.byte 512 = 0 := by
    apply List.sum_eq_zero
    intro x hx
    obtain ⟨k, -, rfl⟩ := List.mem_map.1 hx
    simp [word16, byte_zeroPacket]
  intro h
  have hpos := ((checksum_eq_zero_iff zeroPacket.byte 512).1 h).1
  omega

/-- **Every generated packet verifies, whatever is put into it, and the packet that simulated
corruption sends never does.** -/
theorem generated_verifies :
    (∀ (seqNum ackNum : ℕ) (ack last close : Bool) (buff : List UInt8) (count : ℕ),
      checksum (generatePacket seqNum ackNum ack last close buff count).byte packetSize = 0) ∧
    checksum zeroPacket.byte packetSize ≠ 0 := by
  constructor
  · intro seqNum ackNum ack last close buff count
    exact checksum_generatePacket seqNum ackNum ack last close buff count
  · exact checksum_zeroPacket

end Tcp118
