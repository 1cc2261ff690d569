import Tcp118.Packet.Checksum

/-!
# What the checksum detects

Two packets that differ inside one aligned 16-bit word have word sums that differ as the words do.
Both verify only if the words agree modulo `65535`, that is, if one is `0x0000` and the other
`0xFFFF`.

* `AgreeOutside`: equal but for one aligned 16-bit word;
* `word16_of_both_verify`: the words of two packets that verify;
* `AgreeOutsideByte`, `eq_of_both_verify`: a change of one byte is always detected;
* `flipBit`, `checksum_flipBit`: so is the flip of one bit.
-/

namespace Tcp118

variable {p q : Packet} {i b k : ℕ}

/-! ### Changes of one word -/

/-- Equal but for the aligned 16-bit word `k`. -/
def AgreeOutside (k : ℕ) (p q : Packet) : Prop := ∀ i < packetSize, i / 2 ≠ k → p.byte i = q.byte i

theorem word16_lt (addr : ℕ → UInt8) (k : ℕ) : word16 addr k < 2 ^ 16 := by
  have h0 := (addr (2 * k)).toNat_lt
  have h1 := (addr (2 * k + 1)).toNat_lt
  unfold word16
  omega

/-- A word determines its two bytes. -/
theorem bytes_of_word16 {f g : ℕ → UInt8} (h : word16 f k = word16 g k) :
    f (2 * k) = g (2 * k) ∧ f (2 * k + 1) = g (2 * k + 1) := by
  have h0 := (f (2 * k)).toNat_lt
  have h1 := (f (2 * k + 1)).toNat_lt
  have h2 := (g (2 * k)).toNat_lt
  have h3 := (g (2 * k + 1)).toNat_lt
  unfold word16 at h
  constructor
  · apply UInt8.toNat_inj.1
    omega
  · apply UInt8.toNat_inj.1
    omega

theorem AgreeOutside.byte_eq (h : AgreeOutside k p q) (hi : i / 2 ≠ k) : p.byte i = q.byte i := by
  by_cases hlt : i < packetSize
  · exact h i hlt hi
  · simp [Packet.byte, hlt]

theorem AgreeOutside.word16_eq (h : AgreeOutside k p q) {l : ℕ} (hl : l ≠ k) :
    word16 p.byte l = word16 q.byte l := by
  unfold word16
  rw [h.byte_eq (by omega), h.byte_eq (by omega)]

/-- Packets that agree in the word too are equal. -/
theorem AgreeOutside.eq_of_word16 (h : AgreeOutside k p q)
    (hword : word16 p.byte k = word16 q.byte k) : p = q := by
  obtain ⟨h0, h1⟩ := bytes_of_word16 hword
  apply Packet.ext_byte
  intro i hi
  by_cases hik : i / 2 = k
  · rcases Nat.mod_two_eq_zero_or_one i with hmod | hmod
    · rwa [show i = 2 * k by omega]
    · rwa [show i = 2 * k + 1 by omega]
  · exact h i hi hik

/-- If both packets verify, the words agree modulo `65535`. -/
theorem AgreeOutside.word16_modEq (h : AgreeOutside k p q) (hk : k < 512)
    (hp : checksum p.byte packetSize = 0) (hq : checksum q.byte packetSize = 0) :
    word16 p.byte k ≡ word16 q.byte k [MOD 2 ^ 16 - 1] := by
  have hsum : wordSum p.byte 512 + word16 q.byte k = wordSum q.byte 512 + word16 p.byte k :=
    EndAroundCarry.sum_range_of_agree hk fun l _ hl => h.word16_eq hl
  obtain ⟨-, hp0⟩ := (checksum_eq_zero_iff p.byte 512).1 hp
  obtain ⟨-, hq0⟩ := (checksum_eq_zero_iff q.byte 512).1 hq
  have hleft := hp0.add_right (word16 q.byte k)
  have hright := hq0.add_right (word16 p.byte k)
  rw [hsum] at hleft
  rw [Nat.zero_add] at hleft hright
  exact hright.symm.trans hleft

/-- Two numbers of 16 bits that agree modulo `65535`. -/
theorem eq_or_ends_of_modEq {x y : ℕ} (hx : x < 2 ^ 16) (hy : y < 2 ^ 16)
    (h : x ≡ y [MOD 2 ^ 16 - 1]) :
    x = y ∨ (x = 0 ∧ y = 0xFFFF) ∨ (x = 0xFFFF ∧ y = 0) := by
  unfold Nat.ModEq at h
  omega

/-- A change of one word goes undetected only between `0x0000` and `0xFFFF`. -/
theorem AgreeOutside.word16_of_both_verify (h : AgreeOutside k p q) (hk : k < 512) (hne : p ≠ q)
    (hp : checksum p.byte packetSize = 0) (hq : checksum q.byte packetSize = 0) :
    (word16 p.byte k = 0 ∧ word16 q.byte k = 0xFFFF) ∨
      (word16 p.byte k = 0xFFFF ∧ word16 q.byte k = 0) := by
  rcases eq_or_ends_of_modEq (word16_lt _ _) (word16_lt _ _) (h.word16_modEq hk hp hq) with
    heq | hends
  · exact absurd (h.eq_of_word16 heq) hne
  · exact hends

/-! ### Changes of one byte -/

/-- Equal but for the byte `i`. -/
def AgreeOutsideByte (i : ℕ) (p q : Packet) : Prop := ∀ j < packetSize, j ≠ i → p.byte j = q.byte j

theorem AgreeOutsideByte.word (h : AgreeOutsideByte i p q) : AgreeOutside (i / 2) p q :=
  fun j hj hne => h j hj fun e => hne (by rw [e])

/-- A change of one byte is always detected: the other byte of its word stays. -/
theorem AgreeOutsideByte.eq_of_both_verify (h : AgreeOutsideByte i p q) (hi : i < packetSize)
    (hp : checksum p.byte packetSize = 0) (hq : checksum q.byte packetSize = 0) : p = q := by
  have hk : i / 2 < 512 := by
    simp only [packetSize] at hi
    omega
  by_contra hne
  -- the byte beside `i` would be `0x00` in one packet and `0xFF` in the other
  obtain ⟨j, hj, hji, hlow⟩ : ∃ j < packetSize, j ≠ i ∧
      (j = 2 * (i / 2) ∨ j = 2 * (i / 2) + 1) := by
    rcases Nat.mod_two_eq_zero_or_one i with hmod | hmod
    · exact ⟨i + 1, by simp only [packetSize] at *; omega, by omega, by omega⟩
    · exact ⟨i - 1, by omega, by omega, by omega⟩
  have hbyte := congrArg UInt8.toNat (h j hj hji)
  have h0 := (p.byte (2 * (i / 2))).toNat_lt
  have h1 := (p.byte (2 * (i / 2) + 1)).toNat_lt
  have h2 := (q.byte (2 * (i / 2))).toNat_lt
  have h3 := (q.byte (2 * (i / 2) + 1)).toNat_lt
  have hends := h.word.word16_of_both_verify hk hne hp hq
  unfold word16 at hends
  rcases hlow with rfl | rfl <;> omega

/-- The packet with bit `b` of byte `i` flipped. -/
def flipBit (p : Packet) (i b : ℕ) : Packet :=
  Packet.ofBytes fun j => if j = i then p.byte i ^^^ UInt8.ofNat (2 ^ b) else p.byte j

theorem agreeOutsideByte_flipBit (p : Packet) (i b : ℕ) : AgreeOutsideByte i p (flipBit p i b) := by
  intro j hj hne
  rw [flipBit, Packet.byte_ofBytes hj, if_neg hne]

theorem flipBit_ne (p : Packet) (hi : i < packetSize) (hb : b < 8) : flipBit p i b ≠ p := by
  intro e
  have hbyte := congrArg (fun r => Packet.byte r i) e
  simp only [flipBit, Packet.byte_ofBytes hi, if_true] at hbyte
  have hzero : UInt8.ofNat (2 ^ b) = 0 := by
    have := congrArg (p.byte i ^^^ ·) hbyte
    simpa [← UInt8.xor_assoc] using this
  have hnat := congrArg UInt8.toNat hzero
  rw [UInt8.toNat_ofNat', Nat.mod_eq_of_lt (Nat.pow_lt_pow_right (by norm_num) hb)] at hnat
  exact absurd hnat (Nat.two_pow_pos b).ne'

/-- A packet with one bit flipped does not verify. -/
theorem checksum_flipBit (hp : checksum p.byte packetSize = 0) (hi : i < packetSize) (hb : b < 8) :
    checksum (flipBit p i b).byte packetSize ≠ 0 := fun hq =>
  flipBit_ne p hi hb ((agreeOutsideByte_flipBit p i b).eq_of_both_verify hi hp hq).symm

end Tcp118
