import Tcp118.Packet.Detection

/-!
# The checksum of a buffer of any length

The Internet checksum complements the one's-complement sum of the 16-bit words of a buffer, where a
final odd byte is a word whose other byte is zero.  `checksum` adds the byte at `addr` in its place.

* `wordOf`, `internetChecksum`: the words of a buffer and their complemented sum;
* `checksum_even_eq`, `checksum_odd_iff`: what `checksum` computes for even and for odd lengths;
* `EveryByteCounts`: a change of any one byte changes the checksum;
* `checksum_internet_iff`: the exact conditions.
-/

namespace Tcp118

open EndAroundCarry

/-- Word `k` of a buffer of `count` bytes; behind a final odd byte stands a zero byte. -/
def wordOf (addr : ℕ → UInt8) (count k : ℕ) : ℕ :=
  (addr (2 * k)).toNat + if 2 * k + 1 < count then 2 ^ 8 * (addr (2 * k + 1)).toNat else 0

/-- The Internet checksum of a buffer of `count` bytes. -/
def internetChecksum (addr : ℕ → UInt8) (count : ℕ) : ℕ :=
  2 ^ 16 - 1 - onesSum (2 ^ 16) ((List.range ((count + 1) / 2)).map (wordOf addr count))

/-- A change of any one byte of a buffer of `count` bytes changes its checksum. -/
def EveryByteCounts (count : ℕ) : Prop :=
  ∀ (addr addr' : ℕ → UInt8) (i : ℕ), i < count → (∀ j < count, j ≠ i → addr' j = addr j) →
    addr' i ≠ addr i → checksum addr' count ≠ checksum addr count

section Words

variable {addr addr' : ℕ → UInt8} {count k m : ℕ}

theorem wordOf_of_lt (h : 2 * k + 1 < count) : wordOf addr count k = word16 addr k := by
  rw [wordOf, if_pos h, word16]

/-- The word of a final odd byte. -/
theorem wordOf_last (m : ℕ) : wordOf addr (2 * m + 1) m = (addr (2 * m)).toNat := by
  rw [wordOf, if_neg (lt_irrefl _), Nat.add_zero]

theorem wordOf_lt (addr : ℕ → UInt8) (count k : ℕ) : wordOf addr count k < 2 ^ 16 := by
  have h0 := (addr (2 * k)).toNat_lt
  have h1 := (addr (2 * k + 1)).toNat_lt
  unfold wordOf
  split_ifs <;> omega

/-- The words that the first loop reads. -/
theorem map_wordOf (h : 2 * m ≤ count) :
    (List.range m).map (wordOf addr count) = (List.range m).map (word16 addr) := by
  apply List.map_congr_left
  intro k hk
  have hkm := List.mem_range.1 hk
  exact wordOf_of_lt (by omega)

/-- The first loop leaves the one's-complement sum of the words it reads. -/
theorem sumWords_eq_onesSum (addr : ℕ → UInt8) (m : ℕ) :
    sumWords addr m = onesSum (2 ^ 16) ((List.range m).map (word16 addr)) := by
  rw [sumWords_eq]
  apply accumulate_eq_onesSum (by norm_num)
  intro w hw
  obtain ⟨k, -, rfl⟩ := List.mem_map.1 hw
  exact word16_lt addr k

theorem sumWords_lt (addr : ℕ → UInt8) (m : ℕ) : sumWords addr m < 2 ^ 16 := by
  rw [sumWords_eq_onesSum]
  apply onesSum_lt (by norm_num)
  intro w hw
  obtain ⟨k, -, rfl⟩ := List.mem_map.1 hw
  exact word16_lt addr k

/-! ### Even and odd lengths -/

theorem checksum_even_eq (addr : ℕ → UInt8) (m : ℕ) :
    checksum addr (2 * m) = internetChecksum addr (2 * m) := by
  rw [checksum_even, foldDown_of_lt (sumWords_lt addr m), internetChecksum,
    show (2 * m + 1) / 2 = m by omega, map_wordOf le_rfl, sumWords_eq_onesSum]

/-- For an odd length the source adds the first byte. -/
theorem checksum_odd (addr : ℕ → UInt8) (m : ℕ) :
    checksum addr (2 * m + 1) =
      2 ^ 16 - 1 - onesAdd (2 ^ 16) (sumWords addr m) (addr 0).toNat := by
  have hbyte := (addr 0).toNat_lt
  have hsum := sumWords_lt addr m
  have hfold := foldDown_add (B := 2 ^ 16) (by norm_num) hsum (by omega : (addr 0).toNat < 2 ^ 16)
  have hlt := onesAdd_lt (B := 2 ^ 16) hsum (by omega : (addr 0).toNat < 2 ^ 16)
  unfold checksum
  simp only [show (2 * m + 1) / 2 = m by omega, Nat.lt_succ_self, if_true, foldCarry_eq, hfold]
  omega

/-- The Internet checksum adds the last one. -/
theorem internetChecksum_odd (addr : ℕ → UInt8) (m : ℕ) :
    internetChecksum addr (2 * m + 1) =
      2 ^ 16 - 1 - onesAdd (2 ^ 16) (sumWords addr m) (addr (2 * m)).toNat := by
  rw [internetChecksum, show (2 * m + 1 + 1) / 2 = m + 1 by omega, List.range_succ,
    List.map_append, List.map_singleton, onesSum_append_singleton, wordOf_last,
    map_wordOf (Nat.le_succ _), sumWords_eq_onesSum]

theorem checksum_odd_iff (addr : ℕ → UInt8) (m : ℕ) :
    checksum addr (2 * m + 1) = internetChecksum addr (2 * m + 1) ↔ addr 0 = addr (2 * m) := by
  have hsum := sumWords_lt addr m
  have hfirst := (addr 0).toNat_lt
  have hlast := (addr (2 * m)).toNat_lt
  have hlt := onesAdd_lt (B := 2 ^ 16) hsum (by omega : (addr 0).toNat < 2 ^ 16)
  have hlt' := onesAdd_lt (B := 2 ^ 16) hsum (by omega : (addr (2 * m)).toNat < 2 ^ 16)
  have hinj := onesAdd_right_inj (B := 2 ^ 16) (x := sumWords addr m)
    (by omega : (addr 0).toNat < 2 ^ 16 - 1) (by omega : (addr (2 * m)).toNat < 2 ^ 16 - 1)
  rw [checksum_odd, internetChecksum_odd, ← UInt8.toNat_inj, ← hinj]
  omega

/-! ### The contribution of a byte -/

/-- If buffers that differ in one byte have the same Internet checksum, the words of that byte agree
modulo `65535`. -/
theorem wordOf_modEq {i : ℕ} (hi : i < count) (h : ∀ j < count, j ≠ i → addr' j = addr j)
    (heq : internetChecksum addr' count = internetChecksum addr count) :
    wordOf addr' count (i / 2) ≡ wordOf addr count (i / 2) [MOD 2 ^ 16 - 1] := by
  have hwords : ∀ a : ℕ → UInt8,
      ∀ w ∈ (List.range ((count + 1) / 2)).map (wordOf a count), w < 2 ^ 16 := by
    intro a w hw
    obtain ⟨k, -, rfl⟩ := List.mem_map.1 hw
    exact wordOf_lt a count k
  have hlt := onesSum_lt (by norm_num) (hwords addr)
  have hlt' := onesSum_lt (by norm_num) (hwords addr')
  have hsame : onesSum (2 ^ 16) ((List.range ((count + 1) / 2)).map (wordOf addr' count)) =
      onesSum (2 ^ 16) ((List.range ((count + 1) / 2)).map (wordOf addr count)) := by
    unfold internetChecksum at heq
    omega
  -- the plain sums agree modulo `65535`, and differ as the two words do
  have hmod := (onesSum_modEq (by norm_num) (hwords addr)).symm
  rw [← hsame] at hmod
  have hsums := hmod.trans (onesSum_modEq (by norm_num) (hwords addr'))
  have hagree := sum_range_of_agree (f := wordOf addr' count) (g := wordOf addr count)
    (j := i / 2) (n := (count + 1) / 2) (by omega) (by
      intro k hk hki
      unfold wordOf
      rw [h (2 * k) (by omega) (by omega)]
      split_ifs with hodd
      · rw [h (2 * k + 1) hodd (by omega)]
      · rfl)
  have hword := hsums.add_right (wordOf addr count (i / 2))
  rw [hagree] at hword
  exact (Nat.ModEq.add_left_cancel' _ hword).symm

/-- Two buffers that differ in one byte have different Internet checksums. -/
theorem internetChecksum_ne {i : ℕ} (hi : i < count) (h : ∀ j < count, j ≠ i → addr' j = addr j)
    (hne : addr' i ≠ addr i) : internetChecksum addr' count ≠ internetChecksum addr count := by
  intro heq
  have hends := eq_or_ends_of_modEq (wordOf_lt _ _ _) (wordOf_lt _ _ _) (wordOf_modEq hi h heq)
  have hbyte : (addr' i).toNat ≠ (addr i).toNat := fun e => hne (UInt8.toNat_inj.1 e)
  have h0 := (addr i).toNat_lt
  have h0' := (addr' i).toNat_lt
  -- the other byte of the word is the same in both
  unfold wordOf at hends
  rcases Nat.mod_two_eq_zero_or_one i with hmod | hmod
  · rw [show 2 * (i / 2) = i by omega] at hends
    split_ifs at hends with hodd
    · have h1 := (addr (i + 1)).toNat_lt
      rw [h (i + 1) hodd (by omega)] at hends
      omega
    · omega
  · have h1 := (addr (2 * (i / 2))).toNat_lt
    rw [h (2 * (i / 2)) (by omega) (by omega), show 2 * (i / 2) + 1 = i by omega] at hends
    simp only [hi, if_true] at hends
    omega

/-- `checksum` of an odd length does not read the last byte, unless it is the first one. -/
theorem checksum_odd_congr (h : ∀ j < 2 * m, addr' j = addr j) (hm : 0 < m) :
    checksum addr' (2 * m + 1) = checksum addr (2 * m + 1) := by
  have hmap : (List.range m).map (word16 addr') = (List.range m).map (word16 addr) := by
    apply List.map_congr_left
    intro k hk
    have hkm := List.mem_range.1 hk
    unfold word16
    rw [h _ (by omega), h _ (by omega)]
  rw [checksum_odd, checksum_odd, sumWords_eq_onesSum, sumWords_eq_onesSum, hmap, h 0 (by omega)]

end Words

/-- **`checksum` is the Internet checksum exactly for even lengths and for buffers whose first and
last byte are equal; and every byte contributes to it exactly for even lengths and a single
byte.** -/
theorem checksum_internet_iff {count : ℕ} (hcount : 1 ≤ count) :
    (∀ addr, checksum addr count = internetChecksum addr count ↔
      count % 2 = 0 ∨ addr 0 = addr (count - 1)) ∧
    (EveryByteCounts count ↔ count % 2 = 0 ∨ count = 1) := by
  have hchecksum : ∀ addr, checksum addr count = internetChecksum addr count ↔
      count % 2 = 0 ∨ addr 0 = addr (count - 1) := by
    intro addr
    rcases Nat.even_or_odd' count with ⟨m, rfl | rfl⟩
    · exact iff_of_true (checksum_even_eq addr m) (.inl (Nat.mul_mod_right 2 m))
    · rw [checksum_odd_iff, Nat.add_sub_cancel]
      simp
  refine ⟨hchecksum, fun hevery => ?_, fun hlen addr addr' i hi h hne => ?_⟩
  · by_contra hlen
    rw [not_or] at hlen
    obtain ⟨m, rfl⟩ : ∃ m, count = 2 * m + 1 := ⟨count / 2, by omega⟩
    -- a change of the last byte
    refine hevery (fun _ => 0) (fun j => if j = 2 * m then 1 else 0) (2 * m) (by omega) ?_ ?_ ?_
    · intro j _ hj
      exact if_neg hj
    · simp
    · exact checksum_odd_congr (fun j hj => if_neg (by omega)) (by omega)
  · have hsame : ∀ a : ℕ → UInt8, checksum a count = internetChecksum a count := by
      intro a
      rw [hchecksum]
      rcases hlen with heven | rfl
      · exact .inl heven
      · exact .inr rfl
    rw [hsame, hsame]
    exact internetChecksum_ne hi h hne

/-- Four bytes, as in a test of `server_ryan.c`. -/
theorem checksum_internet_4 :
    checksum (fun i => if i = 0 then 1 else 0) 4 =
      internetChecksum (fun i => if i = 0 then 1 else 0) 4 :=
  ((checksum_internet_iff (by norm_num)).1 _).2 (.inl rfl)

/-- Of three bytes the first one is added twice and the last one not at all. -/
theorem checksum_not_internet_3 :
    checksum (fun i => if i = 2 then 1 else 0) 3 ≠
      internetChecksum (fun i => if i = 2 then 1 else 0) 3 := by
  intro h
  have hbytes := (checksum_odd_iff _ 1).1 h
  exact absurd hbytes (by decide)

end Tcp118
