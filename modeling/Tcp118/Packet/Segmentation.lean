import Tcp118.Packet.Checksum

/-!
# Segmentation: the packets of a buffer

`bufToPackets` numbers the pieces of a buffer by `i * PACKET_SIZE` modulo twice the window, and
flags a piece as the last one when fewer than `MAX_BODY_SIZE` bytes remain.

* `cutPackets_eq_map`: the loop in closed form, packet `i` being `pieceOf … i`;
* `getSeqNum_pieceOf`, `getLast_pieceOf`, …: the header of packet `i`;
* `finalFlagged_iff`: exactly the final packet is flagged if and only if the length is not a
  multiple of `MAX_BODY_SIZE`.
-/

namespace Tcp118

variable (buf : List UInt8) (cWnd : ℕ)

/-- Packet `i` of a buffer when `nbytes` bytes remain. -/
def pieceOf (i nbytes : ℕ) : Packet :=
  generatePacket (u32 (i * packetSize) % u32 (2 * cWnd)) (u32 (i * packetSize) % u32 (2 * cWnd))
    false (decide (nbytes < maxBodySize)) false (buf.drop (i * maxBodySize))
    (min nbytes maxBodySize)

theorem cutPackets_succ (left i nbytes : ℕ) :
    cutPackets buf cWnd (left + 1) i nbytes =
      pieceOf buf cWnd i nbytes :: cutPackets buf cWnd left (i + 1) (nbytes - maxBodySize) := by
  rw [cutPackets, pieceOf]
  by_cases h : nbytes < maxBodySize
  · simp only [h, if_true, decide_true, Nat.min_eq_left (Nat.le_of_lt h),
      Nat.sub_eq_zero_of_le (Nat.le_of_lt h)]
  · simp only [h, if_false, decide_false, Nat.min_eq_right (Nat.le_of_not_lt h)]

/-- The packets of a buffer in closed form. -/
theorem cutPackets_eq_map (left i nbytes : ℕ) :
    cutPackets buf cWnd left i nbytes =
      (List.range left).map fun j => pieceOf buf cWnd (i + j) (nbytes - maxBodySize * j) := by
  induction left generalizing i nbytes with
  | zero => rfl
  | succ left ih =>
    rw [cutPackets_succ, ih, List.range_succ_eq_map, List.map_cons, List.map_map, Nat.add_zero,
      Nat.mul_zero, Nat.sub_zero, List.cons.injEq]
    refine ⟨rfl, List.map_congr_left fun j _ => ?_⟩
    have hi : i + 1 + j = i + (j + 1) := by omega
    have hn : nbytes - maxBodySize - maxBodySize * j = nbytes - maxBodySize * (j + 1) := by
      rw [Nat.mul_succ]; omega
    rw [hi, hn, Function.comp_apply]

/-- The number of packets of a buffer. -/
def numPackets (nbytes : ℕ) : ℕ := u32 (nbytes + (maxBodySize - 1)) / maxBodySize

/-- The packets `bufToPackets` returns for a buffer. -/
def packetsOf (nbytes : ℕ) : List Packet := cutPackets buf cWnd (numPackets nbytes) 0 nbytes

theorem bufToPackets_eq (nbytes : ℕ) :
    bufToPackets (some buf) nbytes cWnd =
      if 0 < numPackets nbytes ∧ u32 (2 * cWnd) = 0 then none
      else some (packetsOf buf cWnd nbytes) := rfl

theorem bufToPackets_some {cWnd : ℕ} (hpos : 0 < 2 * cWnd) (hc : 2 * cWnd < 2 ^ 32) (nbytes : ℕ) :
    bufToPackets (some buf) nbytes cWnd = some (packetsOf buf cWnd nbytes) := by
  rw [bufToPackets_eq, u32_of_lt hc]
  exact if_neg fun h => hpos.ne' h.2

/-- The list, if there is one, is that of the pieces. -/
theorem packetsOf_of_bufToPackets {nbytes : ℕ} {pkts : List Packet}
    (h : bufToPackets (some buf) nbytes cWnd = some pkts) : pkts = packetsOf buf cWnd nbytes := by
  rw [bufToPackets_eq] at h
  split_ifs at h
  exact (Option.some.inj h).symm

@[simp] theorem length_packetsOf (nbytes : ℕ) :
    (packetsOf buf cWnd nbytes).length = numPackets nbytes := by
  simp [packetsOf, cutPackets_eq_map]

theorem getElem_packetsOf {nbytes i : ℕ} (h : i < (packetsOf buf cWnd nbytes).length) :
    (packetsOf buf cWnd nbytes)[i] = pieceOf buf cWnd i (nbytes - maxBodySize * i) := by
  simp [packetsOf, cutPackets_eq_map]

/-! ### The header of a piece -/

variable (i nbytes : ℕ)

theorem getSeqNum_pieceOf :
    getSeqNum (pieceOf buf cWnd i nbytes) = u32 (i * packetSize) % u32 (2 * cWnd) :=
  getSeqNum_generatePacket _ _ _ _ _ _ _
    (lt_of_le_of_lt (Nat.mod_le _ _) (Nat.mod_lt _ (by norm_num)))

theorem getACK_pieceOf : getACK (pieceOf buf cWnd i nbytes) = false :=
  getACK_generatePacket _ _ _ _ _ _ _

theorem getClose_pieceOf : getClose (pieceOf buf cWnd i nbytes) = false :=
  getClose_generatePacket _ _ _ _ _ _ _

theorem getLast_pieceOf :
    getLast (some (pieceOf buf cWnd i nbytes)) = decide (nbytes < maxBodySize) :=
  getLast_generatePacket _ _ _ _ _ _ _

theorem checksum_pieceOf : checksum (pieceOf buf cWnd i nbytes).byte packetSize = 0 :=
  checksum_generatePacket _ _ _ _ _ _ _

theorem getSize_pieceOf : getSize (pieceOf buf cWnd i nbytes) = min nbytes maxBodySize := by
  rw [pieceOf, getSize_generatePacket, storedSize_of_le (Nat.min_le_right _ _)]

/-! ### The last flag -/

/-- The final packet of the list is flagged last, and no other one is. -/
def FinalFlagged (pkts : List Packet) : Prop :=
  ∀ i, ∀ h : i < pkts.length, getLast (some pkts[i]) = true ↔ i + 1 = pkts.length

/-- No packet before the final one is ever flagged. -/
theorem getLast_before_final {i : ℕ} (h : i < numPackets nbytes)
    (hl : getLast (some (pieceOf buf cWnd i (nbytes - maxBodySize * i))) = true) :
    i + 1 = numPackets nbytes := by
  rw [getLast_pieceOf, decide_eq_true_eq] at hl
  unfold numPackets u32 at *
  simp only [maxBodySize] at *
  omega

theorem finalFlagged_iff (h1 : 1 ≤ nbytes) (h : nbytes + 1011 < 2 ^ 32) :
    FinalFlagged (packetsOf buf cWnd nbytes) ↔ nbytes % maxBodySize ≠ 0 := by
  have hnum : numPackets nbytes = (nbytes + 1011) / 1012 := by
    unfold numPackets u32
    simp only [maxBodySize]
    omega
  constructor
  · intro hf
    have hlen : numPackets nbytes - 1 < (packetsOf buf cWnd nbytes).length := by
      rw [length_packetsOf]; omega
    have hlast := (hf _ hlen).2 (by rw [length_packetsOf]; omega)
    rw [getElem_packetsOf, getLast_pieceOf, decide_eq_true_eq] at hlast
    simp only [maxBodySize] at *
    omega
  · intro hmod i hi
    rw [getElem_packetsOf, length_packetsOf]
    rw [length_packetsOf] at hi
    refine ⟨getLast_before_final buf cWnd nbytes hi, fun hi' => ?_⟩
    rw [getLast_pieceOf, decide_eq_true_eq]
    simp only [maxBodySize] at *
    omega

/-- **Exactly the final packet is flagged last, unless the length is a multiple of
`MAX_BODY_SIZE`.** -/
theorem bufToPackets_finalFlagged_iff (hpos : 0 < 2 * cWnd) (hc : 2 * cWnd < 2 ^ 32)
    (h1 : 1 ≤ nbytes)
    (hcount : (nbytes + (maxBodySize - 1)) / maxBodySize * packetSize < 2 ^ 31) :
    ∃ pkts, bufToPackets (some buf) nbytes cWnd = some pkts ∧
      (FinalFlagged pkts ↔ nbytes % maxBodySize ≠ 0) := by
  refine ⟨packetsOf buf cWnd nbytes, bufToPackets_some buf hpos hc nbytes, ?_⟩
  apply finalFlagged_iff buf cWnd nbytes h1
  simp only [maxBodySize, packetSize] at hcount
  omega

/-- The length `1013`: two packets, the second of them flagged. -/
theorem bufToPackets_finalFlagged_1013 :
    ∃ pkts, bufToPackets (some (List.replicate 1013 65)) 1013 4096 = some pkts ∧
      FinalFlagged pkts := by
  obtain ⟨pkts, hp, hiff⟩ := bufToPackets_finalFlagged_iff (List.replicate 1013 65) 4096 1013
    (by norm_num) (by norm_num) (by norm_num) (by norm_num)
  exact ⟨pkts, hp, hiff.2 (by norm_num)⟩

/-- The length `1012`: one packet, and it is not flagged. -/
theorem bufToPackets_unflagged_1012 :
    ∃ pkts, bufToPackets (some (List.replicate 1012 65)) 1012 4096 = some pkts ∧
      pkts.length = 1 ∧ (∀ pkt ∈ pkts, getLast (some pkt) = false) ∧ ¬ FinalFlagged pkts := by
  refine ⟨packetsOf (List.replicate 1012 65) 4096 1012,
    bufToPackets_some _ (by norm_num) (by norm_num) _, ?_, ?_, ?_⟩
  · rw [length_packetsOf]
    rfl
  · intro pkt hpkt
    obtain ⟨i, hi, rfl⟩ := List.getElem_of_mem hpkt
    have hi0 : i = 0 := by
      rw [length_packetsOf] at hi
      have : numPackets 1012 = 1 := rfl
      omega
    subst hi0
    rw [getElem_packetsOf, getLast_pieceOf]
    decide
  · rw [finalFlagged_iff _ _ _ (by norm_num) (by norm_num)]
    decide

end Tcp118
