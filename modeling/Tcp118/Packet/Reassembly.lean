import Tcp118.Packet.Segmentation

/-!
# Reassembly: what the packets of a buffer carry

The packets of `bufToPackets` carry the buffer: their payloads, put end to end, are its bytes.

* `payload`: the first `getSize` bytes of the body region;
* `copiedBytes`, `payload_generatePacket`: they are the bytes that `setBody` copied, where size
  field and copied body agree; `sizeAgrees_iff`: the counts for which they do;
* `payload_pieceOf`: packet `i` carries the bytes from `i * MAX_BODY_SIZE` on, at most
  `MAX_BODY_SIZE` of them;
* `flatMap_chunks`: the chunks of a list, put end to end, are the list;
* `Segmented`, `bufToPackets_segmented`: what the packets of a buffer are, for every length.
-/

namespace Tcp118

/-- The bytes a packet carries: the first `getSize` bytes of its body region. -/
def payload (pkt : Packet) : List UInt8 := (bodyBytes pkt).take (getSize pkt)

/-- The packets of a buffer, as `bufToPackets` should cut it. -/
structure Segmented (buf : List UInt8) (cWnd : ℕ) (pkts : List Packet) : Prop where
  length : pkts.length = (buf.length + (maxBodySize - 1)) / maxBodySize
  payload : pkts.flatMap payload = buf
  full : ∀ i pkt, pkts[i]? = some pkt → i + 1 < pkts.length → getSize pkt = maxBodySize
  nonempty : ∀ pkt ∈ pkts, 0 < getSize pkt
  seqNum : ∀ i pkt, pkts[i]? = some pkt → getSeqNum pkt = i * packetSize % (2 * cWnd)
  ackNum : ∀ i pkt, pkts[i]? = some pkt → getACKNum pkt = i * packetSize % (2 * cWnd)
  flags : ∀ pkt ∈ pkts, getACK pkt = false ∧ getClose pkt = false
  verifies : ∀ pkt ∈ pkts, checksum pkt.byte packetSize = 0

/-! ### Chunks of a list -/

/-- The first chunks of a list are a prefix of it. -/
theorem flatMap_chunks_take {α : Type*} (l : List α) (m count : ℕ) :
    ((List.range count).flatMap fun i => (l.drop (m * i)).take m) = l.take (m * count) := by
  induction count with
  | zero => simp
  | succ count ih =>
    rw [List.range_succ, List.flatMap_append, ih, Nat.mul_succ, List.take_add]
    simp

/-- Enough chunks of a list, put end to end, are the list. -/
theorem flatMap_chunks {α : Type*} (l : List α) {m count : ℕ} (h : l.length ≤ m * count) :
    ((List.range count).flatMap fun i => (l.drop (m * i)).take m) = l := by
  rw [flatMap_chunks_take, List.take_of_length_le h]

/-! ### The payload of a generated packet -/

/-- The bytes `setBody` copies. -/
def copiedBytes (buff : List UInt8) (count : ℕ) : List UInt8 :=
  (List.range (copiedLen count)).map fun i => buff.getD i 0

/-- A receiver that trusts the size takes the copied bytes, if the two counts agree. -/
theorem payload_generatePacket (seqNum ackNum : ℕ) (ack last close : Bool) (buff : List UInt8)
    {count : ℕ} (h : storedSize count = copiedLen count) :
    payload (generatePacket seqNum ackNum ack last close buff count) = copiedBytes buff count := by
  have hlt := storedSize_le count
  unfold payload copiedBytes
  rw [getSize_generatePacket, h]
  apply List.ext_getElem
  · simp only [bodyBytes, List.length_take, List.length_map, List.length_range]
    omega
  · intro i hi hi'
    have hlen : i < copiedLen count := by simpa using hi'
    simp only [bodyBytes, List.getElem_take, List.getElem_map, List.getElem_range]
    rw [byte_generatePacket _ _ _ _ _ _ _
      (by simp only [headerSize, packetSize, maxBodySize] at *; omega) (Nat.le_add_right _ _),
      if_pos (by omega), Nat.add_sub_cancel_left]

/-- The size field, the number of bytes that `setBody` copies and the clamped count are the same,
and the size field gives a receiver the copied bytes. -/
structure SizeAgrees (pkt : Packet) (buff : List UInt8) (count : ℕ) : Prop where
  size : ∀ p, (setBody p buff count).2 = getSize pkt
  clamped : getSize pkt = min count maxBodySize
  payload : payload pkt = copiedBytes buff count

/-- **Size field and copied body agree exactly when the count, narrowed to `uint16_t`, still clamps
to the same size.** -/
theorem sizeAgrees_iff {count : ℕ} (h : count < 2 ^ 31) (seqNum ackNum : ℕ) (ack last close : Bool)
    (buff : List UInt8) :
    SizeAgrees (generatePacket seqNum ackNum ack last close buff count) buff count ↔
      count < 2 ^ 16 ∨ maxBodySize ≤ count % 2 ^ 16 := by
  rw [← storedSize_eq_min_iff]
  constructor
  · intro hagrees
    have hclamped := hagrees.clamped
    rwa [getSize_generatePacket] at hclamped
  · intro hstored
    have hcopied := hstored.trans (copiedLen_eq_min h).symm
    refine ⟨fun p => ?_, ?_, payload_generatePacket _ _ _ _ _ _ hcopied⟩
    · rw [getSize_generatePacket, hcopied, setBody_snd h]
    · rw [getSize_generatePacket, hstored]

/-- A count that both functions clamp. -/
theorem sizeAgrees_2000 :
    SizeAgrees (generatePacket 0 0 false false false (List.replicate 2000 65) 2000)
      (List.replicate 2000 65) 2000 :=
  (sizeAgrees_iff (by norm_num) 0 0 false false false (List.replicate 2000 65)).2
    (.inl (by norm_num))

/-- Of a count of `65536` nothing is left for `setSize`, and `setBody` fills the body. -/
theorem not_sizeAgrees_65536 :
    ¬ SizeAgrees (generatePacket 0 0 false false false (List.replicate 65536 65) 65536)
      (List.replicate 65536 65) 65536 := by
  intro h
  have hclamped := h.clamped
  rw [getSize_generatePacket, storedSize_eq_min_iff] at hclamped
  norm_num at hclamped

/-! ### The payload of a piece -/

section Piece

variable {buf : List UInt8} {cWnd i nbytes : ℕ}

/-- The body region of packet `i` starts with its share of the buffer. -/
theorem payload_pieceOf (h : nbytes = buf.length - maxBodySize * i) :
    payload (pieceOf buf cWnd i nbytes) = (buf.drop (maxBodySize * i)).take maxBodySize := by
  have hlen : (buf.drop (maxBodySize * i)).length = nbytes := by rw [List.length_drop, h]
  have hmin := Nat.min_le_right nbytes maxBodySize
  rw [pieceOf, payload_generatePacket _ _ _ _ _ _
    ((storedSize_of_le hmin).trans (copiedLen_of_le hmin).symm)]
  unfold copiedBytes
  rw [copiedLen_of_le hmin, Nat.mul_comm i]
  apply List.ext_getElem
  · simp only [List.length_take, List.length_map, List.length_range, hlen]
    omega
  · intro j hj hj'
    have hjn : j < min nbytes maxBodySize := by simpa using hj
    simp only [List.getElem_take, List.getElem_map, List.getElem_range]
    exact List.getD_eq_getElem _ _ (by omega)

theorem getACKNum_pieceOf :
    getACKNum (pieceOf buf cWnd i nbytes) = u32 (i * packetSize) % u32 (2 * cWnd) :=
  getACKNum_generatePacket _ _ _ _ _ _ _
    (lt_of_le_of_lt (Nat.mod_le _ _) (Nat.mod_lt _ (by norm_num)))

end Piece

/-! ### The packets of a buffer -/

section Buffer

variable (buf : List UInt8) (cWnd : ℕ)

/-- Rounding up in 32 bits, for the lengths an `int` index can count through. -/
theorem numPackets_eq {nbytes : ℕ}
    (h : (nbytes + (maxBodySize - 1)) / maxBodySize * packetSize < 2 ^ 31) :
    numPackets nbytes = (nbytes + (maxBodySize - 1)) / maxBodySize := by
  have hlt : nbytes + (maxBodySize - 1) < 2 ^ 32 := by
    simp only [maxBodySize, packetSize] at *
    omega
  exact congrArg (· / maxBodySize) (u32_of_lt hlt)

/-- The packets in closed form carry the whole buffer. -/
theorem flatMap_payload_packetsOf
    (h : (buf.length + (maxBodySize - 1)) / maxBodySize * packetSize < 2 ^ 31) :
    (packetsOf buf cWnd buf.length).flatMap payload = buf := by
  have hnum := numPackets_eq h
  have hcover : buf.length ≤ maxBodySize * numPackets buf.length := by
    rw [hnum]
    simp only [maxBodySize]
    omega
  have hpiece : ∀ i, payload (pieceOf buf cWnd i (buf.length - maxBodySize * i)) =
      (buf.drop (maxBodySize * i)).take maxBodySize := fun _ => payload_pieceOf rfl
  simp only [packetsOf, cutPackets_eq_map, Nat.zero_add, List.flatMap_map, hpiece]
  exact flatMap_chunks buf hcover

/-- A packet of the list is a piece that starts inside the buffer. -/
theorem exists_pieceOf (h : (buf.length + (maxBodySize - 1)) / maxBodySize * packetSize < 2 ^ 31)
    {i : ℕ} {pkt : Packet} (hpkt : (packetsOf buf cWnd buf.length)[i]? = some pkt) :
    pkt = pieceOf buf cWnd i (buf.length - maxBodySize * i) ∧ maxBodySize * i < buf.length := by
  obtain ⟨hi, rfl⟩ := List.getElem?_eq_some_iff.1 hpkt
  refine ⟨getElem_packetsOf buf cWnd hi, ?_⟩
  rw [length_packetsOf, numPackets_eq h] at hi
  simp only [maxBodySize] at *
  omega

/-- The number in the header of packet `i` does not wrap before it is reduced. -/
theorem seq_lt (h : (buf.length + (maxBodySize - 1)) / maxBodySize * packetSize < 2 ^ 31) {i : ℕ}
    (hi : maxBodySize * i < buf.length) : i * packetSize < 2 ^ 32 := by
  have hlt : i < (buf.length + (maxBodySize - 1)) / maxBodySize := by
    simp only [maxBodySize] at *
    omega
  calc i * packetSize ≤ (buf.length + (maxBodySize - 1)) / maxBodySize * packetSize :=
        Nat.mul_le_mul_right _ hlt.le
    _ < 2 ^ 31 := h
    _ < 2 ^ 32 := by norm_num

theorem segmented_packetsOf (hc : 2 * cWnd < 2 ^ 32)
    (h : (buf.length + (maxBodySize - 1)) / maxBodySize * packetSize < 2 ^ 31) :
    Segmented buf cWnd (packetsOf buf cWnd buf.length) where
  length := by rw [length_packetsOf, numPackets_eq h]
  payload := flatMap_payload_packetsOf buf cWnd h
  full := by
    intro i pkt hpkt hi
    obtain ⟨rfl, -⟩ := exists_pieceOf buf cWnd h hpkt
    rw [length_packetsOf, numPackets_eq h] at hi
    rw [getSize_pieceOf]
    simp only [maxBodySize] at *
    omega
  nonempty := by
    intro pkt hmem
    obtain ⟨i, hi⟩ := List.mem_iff_getElem?.1 hmem
    obtain ⟨rfl, hlt⟩ := exists_pieceOf buf cWnd h hi
    rw [getSize_pieceOf]
    simp only [maxBodySize] at *
    omega
  seqNum := by
    intro i pkt hpkt
    obtain ⟨rfl, hlt⟩ := exists_pieceOf buf cWnd h hpkt
    rw [getSeqNum_pieceOf, u32_of_lt hc, u32_of_lt (seq_lt buf h hlt)]
  ackNum := by
    intro i pkt hpkt
    obtain ⟨rfl, hlt⟩ := exists_pieceOf buf cWnd h hpkt
    rw [getACKNum_pieceOf, u32_of_lt hc, u32_of_lt (seq_lt buf h hlt)]
  flags := by
    intro pkt hmem
    obtain ⟨i, hi⟩ := List.mem_iff_getElem?.1 hmem
    obtain ⟨rfl, -⟩ := exists_pieceOf buf cWnd h hi
    exact ⟨getACK_pieceOf buf cWnd _ _, getClose_pieceOf buf cWnd _ _⟩
  verifies := by
    intro pkt hmem
    obtain ⟨i, hi⟩ := List.mem_iff_getElem?.1 hmem
    obtain ⟨rfl, -⟩ := exists_pieceOf buf cWnd h hi
    exact checksum_pieceOf buf cWnd _ _

end Buffer

/-- **Segmentation loses and invents nothing**: for every buffer the packets are as many as
`MAX_BODY_SIZE` requires, carry its bytes in order, and verify; all but the final one are full and
none is empty. -/
theorem bufToPackets_segmented {buf : List UInt8} {cWnd : ℕ} (hpos : 0 < 2 * cWnd)
    (hc : 2 * cWnd < 2 ^ 32)
    (h : (buf.length + (maxBodySize - 1)) / maxBodySize * packetSize < 2 ^ 31) :
    ∃ pkts, bufToPackets (some buf) buf.length cWnd = some pkts ∧ Segmented buf cWnd pkts :=
  ⟨packetsOf buf cWnd buf.length, bufToPackets_some buf hpos hc buf.length,
    segmented_packetsOf buf cWnd hc h⟩

/-- One byte more than a packet holds. -/
theorem bufToPackets_segmented_1013 :
    ∃ pkts, bufToPackets (some (List.replicate 1013 65)) 1013 4096 = some pkts ∧
      Segmented (List.replicate 1013 65) 4096 pkts := by
  have hpos : 0 < 2 * 4096 := by norm_num
  have hc : 2 * 4096 < 2 ^ 32 := by norm_num
  have hlen : ((List.replicate 1013 (65 : UInt8)).length + (maxBodySize - 1)) / maxBodySize *
      packetSize < 2 ^ 31 := by
    rw [List.length_replicate]
    norm_num
  have h := bufToPackets_segmented hpos hc hlen
  rwa [List.length_replicate] at h

end Tcp118
