import Tcp118.Packet.Reassembly

/-!
# Packets of a longer buffer

`bufToPackets` does not look behind the bytes it is told to send: `packetsOf_append`.  The server
sends the bytes of a file out of a buffer of `MAX_FILE_SIZE` bytes.
-/

namespace Tcp118

theorem copyBody_congr {buff buff' : List UInt8} {count : ℕ}
    (h : ∀ i < count, buff.getD i 0 = buff'.getD i 0) (pkt : Packet) :
    copyBody pkt buff count = copyBody pkt buff' count := by
  unfold copyBody
  congr 1
  funext i
  split_ifs with hi
  · exact h _ (by omega)
  · rfl

theorem generatePacket_congr {buff buff' : List UInt8} {count : ℕ} (hcount : count ≤ maxBodySize)
    (h : ∀ i < count, buff.getD i 0 = buff'.getD i 0) (seqNum ackNum : ℕ)
    (ack last close : Bool) :
    generatePacket seqNum ackNum ack last close buff count =
      generatePacket seqNum ackNum ack last close buff' count := by
  have hbody : ∀ pkt, (setBody pkt buff count).1 = (setBody pkt buff' count).1 := by
    intro pkt
    have hlt : count < 2 ^ 31 := lt_of_le_of_lt hcount (by norm_num)
    have hle : ¬ ((count : ℤ) > maxBodySize) := by
      rw [gt_iff_lt, Nat.cast_lt]
      omega
    unfold setBody
    simp only [toInt32_of_lt hlt, if_neg hle, Int.toNat_natCast]
    exact copyBody_congr h pkt
  unfold generatePacket
  simp only [hbody]

theorem pieceOf_append (buf rest : List UInt8) (cWnd i : ℕ) {nbytes : ℕ}
    (h : nbytes ≤ buf.length) :
    pieceOf (buf ++ rest) cWnd i (nbytes - maxBodySize * i) =
      pieceOf buf cWnd i (nbytes - maxBodySize * i) := by
  unfold pieceOf
  refine generatePacket_congr (Nat.min_le_right _ _) (fun j hj => ?_) _ _ _ _ _
  have hlt : i * maxBodySize + j < buf.length := by
    rw [Nat.mul_comm]
    omega
  rw [List.drop_append_of_le_length (by omega), List.getD_append _ _ _ _
    (by rw [List.length_drop]; omega)]

theorem packetsOf_append (buf rest : List UInt8) (cWnd : ℕ) {nbytes : ℕ}
    (h : nbytes ≤ buf.length) :
    packetsOf (buf ++ rest) cWnd nbytes = packetsOf buf cWnd nbytes := by
  unfold packetsOf
  simp only [cutPackets_eq_map, Nat.zero_add]
  exact List.map_congr_left fun i _ => pieceOf_append buf rest cWnd i h

end Tcp118
