import Tcp118.Transport.Basic
import Tcp118.Window.Indexed
import Mathlib.Data.List.Forall2
import Mathlib.Data.List.ReduceOption

/-!
# The datagrams of a transfer

* `recvBuf_datagram`: a datagram of `PACKET_SIZE` bytes fills the receive buffer;
* `getACKNum_ackPacket`, `getClose_closePacket`, `verifies_zeroPacket`, …: what the readers see of
  an acknowledgement, of a close packet and of a zeroed one;
* `Carries`, `Acknowledges`: the packet numbers of the datagrams of the two directions;
* `forall₂_append`, `forall₂_eraseIdx`, `forall₂_set`: channels as related lists.
-/

namespace Tcp118

/-- A packet as it is sent. -/
def datagram (pkt : Packet) : Datagram := pkt.toList

theorem recvBuf_datagram (stack pkt : Packet) : recvBuf stack (datagram pkt) = pkt := by
  apply Packet.ext_byte
  intro i hi
  unfold recvBuf datagram
  rw [Packet.byte_ofBytes hi, List.getD_eq_getElem _ _ (by simpa using hi), Packet.byte,
    dif_pos hi]
  rfl

/-- A datagram without bytes leaves the buffer as it was. -/
theorem recvBuf_nil (stack : Packet) : recvBuf stack [] = stack := by
  apply Packet.ext_byte
  intro i hi
  unfold recvBuf
  rw [Packet.byte_ofBytes hi]
  rfl

theorem length_datagram (pkt : Packet) : (datagram pkt).length = packetSize := by simp [datagram]

theorem getElem_datagram (pkt : Packet) {i : ℕ} (h : i < (datagram pkt).length) :
    (datagram pkt)[i] = pkt.byte i := by
  have hlt : i < packetSize := by rwa [length_datagram] at h
  rw [Packet.byte, dif_pos hlt]
  rfl

theorem recvLen_datagram (pkt : Packet) : recvLen (datagram pkt) = packetSize := by
  simp [recvLen, datagram]

theorem datagram_eq_cons (pkt : Packet) : ∃ b d, datagram pkt = b :: d := by
  have hlen : (datagram pkt).length = packetSize := by simp [datagram]
  cases hd : datagram pkt with
  | nil => rw [hd] at hlen; simp at hlen
  | cons b d => exact ⟨b, d, rfl⟩

/-- The sequence number computed from a slot. -/
theorem toU32_slot {n s : ℕ} (hb : 1024 * (2 * n) < 2 ^ 31) (hs : s < 2 * n) :
    toU32 ((s : ℤ) * packetSize) = s * packetSize := by
  rw [← Nat.cast_mul, toU32_natCast]
  simp only [packetSize]
  omega

/-! ### Acknowledgements, close packets and zeroed packets -/

theorem getACK_ackPacket (seq : ℕ) : getACK (ackPacket seq) = true :=
  getACK_generatePacket _ _ _ _ _ _ _

theorem getACKNum_ackPacket {seq : ℕ} (h : seq < 2 ^ 32) : getACKNum (ackPacket seq) = seq :=
  getACKNum_generatePacket _ _ _ _ _ _ _ h

theorem verifies_ackPacket (seq : ℕ) : verifies (ackPacket seq) = true := by
  rw [verifies, ackPacket, checksum_generatePacket]
  rfl

theorem getACK_closePacket : getACK closePacket = false :=
  getACK_generatePacket _ _ _ _ _ _ _

theorem getClose_closePacket : getClose closePacket = true :=
  getClose_generatePacket _ _ _ _ _ _ _

theorem verifies_closePacket : verifies closePacket = true := by
  rw [verifies, closePacket, checksum_generatePacket]
  rfl

theorem getField_zeroPacket (shift mask : ℕ) : getField zeroPacket shift mask = 0 := by
  rw [getField, word32_zeroPacket, Nat.zero_shiftRight, Nat.zero_and]

theorem getACK_zeroPacket : getACK zeroPacket = false := by
  rw [getACK, getField_zeroPacket]
  rfl

theorem verifies_zeroPacket : verifies zeroPacket = false := by
  rw [verifies, beq_eq_false_iff_ne]
  exact checksum_zeroPacket

/-! ### Data packets -/

section Data

variable {buf : List UInt8} {n nbytes j : ℕ} {pkt : Packet}

theorem eq_pieceOf {cWnd : ℕ} (h : (packetsOf buf cWnd nbytes)[j]? = some pkt) :
    pkt = pieceOf buf cWnd j (nbytes - maxBodySize * j) := by
  obtain ⟨hj, rfl⟩ := List.getElem?_eq_some_iff.1 h
  exact getElem_packetsOf buf cWnd hj

/-- The header of a data packet. -/
theorem getSeqNum_packet (hring : 2 * n ∣ 2 ^ 22) (hb : 1024 * (2 * n) < 2 ^ 31)
    (h : (packetsOf buf (1024 * n) nbytes)[j]? = some pkt) : getSeqNum pkt = seqOf n j := by
  rw [eq_pieceOf h, getSeqNum_pieceOf, seqOf_eq hring hb]

theorem getACK_packet {cWnd : ℕ} (h : (packetsOf buf cWnd nbytes)[j]? = some pkt) :
    getACK pkt = false := by
  rw [eq_pieceOf h, getACK_pieceOf]

theorem getClose_packet {cWnd : ℕ} (h : (packetsOf buf cWnd nbytes)[j]? = some pkt) :
    getClose pkt = false := by
  rw [eq_pieceOf h, getClose_pieceOf]

theorem verifies_packet {cWnd : ℕ} (h : (packetsOf buf cWnd nbytes)[j]? = some pkt) :
    verifies pkt = true := by
  rw [verifies, eq_pieceOf h, checksum_pieceOf]
  rfl

/-- The last flag of the final packet of a list. -/
def finalFlag (pkts : List Packet) : Bool := getLast pkts.getLast?

/-- A packet is flagged exactly when it is the final one and that one is flagged. -/
theorem getLast_packet {cWnd : ℕ} (h : (packetsOf buf cWnd nbytes)[j]? = some pkt) :
    getLast (some pkt) = true ↔
      finalFlag (packetsOf buf cWnd nbytes) = true ∧
        j + 1 = (packetsOf buf cWnd nbytes).length := by
  have hj : j < (packetsOf buf cWnd nbytes).length := (List.getElem?_eq_some_iff.1 h).1
  have hfinal : j + 1 = (packetsOf buf cWnd nbytes).length →
      (packetsOf buf cWnd nbytes).getLast? = some pkt := by
    intro hlen
    rw [List.getLast?_eq_getElem?, ← hlen, Nat.add_sub_cancel, h]
  rw [finalFlag]
  constructor
  · intro hl
    have hl' := hl
    rw [eq_pieceOf h] at hl'
    rw [length_packetsOf] at hj
    have hlen := getLast_before_final buf cWnd nbytes hj hl'
    rw [← length_packetsOf buf cWnd nbytes] at hlen
    rw [hfinal hlen]
    exact ⟨hl, hlen⟩
  · rintro ⟨hl, hlen⟩
    rwa [hfinal hlen] at hl

end Data

/-- What the readers see of the packets of a list: packet `j` carries the number of `j`, is neither
an acknowledgement nor a close packet, verifies, and is flagged at most if it is the final one. -/
structure Numbered (n : ℕ) (pkts : List Packet) : Prop where
  seqNum : ∀ {j : ℕ} {pkt : Packet}, pkts[j]? = some pkt → getSeqNum pkt = seqOf n j
  ack : ∀ {j : ℕ} {pkt : Packet}, pkts[j]? = some pkt → getACK pkt = false
  close : ∀ {j : ℕ} {pkt : Packet}, pkts[j]? = some pkt → getClose pkt = false
  verifies : ∀ {j : ℕ} {pkt : Packet}, pkts[j]? = some pkt → verifies pkt = true
  last : ∀ {j : ℕ} {pkt : Packet}, pkts[j]? = some pkt →
    (getLast (some pkt) = true ↔ finalFlag pkts = true ∧ j + 1 = pkts.length)

theorem numbered_packetsOf {n : ℕ} (hring : 2 * n ∣ 2 ^ 22) (hb : 1024 * (2 * n) < 2 ^ 31)
    (buf : List UInt8) (nbytes : ℕ) : Numbered n (packetsOf buf (1024 * n) nbytes) :=
  ⟨getSeqNum_packet hring hb, getACK_packet, getClose_packet, verifies_packet, getLast_packet⟩

/-! ### Packet numbers of datagrams -/

/-- A datagram from the sender and the packet number it carries. -/
inductive Carries (pkts : List Packet) : Packet → Option ℕ → Prop
  | data {j : ℕ} {pkt : Packet} : pkts[j]? = some pkt → Carries pkts pkt (some j)
  | close : Carries pkts closePacket none
  | zero : Carries pkts zeroPacket none

/-- A datagram from the receiver and the packet number it acknowledges; what is sent once
the receiver has `returned` acknowledges none. -/
inductive Acknowledges (n : ℕ) (returned : Prop) : Packet → Option ℕ → Prop
  | ack (q : ℕ) : Acknowledges n returned (ackPacket (seqOf n q)) (some q)
  | close : Acknowledges n returned closePacket none
  | zero : Acknowledges n returned zeroPacket none
  | follow {pkt : Packet} : returned → Acknowledges n returned pkt none

theorem acknowledges_mono {n : ℕ} {returned returned' : Prop} (hle : returned → returned')
    {channel : List Packet} {tags : List (Option ℕ)}
    (h : List.Forall₂ (Acknowledges n returned) channel tags) :
    List.Forall₂ (Acknowledges n returned') channel tags := by
  refine h.imp fun pkt e hpkt => ?_
  cases hpkt with
  | ack q => exact .ack q
  | close => exact .close
  | zero => exact .zero
  | follow ho => exact .follow (hle ho)

section Channels

variable {α β : Type*} {R : α → β → Prop} {l : List α} {tags : List β}

theorem forall₂_append {a : α} {t : β} (h : List.Forall₂ R l tags) (ha : R a t) :
    List.Forall₂ R (l ++ [a]) (tags ++ [t]) :=
  List.rel_append h (.cons ha .nil)

theorem forall₂_append_none (h : List.Forall₂ R l tags) :
    List.Forall₂ R (l ++ (none : Option α).toList) tags := by
  rwa [Option.toList_none, List.append_nil]

theorem forall₂_eraseIdx (h : List.Forall₂ R l tags) (i : ℕ) :
    List.Forall₂ R (l.eraseIdx i) (tags.eraseIdx i) := by
  induction h generalizing i with
  | nil => exact .nil
  | cons hab _ ih =>
    cases i with
    | zero => assumption
    | succ i => exact .cons hab (ih i)

theorem forall₂_set {a : α} {t : β} (h : List.Forall₂ R l tags) (ha : R a t) (i : ℕ) :
    List.Forall₂ R (l.set i a) (tags.set i t) := by
  induction h generalizing i with
  | nil => exact .nil
  | cons hab htl ih =>
    cases i with
    | zero => exact .cons ha htl
    | succ i => exact .cons hab (ih i)

theorem forall₂_getElem? (h : List.Forall₂ R l tags) {i : ℕ} {a : α} (ha : l[i]? = some a) :
    ∃ t, tags[i]? = some t ∧ R a t := by
  induction h generalizing i with
  | nil => cases ha
  | cons hab _ ih =>
    cases i with
    | zero => cases ha; exact ⟨_, rfl, hab⟩
    | succ i => exact ih ha

/-- A channel whose datagrams all have one tag. -/
theorem forall₂_replicate {t : β} (h : ∀ a ∈ l, R a t) :
    List.Forall₂ R l (List.replicate l.length t) := by
  induction l with
  | nil => exact .nil
  | cons a l ih =>
    exact .cons (h a List.mem_cons_self) (ih fun b hb => h b (List.mem_cons_of_mem a hb))

theorem reduceOption_eraseIdx (tags : List (Option ℕ)) (i : ℕ) :
    (tags.eraseIdx i).reduceOption.Sublist tags.reduceOption :=
  (List.eraseIdx_sublist tags i).filterMap id

theorem reduceOption_set_none (tags : List (Option ℕ)) (i : ℕ) :
    (tags.set i none).reduceOption.Sublist tags.reduceOption := by
  induction tags generalizing i with
  | nil => exact List.Sublist.refl _
  | cons t tags ih =>
    cases i with
    | zero =>
      rw [List.set_cons_zero, List.reduceOption_cons_of_none]
      cases t with
      | none => exact List.Sublist.refl _
      | some q => exact List.sublist_cons_self _ _
    | succ i =>
      rw [List.set_cons_succ]
      cases t with
      | none => exact ih i
      | some q => exact (ih i).cons_cons q

end Channels

end Tcp118
