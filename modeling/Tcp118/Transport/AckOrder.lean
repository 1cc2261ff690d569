import Tcp118.Transport.SenderWindow

/-!
# The order of acknowledgements

An acknowledgement is cumulative, so a sequence of them has the effect of the largest one in the
window, in whatever order they arrive and however often.

* `readAckPackets`: successive calls of `readAckPacket`;
* `InWindow`, `ackNumber`, `ackThrough`: the numbers that count, and what the largest of them does;
* `Shape.readAckPacket_eq`, `Shape.readAckPackets_eq`: the step and the run lemma;
* `acks_order_insensitive`: on every reachable window of the sender only the set of the datagrams
  matters, and no acknowledgement is taken back.
-/

namespace Tcp118

/-- `readAckPacket` called once for each datagram, each time with what its buffer held before. -/
def readAckPackets (ds : List (Packet × Datagram)) (w : Cwnd) : Cwnd :=
  ds.foldl (fun w d => (readAckPacket d.1 (some d.2) w).1) w

/-- A sequence number from `last_seq` up to `next_seq` on the ring. -/
def InWindow (w : Cwnd) (seqNum : ℕ) : Prop :=
  seqNum < w.size ∧ Cyclic.Before w.lastSeq w.nextSeq seqNum

instance (w : Cwnd) (seqNum : ℕ) : Decidable (InWindow w seqNum) :=
  inferInstanceAs (Decidable (_ ∧ _))

/-- The number that a datagram acknowledges, if it is a valid acknowledgement in the window. -/
def ackNumber (w : Cwnd) (d : Packet × Datagram) : Option ℕ :=
  let buf := recvBuf d.1 d.2
  if getACK buf = true ∧ verifies buf = true ∧ InWindow w (getACKNum buf) then
    some (getACKNum buf)
  else none

/-- Every slot from that of `last_seq` through that of the number is acknowledged. -/
def ackThrough (w : Cwnd) : Option ℕ → Cwnd
  | none => w
  | some seqNum =>
    { w with acks := w.acks.mapIdx fun x a =>
        if w.lastSeq / packetSize ≤ x ∧ x ≤ seqNum / packetSize then 1 else a }

section AckThrough

variable (w : Cwnd)

@[simp] theorem ackThrough_none : ackThrough w none = w := rfl

theorem getElem?_ackThrough_some (seqNum x : ℕ) :
    (ackThrough w (some seqNum)).acks[x]? =
      w.acks[x]?.map fun a =>
        if w.lastSeq / packetSize ≤ x ∧ x ≤ seqNum / packetSize then 1 else a := by
  simp [ackThrough]

/-- Nothing but `acks` changes, so the same numbers stay in the window. -/
@[simp] theorem ackNumber_ackThrough (top : Option ℕ) (d : Packet × Datagram) :
    ackNumber (ackThrough w top) d = ackNumber w d := by
  cases top <;> rfl

/-- Of two acknowledgements the larger one counts. -/
theorem ackThrough_ackThrough (a b : ℕ) :
    ackThrough (ackThrough w (some a)) (some b) = ackThrough w (some (max a b)) := by
  have hacks : (ackThrough (ackThrough w (some a)) (some b)).acks =
      (ackThrough w (some (max a b))).acks := by
    apply List.ext_getElem?
    intro x
    rw [getElem?_ackThrough_some, getElem?_ackThrough_some, getElem?_ackThrough_some,
      Option.map_map]
    congr 1
    funext v
    simp only [Function.comp_apply, ackThrough, packetSize]
    split_ifs <;> first | rfl | omega
  exact congrArg (fun acks => { w with acks := acks }) hacks

/-- An acknowledged slot stays acknowledged. -/
theorem acked_ackThrough (top : Option ℕ) {x : ℕ} (h : w.acks[x]? = some 1) :
    (ackThrough w top).acks[x]? = some 1 := by
  cases top with
  | none => exact h
  | some seqNum =>
    rw [getElem?_ackThrough_some, h]
    simp

end AckThrough

/-! ### One call -/

namespace Shape

variable {n β k j : ℕ} {w : Cwnd}

/-- A window that does not straddle the ring's end holds the numbers between its ends. -/
theorem inWindow_iff (h : Shape n β k j w) (hend : β + k ≤ 2 * n) (seqNum : ℕ) :
    InWindow w seqNum ↔ 1024 * β ≤ seqNum ∧ seqNum < 1024 * (β + k) := by
  have hk := h.added
  unfold InWindow Cyclic.Before
  rw [h.size, h.lastSeq, h.nextSeq]
  rcases Nat.lt_or_ge (β + k) (2 * n) with hlt | hge
  · rw [Nat.mod_eq_of_lt hlt, if_pos (by omega)]
    omega
  · rw [show β + k = 2 * n by omega, Nat.mod_self, if_neg (by omega)]
    omega

/-- A number of the window acknowledges the slots through its own. -/
theorem setAllPrevAck_eq_ackThrough (h : Shape n β k j w) (hend : β + k ≤ 2 * n) {seqNum : ℕ}
    (hlow : 1024 * β ≤ seqNum) (hhigh : seqNum < 1024 * (β + k)) :
    cwndSetAllPrevAck w seqNum = ackThrough w (some seqNum) := by
  have hlift : lift n β seqNum = seqNum := if_neg (by omega)
  have hspan := h.ring.span
  rw [h.setAllPrevAck_eq, hlift, if_pos hhigh,
    h.aligned.setAcks_eq h.lenAcks (by simp only [packetSize]; omega)]
  unfold ackThrough
  congr 1
  apply List.ext_getElem?
  intro x
  rw [getElem?_markAcks, List.getElem?_mapIdx, h.lastSeq]
  rcases Nat.lt_or_ge x w.acks.length with hx | hx
  · have hpos : Cyclic.pos (2 * n) β x < seqNum / packetSize + 1 - β ↔
        1024 * β / packetSize ≤ x ∧ x ≤ seqNum / packetSize := by
      have hlen := h.lenAcks
      have hβ := h.base
      simp only [packetSize]
      rcases Nat.lt_or_ge x β with hxβ | hxβ
      · rw [Cyclic.pos_of_gt hxβ hβ]
        omega
      · rw [Cyclic.pos_of_le hxβ (by omega)]
        omega
    simp only [hpos, List.getElem?_eq_getElem hx, Option.map_some]
    split_ifs <;> rfl
  · simp [List.getElem?_eq_none hx]

/-- With nothing pending an acknowledgement of the window changes nothing. -/
theorem ackThrough_of_done (h : Shape n β k k w) (hend : β + k ≤ 2 * n) {seqNum : ℕ}
    (hhigh : seqNum < 1024 * (β + k)) : ackThrough w (some seqNum) = w := by
  have hacks : (ackThrough w (some seqNum)).acks = w.acks := by
    apply List.ext_getElem?
    intro x
    rw [getElem?_ackThrough_some, h.lastSeq]
    by_cases hx : 1024 * β / packetSize ≤ x ∧ x ≤ seqNum / packetSize
    · simp only [packetSize] at hx
      have hack := h.acks (x - β) (by omega)
      rw [Nat.add_sub_cancel' (by omega), Nat.mod_eq_of_lt (by omega), ackAt,
        if_pos (by omega)] at hack
      simp [hack]
    · simp only [hx, if_false, Option.map_id']
  exact congrArg (fun acks => { w with acks := acks }) hacks

/-- One datagram of full size has the effect of its number. -/
theorem readAckPacket_eq (h : Shape n β k j w) (hend : β + k ≤ 2 * n) {d : Packet × Datagram}
    (hfull : recvLen d.2 = packetSize) :
    (readAckPacket d.1 (some d.2) w).1 = ackThrough w (ackNumber w d) := by
  unfold readAckPacket ackNumber
  by_cases hp : cwndNumPendingAcks w = 0
  · rw [if_pos hp]
    rw [h.numPendingAcks] at hp
    obtain rfl : j = k := by have := h.acked; omega
    dsimp only
    split_ifs with hack
    · exact (h.ackThrough_of_done hend ((h.inWindow_iff hend _).1 hack.2.2).2).symm
    · rfl
  · rw [if_neg hp]
    dsimp only
    rw [if_pos hfull]
    by_cases hvalid : getACK (recvBuf d.1 d.2) = true ∧ verifies (recvBuf d.1 d.2) = true
    · have hin := (h.inWindow_iff hend (getACKNum (recvBuf d.1 d.2))).trans (h.checkIn_iff _).symm
      simp only [hvalid, true_and, if_true, hin]
      split_ifs with hcheck
      · obtain ⟨hlow, hhigh⟩ := (h.checkIn_iff _).1 hcheck
        exact h.setAllPrevAck_eq_ackThrough hend hlow hhigh
      · rfl
    · rw [if_neg hvalid, if_neg hvalid, if_neg (fun e => hvalid ⟨e.1, e.2.1⟩)]
      rfl

/-- One datagram keeps the shape. -/
theorem readAckPacket (h : Shape n β k j w) (stack : Packet) (recv : Option Datagram) :
    ∃ j', Shape n β k j' (readAckPacket stack recv w).1 := by
  rcases readAckPacket_cases stack recv w with e | ⟨seqNum, e⟩
  · rw [e]
    exact ⟨j, h⟩
  · rw [e]
    obtain ⟨j', -, h'⟩ := h.setAllPrevAck seqNum
    exact ⟨j', h'⟩

/-! ### Sequences of calls -/

/-- A sequence of datagrams has the effect of the largest number among them. -/
theorem readAckPackets_eq (h : Shape n β k j w) (hend : β + k ≤ 2 * n)
    {ds : List (Packet × Datagram)} (hfull : ∀ d ∈ ds, recvLen d.2 = packetSize) :
    readAckPackets ds w = ackThrough w (ds.filterMap (ackNumber w)).max? := by
  induction ds generalizing j w with
  | nil => rfl
  | cons d ds ih =>
    obtain ⟨j', hshape⟩ := h.readAckPacket d.1 (some d.2)
    have hstep := h.readAckPacket_eq hend (hfull d (by simp))
    have hrest := ih hshape fun d' hd' => hfull d' (by simp [hd'])
    rw [hstep] at hrest
    have hsame : ackNumber (ackThrough w (ackNumber w d)) = ackNumber w := by
      funext d'
      simp
    rw [hsame] at hrest
    rw [readAckPackets, List.foldl_cons, hstep, ← readAckPackets, hrest]
    cases hnum : ackNumber w d with
    | none => rw [List.filterMap_cons_none hnum, ackThrough_none]
    | some a =>
      rw [List.filterMap_cons_some hnum, List.max?_cons]
      cases (ds.filterMap (ackNumber w)).max? with
      | none => rfl
      | some b => exact ackThrough_ackThrough w a b

end Shape

/-! ### Sets of datagrams -/

/-- The maximum depends on the members only. -/
theorem max?_congr {l l' : List ℕ} (h : ∀ x, x ∈ l ↔ x ∈ l') : l.max? = l'.max? := by
  cases hl : l.max? with
  | none =>
    rw [List.max?_eq_none_iff] at hl
    subst hl
    have hnil : l' = [] := List.eq_nil_iff_forall_not_mem.2 fun x hx => by simpa using (h x).2 hx
    rw [hnil]
    rfl
  | some m =>
    rw [List.max?_eq_some_iff] at hl
    refine (List.max?_eq_some_iff.2 ⟨(h m).1 hl.1, fun b hb => hl.2 b ((h b).2 hb)⟩).symm

/-- A datagram of full size overwrites the whole buffer. -/
theorem recvBuf_of_full {d : Datagram} (h : recvLen d = packetSize) (stack stack' : Packet) :
    recvBuf stack d = recvBuf stack' d := by
  have hlen : packetSize ≤ d.length := by
    unfold recvLen at h
    omega
  apply Packet.ext_byte
  intro i hi
  unfold recvBuf
  rw [Packet.byte_ofBytes hi, Packet.byte_ofBytes hi, List.getD_eq_getElem _ _ (by omega),
    List.getD_eq_getElem _ _ (by omega)]

theorem ackNumber_of_full {w : Cwnd} {d : Datagram} (h : recvLen d = packetSize)
    (stack stack' : Packet) : ackNumber w (stack, d) = ackNumber w (stack', d) := by
  unfold ackNumber
  dsimp only
  rw [recvBuf_of_full h stack stack']

/-- The numbers of one sequence are among those of another that has its datagrams. -/
theorem mem_ackNumbers {w : Cwnd} {ds ds' : List (Packet × Datagram)}
    (hfull : ∀ d ∈ ds, recvLen d.2 = packetSize)
    (h : ∀ d, d ∈ ds.map Prod.snd → d ∈ ds'.map Prod.snd) {x : ℕ}
    (hx : x ∈ ds.filterMap (ackNumber w)) : x ∈ ds'.filterMap (ackNumber w) := by
  obtain ⟨⟨stack, d⟩, hd, hnum⟩ := List.mem_filterMap.1 hx
  obtain ⟨⟨stack', d'⟩, hd', rfl⟩ := List.mem_map.1 (h d (List.mem_map_of_mem hd))
  exact List.mem_filterMap.2 ⟨_, hd', by rw [← hnum]; exact ackNumber_of_full (hfull _ hd) _ _⟩

/-- **Acknowledgements are insensitive to order and repetition**: on every reachable window of the
sender, a sequence of datagrams of full size acknowledges the slots through the largest valid
number of the window and changes nothing else; only the set of the datagrams matters, and no
acknowledged slot becomes pending again. -/
theorem acks_order_insensitive {e : ℕ} (he : 10 ≤ e) (he' : e ≤ 29) {pkts : List Packet}
    {S : Sender} (h : (senderSystem pkts (2 ^ e)).Reachable S) {ds : List (Packet × Datagram)}
    (hfull : ∀ d ∈ ds, recvLen d.2 = packetSize) :
    readAckPackets ds S.cwndW =
        ackThrough S.cwndW (ds.filterMap (ackNumber S.cwndW)).max? ∧
    (∀ ds' : List (Packet × Datagram), (∀ d ∈ ds', recvLen d.2 = packetSize) →
      (∀ d, d ∈ ds.map Prod.snd ↔ d ∈ ds'.map Prod.snd) →
      readAckPackets ds' S.cwndW = readAckPackets ds S.cwndW) ∧
    ∀ x : ℕ, S.cwndW.acks[x]? = some 1 → (readAckPackets ds S.cwndW).acks[x]? = some 1 := by
  obtain ⟨n, β, k, j, hshape, hend⟩ := exists_shape_of_reachable he he' h
  have hrun := hshape.readAckPackets_eq hend hfull
  refine ⟨hrun, fun ds' hfull' hset => ?_, fun x hx => ?_⟩
  · rw [hrun, hshape.readAckPackets_eq hend hfull']
    congr 1
    apply max?_congr
    intro x
    exact ⟨mem_ackNumbers hfull' fun d => (hset d).2, mem_ackNumbers hfull fun d => (hset d).1⟩
  · rw [hrun]
    exact acked_ackThrough _ _ hx

/-- An acknowledgement as it is received. -/
def receivedAck (seqNum : ℕ) : Packet × Datagram := (zeroPacket, datagram (ackPacket seqNum))

/-- The acknowledgement of the only packet, received twice, between two that are out of the
window. -/
theorem acks_order_insensitive_4096 :
    ∃ S, (senderSystem (packetsOf [65] 4096 1) 4096).Reachable S ∧
      cwndNumPendingAcks S.cwndW = 1 ∧
      readAckPackets ([7168, 0, 0, 1024].map receivedAck) S.cwndW =
        ackThrough S.cwndW
          (([7168, 0, 0, 1024].map receivedAck).filterMap (ackNumber S.cwndW)).max? := by
  obtain ⟨S, hr, -, hpend⟩ := exists_first_packet
  have hfull : ∀ d ∈ [7168, 0, 0, 1024].map receivedAck, recvLen d.2 = packetSize := by
    intro d hd
    obtain ⟨seqNum, -, hseq⟩ := List.mem_map.1 hd
    rw [← hseq, receivedAck, recvLen_datagram]
  exact ⟨S, hr, hpend, (acks_order_insensitive (e := 12) (by norm_num) (by norm_num) hr hfull).1⟩

end Tcp118
