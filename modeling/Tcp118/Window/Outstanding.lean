import Tcp118.Window.Operations

/-!
# Outstanding packets

`cwnd_checkIn` lifts `next_seq` by one ring length where it lies below `last_seq`, but not the
number it is asked about; `cwnd_setAllPrevAck` lifts both.

* `Outstanding`, `Recognised`: the slots that hold a packet added since the last shift, and what
  the three functions should make of the sequence number of a slot;
* `Permitted`: a shift is made when no slot is pending, and acknowledgements are cumulative;
* `InUse.recognised_iff`: an outstanding slot is recognised unless it lies behind the ring's end;
* `Straddles`, `StaysInside`: the windows with such a slot, and the runs that never add a packet
  behind the ring's end;
* `checkIn_outstanding_iff`: the slots, windows and runs for which `cwnd_checkIn` recognises exactly
  what is outstanding.
-/

namespace Tcp118

/-- The slot holds a packet added since the last shift. -/
def Outstanding (s : LoggedWnd) (x : ℕ) : Prop :=
  ∃ pkt, (x, pkt) ∈ s.added ∧ s.cwnd.packets[x]? = some pkt

/-- The sequence number of the slot is in the window for `cwnd_checkIn` exactly when the slot is
outstanding, and exactly when it is for `cwnd_setAllPrevAck`; then `cwnd_setAck` marks the slot. -/
structure Recognised (s : LoggedWnd) (x : ℕ) : Prop where
  checkIn : cwndCheckIn s.cwnd (x * packetSize) = true ↔ Outstanding s x
  agrees : cwndCheckIn s.cwnd (x * packetSize) = true ↔
    (cwndSetAllPrevAck s.cwnd (x * packetSize)).acks[x]? = some 1
  setAck : Outstanding s x → (cwndSetAck s.cwnd (x * packetSize)).acks[x]? = some 1

/-- Calls of `cwnd_addPkt`, `cwnd_setAllPrevAck` and, where no slot is pending, `cwnd_shiftWnd`. -/
def Permitted : WindowOp → LoggedWnd → Prop
  | .setAck _, _ => False
  | .shiftWnd, s => cwndNumPendingAcks s.cwnd = 0
  | _, _ => True

instance : ∀ op s, Decidable (Permitted op s)
  | .addPkt _, _ => .isTrue trivial
  | .setAck _, _ => .isFalse id
  | .setAllPrevAck _, _ => .isTrue trivial
  | .shiftWnd, s => inferInstanceAs (Decidable (cwndNumPendingAcks s.cwnd = 0))

/-- The window reaches over the end of its ring. -/
def Straddles (w : Cwnd) : Prop := 0 < w.nextSeq ∧ w.nextSeq < w.lastSeq

/-- No packet is added to a window that ends where its ring ends. -/
def StaysInside (op : WindowOp) (s : LoggedWnd) : Prop :=
  Permitted op s ∧ ∀ buf, op = .addPkt buf → cwndCheckAdd s.cwnd = true →
    ¬ (s.cwnd.nextSeq = 0 ∧ 0 < s.cwnd.lastSeq)

/-! ### One window -/

/-- The slots behind the ring's end, of a window that reaches over it. -/
theorem RingWnd.behind_iff {n β k : ℕ} {w : Cwnd} (h : RingWnd n β k w) (x : ℕ) :
    (w.nextSeq < w.lastSeq ∧ x * packetSize < w.nextSeq) ↔
      x < β ∧ Cyclic.pos (2 * n) β x < k := by
  have hβ := h.base
  have hk := h.added
  rw [h.nextSeq, h.lastSeq]
  simp only [packetSize]
  rcases Cyclic.mod_cases (N := 2 * n) (x := β + k) (by omega) with ⟨hlt, hmod⟩ | ⟨hge, hmod⟩
  · rw [hmod]
    constructor
    · omega
    · rintro ⟨hx, hpos⟩
      rw [Cyclic.pos_of_gt hx hβ] at hpos
      omega
  · rw [hmod]
    constructor
    · rintro ⟨-, hx⟩
      refine ⟨by omega, ?_⟩
      rw [Cyclic.pos_of_gt (by omega) hβ]
      omega
    · rintro ⟨hx, hpos⟩
      rw [Cyclic.pos_of_gt hx hβ] at hpos
      omega

namespace InUse

variable {n β k x : ℕ} {s : LoggedWnd}

theorem outstanding_iff (h : InUse n β k s) (hx : x < 2 * n) :
    Outstanding s x ↔ Cyclic.pos (2 * n) β x < k := by
  rw [← h.mem_slots_iff hx, List.mem_map]
  constructor
  · rintro ⟨pkt, hmem, -⟩
    exact ⟨_, hmem, rfl⟩
  · rintro ⟨e, hmem, rfl⟩
    exact ⟨e.2, hmem, h.held e hmem⟩

/-- `cwnd_checkIn` sees only the slots from the one of `last_seq` to the ring's end. -/
theorem checkIn_slot_iff (h : InUse n β k s) (hx : x < 2 * n) :
    cwndCheckIn s.cwnd (x * packetSize) = true ↔ β ≤ x ∧ Cyclic.pos (2 * n) β x < k := by
  rw [h.ring.checkIn_iff]
  simp only [packetSize]
  constructor
  · rintro ⟨hlow, hhigh⟩
    refine ⟨by omega, ?_⟩
    rw [Cyclic.pos_of_le (by omega) hx]
    omega
  · rintro ⟨hle, hpos⟩
    rw [Cyclic.pos_of_le hle hx] at hpos
    omega

/-- `cwnd_setAllPrevAck` sees all of them. -/
theorem setAllPrevAck_slot_iff (h : InUse n β k s) (hx : x < 2 * n) :
    (cwndSetAllPrevAck s.cwnd (x * packetSize)).acks[x]? = some 1 ↔
      Cyclic.pos (2 * n) β x < k := by
  have hal := h.ring.aligned
  have hs : x * packetSize < 1024 * (2 * n) := by simp only [packetSize]; omega
  have hdiv : x * packetSize / 1024 = x := Nat.mul_div_cancel x (by decide)
  by_cases hlt : Cyclic.pos (2 * n) β x < k
  · rw [hal.setAllPrevAck_of_mem h.ring.lenAcks hs (by rwa [hdiv, h.ring.span]), hdiv]
    have hlen : x < s.cwnd.acks.length := by rw [h.ring.lenAcks]; exact hx
    rw [getElem?_markAcks, if_pos (Nat.lt_succ_self _), List.getElem?_eq_getElem hlen]
    simp [hlt]
  · rw [hal.setAllPrevAck_of_not_mem hs (by rwa [hdiv, h.ring.span])]
    have hfree := h.free (Cyclic.pos (2 * n) β x) (by omega) (Cyclic.pos_lt (by omega))
    rw [Cyclic.mod_pos h.ring.base hx] at hfree
    simp [hfree, hlt]

/-- `cwnd_setAck` marks what `cwnd_checkIn` sees. -/
theorem setAck_slot (h : InUse n β k s) (hx : x < 2 * n)
    (hin : cwndCheckIn s.cwnd (x * packetSize) = true) :
    (cwndSetAck s.cwnd (x * packetSize)).acks[x]? = some 1 := by
  have hslot : slotOf s.cwnd (x * packetSize) = x := by
    rw [h.ring.aligned.slotOf_mul, Nat.mod_eq_of_lt hx]
  rw [cwndSetAck, if_pos hin, hslot]
  exact List.getElem?_set_self (by rw [h.ring.lenAcks]; exact hx)

/-- An outstanding slot is recognised unless it lies behind the ring's end. -/
theorem recognised_iff (h : InUse n β k s) (hx : x < 2 * n) :
    Recognised s x ↔ ¬ (s.cwnd.nextSeq < s.cwnd.lastSeq ∧ x * packetSize < s.cwnd.nextSeq) := by
  have hin := h.checkIn_slot_iff hx
  have hout := h.outstanding_iff hx
  rw [h.ring.behind_iff]
  constructor
  · rintro ⟨hcheck, -, -⟩ ⟨hlt, hpos⟩
    have hle := (hin.1 (hcheck.2 (hout.2 hpos))).1
    omega
  · intro hinside
    have hsame : cwndCheckIn s.cwnd (x * packetSize) = true ↔ Cyclic.pos (2 * n) β x < k := by
      rw [hin]
      exact ⟨fun hboth => hboth.2, fun hpos =>
        ⟨Nat.le_of_not_lt fun hlt => hinside ⟨hlt, hpos⟩, hpos⟩⟩
    exact ⟨hsame.trans hout.symm, hsame.trans (h.setAllPrevAck_slot_iff hx).symm,
      fun ho => h.setAck_slot hx (hsame.2 (hout.1 ho))⟩

/-- Every slot is recognised unless the window reaches over the ring's end. -/
theorem forall_recognised_iff (h : InUse n β k s) :
    (∀ x < cwndMaxMss s.cwnd, Recognised s x) ↔ ¬ Straddles s.cwnd := by
  have hn := h.ring.pos
  rw [h.ring.maxMss]
  constructor
  · rintro hall ⟨hpos, hlt⟩
    refine (h.recognised_iff (x := 0) (by omega)).1 (hall 0 (by omega)) ⟨hlt, ?_⟩
    rwa [Nat.zero_mul]
  · intro hinside x hx
    rw [h.recognised_iff hx]
    rintro ⟨hlt, hbehind⟩
    exact hinside ⟨by omega, hlt⟩

/-- A window reaches over the end of its ring when its positions do. -/
theorem straddles_iff (h : InUse n β k s) : Straddles s.cwnd ↔ 2 * n < β + k := by
  have hβ := h.ring.base
  have hk := h.ring.added
  unfold Straddles
  rw [h.ring.nextSeq, h.ring.lastSeq]
  rcases Cyclic.mod_cases (N := 2 * n) (x := β + k) (by omega) with ⟨hlt, hmod⟩ | ⟨hge, hmod⟩
  · rw [hmod]
    omega
  · rw [hmod]
    omega

end InUse

/-! ### Runs -/

section Runs

variable {n : ℕ} {s : LoggedWnd}

/-- One step of a run that stays inside the ring. -/
theorem InUse.staysInside {β k : ℕ} (h : InUse n β k s) (hend : β + k ≤ 2 * n) {op : WindowOp}
    (hop : StaysInside op s) : ∃ β' k', InUse n β' k' (op.apply s) ∧ β' + k' ≤ 2 * n := by
  have hn := h.ring.pos
  cases op with
  | addPkt buf =>
    by_cases hlt : k < n
    · refine ⟨β, k + 1, h.addPkt hlt buf, ?_⟩
      by_contra hover
      -- the window ends at the ring's end
      refine hop.2 buf rfl ((h.ring.checkAdd_iff h.wraps).2 hlt) ⟨?_, ?_⟩
      · rw [h.ring.nextSeq, show β + k = 2 * n by omega, Nat.mod_self]
      · rw [h.ring.lastSeq]
        omega
    · rw [h.addPkt_of_full hlt]
      exact ⟨β, k, h, hend⟩
  | setAck seqNum => exact absurd hop.1 id
  | setAllPrevAck seqNum => exact ⟨β, k, h.ack (h.ring.ackedFrom_setAllPrevAck _), hend⟩
  | shiftWnd => exact ⟨_, 0, h.shiftWnd, (h.ring.slot_lt k).le⟩

theorem not_straddles_of_staysInside (hn : 0 < n) (hring : 2 * n ∣ 2 ^ 22)
    (hb : 1024 * (2 * n) < 2 ^ 31) (h : (windowRuns (1024 * n) StaysInside).Reachable s) :
    ¬ Straddles s.cwnd := by
  have hinv : ∃ β k, InUse n β k s ∧ β + k ≤ 2 * n := by
    refine h.invariant (I := fun s => ∃ β k, InUse n β k s ∧ β + k ≤ 2 * n) ?_ ?_
    · rintro _ ⟨heap, rfl⟩
      exact ⟨0, 0, .init hn hring hb heap, Nat.zero_le _⟩
    · rintro s t - ⟨β, k, hs, hend⟩ ⟨op, hop, hnext⟩
      cases hnext
      exact hs.staysInside hend hop
  obtain ⟨β, k, hs, hend⟩ := hinv
  rw [hs.straddles_iff]
  omega

end Runs

/-- **`cwnd_checkIn` recognises the outstanding packets** of every slot that does not lie behind
the ring's end; so of all slots exactly in the windows that do not reach over it, and of all slots
in every state of a run that adds no packet to a window ending there. -/
theorem checkIn_outstanding_iff {e : ℕ} (he : 10 ≤ e) (he' : e ≤ 29) :
    (∀ s, (windowRuns (2 ^ e) Permitted).Reachable s →
      (∀ x < cwndMaxMss s.cwnd, Recognised s x ↔
        ¬ (s.cwnd.nextSeq < s.cwnd.lastSeq ∧ x * packetSize < s.cwnd.nextSeq)) ∧
      ((∀ x < cwndMaxMss s.cwnd, Recognised s x) ↔ ¬ Straddles s.cwnd)) ∧
    ∀ s, (windowRuns (2 ^ e) StaysInside).Reachable s →
      ∀ x < cwndMaxMss s.cwnd, Recognised s x := by
  obtain ⟨n, hW, hn, hring, hb⟩ := exists_packets_of_pow he he'
  rw [hW]
  constructor
  · intro s hs
    obtain ⟨β, k, h⟩ := exists_inUse hn hring hb hs
    exact ⟨fun x hx => h.recognised_iff (by rwa [h.ring.maxMss] at hx), h.forall_recognised_iff⟩
  · intro s hs
    obtain ⟨β, k, h⟩ := exists_inUse hn hring hb hs
    exact h.forall_recognised_iff.2 (not_straddles_of_staysInside hn hring hb hs)

/-- The first packet of a window of 4096 bytes. -/
theorem checkIn_outstanding_4096 :
    Recognised ((WindowOp.addPkt zeroPacket).apply ⟨cwndInit 4096 fun _ => zeroPacket, []⟩) 0 := by
  have hreach : (windowRuns (2 ^ 12) StaysInside).Reachable
      ([WindowOp.addPkt zeroPacket].foldl WindowOp.apply
        ⟨cwndInit 4096 fun _ => zeroPacket, []⟩) :=
    reachable_foldl _ (.of_init ⟨_, rfl⟩)
      ⟨⟨trivial, fun _ _ _ hend => absurd hend.2 (by decide)⟩, trivial⟩
  exact (checkIn_outstanding_iff (by decide) (by decide)).2 _ hreach 0 (by decide)

/-- A window of two slots in a ring of four, shifted once with one packet and once with two, is
filled: its packets lie in the last slot and in the first one. -/
def overTheEnd : List WindowOp :=
  [.addPkt zeroPacket, .setAllPrevAck 0, .shiftWnd,
    .addPkt zeroPacket, .addPkt zeroPacket, .setAllPrevAck 2048, .shiftWnd,
    .addPkt zeroPacket, .addPkt zeroPacket]

/-- The packet in the first slot is outstanding, and its number is refused. -/
theorem checkIn_misses_first_slot :
    ∃ s, (windowRuns 2048 Permitted).Reachable s ∧ Outstanding s 0 ∧
      cwndCheckIn s.cwnd 0 = false ∧ ¬ ∀ x < cwndMaxMss s.cwnd, Recognised s x := by
  refine ⟨overTheEnd.foldl WindowOp.apply ⟨cwndInit 2048 fun _ => zeroPacket, []⟩,
    reachable_foldl overTheEnd (.of_init ⟨_, rfl⟩) (by decide), ?_⟩
  have hout : Outstanding (overTheEnd.foldl WindowOp.apply
      ⟨cwndInit 2048 fun _ => zeroPacket, []⟩) 0 :=
    ⟨zeroPacket, List.mem_cons_of_mem _ (List.mem_singleton_self _), rfl⟩
  have hcheck : cwndCheckIn (overTheEnd.foldl WindowOp.apply
      ⟨cwndInit 2048 fun _ => zeroPacket, []⟩).cwnd 0 = false := by decide
  refine ⟨hout, hcheck, fun hall => ?_⟩
  have hin := (hall 0 (by decide)).checkIn.2 hout
  rw [Nat.zero_mul, hcheck] at hin
  exact absurd hin (by decide)

end Tcp118
