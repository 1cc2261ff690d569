import Tcp118.Window.Capacity
import Tcp118.Window.Flat

/-!
# The shift test of `writeTCP`

`writeTCP` shifts its window when `cwnd_numReceivedAcks == cwnd_maxMss / 2` and `cwnd_checkAdd`
is false.  The test is meant for the full, fully acknowledged window.

* `LoopState`, `fillWnd`, `shiftAndAck`, `ShiftTest`: the states at the test, over all passes of the
  loop and all cumulative acknowledgements;
* `ShiftExact`: the guard holds exactly for the full and fully acknowledged window;
* `ShiftTest.exact`: it does in every run when `c_wnd` is a multiple of `PACKET_SIZE` and
  `2 ^ 32 % (2 * c_wnd) < c_wnd`;
* `Front`: the first window of an unaligned `c_wnd`, which holds one packet more than the guard
  counts;
* `shiftTest_exact_iff`: the condition is exact.
-/

namespace Tcp118

/-- The window, the packets not added yet, and (not in the source) the sequence numbers at which
packets have been added since the last shift. -/
structure LoopState where
  cwndW : Cwnd
  rest : List Packet
  added : List ℕ

/-- `while (pkts[i] != 0 && cwnd_checkAdd(cwndW)) { cwnd_addPkt(cwndW, pkts[i]); i++; }` -/
def fillWnd : List Packet → Cwnd → List ℕ → LoopState
  | [], w, added => ⟨w, [], added⟩
  | pkt :: rest, w, added =>
    if cwndCheckAdd w then fillWnd rest (cwndAddPkt w pkt).1 (added ++ [w.nextSeq])
    else ⟨w, pkt :: rest, added⟩

/-- The rest of the pass behind the shift test: the shift, and the acknowledgements read. -/
def shiftAndAck (s : LoopState) (acks : List UInt32) : LoopState :=
  let s := if shiftGuard s.cwndW then { s with cwndW := cwndShiftWnd s.cwndW, added := [] } else s
  { s with cwndW := acks.foldl (fun w seqNum => cwndSetAllPrevAck w seqNum.toNat) s.cwndW }

/-- States of `writeTCP`'s loop at the shift test.  A further pass is made while a packet is
pending or has not been added. -/
inductive ShiftTest (cWnd : ℕ) (heap : ℕ → Packet) (pkts : List Packet) : LoopState → Prop
  | first : ShiftTest cWnd heap pkts (fillWnd pkts (cwndInit cWnd heap) [])
  | pass {s t : LoopState} (acks : List UInt32) : ShiftTest cWnd heap pkts s →
      t = shiftAndAck s acks → (cwndNumPendingAcks t.cwndW > 0 ∨ t.rest ≠ []) →
      ShiftTest cWnd heap pkts (fillWnd t.rest t.cwndW t.added)

/-- The guard holds exactly when the window is full and every packet added since the last shift
has been acknowledged. -/
def ShiftExact (s : LoopState) : Prop :=
  shiftGuard s.cwndW = true ↔
    cwndCheckAdd s.cwndW = false ∧ ∀ seqNum ∈ s.added, cwndGetAck s.cwndW seqNum = 1

/-! ### Aligned windows with a small drift -/

/-- The sequence numbers of the positions below `k`. -/
def seqNums (n β k : ℕ) : List ℕ := (List.range k).map fun p => (β + p) % (2 * n) * packetSize

theorem seqNums_succ (n β k : ℕ) :
    seqNums n β (k + 1) = seqNums n β k ++ [(β + k) % (2 * n) * packetSize] := by
  unfold seqNums
  rw [List.range_succ, List.map_append, List.map_singleton]

/-- The shape of a loop state. -/
def LoopShape (n β k j : ℕ) (s : LoopState) : Prop :=
  Shape n β k j s.cwndW ∧ s.added = seqNums n β k

section Aligned

variable {n β k j : ℕ}

theorem Shape.nextSeq_eq {w : Cwnd} (h : Shape n β k j w) :
    w.nextSeq = (β + k) % (2 * n) * packetSize := by
  rw [h.nextSeq, Nat.mul_comm]

/-- Everything added is acknowledged exactly when the acknowledged run has full length. -/
theorem LoopShape.all_acked_iff {s : LoopState} (h : LoopShape n β k j s) :
    (∀ seqNum ∈ s.added, cwndGetAck s.cwndW seqNum = 1) ↔ j = k := by
  obtain ⟨hs, hadded⟩ := h
  have hk := hs.added
  have hjk := hs.acked
  rw [hadded]
  constructor
  · intro hall
    by_contra hne
    have hmem : (β + j) % (2 * n) * packetSize ∈ seqNums n β k :=
      List.mem_map.2 ⟨j, List.mem_range.2 (by omega), rfl⟩
    have hack := hall _ hmem
    rw [hs.getAck (by omega), ackAt, if_neg (by omega), if_pos (by omega)] at hack
    exact absurd hack (by decide)
  · rintro rfl seqNum hmem
    obtain ⟨p, hp, rfl⟩ := List.mem_map.1 hmem
    have hlt := List.mem_range.1 hp
    rw [hs.getAck (by omega), ackAt, if_pos hlt]

theorem LoopShape.exact {s : LoopState} (h : LoopShape n β k j s) (hβ : IsHalf n β) (hk : k ≤ n)
    (hd : drift n < n) : ShiftExact s := by
  have hadd := h.1.checkAdd_iff hβ hk hd
  have hjk := h.1.acked
  have hfull : cwndCheckAdd s.cwndW = false ↔ k = n := by
    rw [← Bool.not_eq_true, hadd]
    omega
  unfold ShiftExact
  rw [h.1.shiftGuard_iff, h.all_acked_iff, hfull]
  omega

/-- Adding packets while the window admits them keeps the shape. -/
theorem LoopShape.fill (hβ : IsHalf n β) (hd : drift n < n) (rest : List Packet) :
    ∀ k w, k ≤ n → Shape n β k j w →
      ∃ k', k' ≤ n ∧ LoopShape n β k' j (fillWnd rest w (seqNums n β k)) := by
  induction rest with
  | nil => exact fun k w hk hs => ⟨k, hk, hs, rfl⟩
  | cons pkt rest ih =>
    intro k w hk hs
    rw [fillWnd]
    split_ifs with hadd
    · have hlt := (hs.checkAdd_iff hβ hk hd).1 hadd
      rw [hs.nextSeq_eq, ← seqNums_succ]
      exact ih (k + 1) _ hlt (hs.addPkt hadd (by omega) pkt)
    · exact ⟨k, hk, hs, rfl⟩

theorem LoopShape.acks (acks : List UInt32) :
    ∀ j w, Shape n β k j w →
      ∃ j', Shape n β k j' (acks.foldl (fun w seqNum => cwndSetAllPrevAck w seqNum.toNat) w) := by
  induction acks with
  | nil => exact fun j w hs => ⟨j, hs⟩
  | cons seqNum acks ih =>
    intro j w hs
    obtain ⟨j', -, hs'⟩ := hs.setAllPrevAck seqNum.toNat
    exact ih j' _ hs'

theorem LoopShape.shiftAndAck {s : LoopState} (h : LoopShape n β k j s) (hβ : IsHalf n β)
    (hk : k ≤ n) (acks : List UInt32) :
    ∃ β' k' j', IsHalf n β' ∧ k' ≤ n ∧ LoopShape n β' k' j' (shiftAndAck s acks) := by
  have hn := h.1.pos
  have hjk := h.1.acked
  unfold Tcp118.shiftAndAck
  by_cases hg : shiftGuard s.cwndW = true
  · have hj := (h.1.shiftGuard_iff.1 hg).1
    obtain rfl : k = n := by omega
    obtain ⟨j', hj'⟩ := LoopShape.acks acks 0 _ h.1.shiftWnd
    simp only [hg, if_true]
    exact ⟨_, 0, j', isHalf_shift hn hβ, Nat.zero_le _, hj', rfl⟩
  · obtain ⟨j', hj'⟩ := LoopShape.acks acks j _ h.1
    rw [if_neg hg]
    exact ⟨β, k, j', hβ, hk, hj', h.2⟩

/-- The shape of every state at the shift test. -/
theorem ShiftTest.loopShape (hn : 0 < n) (hb : 1024 * (2 * n) < 2 ^ 31) (hd : drift n < n)
    {heap : ℕ → Packet} {pkts : List Packet} {s : LoopState}
    (h : ShiftTest (1024 * n) heap pkts s) :
    ∃ β k j, IsHalf n β ∧ k ≤ n ∧ LoopShape n β k j s := by
  induction h with
  | first =>
    obtain ⟨k, hk, hs⟩ := LoopShape.fill (Or.inl rfl) hd pkts 0 _ (Nat.zero_le n)
      (shape_init hn hb heap)
    exact ⟨0, k, 0, Or.inl rfl, hk, hs⟩
  | @pass s t acks _ ht _ ih =>
    obtain ⟨β, k, j, hβ, hk, hs⟩ := ih
    obtain ⟨β', k', j', hβ', hk', hs'⟩ := hs.shiftAndAck hβ hk acks
    rw [← ht] at hs'
    obtain ⟨k'', hk'', hs''⟩ := LoopShape.fill hβ' hd t.rest k' t.cwndW hk' hs'.1
    rw [← hs'.2] at hs''
    exact ⟨β', k'', j', hβ', hk'', hs''⟩

/-- With a small drift the test is exact in every run. -/
theorem ShiftTest.exact (hn : 0 < n) (hb : 1024 * (2 * n) < 2 ^ 31) (hd : drift n < n)
    {heap : ℕ → Packet} {pkts : List Packet} {s : LoopState}
    (h : ShiftTest (1024 * n) heap pkts s) : ShiftExact s := by
  obtain ⟨β, k, j, hβ, hk, hs⟩ := h.loopShape hn hb hd
  exact hs.exact hβ hk hd

end Aligned

/-! ### Filling a window to a known point -/

/-- If a window of the family `P` admits packets up to `m` and no more, filling it adds `m`. -/
theorem fillWnd_full {P : ℕ → Cwnd → Prop} {seqAt : ℕ → ℕ} {m : ℕ}
    (hstep : ∀ k w pkt, k < m → P k w →
      cwndCheckAdd w = true ∧ w.nextSeq = seqAt k ∧ P (k + 1) (cwndAddPkt w pkt).1)
    (hfull : ∀ w, P m w → cwndCheckAdd w = false) (d : ℕ) :
    ∀ k w pkts added, k + d = m → d < pkts.length → P k w →
      ∃ w', P m w' ∧
        fillWnd pkts w added = ⟨w', pkts.drop d, added ++ (List.range' k d).map seqAt⟩ := by
  induction d with
  | zero =>
    intro k w pkts added hk hlen hP
    obtain rfl : k = m := by omega
    obtain ⟨pkt, rest, rfl⟩ := List.exists_cons_of_length_pos hlen
    refine ⟨w, hP, ?_⟩
    rw [fillWnd, hfull w hP]
    simp
  | succ d ih =>
    intro k w pkts added hk hlen hP
    obtain ⟨pkt, rest, rfl⟩ := List.exists_cons_of_length_pos (by omega : 0 < pkts.length)
    obtain ⟨hadd, hseq, hP'⟩ := hstep k w pkt (by omega) hP
    obtain ⟨w', hw', hfill⟩ := ih (k + 1) _ rest (added ++ [w.nextSeq]) (by omega)
      (by simp only [List.length_cons] at hlen; omega) hP'
    refine ⟨w', hw', ?_⟩
    rw [fillWnd, if_pos hadd, hfill, hseq, List.range'_succ]
    simp

/-- A pass of the loop that leaves the window to be filled by the next one. -/
theorem ShiftTest.next {cWnd : ℕ} {heap : ℕ → Packet} {pkts : List Packet} {s : LoopState}
    (h : ShiftTest cWnd heap pkts s) (acks : List UInt32) (hrest : s.rest ≠ []) :
    ShiftTest cWnd heap pkts (fillWnd s.rest (shiftAndAck s acks).cwndW
      (shiftAndAck s acks).added) := by
  have hr : (shiftAndAck s acks).rest = s.rest := by
    unfold shiftAndAck
    split_ifs <;> rfl
  have := ShiftTest.pass acks h rfl (Or.inr (by rw [hr]; exact hrest))
  rwa [hr] at this

theorem shiftAndAck_of_guard_false {w : Cwnd} {rest : List Packet} {added : List ℕ}
    (h : shiftGuard w = false) (q : UInt32) :
    shiftAndAck ⟨w, rest, added⟩ [q] = ⟨cwndSetAllPrevAck w q.toNat, rest, added⟩ := by
  unfold shiftAndAck
  rw [h]
  rfl

theorem shiftAndAck_of_guard_true {w : Cwnd} {rest : List Packet} {added : List ℕ}
    (h : shiftGuard w = true) :
    shiftAndAck ⟨w, rest, added⟩ [] = ⟨cwndShiftWnd w, rest, []⟩ := by
  unfold shiftAndAck
  rw [h]
  rfl

/-! ### Aligned windows with a large drift -/

section Overfull

variable {n β j : ℕ}

/-- Filling an aligned window to the first position at which the distance is too large. -/
theorem fillWnd_aligned {m : ℕ} (hm : m < 2 * n) (hlt : ∀ k < m, Shape.dist n β k < n)
    (hge : ¬ Shape.dist n β m < n) (d k : ℕ) (w : Cwnd) (pkts : List Packet) (added : List ℕ)
    (hk : k + d = m) (hlen : d < pkts.length) (hs : Shape n β k j w) :
    ∃ w', Shape n β m j w' ∧
      fillWnd pkts w added = ⟨w', pkts.drop d, added ++
        (List.range' k d).map fun p => (β + p) % (2 * n) * packetSize⟩ := by
  refine fillWnd_full (P := fun k w => Shape n β k j w) (m := m) ?_ ?_ d k w pkts added hk hlen hs
  · intro k w pkt hk hs
    have hadd : cwndCheckAdd w = true := by
      rw [hs.checkAdd_eq]
      exact decide_eq_true (hlt k hk)
    exact ⟨hadd, hs.nextSeq_eq, hs.addPkt hadd (by omega) pkt⟩
  · intro w hs
    rw [hs.checkAdd_eq]
    exact decide_eq_false hge

/-- An acknowledgement of position `i`. -/
theorem Shape.ack_position {k i : ℕ} {w : Cwnd} (h : Shape n β k j w) (hi : i < k) (hj : j ≤ i) :
    ∃ q : UInt32, Shape n β k (i + 1) (cwndSetAllPrevAck w q.toNat) := by
  have hb := h.bound
  have hslot : (β + i) % (2 * n) < 2 * n := Nat.mod_lt _ (by have := h.pos; omega)
  have hs := h.setAllPrevAck_slot hi
  rw [show max j (i + 1) = i + 1 by omega] at hs
  refine ⟨UInt32.ofNat (1024 * ((β + i) % (2 * n))), ?_⟩
  rwa [UInt32.toNat_ofNat', Nat.mod_eq_of_lt (by omega)]

/-- From a full window without acknowledgements, acknowledging the first half leads to one that the
guard shifts. -/
theorem ShiftTest.ack_half {m : ℕ} {heap : ℕ → Packet} {pkts rest : List Packet} {added : List ℕ}
    {w : Cwnd} (h : ShiftTest (1024 * n) heap pkts ⟨w, rest, added⟩) (hs : Shape n β m 0 w)
    (hrest : rest ≠ []) (hnm : n ≤ m) (hm : m < 2 * n)
    (hlt : ∀ k < m, Shape.dist n β k < n) (hge : ¬ Shape.dist n β m < n) :
    ∃ w', Shape n β m n w' ∧ shiftGuard w' = true ∧
      ShiftTest (1024 * n) heap pkts ⟨w', rest, added⟩ := by
  have hn := hs.pos
  have hguard : shiftGuard w = false := by
    rw [← Bool.not_eq_true, hs.shiftGuard_iff]
    omega
  obtain ⟨q, hacked⟩ := hs.ack_position (i := n - 1) (by omega) (by omega)
  rw [show n - 1 + 1 = n by omega] at hacked
  have hnext := h.next [q] hrest
  rw [shiftAndAck_of_guard_false hguard] at hnext
  obtain ⟨w', hs', hfill⟩ := fillWnd_aligned hm hlt hge 0 m _ rest added rfl
    (List.length_pos_of_ne_nil hrest) hacked
  rw [hfill, List.range'_zero, List.map_nil, List.append_nil, List.drop_zero] at hnext
  refine ⟨w', hs', ?_, hnext⟩
  rw [hs'.shiftGuard_iff, hs'.checkAdd_eq]
  exact ⟨rfl, decide_eq_false hge⟩

/-- With a large drift the guard shifts a window that holds pending packets. -/
theorem ShiftTest.exists_not_exact_drift (hn : 0 < n) (hb : 1024 * (2 * n) < 2 ^ 31)
    (hd : n ≤ drift n) (heap : ℕ → Packet) (pkts : List Packet) (hlen : 4 * n < pkts.length) :
    ∃ s, ShiftTest (1024 * n) heap pkts s ∧ ¬ ShiftExact s := by
  have hne := drift_ne hn hb
  have hlow : room n 0 = n := if_neg (by omega)
  have hup : room n n = 3 * n - drift n := if_pos ⟨rfl, by omega⟩
  have hdrift : drift n < 2 * n := Nat.mod_lt _ (by omega)
  have hupLt := room_lt hn n
  have hlt : ∀ β, IsHalf n β → ∀ k < room n β, Shape.dist n β k < n :=
    fun β hβ k hk => (dist_lt_iff hn hb hβ hk.le).2 hk
  have hge : ∀ β, IsHalf n β → ¬ Shape.dist n β (room n β) < n :=
    fun β hβ h => lt_irrefl _ ((dist_lt_iff hn hb hβ le_rfl).1 h)
  have hrest : ∀ d ≤ 3 * n, pkts.drop d ≠ [] := fun d hd' e => by
    rw [List.drop_eq_nil_iff] at e
    omega
  -- the first half: filled, acknowledged, shifted
  obtain ⟨w₁, hs₁, hf₁⟩ := fillWnd_aligned (room_lt hn 0) (hlt 0 (.inl rfl)) (hge 0 (.inl rfl))
    (room n 0) 0 _ pkts [] (by omega) (by omega) (shape_init hn hb heap)
  have h₁ : ShiftTest (1024 * n) heap pkts _ := .first
  rw [hf₁] at h₁
  obtain ⟨w₂, hs₂, hg₂, h₂⟩ := h₁.ack_half hs₁ (hrest _ (by omega)) (by omega) (by omega)
    (hlt 0 (.inl rfl)) (hge 0 (.inl rfl))
  have hs₃ := hs₂.shiftWnd
  rw [hlow, Nat.zero_add, Nat.mod_eq_of_lt (by omega)] at hs₃
  have h₃ := h₂.next [] (hrest _ (by omega))
  rw [shiftAndAck_of_guard_true hg₂] at h₃
  -- the second half: overfilled, and `n` of its packets acknowledged
  obtain ⟨w₄, hs₄, hf₄⟩ := fillWnd_aligned hupLt (hlt n (.inr rfl)) (hge n (.inr rfl))
    (room n n) 0 _ (pkts.drop (room n 0)) [] (by omega) (by rw [List.length_drop]; omega) hs₃
  rw [hf₄, List.drop_drop] at h₃
  obtain ⟨w₅, hs₅, hg₅, h₅⟩ := h₃.ack_half hs₄ (hrest _ (by omega)) (by omega) (by omega)
    (hlt n (.inr rfl)) (hge n (.inr rfl))
  refine ⟨_, h₅, fun hexact => ?_⟩
  have hack := (hexact.1 hg₅).2 ((n + n) % (2 * n) * packetSize)
    (List.mem_append_right _ (List.mem_map.2 ⟨n, List.mem_range'_1.2 ⟨by omega, by omega⟩, rfl⟩))
  rw [hs₅.getAck (by omega), ackAt, if_neg (by omega), if_pos (by omega)] at hack
  exact absurd hack (by decide)

end Overfull

/-! ### Unaligned windows -/

/-- The first window of a `c_wnd` that is no multiple of `PACKET_SIZE`: `k` packets added from
slot `0`, the first `j` of them acknowledged, and the ring's end not reached. -/
structure Front (c k j : ℕ) (w : Cwnd) : Prop where
  unaligned : c % 1024 ≠ 0
  large : 1024 ≤ c
  bound : 2 * c < 2 ^ 31
  cWnd : w.cWnd = c
  size : w.size = 2 * c
  lastSeq : w.lastSeq = 0
  nextSeq : w.nextSeq = 1024 * k
  inside : 1024 * k < 2 * c
  acked : j ≤ k
  lenAcks : w.acks.length = 2 * c / 1024
  acks : ∀ x < 2 * c / 1024, w.acks[x]? = some (ackAt j k x)

namespace Front

variable {c k j : ℕ} {w : Cwnd}

theorem flat (h : Front c k j w) : Flat c 0 k j w where
  large := h.large
  bound := h.bound
  cWnd := h.cWnd
  size := h.size
  lastSeq := h.lastSeq
  nextSeq := by rw [h.nextSeq, Nat.zero_add]
  inside := by rw [Nat.zero_add]; exact h.inside
  acked := h.acked
  lenAcks := h.lenAcks
  acks x hx := by
    rw [h.acks x hx]
    unfold ackAt flatAck
    simp only [Nat.zero_le, true_and, Nat.zero_add]

theorem of_flat (hc : c % 1024 ≠ 0) (h : Flat c 0 k j w) : Front c k j w where
  unaligned := hc
  large := h.large
  bound := h.bound
  cWnd := h.cWnd
  size := h.size
  lastSeq := h.lastSeq
  nextSeq := by rw [h.nextSeq, Nat.zero_add]
  inside := by have := h.inside; rwa [Nat.zero_add] at this
  acked := h.acked
  lenAcks := h.lenAcks
  acks x hx := by
    rw [h.acks x hx]
    unfold ackAt flatAck
    simp only [Nat.zero_le, true_and, Nat.zero_add]

theorem init (hc : c % 1024 ≠ 0) (h1 : 1024 ≤ c) (hb : 2 * c < 2 ^ 31) (heap : ℕ → Packet) :
    Front c 0 0 (cwndInit c heap) := of_flat hc (.init h1 hb heap)

theorem slotOf_eq (h : Front c k j w) {x : ℕ} (hx : 1024 * x < 2 * c) :
    slotOf w (x * packetSize) = x := h.flat.slotOf_eq hx

theorem checkAdd_eq (h : Front c k j w) : cwndCheckAdd w = decide (1024 * k < c) :=
  h.flat.checkAdd_eq

theorem addPkt (h : Front c k j w) (hk : 1024 * k < c) (pkt : Packet) :
    Front c (k + 1) j (cwndAddPkt w pkt).1 := by
  have hc := h.unaligned
  have hlarge := h.large
  exact of_flat hc (h.flat.addPkt hk (by omega) pkt)

/-- An acknowledgement of the packet in slot `i`. -/
theorem setAllPrevAck (h : Front c k j w) {i : ℕ} (hi : i < k) :
    Front c k (max j (i + 1)) (cwndSetAllPrevAck w (1024 * i)) := by
  have hs := h.flat.setAllPrevAck hi
  rw [Nat.zero_add] at hs
  exact of_flat h.unaligned hs

/-- The guard counts one packet fewer than the window holds. -/
theorem shiftGuard_iff (h : Front c k j w) :
    shiftGuard w = true ↔ j = c / 1024 ∧ ¬ 1024 * k < c := h.flat.shiftGuard_iff

end Front

/-- An unaligned window is shifted while its last packet is pending. -/
theorem ShiftTest.exists_not_exact_unaligned {c : ℕ} (hc : c % 1024 ≠ 0) (h1 : 1024 ≤ c)
    (hb : 2 * c < 2 ^ 31) (heap : ℕ → Packet) (pkts : List Packet)
    (hlen : c / 1024 + 1 < pkts.length) :
    ∃ s, ShiftTest c heap pkts s ∧ ¬ ShiftExact s := by
  have hfill : ∀ j d k w (pkts : List Packet) added, k + d = c / 1024 + 1 → d < pkts.length →
      Front c k j w → ∃ w', Front c (c / 1024 + 1) j w' ∧
        fillWnd pkts w added = ⟨w', pkts.drop d, added ++
          (List.range' k d).map fun k => 1024 * k⟩ := by
    intro j
    refine fillWnd_full (P := fun k w => Front c k j w) (m := c / 1024 + 1) ?_ ?_
    · intro k w pkt hk hF
      have hlt : 1024 * k < c := by omega
      exact ⟨by rw [hF.checkAdd_eq]; exact decide_eq_true hlt, hF.nextSeq, hF.addPkt hlt pkt⟩
    · intro w hF
      rw [hF.checkAdd_eq]
      exact decide_eq_false (by omega)
  -- `c / 1024 + 1` packets fit
  obtain ⟨w₁, hF₁, hf₁⟩ := hfill 0 (c / 1024 + 1) 0 _ pkts [] (by omega) hlen
    (Front.init hc h1 hb heap)
  have h₁ : ShiftTest c heap pkts _ := .first
  rw [hf₁] at h₁
  have hg₁ : shiftGuard w₁ = false := by
    rw [← Bool.not_eq_true, hF₁.shiftGuard_iff]
    omega
  -- all of them but the last are acknowledged
  have hq : (UInt32.ofNat (1024 * (c / 1024 - 1))).toNat = 1024 * (c / 1024 - 1) := by
    rw [UInt32.toNat_ofNat']
    omega
  have hF₂ := hF₁.setAllPrevAck (i := c / 1024 - 1) (by omega)
  rw [show max 0 (c / 1024 - 1 + 1) = c / 1024 by omega, ← hq] at hF₂
  have h₂ := h₁.next [UInt32.ofNat (1024 * (c / 1024 - 1))]
    (by simp [List.drop_eq_nil_iff]; omega)
  rw [shiftAndAck_of_guard_false hg₁] at h₂
  obtain ⟨w₂, hF₂', hf₂⟩ := hfill (c / 1024) 0 (c / 1024 + 1) _ (pkts.drop (c / 1024 + 1)) _
    (by omega) (by simp; omega) hF₂
  rw [hf₂] at h₂
  refine ⟨_, h₂, fun hexact => ?_⟩
  have hg₂ : shiftGuard w₂ = true := by
    rw [hF₂'.shiftGuard_iff]
    omega
  have hack := (hexact.1 hg₂).2 (1024 * (c / 1024)) (by
    simp only [List.mem_append, List.mem_map]
    exact Or.inl (Or.inr ⟨c / 1024, by simp [List.mem_range'], rfl⟩))
  have hslot := hF₂'.slotOf_eq (x := c / 1024) (by omega)
  rw [Nat.mul_comm] at hslot
  unfold cwndGetAck at hack
  rw [hslot, List.getD_eq_getElem?_getD, hF₂'.acks _ (by omega), ackAt, if_neg (by omega),
    if_pos (by omega)] at hack
  exact absurd hack (by decide)

/-! ### The exact condition -/

/-- **The shift test is exact in every run if and only if `c_wnd` is a multiple of `PACKET_SIZE`
and `2 ^ 32 % (2 * c_wnd) < c_wnd`.** -/
theorem shiftTest_exact_iff {cWnd : ℕ} (h1 : 1024 ≤ cWnd) (hb : 2 * cWnd < 2 ^ 31) :
    (∀ heap pkts s, ShiftTest cWnd heap pkts s → ShiftExact s) ↔
      cWnd % packetSize = 0 ∧ 2 ^ 32 % (2 * cWnd) < cWnd := by
  constructor
  · intro h
    have hmul : cWnd % packetSize = 0 := by
      by_contra hc
      obtain ⟨s, hs, hne⟩ := ShiftTest.exists_not_exact_unaligned hc h1 hb (fun _ => zeroPacket)
        (List.replicate (cWnd / 1024 + 2) zeroPacket) (by rw [List.length_replicate]; omega)
      exact hne (h _ _ s hs)
    obtain ⟨n, rfl⟩ : ∃ n, cWnd = 1024 * n :=
      ⟨cWnd / 1024, by simp only [packetSize] at hmul; omega⟩
    refine ⟨hmul, drift_lt_iff.2 ?_⟩
    by_contra hd
    obtain ⟨s, hs, hne⟩ := ShiftTest.exists_not_exact_drift (by omega : 0 < n) (by omega)
      (by omega) (fun _ => zeroPacket) (List.replicate (4 * n + 1) zeroPacket)
      (by rw [List.length_replicate]; omega)
    exact hne (h _ _ s hs)
  · rintro ⟨hmul, hd⟩ heap pkts s hs
    obtain ⟨n, rfl⟩ : ∃ n, cWnd = 1024 * n :=
      ⟨cWnd / 1024, by simp only [packetSize] at hmul; omega⟩
    exact hs.exact (by omega) (by omega) (drift_lt_iff.1 hd)

/-- The first pass over a list of five packets, with a window of 4096 bytes. -/
theorem shiftTest_exact_4096 :
    ShiftExact (fillWnd (List.replicate 5 zeroPacket) (cwndInit 4096 fun _ => zeroPacket) []) :=
  (shiftTest_exact_iff (by norm_num) (by norm_num)).2 (by norm_num) _ _ _ .first

/-- With `c_wnd = 1536` a window of two packets is shifted when one of them is acknowledged. -/
theorem shiftTest_not_exact_1536 :
    ¬ ∀ heap pkts s, ShiftTest 1536 heap pkts s → ShiftExact s := by
  intro h
  obtain ⟨s, hs, hne⟩ := ShiftTest.exists_not_exact_unaligned (c := 1536) (by norm_num)
    (by norm_num) (by norm_num) (fun _ => zeroPacket) (List.replicate 3 zeroPacket) (by norm_num)
  exact hne (h _ _ s hs)

end Tcp118
