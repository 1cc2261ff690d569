import Tcp118.Session.Link
import Tcp118.Session.Sides

/-!
# Two calls as a transfer

Two programs are in one transfer while one of them is in the call of `writeTCP`, the other in that
of `readTCP`, and also when the first has gone on to its next `readTCP` and when the second has not
yet come from its last `writeTCP`.  What the transfer before has left in the channels lies in front:
acknowledgements and close packets, which an idle `readTCP` ignores, and close packets, which
`writeTCP` ignores as long as nothing has been acknowledged.

* `Transferring`: two calls and the joint state of their transfer;
* `Transferring.step`: whatever happens to the calls is a run of the transfer;
* `Transferring.sent`, `Transferring.called`: one program goes on, the other one comes;
* `Transferring.answer`: the transfer in the other direction that follows.
-/

namespace Tcp118

open Protocol

/-- Two calls that transfer `buf`, with the state of the transfer. -/
structure Transferring (buf : List UInt8) (L : Link) (J : Joint) : Prop where
  near : L.near = .writeTCP (sentPackets buf clientWnd) J.sender ∨
    J.sender.returned = true ∧ ∃ R, L.near = .readTCP R ∧ R.Idle clientWnd
  far : L.far = .readTCP J.receiver ∨
    (∃ pkts S, L.far = .writeTCP pkts S ∧ S.Leaving) ∧ J.receiver.Idle clientWnd ∧ J.rev = []
  out : StaleFront Ignorable (J.receiver.Idle clientWnd) L.out J.fwd
  back : StaleFront IsControl (SenderInv (sentPackets buf clientWnd) 4 0 J.sender) L.back J.rev
  ignorable : ∀ pkt ∈ L.back, Ignorable pkt

/-- As long as the receiver has taken nothing, nothing is acknowledged. -/
theorem senderInv_of_fresh {buf : List UInt8} {J : Joint}
    (hJ : (transferSystem buf clientWnd).Reachable J) (h : J.receiver.appended = []) :
    SenderInv (sentPackets buf clientWnd) 4 0 J.sender := by
  obtain ⟨acked, _, _, hrel, hinv⟩ :=
    Related.of_reachable (n := 4) (by norm_num) (by norm_num) (by norm_num) hJ
  have hle : acked ≤ J.receiver.appended.length := hinv.counts.acked_le
  rw [h, List.length_nil, Nat.le_zero] at hle
  rw [hle] at hrel
  exact hrel.sender

namespace Transferring

variable {buf : List UInt8} {L : Link} {J : Joint} {lost corr : Bool} {behind heap : List UInt8}
  {stack pkt : Packet} {rest channel : List Packet} {c : Call} {reply : Option Packet}
  {fault : Fault}

/-! ### The sending program -/

theorem near_step (h : Transferring buf L J)
    (hstep : L.near.step lost corr behind heap = some (c, reply)) :
    ∃ J', (transferSystem buf clientWnd).Reaches J J' ∧
      Transferring buf { L with near := c, out := L.out ++ reply.toList } J' := by
  rcases h.near with hnear | ⟨hreturned, R, hnear, hidle⟩
  · rw [hnear] at hstep
    obtain ⟨⟨S, reply'⟩, hs, heq⟩ := Option.map_eq_some_iff.1 hstep
    cases heq
    exact ⟨_, reaches_sender hs, .inl rfl, h.far, h.out.append _,
      h.back.mono fun hfresh => (hfresh.step hs).1, h.ignorable⟩
  · rw [hnear] at hstep
    obtain ⟨⟨R', reply'⟩, hs, heq⟩ := Option.map_eq_some_iff.1 hstep
    cases heq
    obtain ⟨hidle', hsent⟩ := hidle.client_step hs
    refine ⟨J, .refl J, .inr ⟨hreturned, R', rfl, hidle'⟩, h.far, ?_, h.back, h.ignorable⟩
    dsimp only at hsent ⊢
    rw [hsent, Option.toList_none, List.append_nil]
    exact h.out

/-- What arrives from the receiver finds it in its call. -/
theorem far_of_rev (h : Transferring buf L J) (hrev : J.rev ≠ []) :
    L.far = .readTCP J.receiver := by
  rcases h.far with hfar | ⟨-, -, hnil⟩
  · exact hfar
  · exact absurd hnil hrev

theorem near_recv (hpos : 0 < (sentPackets buf clientWnd).length) (h : Transferring buf L J)
    (hchannel : L.back = pkt :: rest)
    (hrecv : L.near.recv stack (some (datagram pkt)) = some c) :
    ∃ J', (transferSystem buf clientWnd).Reaches J J' ∧
      Transferring buf { L with near := c, back := rest } J' := by
  have hback := h.back
  have hall := h.ignorable
  rw [hchannel] at hback
  rw [hchannel, List.forall_mem_cons] at hall
  obtain ⟨hign, hrest⟩ := hall
  rcases h.near with hnear | ⟨hreturned, R, hnear, hidle⟩
  · rw [hnear] at hrecv
    obtain ⟨S, hs, rfl⟩ := Option.map_eq_some_iff.1 hrecv
    rcases hback.cons_cases with ⟨hcontrol, hfresh, hback'⟩ | hrev
    · -- what the transfer before has left is read like a timeout
      have htimeout := hfresh.recv_control hpos hcontrol hs
      exact ⟨_, reaches_senderTimeout htimeout, .inl rfl, h.far, h.out,
        hback'.mono fun _ => hfresh.timeout htimeout, hrest⟩
    · have hfar := h.far_of_rev (by rw [hrev]; exact List.cons_ne_nil _ _)
      exact ⟨_, reaches_senderRecv hrev hs, .inl rfl, .inl hfar, h.out, .refl _ _ _, hrest⟩
  · rw [hnear] at hrecv
    obtain ⟨R', hs, rfl⟩ := Option.map_eq_some_iff.1 hrecv
    have hidle' := hidle.recv_timeout (hidle.recv_ignorable hign hs)
    rcases hback.cons_cases with ⟨-, -, hback'⟩ | hrev
    · exact ⟨J, .refl J, .inr ⟨hreturned, R', rfl, hidle'⟩, h.far, h.out, hback', hrest⟩
    · have hfar := h.far_of_rev (by rw [hrev]; exact List.cons_ne_nil _ _)
      exact ⟨_, reaches_tailRev hrev, .inr ⟨hreturned, R', rfl, hidle'⟩, .inl hfar, h.out,
        .refl _ _ _, hrest⟩

theorem near_timeout (h : Transferring buf L J) (hrecv : L.near.recv stack none = some c) :
    ∃ J', (transferSystem buf clientWnd).Reaches J J' ∧
      Transferring buf { L with near := c } J' := by
  rcases h.near with hnear | ⟨hreturned, R, hnear, hidle⟩
  · rw [hnear] at hrecv
    obtain ⟨S, hs, rfl⟩ := Option.map_eq_some_iff.1 hrecv
    exact ⟨_, reaches_senderTimeout hs, .inl rfl, h.far, h.out,
      h.back.mono fun hfresh => hfresh.timeout hs, h.ignorable⟩
  · rw [hnear] at hrecv
    obtain ⟨R', hs, rfl⟩ := Option.map_eq_some_iff.1 hrecv
    exact ⟨J, .refl J, .inr ⟨hreturned, R', rfl, hidle.recv_timeout hs⟩, h.far, h.out, h.back,
      h.ignorable⟩

/-! ### The receiving program -/

theorem far_step (hJ : (transferSystem buf clientWnd).Reachable J) (h : Transferring buf L J)
    (hstep : L.far.step lost corr behind heap = some (c, reply)) :
    ∃ J', (transferSystem buf clientWnd).Reaches J J' ∧
      Transferring buf { L with far := c, back := L.back ++ reply.toList } J' := by
  rcases h.far with hfar | ⟨⟨pkts, S, hfar, hleaving⟩, hidle, hrev⟩
  · rw [hfar] at hstep
    obtain ⟨⟨R, reply'⟩, hs, heq⟩ := Option.map_eq_some_iff.1 hstep
    cases heq
    exact ⟨_, reaches_receiver hs, h.near, .inl rfl,
      h.out.mono fun hidle => (hidle.client_step hs).1, h.back.append _,
      List.forall_mem_append.2 ⟨h.ignorable, receiverStep_ignorable hs⟩⟩
  · -- a closing sender sends close packets
    rw [hfar] at hstep
    obtain ⟨⟨S', reply'⟩, hs, heq⟩ := Option.map_eq_some_iff.1 hstep
    cases heq
    obtain ⟨hleaving', hsent⟩ := hleaving.step hs
    have hback := h.back
    rw [hrev] at hback
    refine ⟨J, .refl J, h.near, .inr ⟨⟨pkts, S', rfl, hleaving'⟩, hidle, hrev⟩, h.out, ?_, ?_⟩
    · rw [hrev]
      exact hback.append_front hsent (senderInv_of_fresh hJ hidle.appended)
    · exact List.forall_mem_append.2
        ⟨h.ignorable, fun pkt hpkt => (hsent pkt hpkt).ignorable⟩

theorem far_recv (h : Transferring buf L J) (hchannel : L.out = pkt :: rest)
    (hrecv : L.far.recv stack (some (datagram pkt)) = some c) :
    ∃ J', (transferSystem buf clientWnd).Reaches J J' ∧
      Transferring buf { L with far := c, out := rest } J' := by
  have hout := h.out
  rw [hchannel] at hout
  rcases h.far with hfar | ⟨⟨pkts, S, hfar, hleaving⟩, hidle, hrev⟩
  · rw [hfar] at hrecv
    obtain ⟨R, hs, rfl⟩ := Option.map_eq_some_iff.1 hrecv
    rcases hout.cons_cases with ⟨hign, hidle, hout'⟩ | hfwd
    · have htimeout := hidle.recv_ignorable hign hs
      exact ⟨_, reaches_recvTimeout htimeout, h.near, .inl rfl,
        hout'.mono fun _ => hidle.recv_timeout htimeout, h.back, h.ignorable⟩
    · exact ⟨_, reaches_recv hfwd hs, h.near, .inl rfl, .refl _ _ _, h.back, h.ignorable⟩
  · -- a closing sender may read what belongs to the transfer
    rw [hfar] at hrecv
    obtain ⟨S', hs, rfl⟩ := Option.map_eq_some_iff.1 hrecv
    rcases hout.cons_cases with ⟨-, -, hout'⟩ | hfwd
    · exact ⟨J, .refl J, h.near, .inr ⟨⟨pkts, S', rfl, hleaving.recv hs⟩, hidle, hrev⟩, hout',
        h.back, h.ignorable⟩
    · exact ⟨_, reaches_tailFwd hfwd, h.near,
        .inr ⟨⟨pkts, S', rfl, hleaving.recv hs⟩, hidle, hrev⟩, .refl _ _ _, h.back, h.ignorable⟩

theorem far_timeout (h : Transferring buf L J) (hrecv : L.far.recv stack none = some c) :
    ∃ J', (transferSystem buf clientWnd).Reaches J J' ∧
      Transferring buf { L with far := c } J' := by
  rcases h.far with hfar | ⟨⟨pkts, S, hfar, hleaving⟩, hidle, hrev⟩
  · rw [hfar] at hrecv
    obtain ⟨R, hs, rfl⟩ := Option.map_eq_some_iff.1 hrecv
    exact ⟨_, reaches_recvTimeout hs, h.near, .inl rfl,
      h.out.mono fun hidle => hidle.recv_timeout hs, h.back, h.ignorable⟩
  · rw [hfar] at hrecv
    obtain ⟨S', hs, rfl⟩ := Option.map_eq_some_iff.1 hrecv
    exact ⟨J, .refl J, h.near, .inr ⟨⟨pkts, S', rfl, hleaving.recv hs⟩, hidle, hrev⟩, h.out,
      h.back, h.ignorable⟩

/-! ### The network -/

theorem fault_out (h : Transferring buf L J) (hfault : fault.apply L.out = some channel) :
    ∃ J', (transferSystem buf clientWnd).Reaches J J' ∧
      Transferring buf { L with out := channel } J' := by
  rcases Fault.staleFront h.out ignorable_zeroPacket hfault with
    hout | ⟨fault', fwd, hfwd, hout⟩
  · exact ⟨J, .refl J, h.near, h.far, hout, h.back, h.ignorable⟩
  · exact ⟨_, reaches_faultFwd hfwd, h.near, h.far, hout, h.back, h.ignorable⟩

theorem fault_back (h : Transferring buf L J) (hfault : fault.apply L.back = some channel) :
    ∃ J', (transferSystem buf clientWnd).Reaches J J' ∧
      Transferring buf { L with back := channel } J' := by
  have hign := Fault.forall_mem hfault ignorable_zeroPacket h.ignorable
  rcases Fault.staleFront h.back (.inr rfl) hfault with hback | ⟨fault', rev, hrev, hback⟩
  · exact ⟨J, .refl J, h.near, h.far, h.out, hback, hign⟩
  · exact ⟨_, reaches_faultRev hrev, h.near, .inl (h.far_of_rev (Fault.ne_nil hrev)), h.out, hback,
      hign⟩

/-! ### All steps -/

/-- Whatever happens to the calls is a run of the transfer. -/
theorem step {L' : Link} (hpos : 0 < (sentPackets buf clientWnd).length)
    (hJ : (transferSystem buf clientWnd).Reachable J) (h : Transferring buf L J)
    (hstep : L.Step L') :
    ∃ J', (transferSystem buf clientWnd).Reaches J J' ∧ Transferring buf L' J' := by
  cases hstep with
  | near hs => exact h.near_step hs
  | nearRecv hchannel hs => exact h.near_recv hpos hchannel hs
  | nearTimeout hs => exact h.near_timeout hs
  | far hs => exact h.far_step hJ hs
  | farRecv hchannel hs => exact h.far_recv hchannel hs
  | farTimeout hs => exact h.far_timeout hs
  | faultOut hs => exact h.fault_out hs
  | faultBack hs => exact h.fault_back hs

/-! ### The calls before and behind -/

/-- `writeTCP` has returned, and `readTCP` is called. -/
theorem sent {heap : ℕ → Packet} {pkts : List Packet} {S : Sender} (h : Transferring buf L J)
    (hnear : L.near = .writeTCP pkts S) (hreturned : S.returned = true) :
    Transferring buf { L with near := .readTCP (receiverInit clientWnd heap) } J := by
  rcases h.near with he | ⟨-, R, he, -⟩
  · rw [he] at hnear
    cases hnear
    exact ⟨.inr ⟨hreturned, _, rfl, Receiver.idle_init _ _⟩, h.far, h.out, h.back, h.ignorable⟩
  · rw [he] at hnear
    cases hnear

/-- The receiving program comes from its last `writeTCP`. -/
theorem called (heap : ℕ → Packet) {pkts : List Packet} {S : Sender}
    (hJ : (transferSystem buf clientWnd).Reachable J) (h : Transferring buf L J)
    (hfar : L.far = .writeTCP pkts S) :
    ∃ J', (transferSystem buf clientWnd).Reachable J' ∧
      (J.receiver.Idle clientWnd ∧ J'.receiver.Idle clientWnd) ∧
      Transferring buf { L with far := .readTCP (receiverInit clientWnd heap) } J' := by
  rcases h.far with he | ⟨-, hidle, hrev⟩
  · rw [he] at hfar
    cases hfar
  · have hidle' := Receiver.idle_init clientWnd heap
    exact ⟨{ J with receiver := receiverInit clientWnd heap },
      reachable_exchange (n := 4) (by norm_num) (by norm_num) (by norm_num) hJ hidle hidle',
      ⟨hidle, hidle'⟩, h.near, .inl rfl, h.out.mono fun _ => hidle', h.back, h.ignorable⟩

/-- When `readTCP` has returned, only control packets are in flight to its program. -/
theorem control_of_exited (hJ : (transferSystem buf clientWnd).Reachable J)
    (h : Transferring buf L J) (hphase : J.receiver.phase = .exited) :
    ∀ pkt ∈ L.out, IsControl pkt := by
  have hcontrol := control_of_returned (n := 4) (by norm_num) (by norm_num) (by norm_num) hJ hphase
  obtain ⟨stale, hout, -, hidle⟩ := h.out
  have hnil : stale = [] := by
    by_contra hne
    exact (hidle hne).not_exited hphase
  rw [hout, hnil, List.nil_append]
  exact hcontrol

/-- The receiving program, once it has come from its `writeTCP`, is in `readTCP`. -/
theorem far_of_exited (h : Transferring buf L J) (hphase : J.receiver.phase = .exited) :
    L.far = .readTCP J.receiver := by
  rcases h.far with hfar | ⟨-, hidle, -⟩
  · exact hfar
  · exact absurd hphase hidle.not_exited

/-- The sending program when `readTCP` has returned: it is leaving `writeTCP`, or has left it. -/
theorem near_of_exited (hJ : (transferSystem buf clientWnd).Reachable J)
    (h : Transferring buf L J) (hphase : J.receiver.phase = .exited) :
    L.near.Between clientWnd := by
  obtain ⟨_, _, _, -, hinv⟩ :=
    Related.of_reachable (n := 4) (by norm_num) (by norm_num) (by norm_num) hJ
  rcases h.near with hnear | ⟨-, R, hnear, hidle⟩
  · rw [hnear]
    exact .leaving ⟨hinv.phases.left (Receiver.side_eq_left_iff.2 hphase),
      counting_of_reachable hJ⟩
  · rw [hnear]
    exact .idle hidle

/-- Two calls at the start of a transfer: the sending program has just called `writeTCP`, the other
one is leaving its own or has called `readTCP`. -/
theorem start {pkts : List Packet} {heap : ℕ → Packet} (hpkts : pkts = sentPackets buf clientWnd)
    (hnear : L.near = .writeTCP pkts (senderInit clientWnd heap))
    (hfar : L.far.Between clientWnd)
    (hout : ∀ pkt ∈ L.out, Ignorable pkt) (hback : ∀ pkt ∈ L.back, IsControl pkt) :
    ∃ J, (transferSystem buf clientWnd).Reachable J ∧ J.receiver.Idle clientWnd ∧
      Transferring buf L J := by
  have hfresh : SenderInv (sentPackets buf clientWnd) 4 0 (senderInit clientWnd heap) :=
    senderInv_init _ (by norm_num) (by norm_num) (by norm_num) heap
  have hstart : ∀ R : Receiver, R.Idle clientWnd →
      (transferSystem buf clientWnd).Reachable ⟨senderInit clientWnd heap, R, [], []⟩ :=
    fun R hR => Receiver.Idle.reachable (n := 4) (by norm_num) (by norm_num) (by norm_num) hR
      (J := ⟨senderInit clientWnd heap, receiverInit clientWnd heap, [], []⟩)
      ⟨⟨_, rfl⟩, ⟨_, rfl⟩, fun _ hp => absurd hp List.not_mem_nil,
        fun _ hp => absurd hp List.not_mem_nil⟩
  have hign : ∀ pkt ∈ L.back, Ignorable pkt := fun pkt hpkt => (hback pkt hpkt).ignorable
  rw [hpkts] at hnear
  cases hcall : L.far with
  | writeTCP pkts S =>
    rw [hcall] at hfar
    have hidle := Receiver.idle_init clientWnd heap
    cases hfar with
    | leaving hleaving =>
      exact ⟨_, hstart _ hidle, hidle, .inl hnear, .inr ⟨⟨pkts, S, hcall, hleaving⟩, hidle, rfl⟩,
        .of_forall hout hidle, .of_forall hback hfresh, hign⟩
  | readTCP R =>
    rw [hcall] at hfar
    cases hfar with
    | idle hidle =>
      exact ⟨_, hstart R hidle, hidle, .inl hnear, .inl hcall, .of_forall hout hidle,
        .of_forall hback hfresh, hign⟩

/-- When `readTCP` has returned, a transfer in the other direction may start. -/
theorem answer (heap : ℕ → Packet) {buf' : List UInt8} {pkts : List Packet}
    (hJ : (transferSystem buf clientWnd).Reachable J) (h : Transferring buf L J)
    (hphase : J.receiver.phase = .exited) (hpkts : pkts = sentPackets buf' clientWnd) :
    ∃ J', (transferSystem buf' clientWnd).Reachable J' ∧ J'.receiver.Idle clientWnd ∧
      Transferring buf'
        { L.swap with near := .writeTCP pkts (senderInit clientWnd heap) } J' :=
  start hpkts rfl (h.near_of_exited hJ hphase) h.ignorable (h.control_of_exited hJ hphase)

end Transferring

end Tcp118
