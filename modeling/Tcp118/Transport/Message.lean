import Tcp118.Packet.Reassembly
import Tcp118.Transport.Events
import Tcp118.Transport.Payload
import Tcp118.Transport.Refinement

/-!
# What `readTCP` returns

`readTCP` puts the message together from the bodies of the packets it accepts; what lies in the
memory behind the packets and behind their duplicated bodies is arbitrary at each of them.

* `Assembles`: the messages that appending the bodies of a list of packets can give;
* `Assembles.msgLen`, `Assembles.bytes`: its length, for all contents, and its bytes, for packets
  without a zero byte before their last one;
* `assembles_of_reachable`: along every run of a transfer;
* `message_of_reachable`: what a caller of `readTCP` gets.
-/

namespace Tcp118

/-! ### Appending bodies -/

/-- `msgBody` and `msgLen` after the bodies of a list of packets have been appended. -/
inductive Assembles : List Packet → Message → Prop
  | empty : Assembles [] Message.empty
  | append {pkts : List Packet} {m : Message} (pkt : Packet) (behind heap : List UInt8) :
      Assembles pkts m → Assembles (pkts ++ [pkt]) (appendBody m pkt behind heap)

/-- A packet whose body `readTCP` copies as it is: its size fits the body region, and the string
`getBody` returns does not end before it. -/
structure Copyable (pkt : Packet) : Prop where
  size : getSize pkt ≤ maxBodySize
  noZero : (0 : UInt8) ∉ (payload pkt).dropLast

theorem length_payload {pkt : Packet} (h : getSize pkt ≤ maxBodySize) :
    (payload pkt).length = getSize pkt := by
  rw [payload, List.length_take, bodyBytes, List.length_map, List.length_range]
  exact Nat.min_eq_left h

theorem length_copiedBody (pkt : Packet) (behind heap : List UInt8) :
    (copiedBody pkt behind heap).length = getSize pkt := by
  rw [copiedBody, List.length_map, List.length_range]

/-- The copy is the payload. -/
theorem Copyable.copiedBody {pkt : Packet} (h : Copyable pkt) (behind heap : List UInt8) :
    copiedBody pkt behind heap = payload pkt := by
  have hlen := length_payload h.size
  have hsplit : bodyBytes pkt ++ behind =
      payload pkt ++ ((bodyBytes pkt).drop (getSize pkt) ++ behind) := by
    rw [payload, ← List.append_assoc, List.take_append_drop]
  have hstring : (payload pkt).length ≤ (getBody pkt behind).length := by
    rw [getBody, hsplit]
    exact (length_le_strdup_iff _ _).2 h.noZero
  apply List.ext_getElem
  · rw [length_copiedBody, hlen]
  · intro i hi hi'
    have hmem : i < (bodyBytes pkt ++ behind).length := by
      rw [hsplit, List.length_append]
      omega
    simp only [Tcp118.copiedBody, List.getElem_map, List.getElem_range]
    rw [getBody, getD_strdup _ _ (by unfold getBody at hstring; omega) hmem]
    simp only [hsplit]
    exact List.getElem_append_left hi'

namespace Assembles

variable {pkts : List Packet} {m : Message}

/-- The length is the sum of the size fields, whatever the packets hold. -/
theorem msgLen (h : Assembles pkts m) : m.msgLen = (pkts.map getSize).sum := by
  induction h with
  | empty => rfl
  | append pkt behind heap _ ih =>
    rw [appendBody, ih, List.map_append, List.sum_append]
    rfl

/-- The memory holds as many bytes as `msgLen` says. -/
theorem msgLen_le (h : Assembles pkts m) : m.msgLen ≤ m.msgBody.length := by
  induction h with
  | empty => exact Nat.zero_le _
  | append pkt behind heap _ ih =>
    simp only [appendBody, List.length_append, List.length_take, length_copiedBody]
    omega

/-- Behind the bytes there are those that are copied. -/
theorem bytes_appendBody (h : Assembles pkts m) (pkt : Packet) (behind heap : List UInt8) :
    (appendBody m pkt behind heap).bytes = m.bytes ++ Tcp118.copiedBody pkt behind heap := by
  have hlen := h.msgLen_le
  unfold Message.bytes appendBody
  refine List.take_of_length_le ?_
  rw [List.length_append, List.length_take, length_copiedBody, Nat.min_eq_left hlen]

/-- The bytes are the payloads, put end to end. -/
theorem bytes (h : Assembles pkts m) (hcopy : ∀ pkt ∈ pkts, Copyable pkt) :
    m.bytes = pkts.flatMap payload := by
  induction h with
  | empty => rfl
  | @append pkts m pkt behind heap hm ih =>
    have hpkt := hcopy pkt (List.mem_append_right _ List.mem_cons_self)
    have hm' := ih fun pkt' hpkt' => hcopy pkt' (List.mem_append_left _ hpkt')
    rw [hm.bytes_appendBody, hpkt.copiedBody, hm', List.flatMap_append, List.flatMap_singleton]

end Assembles

/-! ### Runs -/

section Runs

variable {R R' : Receiver}

theorem Assembles.deliver {lost corr : Bool} {behind heap : List UInt8} {out : Option Packet}
    (h : Assembles R.appended R.message)
    (hstep : deliver lost corr behind heap R = some (R', out)) :
    Assembles R'.appended R'.message := by
  obtain ⟨pkt, -, hrest⟩ := Option.bind_eq_some_iff.1 hstep
  obtain ⟨⟨w, out', b⟩, -, heq⟩ := Option.bind_eq_some_iff.1 hrest
  cases heq
  cases pkt with
  | none => exact h
  | some pkt => exact h.append pkt behind heap

theorem Assembles.receiverStep {lost corr : Bool} {behind heap : List UInt8} {out : Option Packet}
    (h : Assembles R.appended R.message)
    (hstep : receiverStep lost corr behind heap R = some (R', out)) :
    Assembles R'.appended R'.message := by
  unfold Tcp118.receiverStep at hstep
  cases hphase : R.phase with
  | deliver =>
    rw [hphase] at hstep
    exact h.deliver hstep
  | top => rw [hphase] at hstep; cases hstep; exact h
  | close => rw [hphase] at hstep; cases hstep; exact h
  | read => rw [hphase] at hstep; cases hstep
  | readClose => rw [hphase] at hstep; cases hstep
  | exited => rw [hphase] at hstep; cases hstep

theorem receiverRecv_message {stack : Packet} {recv : Option Datagram}
    (hrecv : receiverRecv stack recv R = some R') :
    R'.appended = R.appended ∧ R'.message = R.message := by
  unfold receiverRecv at hrecv
  split at hrecv
  · obtain ⟨r, -, rfl⟩ := Option.map_eq_some_iff.1 hrecv
    exact ⟨rfl, rfl⟩
  · cases hrecv
    exact ⟨rfl, rfl⟩
  · cases hrecv

theorem Assembles.receiverRecv {stack : Packet} {recv : Option Datagram}
    (h : Assembles R.appended R.message) (hrecv : receiverRecv stack recv R = some R') :
    Assembles R'.appended R'.message := by
  obtain ⟨happ, hmsg⟩ := receiverRecv_message hrecv
  rw [happ, hmsg]
  exact h

/-- The message of a reachable state is put together from the packets it counts as appended. -/
theorem assembles_of_reachable {buf : List UInt8} {W : ℕ} {allowed : Event → Joint → Prop}
    {J : Joint} (h : (transferRuns buf W allowed).Reachable J) :
    Assembles J.receiver.appended J.receiver.message := by
  refine h.invariant (I := fun J => Assembles J.receiver.appended J.receiver.message) ?_ ?_
  · rintro J₀ ⟨-, ⟨heap, hR⟩, -, -⟩
    rw [hR]
    exact .empty
  · rintro J J' - hm ⟨event, -, hstep⟩
    rcases J.step_receiver hstep with he | ⟨lost, corr, behind, heap, out, hs⟩ | ⟨stack, recv, hs⟩
    · rw [he]
      exact hm
    · exact hm.receiverStep hs
    · exact hm.receiverRecv hs

end Runs

/-! ### Transfers -/

/-- No body of a packet of the buffer has a zero byte before its last one. -/
def Transparent (buf : List UInt8) : Prop :=
  ∀ i, (0 : UInt8) ∉ ((buf.drop (maxBodySize * i)).take maxBodySize).dropLast

theorem transparent_of_not_mem {buf : List UInt8} (h : (0 : UInt8) ∉ buf) : Transparent buf :=
  fun _ hmem => h (List.mem_of_mem_drop (List.mem_of_mem_take (List.mem_of_mem_dropLast hmem)))

/-- A buffer whose only zero byte is its last one. -/
theorem transparent_concat_zero {buf : List UInt8} (h : (0 : UInt8) ∉ buf) :
    Transparent (buf ++ [0]) := by
  intro i hmem
  have hsub : (((buf ++ [0]).drop (maxBodySize * i)).take maxBodySize).dropLast ⊆ buf := by
    intro b hb
    obtain ⟨j, hj, rfl⟩ := List.mem_iff_getElem.1 hb
    simp only [List.length_dropLast, List.length_take, List.length_drop, List.length_append,
      List.length_singleton] at hj
    have hlt : maxBodySize * i + j < buf.length := by omega
    rw [List.getElem_dropLast, List.getElem_take, List.getElem_drop,
      List.getElem_append_left hlt]
    exact List.getElem_mem hlt
  exact h (hsub hmem)

section Transfers

variable {buf : List UInt8} {W : ℕ}

theorem sentPackets_eq (hlen : (buf.length + (maxBodySize - 1)) / maxBodySize * packetSize < 2 ^ 31)
    (W : ℕ) : sentPackets buf W = packetsOf buf W buf.length := by
  have hlt : buf.length < 2 ^ 32 := by
    simp only [maxBodySize, packetSize] at hlen
    omega
  rw [sentPackets, u32_of_lt hlt]

theorem getSize_sentPackets {pkt : Packet} (hpkt : pkt ∈ sentPackets buf W) :
    getSize pkt ≤ maxBodySize := by
  obtain ⟨i, hi⟩ := List.mem_iff_getElem?.1 hpkt
  rw [eq_pieceOf hi, getSize_pieceOf]
  exact Nat.min_le_right _ _

theorem copyable_sentPackets
    (hlen : (buf.length + (maxBodySize - 1)) / maxBodySize * packetSize < 2 ^ 31)
    (h : Transparent buf) {pkt : Packet} (hpkt : pkt ∈ sentPackets buf W) : Copyable pkt := by
  refine ⟨getSize_sentPackets hpkt, ?_⟩
  rw [sentPackets_eq hlen] at hpkt
  obtain ⟨i, hi⟩ := List.mem_iff_getElem?.1 hpkt
  rw [eq_pieceOf hi, payload_pieceOf rfl]
  exact h i

theorem flatMap_payload_sentPackets
    (hlen : (buf.length + (maxBodySize - 1)) / maxBodySize * packetSize < 2 ^ 31) (W : ℕ) :
    (sentPackets buf W).flatMap payload = buf := by
  rw [sentPackets_eq hlen]
  exact flatMap_payload_packetsOf buf W hlen

/-- The payloads of packets whose sizes fit have the length the sizes add up to. -/
theorem length_flatMap_payload {pkts : List Packet} (h : ∀ pkt ∈ pkts, getSize pkt ≤ maxBodySize) :
    (pkts.flatMap payload).length = (pkts.map getSize).sum := by
  rw [List.length_flatMap]
  exact congrArg List.sum (List.map_congr_left fun pkt hpkt => length_payload (h pkt hpkt))

/-- What a message holds that has been put together from the first packets of a buffer. -/
theorem Assembles.of_start {pkts : List Packet} {m : Message} (h : Assembles pkts m)
    (hlen : (buf.length + (maxBodySize - 1)) / maxBodySize * packetSize < 2 ^ 31)
    (hstart : pkts <+: sentPackets buf W) :
    (pkts.flatMap payload <+: buf ∧ m.msgLen = (pkts.flatMap payload).length) ∧
      (Transparent buf → m.bytes = pkts.flatMap payload) := by
  refine ⟨⟨?_, ?_⟩, fun ht => ?_⟩
  · obtain ⟨rest, hrest⟩ := hstart
    refine ⟨rest.flatMap payload, ?_⟩
    rw [← List.flatMap_append, hrest, flatMap_payload_sentPackets hlen]
  · rw [h.msgLen, length_flatMap_payload fun pkt hpkt => getSize_sentPackets (hstart.mem hpkt)]
  · exact h.bytes fun pkt hpkt => copyable_sentPackets hlen ht (hstart.mem hpkt)

/-- The message of a reachable state, by the packets that have been appended. -/
theorem message_of_reachable {n : ℕ} {J : Joint} {allowed : Event → Joint → Prop} (hn : 0 < n)
    (hring : 2 * n ∣ 2 ^ 22) (hb : 1024 * (2 * n) < 2 ^ 31)
    (hlen : (buf.length + (maxBodySize - 1)) / maxBodySize * packetSize < 2 ^ 31)
    (h : (transferRuns buf (1024 * n) allowed).Reachable J) :
    ∃ got, got <+: buf ∧ J.receiver.message.msgLen = got.length ∧
      (Transparent buf → J.receiver.message.bytes = got) ∧ (¬ J.Receiving → got = buf) := by
  obtain ⟨acked, fwd, rev, hrel, hinv⟩ := Related.of_reachable hn hring hb h
  obtain ⟨⟨hstart, hmsgLen⟩, hbytes⟩ :=
    (assembles_of_reachable h).of_start hlen hrel.appended_prefix
  refine ⟨_, hstart, hmsgLen, hbytes, fun hdone => ?_⟩
  have htaken : J.receiver.appended.length = (sentPackets buf (1024 * n)).length := by
    rcases J.receiving_or with hreceiving | hleft
    · exact absurd hreceiving hdone
    · exact (hinv.phases.received hleft).2.1
  rw [hrel.appended_eq htaken, flatMap_payload_sentPackets hlen]

end Transfers

end Tcp118
