import Tcp118.Transport.Basic

/-!
# What `readTCP` copies out of a packet

`readTCP` takes `getSize(pkt)` bytes from the string that `getBody(pkt)` duplicates.  The length
comes from the header, the string ends at the first zero byte of the body.

* `GeneratedPacket`: a packet of `generatePacket` with the body it was given;
* `readsInside_iff`: the copy stays inside the string exactly when the body has no zero byte
  before its last position;
* `copiedBody_of_readsInside`: a copy that does is the body;
* `payload_transparent_iff`: the same for a packet and for any sequence of packets.
-/

namespace Tcp118

/-- A packet built by `generatePacket` from a body of at most `MAX_BODY_SIZE` bytes. -/
structure GeneratedPacket where
  seqNum : ℕ
  ackNum : ℕ
  ack : Bool
  last : Bool
  close : Bool
  body : List UInt8
  body_le : body.length ≤ maxBodySize

namespace GeneratedPacket

def packet (g : GeneratedPacket) : Packet :=
  generatePacket g.seqNum g.ackNum g.ack g.last g.close g.body g.body.length

theorem getSize_packet (g : GeneratedPacket) : getSize g.packet = g.body.length := by
  rw [packet, getSize_generatePacket, storedSize_of_le g.body_le]

/-- The body region: the body, filled up with zeros. -/
theorem bodyBytes_packet (g : GeneratedPacket) :
    bodyBytes g.packet = g.body ++ List.replicate (maxBodySize - g.body.length) 0 := by
  have hle := g.body_le
  apply List.ext_getElem
  · simp only [bodyBytes, List.length_map, List.length_range, List.length_append,
      List.length_replicate]
    omega
  · intro i hi hi'
    have hlt : i < maxBodySize := by simpa [bodyBytes] using hi
    simp only [bodyBytes, List.getElem_map, List.getElem_range, packet]
    rw [byte_generatePacket _ _ _ _ _ _ _
        (by simp only [headerSize, packetSize, maxBodySize] at *; omega) (Nat.le_add_right _ _),
      copiedLen_of_le hle, Nat.add_sub_cancel_left]
    by_cases h : i < g.body.length
    · rw [if_pos (by omega), List.getElem_append_left h, List.getD_eq_getElem _ _ h]
    · rw [if_neg (by omega), List.getElem_append_right (by omega), List.getElem_replicate]

end GeneratedPacket

/-! ### Strings -/

/-- Up to its terminating zero a duplicated string agrees with the memory. -/
theorem getD_strdup (mem heap : List UInt8) {i : ℕ} (hi : i < (strdup mem).length)
    (hmem : i < mem.length) : (strdup mem ++ heap).getD i 0 = mem[i] := by
  induction mem generalizing i with
  | nil => simp at hmem
  | cons b mem ih =>
    by_cases hb : b = 0
    · subst hb
      have h0 : i = 0 := by
        simp [strdup] at hi
        exact hi
      subst h0
      rfl
    · have hcons : strdup (b :: mem) = b :: strdup mem := by
        simp [strdup, hb]
      rw [hcons] at hi ⊢
      cases i with
      | zero => rfl
      | succ i =>
        simp only [List.cons_append, List.getD_cons_succ, List.getElem_cons_succ]
        exact ih (by simpa using hi) (by simpa using hmem)

/-- The string duplicated from a body covers the body exactly when no zero byte comes before its
last position. -/
theorem length_le_strdup_iff (body rest : List UInt8) :
    body.length ≤ (strdup (body ++ rest)).length ↔ (0 : UInt8) ∉ body.dropLast := by
  induction body with
  | nil => simp
  | cons b body ih =>
    rcases List.eq_nil_or_concat body with rfl | ⟨front, x, rfl⟩
    · simp [strdup]
    · have hdrop : (b :: (front ++ [x])).dropLast = b :: (front ++ [x]).dropLast := by
        simp [List.dropLast_cons_of_ne_nil]
      simp only [List.concat_eq_append] at ih ⊢
      by_cases hb : b = 0
      · subst hb
        rw [hdrop]
        simp [strdup]
      · have hcons : strdup (b :: (front ++ [x]) ++ rest) = b :: strdup (front ++ [x] ++ rest) := by
          simp [strdup, hb]
        rw [hcons, hdrop, List.length_cons, List.length_cons, Nat.add_le_add_iff_right, ih,
          List.mem_cons, not_or]
        exact ⟨fun h => ⟨fun e => hb e.symm, h⟩, fun h => h.2⟩

/-! ### The copy -/

/-- Every byte `readTCP` reads lies inside the string that `getBody` returned. -/
def ReadsInside (pkt : Packet) (behind : List UInt8) : Prop :=
  getSize pkt ≤ (getBody pkt behind).length

theorem readsInside_iff (g : GeneratedPacket) (behind : List UInt8) :
    ReadsInside g.packet behind ↔ (0 : UInt8) ∉ g.body.dropLast := by
  unfold ReadsInside getBody
  rw [g.getSize_packet, g.bodyBytes_packet, List.append_assoc]
  exact length_le_strdup_iff g.body _

theorem copiedBody_of_readsInside (g : GeneratedPacket) (behind heap : List UInt8)
    (h : ReadsInside g.packet behind) : copiedBody g.packet behind heap = g.body := by
  unfold ReadsInside at h
  unfold copiedBody
  rw [g.getSize_packet] at h ⊢
  apply List.ext_getElem
  · simp
  · intro i hi hi'
    have hmem : i < (bodyBytes g.packet ++ behind).length := by
      rw [g.bodyBytes_packet]
      simp
      omega
    rw [List.getElem_map, List.getElem_range, getBody,
      getD_strdup _ _ (by unfold getBody at h; omega) hmem]
    simp only [g.bodyBytes_packet, List.append_assoc]
    rw [List.getElem_append_left hi']

/-! ### Messages -/

/-- A packet as `readTCP` meets it: with the memory behind it and behind its duplicated body. -/
structure Received where
  generated : GeneratedPacket
  behind : List UInt8
  heap : List UInt8

/-- The message after the bodies of a sequence of packets have been appended. -/
def appendAll (rs : List Received) : Message :=
  rs.foldl (fun m r => appendBody m r.generated.packet r.behind r.heap) Message.empty

/-- The bytes of a message. -/
def Message.bytes (m : Message) : List UInt8 := m.msgBody.take m.msgLen

theorem bytes_appendBody {m : Message} {g : GeneratedPacket} {behind : List UInt8}
    (heap : List UInt8) (hm : m.msgLen ≤ m.msgBody.length) (h : ReadsInside g.packet behind) :
    (appendBody m g.packet behind heap).bytes = m.bytes ++ g.body ∧
      (appendBody m g.packet behind heap).msgLen ≤
        (appendBody m g.packet behind heap).msgBody.length := by
  have hcopy := copiedBody_of_readsInside g behind heap h
  unfold appendBody Message.bytes
  simp only [hcopy, g.getSize_packet]
  have hlen : (m.msgBody.take m.msgLen ++ g.body).length = m.msgLen + g.body.length := by
    rw [List.length_append, List.length_take, Nat.min_eq_left hm]
  exact ⟨List.take_of_length_le (by omega), by omega⟩

theorem bytes_appendAll (rs : List Received)
    (h : ∀ r ∈ rs, ReadsInside r.generated.packet r.behind) :
    (appendAll rs).bytes = rs.flatMap fun r => r.generated.body := by
  have hgen : ∀ (rs : List Received) (m : Message),
      (∀ r ∈ rs, ReadsInside r.generated.packet r.behind) → m.msgLen ≤ m.msgBody.length →
      (rs.foldl (fun m r => appendBody m r.generated.packet r.behind r.heap) m).bytes =
        m.bytes ++ rs.flatMap fun r => r.generated.body := by
    intro rs
    induction rs with
    | nil => simp
    | cons r rs ih =>
      intro m hr hm
      obtain ⟨hb, hl⟩ := bytes_appendBody r.heap hm (hr r (by simp))
      rw [List.foldl_cons, ih _ (fun r' hr' => hr r' (by simp [hr'])) hl, hb]
      simp
  have := hgen rs Message.empty h (Nat.zero_le _)
  rwa [show Message.empty.bytes = [] from rfl, List.nil_append] at this

/-- **The receive path is transparent exactly for bodies without a zero byte before their last
position**: for one packet, and for the message of any sequence of packets. -/
theorem payload_transparent_iff (g : GeneratedPacket) (behind : List UInt8) (rs : List Received) :
    ((ReadsInside g.packet behind ∧ ∀ heap, copiedBody g.packet behind heap = g.body) ↔
      (0 : UInt8) ∉ g.body.dropLast) ∧
    (((∀ r ∈ rs, ReadsInside r.generated.packet r.behind) ∧
        (appendAll rs).bytes = rs.flatMap fun r => r.generated.body) ↔
      ∀ r ∈ rs, (0 : UInt8) ∉ r.generated.body.dropLast) := by
  constructor
  · rw [← readsInside_iff g behind]
    constructor
    · exact fun h => h.1
    · exact fun h => ⟨h, fun heap => copiedBody_of_readsInside g behind heap h⟩
  · have hall : (∀ r ∈ rs, ReadsInside r.generated.packet r.behind) ↔
        ∀ r ∈ rs, (0 : UInt8) ∉ r.generated.body.dropLast :=
      forall₂_congr fun r _ => readsInside_iff r.generated r.behind
    rw [← hall]
    exact ⟨fun h => h.1, fun h => ⟨h, bytes_appendAll rs h⟩⟩

/-- The body `[0, 1]`: the string is one byte long, and the second byte copied is not from it. -/
theorem not_transparent_zero_one :
    ∃ g : GeneratedPacket, g.body = [0, 1] ∧ ¬ ReadsInside g.packet [] ∧
      copiedBody g.packet [] [2] ≠ g.body := by
  let g : GeneratedPacket := ⟨0, 0, false, true, false, [0, 1], by decide⟩
  have hin : ¬ ReadsInside g.packet [] := by
    rw [readsInside_iff]
    decide
  refine ⟨g, rfl, hin, ?_⟩
  have hbody : getBody g.packet [] = [0] := by
    unfold getBody
    rw [g.bodyBytes_packet]
    rfl
  unfold copiedBody
  rw [hbody, g.getSize_packet]
  decide

end Tcp118
