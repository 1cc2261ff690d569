import Tcp118.Library.EndAroundCarry
import Tcp118.Packet.Bytes
import Mathlib.Data.Nat.Bitwise

/-!
# `packet118.c`: header fields, checksum, packets

The header is three 32-bit words: the sequence number, the acknowledgement number, and a word
that holds, from the top, the ACK, last and close bits, three unassigned bits, ten bits of size
and sixteen bits of checksum.  The body starts at byte 12.

* `getSeqNum`, …, `setChecksum`: the fields;
* `checksum`: the folded 16-bit sum of a buffer, complemented;
* `getBody`, `setBody`, `generatePacket`;
* `bufToPackets`: a buffer cut into packets.

Only what the callers' results depend on is modelled: printing and freeing have no counterpart,
and a packet argument is never `NULL` except for `getLast`.
-/

namespace Tcp118

/-! ### Header fields -/

/-- `SEQ_NUM_OFFSET >> 5` is `0`. -/
def getSeqNum (pkt : Packet) : ℕ := pkt.word32 0

def setSeqNum (pkt : Packet) (seqNum : ℕ) : Packet := pkt.setWord32 0 seqNum

/-- `ACK_NUM_OFFSET >> 5` is `1`. -/
def getACKNum (pkt : Packet) : ℕ := pkt.word32 1

def setACKNum (pkt : Packet) (ackNum : ℕ) : Packet := pkt.setWord32 1 ackNum

/-- Read a field of the third header word: `ACK_OFFSET`, `LAST_OFFSET`, `SHAKE_OFFSET`,
`SIZE_OFFSET` and `CHECKSUM_OFFSET`, shifted right by five, are all `2`. -/
def getField (pkt : Packet) (shift mask : ℕ) : ℕ := (pkt.word32 2 >>> shift) &&& mask

/-- Write a field of the third header word through the mask that clears it. -/
def setField (pkt : Packet) (mask shift value : ℕ) : Packet :=
  pkt.setWord32 2 ((pkt.word32 2 &&& mask) ||| (value <<< shift))

def getACK (pkt : Packet) : Bool := getField pkt 31 0x1 != 0

def setACK (pkt : Packet) (ack : Bool) : Packet := setField pkt 0x7FFFFFFF 31 ack.toNat

/-- The argument is a pointer; a `NULL` packet is not the last one. -/
def getLast : Option Packet → Bool
  | none => false
  | some pkt => getField pkt 30 0x1 != 0

def setLast (pkt : Packet) (last : Bool) : Packet := setField pkt 0xBFFFFFFF 30 last.toNat

def getClose (pkt : Packet) : Bool := getField pkt 29 0x1 != 0

def setClose (pkt : Packet) (close : Bool) : Packet := setField pkt 0xDFFFFFFF 29 close.toNat

def getSize (pkt : Packet) : ℕ := getField pkt 16 0x3FF

/-- `size` is a `uint16_t`; it is clamped to `MAX_BODY_SIZE`. -/
def setSize (pkt : Packet) (size : ℕ) : Packet :=
  let temp := if size > maxBodySize then maxBodySize else size
  setField pkt 0xFC00FFFF 16 temp

def getChecksum (pkt : Packet) : ℕ := getField pkt 0 0xFFFF

def setChecksum (pkt : Packet) (checksum : ℕ) : Packet :=
  setField pkt 0xFFFF0000 0 (checksum &&& 0x0000FFFF)

/-! ### Checksum -/

/-- `((uint16_t *)addr)[k]`. -/
def word16 (addr : ℕ → UInt8) (k : ℕ) : ℕ := (addr (2 * k)).toNat + 2 ^ 8 * (addr (2 * k + 1)).toNat

/-- `sum = (sum & 0xFFFF) + (sum >> 16)`. -/
def foldSum (sum : ℕ) : ℕ := (sum &&& 0xFFFF) + (sum >>> 16)

/-- `sum` after the first loop has read `k` words, that is, when its index `i` is `2 * k`. -/
def sumWords (addr : ℕ → UInt8) : ℕ → ℕ
  | 0 => 0
  | k + 1 => foldSum (sumWords addr k + word16 addr k)

theorem foldSum_eq (sum : ℕ) : foldSum sum = EndAroundCarry.fold (2 ^ 16) sum := by
  unfold foldSum EndAroundCarry.fold
  rw [Nat.shiftRight_eq_div_pow]
  congr 1
  exact Nat.and_two_pow_sub_one_eq_mod sum 16

/-- `while (sum >> 16) sum = (sum & 0xFFFF) + (sum >> 16);` -/
def foldCarry (sum : ℕ) : ℕ := if sum >>> 16 ≠ 0 then foldCarry (foldSum sum) else sum
termination_by sum
decreasing_by
  rename_i h
  rw [Nat.shiftRight_eq_div_pow] at h
  rw [foldSum_eq]
  exact EndAroundCarry.fold_lt (by norm_num) (by omega)

/-- `checksum(addr, count)` for `1 ≤ count`.  The first loop runs while `i < count - 1`; an odd
count leaves one byte, for which the source adds the byte at `addr`. -/
def checksum (addr : ℕ → UInt8) (count : ℕ) : ℕ :=
  let i := 2 * (count / 2)
  let sum := sumWords addr (count / 2)
  let sum := if i < count then sum + (addr 0).toNat else sum
  (2 ^ 32 - 1 - foldCarry sum) % 2 ^ 16

/-! ### Body -/

/-- The bytes of the body region. -/
def bodyBytes (pkt : Packet) : List UInt8 :=
  (List.range maxBodySize).map fun i => pkt.byte (headerSize + i)

/-- `strdup`: the bytes before the first zero byte, and a terminating zero. -/
def strdup (mem : List UInt8) : List UInt8 := mem.takeWhile (· != 0) ++ [0]

/-- `getBody`, where `behind` are the bytes that follow the packet in memory up to their first
zero byte: `strdup` reads on when the body region has none. -/
def getBody (pkt : Packet) (behind : List UInt8) : List UInt8 := strdup (bodyBytes pkt ++ behind)

/-- `memcpy(&(pkt[12]), buff, n)`. -/
def copyBody (pkt : Packet) (buff : List UInt8) (n : ℕ) : Packet :=
  Packet.ofBytes fun i =>
    if headerSize ≤ i ∧ i < headerSize + n then buff.getD (i - headerSize) 0 else pkt.byte i

/-- `setBody`, with the number of bytes it returns; `count` is narrowed to an `int` first. -/
def setBody (pkt : Packet) (buff : List UInt8) (count : ℕ) : Packet × ℤ :=
  let copied := toInt32 count
  let copied := if copied > maxBodySize then (maxBodySize : ℤ) else copied
  (copyBody pkt buff copied.toNat, copied)

/-- `memset(pkt, 0, PACKET_SIZE)`. -/
def zeroPacket : Packet := Packet.ofBytes fun _ => 0

/-- `generatePacket`; `count` is narrowed to a `uint16_t` for `setSize`. -/
def generatePacket (seqNum ackNum : ℕ) (ack last close : Bool) (buff : List UInt8) (count : ℕ) :
    Packet :=
  let pkt := setSeqNum zeroPacket seqNum
  let pkt := setACKNum pkt ackNum
  let pkt := setACK pkt ack
  let pkt := setLast pkt last
  let pkt := setClose pkt close
  let pkt := setSize pkt (count % 2 ^ 16)
  let pkt := (setBody pkt buff count).1
  let cs := checksum pkt.byte packetSize
  setChecksum pkt cs

/-! ### Segmentation -/

/-- The second loop of `bufToPackets`, with `left` packets to go: `i` is the index and `nbytes`
the number of bytes that remain. -/
def cutPackets (buf : List UInt8) (cWnd : ℕ) : (left i nbytes : ℕ) → List Packet
  | 0, _, _ => []
  | left + 1, i, nbytes =>
    let seqNum := u32 (i * packetSize) % u32 (2 * cWnd)
    let piece := buf.drop (i * maxBodySize)
    if nbytes < maxBodySize then
      generatePacket seqNum seqNum false true false piece nbytes ::
        cutPackets buf cWnd left (i + 1) 0
    else
      generatePacket seqNum seqNum false false false piece maxBodySize ::
        cutPackets buf cWnd left (i + 1) (nbytes - maxBodySize)

/-- `bufToPackets`; `nbytes` and `cWnd` are `uint32_t`, and the list stands for the
null-terminated array.  There is none for a null buffer, nor where the loop divides by zero. -/
def bufToPackets (buf : Option (List UInt8)) (nbytes cWnd : ℕ) : Option (List Packet) :=
  match buf with
  | none => none
  | some buf =>
    let numPackets := u32 (nbytes + (maxBodySize - 1)) / maxBodySize
    -- the divisor of the loop is `2 * c_wnd` in 32 bits
    if 0 < numPackets ∧ u32 (2 * cWnd) = 0 then none
    else some (cutPackets buf cWnd numPackets 0 nbytes)

end Tcp118
