import Mathlib.Algebra.Order.Ring.Nat
import Mathlib.Tactic.Ring

/-!
# Packet buffers and the machine integers of the program

`tcpglobal.h`: a packet is a buffer of `PACKET_SIZE` bytes, read and written through
`uint32_t *` and `uint16_t *` casts (little endian).  An unsigned 32-bit value is a natural number
below `2 ^ 32` here; where an operation of the program may leave that range the wrap-around is
written out (`u32`, `u32Sub`, `toU32`, `toInt32`).
-/

namespace Tcp118

/-- `PACKET_SIZE`. -/
abbrev packetSize : ℕ := 1024

/-- `HEADER_SIZE`. -/
abbrev headerSize : ℕ := 12

/-- `MAX_BODY_SIZE`. -/
abbrev maxBodySize : ℕ := 1012

/-! ### Machine integers -/

/-- The value a `uint32_t` holds for a natural number. -/
def u32 (x : ℕ) : ℕ := x % 2 ^ 32

/-- The difference of two `uint32_t` values. -/
def u32Sub (x y : ℕ) : ℕ := (x + 2 ^ 32 - y) % 2 ^ 32

/-- The conversion of an `int` to `uint32_t`. -/
def toU32 (x : ℤ) : ℕ := (x % 2 ^ 32).toNat

/-- The conversion of an unsigned value to a 32-bit `int`. -/
def toInt32 (x : ℕ) : ℤ :=
  if x % 2 ^ 32 < 2 ^ 31 then (x % 2 ^ 32 : ℕ) else (x % 2 ^ 32 : ℕ) - 2 ^ 32

theorem u32_of_lt {x : ℕ} (h : x < 2 ^ 32) : u32 x = x := Nat.mod_eq_of_lt h

theorem u32Sub_of_le {x y : ℕ} (hx : x < 2 ^ 32) (h : y ≤ x) : u32Sub x y = x - y := by
  unfold u32Sub; omega

theorem u32Sub_of_lt {x y : ℕ} (hy : y < 2 ^ 32) (h : x < y) :
    u32Sub x y = x + 2 ^ 32 - y := by
  unfold u32Sub; omega

theorem toInt32_of_lt {x : ℕ} (h : x < 2 ^ 31) : toInt32 x = x := by
  unfold toInt32
  rw [Nat.mod_eq_of_lt (by omega), if_pos h]

theorem toU32_natCast {x : ℕ} (h : x < 2 ^ 32) : toU32 x = x := by
  unfold toU32; omega

/-! ### Buffers -/

/-- A packet buffer of `PACKET_SIZE` bytes. -/
abbrev Packet := Vector UInt8 packetSize

namespace Packet

/-- The byte at offset `i`. -/
def byte (pkt : Packet) (i : ℕ) : UInt8 := if h : i < packetSize then pkt.get ⟨i, h⟩ else 0

/-- The packet whose byte at offset `i` is `f i`. -/
def ofBytes (f : ℕ → UInt8) : Packet := Vector.ofFn fun i => f i.val

theorem byte_ofBytes {f : ℕ → UInt8} {i : ℕ} (h : i < packetSize) : (ofBytes f).byte i = f i := by
  unfold byte ofBytes
  rw [dif_pos h]
  change (Vector.ofFn fun i : Fin packetSize => f i.val)[i] = f i
  rw [Vector.getElem_ofFn]

theorem ext_byte {p q : Packet} (h : ∀ i < packetSize, p.byte i = q.byte i) : p = q := by
  apply Vector.ext
  intro i hi
  have := h i hi
  unfold byte at this
  rwa [dif_pos hi, dif_pos hi] at this

/-- `((uint32_t *)pkt)[k]`. -/
def word32 (pkt : Packet) (k : ℕ) : ℕ :=
  (pkt.byte (4 * k)).toNat + 2 ^ 8 * (pkt.byte (4 * k + 1)).toNat +
    2 ^ 16 * (pkt.byte (4 * k + 2)).toNat + 2 ^ 24 * (pkt.byte (4 * k + 3)).toNat

/-- `((uint32_t *)pkt)[k] = w`. -/
def setWord32 (pkt : Packet) (k w : ℕ) : Packet :=
  ofBytes fun i => if i / 4 = k then UInt8.ofNat (w / 2 ^ (8 * (i % 4))) else pkt.byte i

theorem word32_lt (pkt : Packet) (k : ℕ) : pkt.word32 k < 2 ^ 32 := by
  have h0 := (pkt.byte (4 * k)).toNat_lt
  have h1 := (pkt.byte (4 * k + 1)).toNat_lt
  have h2 := (pkt.byte (4 * k + 2)).toNat_lt
  have h3 := (pkt.byte (4 * k + 3)).toNat_lt
  unfold word32
  omega

theorem byte_setWord32_of_ne {pkt : Packet} {k w i : ℕ} (h : i / 4 ≠ k) :
    (pkt.setWord32 k w).byte i = pkt.byte i := by
  by_cases hi : i < packetSize
  · rw [setWord32, byte_ofBytes hi, if_neg h]
  · simp [byte, hi]

theorem byte_setWord32_self {pkt : Packet} {k w j : ℕ} (hk : k < 256) (hj : j < 4) :
    (pkt.setWord32 k w).byte (4 * k + j) = UInt8.ofNat (w / 2 ^ (8 * j)) := by
  have hdiv : (4 * k + j) / 4 = k := by omega
  have hmod : (4 * k + j) % 4 = j := by omega
  rw [setWord32, byte_ofBytes (by simp only [packetSize]; omega), if_pos hdiv, hmod]

@[simp] theorem word32_setWord32_self {pkt : Packet} {k w : ℕ} (hk : k < 256) (hw : w < 2 ^ 32) :
    (pkt.setWord32 k w).word32 k = w := by
  have h0 : (pkt.setWord32 k w).byte (4 * k + 0) = UInt8.ofNat (w / 2 ^ (8 * 0)) :=
    byte_setWord32_self hk (by omega)
  rw [Nat.add_zero] at h0
  unfold word32
  rw [h0, byte_setWord32_self hk (by omega), byte_setWord32_self hk (by omega),
    byte_setWord32_self hk (by omega)]
  simp only [UInt8.toNat_ofNat']
  omega

theorem word32_setWord32_of_ne {pkt : Packet} {k l w : ℕ} (h : l ≠ k) :
    (pkt.setWord32 k w).word32 l = pkt.word32 l := by
  unfold word32
  rw [byte_setWord32_of_ne (by omega), byte_setWord32_of_ne (by omega),
    byte_setWord32_of_ne (by omega), byte_setWord32_of_ne (by omega)]

end Packet

end Tcp118
