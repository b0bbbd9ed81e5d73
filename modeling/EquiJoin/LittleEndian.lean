/-
Little-endian numbers. `encode w n` writes the low `w` bytes of `n`, least significant byte first, and `decode` reads a
byte string as a number. Everything the join table keeps in memory (links, hashes, lengths, row locations, control
words) goes through these two functions.

* `decode_encode`: reading back what was written gives the number modulo `1 <<< (8 * w)`;
* `encode_decode`: writing back what was read gives the bytes;
* `decode_lt`: a string of `w` bytes is below `1 <<< (8 * w)`.
-/
namespace EquiJoin

/-- byte strings: keys, payloads, encoded rows -/
abbrev Bytes := List UInt8

namespace LittleEndian

/-- the low `w` bytes of `n`, least significant first -/
def encode : Nat → Nat → Bytes
  | 0, _ => []
  | w + 1, n => UInt8.ofNat (n % 256) :: encode w (n / 256)

/-- the number that a byte string spells, least significant byte first -/
def decode : Bytes → Nat
  | [] => 0
  | b :: r => b.toNat + 256 * decode r

@[simp] theorem length_encode (w n : Nat) : (encode w n).length = w := by
  induction w generalizing n with
  | zero => rfl
  | succ w ih => simp [encode, ih]

/-- a byte more makes room for 256 times as many numbers -/
theorem room_succ (w : Nat) : 1 <<< (8 * (w + 1)) = 256 * 1 <<< (8 * w) := by
  rw [Nat.one_shiftLeft, Nat.one_shiftLeft, Nat.mul_succ, Nat.pow_add, Nat.mul_comm]

theorem decode_lt (bs : Bytes) : decode bs < 1 <<< (8 * bs.length) := by
  induction bs with
  | nil => exact Nat.one_pos
  | cons b r ih =>
    have hb : b.toNat < 256 := b.toNat_lt
    rw [decode, List.length_cons, room_succ]
    omega

theorem decode_encode (w n : Nat) : decode (encode w n) = n % 1 <<< (8 * w) := by
  induction w generalizing n with
  | zero => exact (Nat.mod_one n).symm
  | succ w ih =>
    have hb : (UInt8.ofNat (n % 256)).toNat = n % 256 := by
      simp [UInt8.toNat_ofNat']
    simp only [encode, decode, ih, hb]
    rw [room_succ, Nat.mod_mul]

/-- numbers that fit are told apart by their bytes -/
theorem encode_inj {w m n : Nat} (hm : m < 1 <<< (8 * w)) (hn : n < 1 <<< (8 * w)) (h : encode w m = encode w n) :
    m = n := by
  rw [← Nat.mod_eq_of_lt hm, ← Nat.mod_eq_of_lt hn, ← decode_encode, ← decode_encode, h]

theorem encode_decode (bs : Bytes) : encode bs.length (decode bs) = bs := by
  induction bs with
  | nil => rfl
  | cons b r ih =>
    have hb : b.toNat < 256 := b.toNat_lt
    have h1 : (b.toNat + 256 * decode r) % 256 = b.toNat := by omega
    have h2 : (b.toNat + 256 * decode r) / 256 = decode r := by omega
    simp [encode, decode, h1, h2, ih]

end LittleEndian

end EquiJoin
