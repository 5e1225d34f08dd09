/-!
# Byte strings

A byte string is a list of bytes: a reader of one recurses on the data and hands on whatever
it did not consume. Numbers of a fixed width are written in base 256, in either order of
significance. Writing keeps a number modulo the width (`ofLittleEndian_littleEndian`), and
every byte string is the writing of its own number (`littleEndian_ofLittleEndian`), so the
two directions undo each other on numbers that fit.
-/

namespace CodeGolf

/-- A string of bytes. -/
abbrev Bytes := List UInt8

namespace Bytes

/-! ## Least significant byte first -/

/-- The `width` lowest base-256 digits of `n`, the least significant one first. -/
def littleEndian : (width n : Nat) → Bytes
  | 0, _ => []
  | width + 1, n => UInt8.ofNat n :: littleEndian width (n / 256)

/-- The number whose base-256 digits, the least significant one first, are the bytes. -/
def ofLittleEndian : Bytes → Nat
  | [] => 0
  | b :: rest => b.toNat + 256 * ofLittleEndian rest

/-- A number has as many bytes as it is given. -/
@[simp] theorem length_littleEndian (width n : Nat) : (littleEndian width n).length = width := by
  induction width generalizing n with
  | zero => rfl
  | succ width ih => simp [littleEndian, ih]

/-- Writing a number keeps it modulo the width. -/
theorem ofLittleEndian_littleEndian (width n : Nat) :
    ofLittleEndian (littleEndian width n) = n % Nat.pow 256 width := by
  induction width generalizing n with
  | zero => simp [littleEndian, ofLittleEndian, Nat.mod_one]
  | succ width ih =>
    have low : (UInt8.ofNat n).toNat = n % 256 := by simp
    have succ : Nat.pow 256 (width + 1) = 256 * Nat.pow 256 width := Nat.mul_comm ..
    rw [littleEndian, ofLittleEndian, ih, low, succ, Nat.mod_mul]

/-- Every byte string is the writing of its own number. -/
theorem littleEndian_ofLittleEndian (bytes : Bytes) :
    littleEndian bytes.length (ofLittleEndian bytes) = bytes := by
  induction bytes with
  | nil => rfl
  | cons b rest ih =>
    have hb : b.toNat < 256 := b.toNat_lt
    have low : UInt8.ofNat (b.toNat + 256 * ofLittleEndian rest) = b := by
      apply UInt8.toNat_inj.mp
      simp
    have high : (b.toNat + 256 * ofLittleEndian rest) / 256 = ofLittleEndian rest := by omega
    rw [List.length_cons, littleEndian, ofLittleEndian, low, high, ih]

/-- A byte string of length `width` spells a number below `256 ^ width`. -/
theorem ofLittleEndian_lt (bytes : Bytes) : ofLittleEndian bytes < Nat.pow 256 bytes.length := by
  induction bytes with
  | nil => simp [ofLittleEndian]
  | cons b rest ih =>
    have hb : b.toNat < 256 := b.toNat_lt
    have succ : Nat.pow 256 (b :: rest).length = 256 * Nat.pow 256 rest.length := Nat.mul_comm ..
    rw [ofLittleEndian, succ]
    omega

/-! ## Most significant byte first -/

/-- The `width` lowest base-256 digits of `n`, the most significant one first. -/
def bigEndian (width n : Nat) : Bytes := (littleEndian width n).reverse

/-- The number whose base-256 digits, the most significant one first, are the bytes. -/
def ofBigEndian (bytes : Bytes) : Nat := ofLittleEndian bytes.reverse

/-- A number has as many bytes as it is given, most significant first. -/
@[simp] theorem length_bigEndian (width n : Nat) : (bigEndian width n).length = width := by
  simp [bigEndian]

/-- The bytes of a number spell it, as far as they can hold it. -/
theorem ofBigEndian_bigEndian (width n : Nat) :
    ofBigEndian (bigEndian width n) = n % Nat.pow 256 width := by
  rw [ofBigEndian, bigEndian, List.reverse_reverse, ofLittleEndian_littleEndian]

/-- Bytes are those of the number that they spell. -/
theorem bigEndian_ofBigEndian (bytes : Bytes) :
    bigEndian bytes.length (ofBigEndian bytes) = bytes := by
  have h := littleEndian_ofLittleEndian bytes.reverse
  rw [List.length_reverse] at h
  rw [bigEndian, ofBigEndian, h, List.reverse_reverse]

/-- Two numbers that fit their common width are equal if their writings are. -/
theorem bigEndian_injective {width m n : Nat} (hm : m < Nat.pow 256 width)
    (hn : n < Nat.pow 256 width) (h : bigEndian width m = bigEndian width n) : m = n := by
  have := congrArg ofBigEndian h
  rwa [ofBigEndian_bigEndian, ofBigEndian_bigEndian, Nat.mod_eq_of_lt hm, Nat.mod_eq_of_lt hn]
    at this

end Bytes

end CodeGolf
