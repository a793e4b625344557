
-- Byte strings are lists of octets. A number stored in a byte string is a base-256 numeral, read
-- with its most significant octet first (big-endian) or last (little-endian).
--
-- The main statements: reading a numeral from two pieces combines the two readings (`beNat_append`,
-- `leNat_append`), and a numeral of `n` octets is below 256 to the power `n` (`beNat_lt`).

namespace MediaRelay

abbrev Octets := List UInt8

namespace Octets

def beNat (bs : Octets) : Nat :=
  bs.foldl (fun acc b => acc * 256 + b.toNat) 0

def leNat (bs : Octets) : Nat :=
  bs.foldr (fun b acc => b.toNat + 256 * acc) 0

def slice (bs : Octets) (i n : Nat) : Octets :=
  (bs.drop i).take n

theorem foldl_beNat_start (bs : Octets) (a : Nat) :
    bs.foldl (fun acc b => acc * 256 + b.toNat) a = a * Nat.pow 256 bs.length + beNat bs := by
  rw [Nat.pow_eq]
  induction bs generalizing a with
  | nil => simp [beNat]
  | cons b bs ih =>
    simp only [List.foldl_cons, beNat, List.length_cons]
    rw [ih, ih (0 * 256 + b.toNat)]
    simp only [Nat.zero_mul, Nat.zero_add, Nat.pow_succ]
    rw [Nat.add_mul, Nat.mul_assoc, Nat.mul_comm 256, Nat.add_assoc]

theorem beNat_append (xs ys : Octets) :
    beNat (xs ++ ys) = beNat xs * Nat.pow 256 ys.length + beNat ys := by
  rw [beNat, List.foldl_append, foldl_beNat_start]
  rfl

theorem leNat_append (xs ys : Octets) :
    leNat (xs ++ ys) = leNat xs + Nat.pow 256 xs.length * leNat ys := by
  rw [Nat.pow_eq]
  induction xs with
  | nil => simp [leNat]
  | cons x xs ih =>
    simp only [leNat, List.foldr_cons, List.cons_append, List.length_cons] at ih ⊢
    rw [ih, Nat.pow_succ, Nat.mul_add, Nat.add_assoc, Nat.mul_comm (256 ^ xs.length) 256,
      Nat.mul_assoc]

theorem beNat_cons (b : UInt8) (bs : Octets) :
    beNat (b :: bs) = b.toNat * Nat.pow 256 bs.length + beNat bs := by
  rw [show b :: bs = [b] ++ bs from rfl, beNat_append]
  simp [beNat]

theorem beNat_lt (bs : Octets) : beNat bs < Nat.pow 256 bs.length := by
  rw [Nat.pow_eq]
  induction bs with
  | nil => simp [beNat]
  | cons b bs ih =>
    rw [beNat_cons, List.length_cons, Nat.pow_eq, Nat.pow_succ]
    have hb : b.toNat ≤ 255 := Nat.le_of_lt_succ b.toNat_lt
    have hm := Nat.mul_le_mul_right (256 ^ bs.length) hb
    generalize b.toNat * 256 ^ bs.length = q at hm ⊢
    omega

end Octets

end MediaRelay
