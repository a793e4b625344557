import Mathlib
import MediaRelay.Media.Ogg.Crc

-- The page checksum, three ways. The table of 256 entries feeds a byte at a time; the bitwise
-- register shifts a bit at a time; and the checksum as the remainder of the message, times x^32,
-- by the generator polynomial over GF(2). A shift of the register is linear in exclusive or
-- (`shiftBit_xor`), so a byte fed through the table is the same as its eight shifts
-- (`crcStep_eq_bitwiseStep`); and a shift multiplies the register's polynomial by x and reduces it
-- by the generator (`wordPoly_shiftBit`), so the register always holds the remainder
-- (`wordPoly_crcBitwise`). A page's checksum feeds its bytes with the checksum field read as zeros.

namespace MediaRelay

namespace Ogg

open Polynomial

theorem topBit_eq (r : UInt32) : (r &&& 0x80000000 != 0) = r.toBitVec[31] := by
  have h : (r &&& 0x80000000).toBitVec = r.toBitVec &&& BitVec.twoPow 32 31 := by simp; rfl
  rw [BitVec.and_twoPow, BitVec.getLsbD_eq_getElem (by decide : 31 < 32)] at h
  cases hb : r.toBitVec[31]
  · simp only [hb] at h
    simp [← UInt32.toBitVec_inj, h]
  · simp only [hb] at h
    simp [← UInt32.toBitVec_inj, h]

theorem shiftBit_toBitVec (r : UInt32) :
    (shiftBit r).toBitVec =
      (r.toBitVec <<< 1) ^^^ (if r.toBitVec[31] then polynomial.toBitVec else 0) := by
  unfold shiftBit
  rw [topBit_eq]
  cases r.toBitVec[31] <;> simp

theorem select_xor (x y : Bool) (p : BitVec 32) :
    (if (x ^^ y) then p else 0) = (if x then p else 0) ^^^ (if y then p else 0) := by
  cases x <;> cases y <;> simp

theorem shiftBit_xor (a b : UInt32) : shiftBit (a ^^^ b) = shiftBit a ^^^ shiftBit b := by
  apply UInt32.toBitVec_inj.mp
  simp only [shiftBit_toBitVec, UInt32.toBitVec_xor, BitVec.getElem_xor,
    BitVec.shiftLeft_xor_distrib, select_xor]
  ac_rfl

theorem shiftBits_xor (n : Nat) (a b : UInt32) :
    shiftBits n (a ^^^ b) = shiftBits n a ^^^ shiftBits n b := by
  induction n generalizing a b with
  | zero => rfl
  | succ n ih => rw [shiftBits, shiftBits, shiftBits, shiftBit_xor, ih]

-- While the top `k` bits are clear, `k` shifts never reduce by the polynomial.
theorem shiftBits_of_top_clear (k : Nat) (y : UInt32)
    (hy : ∀ i (hi : i < 32), 32 - k ≤ i → y.toBitVec[i] = false) :
    (shiftBits k y).toBitVec = y.toBitVec <<< k := by
  induction k generalizing y with
  | zero => simp [shiftBits]
  | succ k ih =>
    have htop : y.toBitVec[31] = false := hy 31 (by omega) (by omega)
    have hshift : (shiftBit y).toBitVec = y.toBitVec <<< 1 := by
      rw [shiftBit_toBitVec, htop]
      simp
    rw [shiftBits, ih]
    · rw [hshift, ← BitVec.shiftLeft_add, Nat.add_comm]
    · intro i hi hk
      rw [hshift, BitVec.getElem_shiftLeft]
      have := hy (i - 1) (by omega) (by omega)
      simp [this]

theorem lowMask_getElem (i : Nat) (hi : i < 32) : (0x00FFFFFF#32)[i] = decide (i < 24) := by
  rw [← BitVec.getLsbD_eq_getElem, BitVec.getLsbD_ofNat,
    show (0x00FFFFFF : Nat) = 2 ^ 24 - 1 from rfl, Nat.testBit_two_pow_sub_one]
  simp [hi]

theorem shiftBits_low (r : UInt32) : shiftBits 8 (r &&& 0x00FFFFFF) = r <<< 8 := by
  apply UInt32.toBitVec_inj.mp
  rw [shiftBits_of_top_clear]
  · apply BitVec.eq_of_getElem_eq
    intro i hi
    have : i - 8 < 24 := by omega
    simp [BitVec.getElem_shiftLeft, lowMask_getElem, this]
  · intro i hi h8
    simp [lowMask_getElem]
    omega

-- The byte fed in meets the register's top byte: that pair is the table's index.
theorem split_top (crc : UInt32) (b : UInt8) :
    crc ^^^ (b.toUInt32 <<< 24) =
      (crc &&& (0x00FFFFFF : UInt32)) ^^^ (((crc >>> 24).toUInt8 ^^^ b).toUInt32 <<< 24) := by
  apply UInt32.toBitVec_inj.mp
  apply BitVec.eq_of_getElem_eq
  intro i hi
  by_cases h : i < 24
  · simp [BitVec.getElem_shiftLeft, lowMask_getElem, h]
  · have e : i - 24 < 8 := by omega
    simp [BitVec.getElem_shiftLeft, lowMask_getElem, h, e, -UInt32.toUInt32_toUInt8,
      -UInt8.toUInt32_xor]
    rw [show 24 + (i - 24) = i by omega, BitVec.getLsbD_eq_getElem hi]

theorem crcTable_getElem (i : UInt8) : crcTable[i.toFin] = shiftBits 8 (i.toUInt32 <<< 24) := by
  rw [crcTable, Fin.getElem_fin, Vector.getElem_ofFn, tableEntry]
  congr 2
  apply UInt32.toNat_inj.mp
  simp [Nat.toUInt32]

theorem crcStep_eq_bitwiseStep (crc : UInt32) (b : UInt8) : crcStep crc b = bitwiseStep crc b := by
  rw [bitwiseStep, split_top, shiftBits_xor, shiftBits_low, crcStep, crcTable_getElem]

theorem crcUpdate_eq_bitwise (crc : UInt32) (bs : Octets) :
    crcUpdate crc bs = bs.foldl bitwiseStep crc := by
  induction bs generalizing crc with
  | nil => rfl
  | cons b bs ih => rw [crcUpdate, List.foldl_cons, List.foldl_cons, crcStep_eq_bitwiseStep, ← ih,
      crcUpdate]

theorem crc32_eq_crcBitwise (bs : Octets) : crc32 bs = crcBitwise bs :=
  crcUpdate_eq_bitwise 0 bs

theorem crcUpdate_append (crc : UInt32) (xs ys : Octets) :
    crcUpdate crc (xs ++ ys) = crcUpdate (crcUpdate crc xs) ys :=
  List.foldl_append

-- Bit `i` of a register is the coefficient of `x^i`.
noncomputable def wordPoly (w : UInt32) : (ZMod 2)[X] :=
  ∑ i ∈ Finset.range 32, C ((w.toBitVec.getLsbD i).toNat : ZMod 2) * X ^ i

-- The generator polynomial: `x^32` and the bits of `polynomial` below it.
noncomputable def generator : (ZMod 2)[X] := X ^ 32 + wordPoly polynomial

-- A message as a polynomial: its bits in order, the first byte's top bit the highest term.
noncomputable def messagePoly (bs : Octets) : (ZMod 2)[X] :=
  bs.foldl (fun p b => p * X ^ 8 + wordPoly b.toUInt32) 0

theorem coeff_wordPoly (w : UInt32) (n : Nat) :
    (wordPoly w).coeff n = ((w.toBitVec.getLsbD n).toNat : ZMod 2) := by
  simp only [wordPoly, finsetSum_coeff, coeff_C_mul, coeff_X_pow]
  simp only [mul_ite, mul_one, mul_zero, Finset.sum_ite_eq, Finset.mem_range]
  split_ifs with h
  · rfl
  · rw [BitVec.getLsbD_of_ge _ _ (by omega)]
    rfl

theorem toNat_xor (a b : Bool) : ((a ^^ b).toNat : ZMod 2) = a.toNat + b.toNat := by
  cases a <;> cases b <;> decide

theorem wordPoly_zero : wordPoly 0 = 0 := by
  ext n
  rw [coeff_wordPoly, coeff_zero]
  simp

theorem degree_wordPoly_lt (w : UInt32) : (wordPoly w).degree < (32 : ℕ) := by
  rw [degree_lt_iff_coeff_zero]
  intro m hm
  rw [coeff_wordPoly, BitVec.getLsbD_of_ge _ _ hm]
  rfl

theorem generator_monic : generator.Monic :=
  monic_X_pow_add (degree_wordPoly_lt _)

theorem degree_generator : generator.degree = (32 : ℕ) := by
  rw [generator, degree_add_eq_left_of_degree_lt] <;> rw [degree_X_pow]
  exact degree_wordPoly_lt _

-- A register is the remainder of every polynomial it differs from by a multiple of the generator.
theorem modByMonic_generator {p : (ZMod 2)[X]} {w : UInt32} (h : generator ∣ p - wordPoly w) :
    p %ₘ generator = wordPoly w := by
  obtain ⟨q, hq⟩ := h
  refine (div_modByMonic_unique q (wordPoly w) generator_monic ⟨?_, ?_⟩).2
  · rw [← hq]
    ring
  · rw [degree_generator]
    exact degree_wordPoly_lt w

theorem wordPoly_xor (a b : UInt32) : wordPoly (a ^^^ b) = wordPoly a + wordPoly b := by
  ext n
  rw [coeff_add, coeff_wordPoly, coeff_wordPoly, coeff_wordPoly, UInt32.toBitVec_xor,
    BitVec.getLsbD_xor, toNat_xor]

-- One shift multiplies by `x`; a bit shifted out takes the generator away.
theorem wordPoly_shiftBit (r : UInt32) :
    wordPoly (shiftBit r) = wordPoly r * X + C (r.toBitVec[31].toNat : ZMod 2) * generator := by
  ext n
  rw [coeff_add, coeff_C_mul, generator, coeff_add, coeff_wordPoly, coeff_wordPoly, coeff_X_pow,
    shiftBit_toBitVec, BitVec.getLsbD_xor, toNat_xor, BitVec.getLsbD_shiftLeft]
  cases n with
  | zero => cases r.toBitVec[31] <;> simp
  | succ n =>
    rw [coeff_mul_X, coeff_wordPoly]
    rcases Nat.lt_trichotomy (n + 1) 32 with h | h | h
    · cases r.toBitVec[31] <;> simp [h, show n + 1 ≠ 32 by omega]
    · -- the bit shifted out cancels the generator's leading term
      obtain rfl : n = 31 := by omega
      cases hr : r.toBitVec[31] <;> simp [hr, BitVec.getLsbD_eq_getElem]
      decide
    · cases r.toBitVec[31] <;> simp [show ¬n + 1 < 32 by omega, show n + 1 ≠ 32 by omega,
        BitVec.getLsbD_of_ge _ _ (show 32 ≤ n by omega),
        BitVec.getLsbD_of_ge _ _ (show 32 ≤ n + 1 by omega)]

theorem dvd_shiftBits (n : Nat) (r : UInt32) :
    generator ∣ wordPoly (shiftBits n r) - wordPoly r * X ^ n := by
  induction n generalizing r with
  | zero => simp [shiftBits]
  | succ n ih =>
    have e : wordPoly (shiftBits n (shiftBit r)) - wordPoly r * X ^ (n + 1) =
        (wordPoly (shiftBits n (shiftBit r)) - wordPoly (shiftBit r) * X ^ n) +
          generator * (C (r.toBitVec[31].toNat : ZMod 2) * X ^ n) := by
      rw [wordPoly_shiftBit]
      ring
    rw [shiftBits, e]
    exact dvd_add (ih _) (dvd_mul_right _ _)

theorem wordPoly_byte_shift (b : UInt8) : wordPoly (b.toUInt32 <<< 24) = wordPoly b.toUInt32 * X ^ 24 := by
  ext n
  rw [coeff_mul_X_pow', coeff_wordPoly]
  split_ifs with h
  · rw [coeff_wordPoly]
    by_cases h32 : n < 32
    · simp [h32, show ¬n < 24 by omega, show n - 24 < 32 by omega]
    · simp [h32, BitVec.getLsbD_of_ge b.toBitVec (n - 24) (by omega)]
  · simp [show n < 24 by omega]

theorem dvd_bitwiseStep (r : UInt32) (b : UInt8) :
    generator ∣ wordPoly (bitwiseStep r b) - (wordPoly r * X ^ 8 + wordPoly b.toUInt32 * X ^ 32) := by
  have h := dvd_shiftBits 8 (r ^^^ (b.toUInt32 <<< 24))
  rw [wordPoly_xor, wordPoly_byte_shift] at h
  rw [bitwiseStep]
  convert h using 2
  ring

-- The register after a run of bytes is the running message times `x^32`, up to the generator.
theorem dvd_foldl_bitwiseStep (bs : Octets) (r : UInt32) (p : (ZMod 2)[X])
    (h : generator ∣ wordPoly r - p * X ^ 32) :
    generator ∣ wordPoly (bs.foldl bitwiseStep r) -
      bs.foldl (fun p b => p * X ^ 8 + wordPoly b.toUInt32) p * X ^ 32 := by
  induction bs generalizing r p with
  | nil => exact h
  | cons b bs ih =>
    apply ih
    have e : wordPoly (bitwiseStep r b) - (p * X ^ 8 + wordPoly b.toUInt32) * X ^ 32 =
        (wordPoly (bitwiseStep r b) - (wordPoly r * X ^ 8 + wordPoly b.toUInt32 * X ^ 32)) +
          (wordPoly r - p * X ^ 32) * X ^ 8 := by
      ring
    rw [e]
    exact dvd_add (dvd_bitwiseStep r b) (dvd_mul_of_dvd_left h _)

theorem wordPoly_crcBitwise (bs : Octets) :
    wordPoly (crcBitwise bs) = (messagePoly bs * X ^ 32) %ₘ generator := by
  have h := dvd_foldl_bitwiseStep bs 0 0 (by simp [wordPoly_zero])
  exact (modByMonic_generator (dvd_sub_comm.mp h)).symm

-- The checksum fed through the table is the bitwise CRC, and that is the remainder of the message
-- times `x^32` by the generator; a page's checksum is the checksum of the page with its checksum
-- field read as four zero bytes.
theorem checksum_is_generator_remainder :
    (∀ data : Octets, crc32 data = crcBitwise data ∧
      wordPoly (crc32 data) = (messagePoly data * X ^ 32) %ₘ generator) ∧
    ∀ page : Octets, pageCrc page = crc32 (page.take 22 ++ [0, 0, 0, 0] ++ page.drop 26) := by
  refine ⟨fun data => ⟨crc32_eq_crcBitwise data, ?_⟩, fun page => ?_⟩
  · rw [crc32_eq_crcBitwise]
    exact wordPoly_crcBitwise data
  · rw [crc32, crcUpdate_append, crcUpdate_append]
    rfl

-- The check value of this CRC: the digits `1` to `9`.
example : crc32 [0x31, 0x32, 0x33, 0x34, 0x35, 0x36, 0x37, 0x38, 0x39] = 0x89A1897F := by
  decide +kernel

end Ogg

end MediaRelay
