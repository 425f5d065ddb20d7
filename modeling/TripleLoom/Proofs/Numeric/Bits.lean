import Mathlib
import TripleLoom.Numeric.Binary

/-!
# TripleLoom.Proofs.Numeric.Bits — floats and doubles as their patterns

A float or double is given by its pattern of bits, in which there is only one "not a number": a pattern is
the same after it has been unpacked and packed again, but for the others of "not a number", which become
that one (`Float.Model.UnpackedFloat.pack_unpack`).  So a float made of a pattern has that pattern
(`BinaryFormat.toBits_ofBits_single`, `BinaryFormat.toBits_ofBits_double`), and whether it is zero or
"not a number" is read off it.
-/

namespace TripleLoom

open Float.Model (Format UnpackedFloat)
open Float.Model.UnpackedFloat

/-! ### The fields of a pattern -/

section Fields

variable {spec : Format} (b : BitVec spec.numBits)

theorem toNat_unpackMantissa : (unpackMantissa b).toNat = b.toNat % 2 ^ spec.mantissaBitsWithoutImplicit := by
  have hm := spec.hm
  rw [unpackMantissa, BitVec.toNat_cast, BitVec.extractLsb_toNat, Nat.shiftRight_zero]
  congr 2
  omega

theorem toNat_unpackExponent :
    (unpackExponent b).toNat = b.toNat / 2 ^ spec.mantissaBitsWithoutImplicit % 2 ^ spec.exponentBits := by
  have he := spec.he
  rw [unpackExponent, BitVec.toNat_cast, BitVec.extractLsb_toNat, Nat.shiftRight_eq_div_pow]
  congr 2
  omega

theorem toNat_packComponents (s : Sign) (e : BitVec spec.exponentBits)
    (m : BitVec spec.mantissaBitsWithoutImplicit) :
    (packComponents spec s e m).toNat =
      (s.toBitVec.toNat * 2 ^ spec.exponentBits + e.toNat) * 2 ^ spec.mantissaBitsWithoutImplicit +
        m.toNat := by
  rw [packComponents, BitVec.toNat_append, BitVec.toNat_append, ← Nat.shiftLeft_add_eq_or_of_lt e.isLt,
    ← Nat.shiftLeft_add_eq_or_of_lt m.isLt, Nat.shiftLeft_eq, Nat.shiftLeft_eq]

/-! ### Patterns as numbers -/

namespace BinaryFormat

/-- The layout of a floating-point format. -/
def ofFormat (spec : Format) : BinaryFormat := ⟨spec.mantissaBitsWithoutImplicit, spec.exponentBits⟩

/-- Whether a pattern is one of those of "not a number". -/
def IsNaN (f : BinaryFormat) (bits : Nat) : Prop := f.infinity < bits % f.signBit

/-- Whether a pattern is one of the two of zero. -/
def IsZero (f : BinaryFormat) (bits : Nat) : Prop := bits % f.signBit = 0

instance (f : BinaryFormat) (bits : Nat) : Decidable (f.IsNaN bits) := inferInstanceAs (Decidable (_ < _))

/-- The pattern that a pattern becomes: there is only one of "not a number". -/
def canonical (f : BinaryFormat) (bits : Nat) : Nat := if f.IsNaN bits then f.notANumber else bits

theorem mod_signBit_eq :
    b.toNat % (ofFormat spec).signBit =
      (unpackMantissa b).toNat + 2 ^ spec.mantissaBitsWithoutImplicit * (unpackExponent b).toNat := by
  rw [toNat_unpackMantissa, toNat_unpackExponent, ← Nat.mod_mul, ← Nat.pow_add]
  rfl

theorem isNaN_iff_isNaNBits : (ofFormat spec).IsNaN b.toNat ↔ isNaNBits b := by
  have hm := (unpackMantissa b).isLt
  have he := (unpackExponent b).isLt
  have hinfinity : (ofFormat spec).infinity =
      2 ^ spec.mantissaBitsWithoutImplicit * (2 ^ spec.exponentBits - 1) := Nat.mul_comm _ _
  rw [isNaNBits, decide_eq_true_iff, IsNaN, mod_signBit_eq, hinfinity, ← BitVec.toNat_inj, ne_eq,
    ← BitVec.toNat_inj, BitVec.neg_one_eq_allOnes, BitVec.toNat_allOnes, BitVec.toNat_zero]
  generalize (unpackMantissa b).toNat = m at *
  generalize (unpackExponent b).toNat = e at *
  generalize 2 ^ spec.mantissaBitsWithoutImplicit = size at *
  constructor
  · intro h
    have hle : 2 ^ spec.exponentBits - 1 ≤ e := by
      by_contra hlt
      have hmul : size * (e + 1) ≤ size * (2 ^ spec.exponentBits - 1) := Nat.mul_le_mul_left _ (by omega)
      rw [Nat.mul_succ] at hmul
      omega
    obtain rfl : e = 2 ^ spec.exponentBits - 1 := by omega
    omega
  · rintro ⟨rfl, hzero⟩
    omega

theorem isZero_iff : (ofFormat spec).IsZero b.toNat ↔ unpackExponent b = 0#_ ∧ unpackMantissa b = 0#_ := by
  have hsize := Nat.two_pow_pos spec.mantissaBitsWithoutImplicit
  rw [IsZero, mod_signBit_eq, Nat.add_eq_zero_iff, Nat.mul_eq_zero, or_iff_right (Nat.ne_of_gt hsize),
    ← BitVec.toNat_inj, ← BitVec.toNat_inj, BitVec.toNat_zero, BitVec.toNat_zero, and_comm]

theorem toNat_packedNaN : (packedNaN spec).toNat = (ofFormat spec).notANumber := by
  have hm := spec.hm
  have hpayload : (1#(spec.mantissaBitsWithoutImplicit) <<< (spec.mantissaBitsWithoutImplicit - 1)).toNat =
      2 ^ (spec.mantissaBitsWithoutImplicit - 1) := by
    rw [BitVec.toNat_shiftLeft, BitVec.toNat_ofNat, Nat.one_mod_two_pow hm, Nat.one_shiftLeft]
    exact Nat.mod_eq_of_lt (Nat.pow_lt_pow_right (by decide) (by omega))
  have hsign : Sign.positive.toBitVec.toNat = 0 := rfl
  rw [packedNaN, toNat_packComponents, hpayload, BitVec.neg_one_eq_allOnes, BitVec.toNat_allOnes, hsign,
    Nat.zero_mul, Nat.zero_add]
  rfl

theorem toNat_pack_unpack (he : 2 ≤ spec.exponentBits) :
    (UnpackedFloat.pack spec (UnpackedFloat.unpack spec b)).toNat = (ofFormat spec).canonical b.toNat := by
  rw [pack_unpack b he, canonical, if_congr (isNaN_iff_isNaNBits b) rfl rfl]
  split
  · exact toNat_packedNaN
  · rfl

variable {b} (hb : spec.Valid b) (he : 2 ≤ spec.exponentBits)

include hb he

/-- Only patterns of "not a number" stand for it. -/
theorem isNaN_unpack_iff : (UnpackedFloat.unpack spec b).isNaN ↔ (ofFormat spec).IsNaN b.toNat := by
  rw [isNaN_unpack_iff_of_valid hb he, isNaN_iff_isNaNBits]
  constructor
  · rintro rfl
    exact isNaNBits_packedNaN
  · intro h
    rw [isNaNBits, decide_eq_true_iff] at h
    exact hb.eq_packedNaN h.1 h.2

/-- Only the two patterns of zero stand for a number equal to zero. -/
theorem beq_zero_iff (sign : Sign) :
    (UnpackedFloat.unpack spec b).beq (.zero sign) ↔ (ofFormat spec).IsZero b.toNat := by
  have hzero : (∃ s, UnpackedFloat.unpack spec b = .zero s) ↔ (ofFormat spec).IsZero b.toNat := by
    simp only [unpack_eq_zero_iff_of_valid hb he, isZero_iff]
    constructor
    · rintro ⟨s, rfl⟩
      exact ⟨unpackExponent_packComponents .., unpackMantissa_packComponents ..⟩
    · rintro ⟨hexponent, hmantissa⟩
      have hpacked := packComponents_unpackSign_unpackExponent_unpackMantissa b
      rw [hexponent, hmantissa] at hpacked
      exact ⟨_, hpacked.symm⟩
  rw [← hzero, beq_iff_ne_notANumber_and_eq]
  constructor
  · rintro ⟨-, -, h | ⟨h, -⟩ | ⟨h, -⟩⟩ <;> exact ⟨_, h⟩
  · rintro ⟨s, h⟩
    rw [h]
    refine ⟨nofun, nofun, ?_⟩
    cases s <;> cases sign <;> simp

end BinaryFormat

end Fields

/-! ### Floats and doubles -/

namespace BinaryFormat

theorem toBits_ofBits_single {n : Nat} (hn : n < 2 ^ 32) :
    (Float32.ofBits (.ofNat n)).toBits.toNat = single.canonical n := by
  have h := @toNat_pack_unpack .binary32 (UInt32.ofNat n).toBitVec (by decide)
  have hbits : (UInt32.ofNat n).toBitVec.toNat = n := UInt32.toNat_ofNat_of_lt' hn
  rwa [hbits] at h

theorem toBits_ofBits_double {n : Nat} (hn : n < 2 ^ 64) :
    (Float.ofBits (.ofNat n)).toBits.toNat = double.canonical n := by
  have h := @toNat_pack_unpack .binary64 (UInt64.ofNat n).toBitVec (by decide)
  have hbits : (UInt64.ofNat n).toBitVec.toNat = n := UInt64.toNat_ofNat_of_lt' hn
  rwa [hbits] at h

theorem isNaN_single_iff (a : Float32) : a.isNaN ↔ single.IsNaN a.toBits.toNat :=
  isNaN_unpack_iff a.toModel.valid (by decide)

theorem isNaN_double_iff (a : Float) : a.isNaN ↔ double.IsNaN a.toBits.toNat :=
  isNaN_unpack_iff a.toModel.valid (by decide)

theorem beq_zero_single_iff (a : Float32) : a == 0 ↔ single.IsZero a.toBits.toNat :=
  beq_zero_iff a.toModel.valid (by decide) .positive

theorem beq_zero_double_iff (a : Float) : a == 0 ↔ double.IsZero a.toBits.toNat :=
  beq_zero_iff a.toModel.valid (by decide) .positive

end BinaryFormat

end TripleLoom
