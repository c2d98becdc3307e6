import Mathlib
import Reckoner.Decimal.Binary

/-!
# Doubles as signs, mantissas and exponents

A finite double is a zero or a sign, a mantissa and an exponent in a canonical form, and its bits
are those of the form.
-/

namespace Reckoner.Decimal

open Float.Model Float.Model.UnpackedFloat

/-- The mantissa and the exponent of a finite double other than zero: a mantissa of 53 binary
digits, or of fewer with the least exponent. -/
structure Canonical (mantissa : Nat) (exponent : Int) : Prop where
  pos : 0 < mantissa
  small : mantissa < 2 ^ 53
  least : -1074 ≤ exponent
  greatest : exponent ≤ 971
  full : 2 ^ 52 ≤ mantissa ∨ exponent = -1074

theorem toNat_packComponents (sign : Sign) (exponent : BitVec 11) (mantissa : BitVec 52) :
    (packComponents Format.binary64 sign exponent mantissa).toNat =
      sign.toBitVec.toNat * 2 ^ 63 + exponent.toNat * 2 ^ 52 + mantissa.toNat := by
  have first := exponent.isLt
  have second := mantissa.isLt
  unfold packComponents
  rw [BitVec.toNat_append, BitVec.toNat_append, ← Nat.shiftLeft_add_eq_or_of_lt first,
    ← Nat.shiftLeft_add_eq_or_of_lt second, Nat.shiftLeft_eq, Nat.shiftLeft_eq]
  change (_ * 2 ^ 11 + _) * 2 ^ 52 + _ = _
  omega

/-! ## Packing and unpacking -/

/-- A finite double in its canonical form. -/
inductive Form : UnpackedFloat → Prop
  | zero (sign : Sign) : Form (.zero sign)
  | finite (sign : Sign) {mantissa : Nat} {exponent : Int}
      (canonical : Canonical mantissa exponent) :
      Form (.finite sign mantissa exponent canonical.pos)

theorem toNat_append_one (mantissa : BitVec 52) :
    (1#1 ++ mantissa).toNat = 2 ^ 52 + mantissa.toNat := by
  rw [BitVec.toNat_append, ← Nat.shiftLeft_add_eq_or_of_lt mantissa.isLt, Nat.shiftLeft_eq]
  rfl

/-- What components are unpacked to. -/
theorem unpack_packComponents (sign : Sign) (exponent : BitVec 11) (mantissa : BitVec 52) :
    UnpackedFloat.unpack Format.binary64 (packComponents Format.binary64 sign exponent mantissa) =
      if exponent = -1#11 then if mantissa = 0#52 then .infinity sign else .notANumber
      else if exponent = 0#11 then
        if h : mantissa = 0#52 then .zero sign
        else .finite sign mantissa.toNat ((exponent.toNat : Int) - 1075 + 1)
          (by simpa [BitVec.toNat_pos, BitVec.pos_iff_ne_zero])
      else .finite sign (1#1 ++ mantissa).toNat ((exponent.toNat : Int) - 1075)
        (by rw [toNat_append_one]; omega) := by
  unfold UnpackedFloat.unpack
  simp only [unpackMantissa_packComponents, unpackExponent_packComponents,
    unpackSign_packComponents, Sign.ofBitVec_toBitVec]
  rfl

theorem finite_congr {sign : Sign} {m m' : Nat} {e e' : Int} {pos : 0 < m} {pos' : 0 < m'}
    (mantissa : m = m') (exponent : e = e') :
    UnpackedFloat.finite sign m e pos = .finite sign m' e' pos' := by
  subst mantissa exponent
  rfl

/-- A canonical form with a full mantissa packs into a biased exponent and the other digits. -/
theorem pack_normal {sign : Sign} {mantissa : Nat} {exponent : Int}
    (canonical : Canonical mantissa exponent) (full : 2 ^ 52 ≤ mantissa) :
    UnpackedFloat.pack Format.binary64 (.finite sign mantissa exponent canonical.pos) =
      packComponents Format.binary64 sign (BitVec.ofNat 11 (exponent + 1075).toNat)
        (BitVec.ofNat 52 mantissa) := by
  obtain ⟨pos, small, least, greatest, _⟩ := canonical
  have length : mantissa.log2 = 52 :=
    (Nat.log2_eq_iff (Nat.ne_of_gt pos)).mpr ⟨full, small⟩
  have biased : exponent + 1023 + 52 = exponent + 1075 := by omega
  unfold UnpackedFloat.pack
  change (if 2 ^ 11 ≤ (exponent + 1023 + 52).toNat + 1 then _ else
    if mantissa.log2 + 1 = 53 then packComponents Format.binary64 sign
      (BitVec.ofNat 11 (exponent + 1023 + 52).toNat) (BitVec.ofNat 52 mantissa) else _) = _
  rw [if_neg (by omega), if_pos (by omega), biased]

/-- A canonical form with a smaller mantissa packs into the mantissa alone. -/
theorem pack_subnormal {sign : Sign} {mantissa : Nat} {exponent : Int}
    (canonical : Canonical mantissa exponent) (small : mantissa < 2 ^ 52) :
    UnpackedFloat.pack Format.binary64 (.finite sign mantissa exponent canonical.pos) =
      packComponents Format.binary64 sign 0#11 (BitVec.ofNat 52 mantissa) := by
  obtain ⟨pos, _, least, greatest, _⟩ := canonical
  have length := (Nat.log2_lt (Nat.ne_of_gt pos)).mpr small
  unfold UnpackedFloat.pack
  change (if 2 ^ 11 ≤ (exponent + 1023 + 52).toNat + 1 then _ else
    if mantissa.log2 + 1 = 53 then _ else
      packComponents Format.binary64 sign 0#11 (BitVec.ofNat 52 mantissa)) = _
  rw [if_neg (by omega), if_neg (by omega)]

theorem ofNat_ne_of_toNat {width n : Nat} (small : n < 2 ^ width) {other : BitVec width}
    (ne : n ≠ other.toNat) : BitVec.ofNat width n ≠ other := by
  rintro rfl
  rw [BitVec.toNat_ofNat, Nat.mod_eq_of_lt small] at ne
  exact ne rfl

theorem unpack_pack {unpacked : UnpackedFloat} (form : Form unpacked) :
    (Float.Model.pack unpacked).unpack = unpacked := by
  change UnpackedFloat.unpack Format.binary64 (UnpackedFloat.pack Format.binary64 unpacked) = _
  cases form with
  | zero sign =>
      change UnpackedFloat.unpack _ (packComponents Format.binary64 sign 0#11 0#52) = _
      rw [unpack_packComponents]
      rfl
  | @finite sign mantissa exponent canonical =>
      have ⟨pos, small, least, greatest, full⟩ := canonical
      by_cases normal : 2 ^ 52 ≤ mantissa
      · have least : (exponent + 1075).toNat ≠ 0 := by omega
        have greatest : (exponent + 1075).toNat < 2047 := by omega
        rw [pack_normal canonical normal, unpack_packComponents,
          if_neg (ofNat_ne_of_toNat (by omega) (Nat.ne_of_lt greatest)),
          if_neg (ofNat_ne_of_toNat (by omega) least)]
        apply finite_congr
        · rw [toNat_append_one, BitVec.toNat_ofNat]
          omega
        · rw [BitVec.toNat_ofNat]
          omega
      · have small := Nat.lt_of_not_le normal
        have some : BitVec.ofNat 52 mantissa ≠ 0#52 :=
          ofNat_ne_of_toNat small (Nat.pos_iff_ne_zero.mp pos)
        rw [pack_subnormal canonical small, unpack_packComponents, if_neg (by decide), if_pos rfl,
          dif_neg some]
        apply finite_congr
        · rw [BitVec.toNat_ofNat, Nat.mod_eq_of_lt small]
        · change (0 : Int) - 1075 + 1 = exponent
          omega

theorem toNat_ne {width : Nat} {first second : BitVec width} (ne : first ≠ second) :
    first.toNat ≠ second.toNat :=
  fun is => ne (BitVec.eq_of_toNat_eq is)

/-- What is unpacked is in a canonical form, unless it is an infinity or the non-number. -/
theorem form_unpack {b : BitVec 64}
    (finite : (UnpackedFloat.unpack Format.binary64 b).isFinite = true) :
    Form (UnpackedFloat.unpack Format.binary64 b) := by
  rw [← @packComponents_unpackSign_unpackExponent_unpackMantissa Format.binary64 b,
    unpack_packComponents] at finite ⊢
  generalize @unpackExponent Format.binary64 b = exponent at finite ⊢
  generalize @unpackMantissa Format.binary64 b = mantissa at finite ⊢
  have exponentSmall : exponent.toNat < 2 ^ 11 := exponent.isLt
  have mantissaSmall : mantissa.toNat < 2 ^ 52 := mantissa.isLt
  by_cases most : exponent = -1#11
  · rw [if_pos most] at finite
    split at finite <;> cases finite
  · have notMost : exponent.toNat ≠ 2047 := toNat_ne most
    rw [if_neg most]
    by_cases least : exponent = 0#11
    · subst least
      rw [if_pos rfl]
      by_cases zero : mantissa = 0#52
      · rw [dif_pos zero]
        exact .zero _
      · have pos : mantissa.toNat ≠ 0 := toNat_ne zero
        have canonical : Canonical mantissa.toNat (-1074) :=
          ⟨by omega, by omega, by omega, by omega, .inr rfl⟩
        rw [dif_neg zero]
        exact .finite _ canonical
    · have notLeast : exponent.toNat ≠ 0 := toNat_ne least
      have canonical : Canonical (1#1 ++ mantissa).toNat ((exponent.toNat : Int) - 1075) := by
        rw [toNat_append_one]
        exact ⟨by omega, by omega, by omega, by omega, .inl (by omega)⟩
      rw [if_neg least]
      exact .finite _ canonical

/-- The double with a canonical form. -/
def ofForm (unpacked : UnpackedFloat) : Float :=
  .ofModel (Float.Model.pack unpacked)

theorem ofForm_unpack (x : Float) : ofForm x.toModel.unpack = x := by
  obtain ⟨⟨bits, valid⟩⟩ := x
  unfold ofForm Float.Model.pack
  congr 2
  exact UInt64.toBitVec_inj.mp (pack_unpack_of_valid valid)

/-- A finite double is that of its canonical form. -/
theorem exists_form {x : Float} (finite : x.isFinite = true) :
    ∃ unpacked, Form unpacked ∧ x = ofForm unpacked :=
  ⟨_, form_unpack finite, (ofForm_unpack x).symm⟩

/-- Only three doubles are not finite. -/
theorem eq_special {x : Float} (infinite : x.isFinite = false) :
    x = Float.ofBits 0x7FF8000000000000 ∨ x = Float.ofBits 0x7FF0000000000000 ∨
      x = Float.ofBits 0xFFF0000000000000 := by
  rw [← ofForm_unpack x]
  change x.toModel.unpack.isFinite = false at infinite
  cases is : x.toModel.unpack with
  | notANumber => exact .inl rfl
  | infinity sign =>
      cases sign with
      | positive => exact .inr (.inl rfl)
      | negative => exact .inr (.inr rfl)
  | zero sign | finite sign mantissa exponent pos =>
      rw [is] at infinite
      cases infinite

/-! ## What is read off the bits -/

section Bits

variable (x : Float)

theorem scale_eq : ((x.toBits >>> 52) &&& 0x7FF).toNat = x.toBits.toNat / 2 ^ 52 % 2 ^ 11 := by
  rw [UInt64.toNat_and, UInt64.toNat_shiftRight]
  change x.toBits.toNat >>> 52 &&& (2 ^ 11 - 1) = _
  rw [Nat.and_two_pow_sub_one_eq_mod, Nat.shiftRight_eq_div_pow]

theorem fraction_eq : (x.toBits &&& 0xFFFFFFFFFFFFF).toNat = x.toBits.toNat % 2 ^ 52 := by
  rw [UInt64.toNat_and]
  change x.toBits.toNat &&& (2 ^ 52 - 1) = _
  rw [Nat.and_two_pow_sub_one_eq_mod]

theorem signBit_eq : signBit x = decide (2 ^ 63 ≤ x.toBits.toNat) := by
  have shifted : (x.toBits >>> 63).toNat = x.toBits.toNat / 2 ^ 63 := by
    rw [UInt64.toNat_shiftRight, ← Nat.shiftRight_eq_div_pow]
    rfl
  unfold signBit
  by_cases large : 2 ^ 63 ≤ x.toBits.toNat
  · rw [decide_eq_true large, bne_iff_ne]
    intro is
    have := congrArg UInt64.toNat is
    rw [shifted] at this
    change _ = 0 at this
    omega
  · rw [decide_eq_false large, bne_eq_false_iff_eq]
    apply UInt64.toNat_inj.mp
    rw [shifted]
    change _ = 0
    omega

end Bits

theorem toNat_toBits_ofForm (sign : Sign) (exponent : BitVec 11) (mantissa : BitVec 52)
    {unpacked : UnpackedFloat} (packed : UnpackedFloat.pack Format.binary64 unpacked =
      packComponents Format.binary64 sign exponent mantissa) :
    (ofForm unpacked).toBits.toNat =
      sign.toBitVec.toNat * 2 ^ 63 + exponent.toNat * 2 ^ 52 + mantissa.toNat := by
  rw [← toNat_packComponents, ← packed]
  rfl

theorem toBits_normal (sign : Sign) {mantissa : Nat} {exponent : Int}
    (canonical : Canonical mantissa exponent) (full : 2 ^ 52 ≤ mantissa) :
    (ofForm (.finite sign mantissa exponent canonical.pos)).toBits.toNat =
      sign.toBitVec.toNat * 2 ^ 63 + (exponent + 1075).toNat * 2 ^ 52 + (mantissa - 2 ^ 52) := by
  have ⟨_, small, least, greatest, _⟩ := canonical
  rw [toNat_toBits_ofForm _ _ _ (pack_normal canonical full), BitVec.toNat_ofNat,
    BitVec.toNat_ofNat]
  omega

theorem toBits_subnormal (sign : Sign) {mantissa : Nat} {exponent : Int}
    (canonical : Canonical mantissa exponent) (small : mantissa < 2 ^ 52) :
    (ofForm (.finite sign mantissa exponent canonical.pos)).toBits.toNat =
      sign.toBitVec.toNat * 2 ^ 63 + mantissa := by
  rw [toNat_toBits_ofForm _ _ _ (pack_subnormal canonical small), BitVec.toNat_ofNat,
    BitVec.toNat_ofNat]
  omega

theorem ofFloat_ofForm (sign : Sign) {mantissa : Nat} {exponent : Int}
    (canonical : Canonical mantissa exponent) :
    (Binary.ofFloat (ofForm (.finite sign mantissa exponent canonical.pos))) =
      ⟨mantissa, exponent, decide (mantissa = 2 ^ 52 ∧ -1074 < exponent)⟩ := by
  have ⟨pos, small, least, greatest, full⟩ := canonical
  have signSmall := sign.toBitVec.isLt
  unfold Binary.ofFloat
  dsimp only
  rw [scale_eq, fraction_eq]
  by_cases normal : 2 ^ 52 ≤ mantissa
  · have scale : (ofForm (.finite sign mantissa exponent pos)).toBits.toNat / 2 ^ 52 % 2 ^ 11 =
        (exponent + 1075).toNat := by
      rw [toBits_normal sign canonical normal]
      omega
    have fraction : (ofForm (.finite sign mantissa exponent pos)).toBits.toNat % 2 ^ 52 =
        mantissa - 2 ^ 52 := by
      rw [toBits_normal sign canonical normal]
      omega
    rw [scale, fraction, if_neg (by rw [beq_iff_eq]; omega), Binary.mk.injEq]
    refine ⟨by omega, by omega, ?_⟩
    rw [Bool.eq_iff_iff, Bool.and_eq_true, beq_iff_eq, decide_eq_true_eq, decide_eq_true_eq]
    omega
  · have small := Nat.lt_of_not_le normal
    have scale : (ofForm (.finite sign mantissa exponent pos)).toBits.toNat / 2 ^ 52 % 2 ^ 11 =
        0 := by
      rw [toBits_subnormal sign canonical small]
      omega
    have fraction : (ofForm (.finite sign mantissa exponent pos)).toBits.toNat % 2 ^ 52 =
        mantissa := by
      rw [toBits_subnormal sign canonical small]
      omega
    rw [scale, fraction, if_pos (by rfl), Binary.mk.injEq]
    refine ⟨rfl, by omega, ?_⟩
    rw [eq_comm, decide_eq_false_iff_not]
    omega

theorem toBits_bounds (sign : Sign) {mantissa : Nat} {exponent : Int}
    (canonical : Canonical mantissa exponent) :
    sign.toBitVec.toNat * 2 ^ 63 ≤
        (ofForm (.finite sign mantissa exponent canonical.pos)).toBits.toNat ∧
      (ofForm (.finite sign mantissa exponent canonical.pos)).toBits.toNat <
        sign.toBitVec.toNat * 2 ^ 63 + 2 ^ 63 := by
  have ⟨pos, small, least, greatest, full⟩ := canonical
  by_cases normal : 2 ^ 52 ≤ mantissa
  · rw [toBits_normal sign canonical normal]
    omega
  · rw [toBits_subnormal sign canonical (Nat.lt_of_not_le normal)]
    omega

theorem signBit_ofForm (sign : Sign) {mantissa : Nat} {exponent : Int}
    (canonical : Canonical mantissa exponent) :
    signBit (ofForm (.finite sign mantissa exponent canonical.pos)) = (sign == .negative) := by
  have ⟨low, high⟩ := toBits_bounds sign canonical
  rw [signBit_eq]
  cases sign with
  | negative =>
      change 1 * 2 ^ 63 ≤ _ at low
      exact decide_eq_true (by omega)
  | positive =>
      change _ < 0 * 2 ^ 63 + 2 ^ 63 at high
      exact decide_eq_false (by omega)

theorem neg_ofForm {unpacked : UnpackedFloat} (form : Form unpacked) :
    -ofForm unpacked = ofForm unpacked.neg := by
  change Float.ofModel (Float.Model.pack (Float.Model.pack unpacked).unpack.neg) = _
  rw [unpack_pack form]
  rfl

theorem Form.neg {unpacked : UnpackedFloat} (form : Form unpacked) : Form unpacked.neg := by
  cases form with
  | zero sign => exact .zero _
  | finite sign canonical => exact .finite _ canonical

theorem abs_ofForm {unpacked : UnpackedFloat} (form : Form unpacked) :
    (ofForm unpacked).abs = ofForm unpacked.abs := by
  change Float.ofModel (Float.Model.pack (Float.Model.pack unpacked).unpack.abs) = _
  rw [unpack_pack form]
  rfl

theorem Form.abs {unpacked : UnpackedFloat} (form : Form unpacked) : Form unpacked.abs := by
  cases form with
  | zero sign => exact .zero _
  | finite sign canonical => exact .finite _ canonical

theorem isFinite_ofForm {unpacked : UnpackedFloat} (form : Form unpacked) :
    (ofForm unpacked).isFinite = true := by
  change (Float.Model.pack unpacked).unpack.isFinite = true
  rw [unpack_pack form]
  cases form <;> rfl

section Negation

variable {x : Float} (finite : x.isFinite = true)

include finite

theorem isFinite_neg : (-x).isFinite = true := by
  obtain ⟨unpacked, form, is⟩ := exists_form finite
  rw [is, neg_ofForm form]
  exact isFinite_ofForm form.neg

theorem neg_neg_of_isFinite : -(-x) = x := by
  obtain ⟨unpacked, form, is⟩ := exists_form finite
  rw [is, neg_ofForm form, neg_ofForm form.neg]
  cases form with
  | zero sign => cases sign <;> rfl
  | finite sign canonical => cases sign <;> rfl

theorem signBit_neg : signBit (-x) = !signBit x := by
  obtain ⟨unpacked, form, is⟩ := exists_form finite
  rw [is, neg_ofForm form]
  cases form with
  | zero sign => cases sign <;> rfl
  | finite sign canonical =>
      rw [signBit_ofForm sign canonical]
      refine (signBit_ofForm _ canonical).trans ?_
      cases sign <;> rfl

end Negation

theorem eq_of_neg_eq {x y : Float} (same : -x = -y) : x = y := by
  have back (z : Float) : -(-z) = z := by
    cases finite : z.isFinite with
    | true => exact neg_neg_of_isFinite finite
    | false => rcases eq_special finite with rfl | rfl | rfl <;> rfl
  rw [← back x, same, back]

/-- Only zeros have a negation that is zero. -/
theorem beq_zero_neg (x : Float) : (-x == 0) = (x == 0) := by
  have zero : (0 : Float).toModel.unpack = .zero .positive := rfl
  have unpacked (y : Float) : (y == 0) = y.toModel.unpack.beq (.zero .positive) := by
    rw [← zero]
    rfl
  have neg : (-x).toModel.unpack = x.toModel.unpack.neg := by
    change (Float.Model.pack x.toModel.unpack.neg).unpack = _
    cases finite : x.isFinite with
    | true =>
        have form : Form x.toModel.unpack := form_unpack finite
        exact unpack_pack form.neg
    | false =>
        change x.toModel.unpack.isFinite = false at finite
        cases is : x.toModel.unpack with
        | infinity sign => cases sign <;> rfl
        | notANumber => rfl
        | zero sign | finite sign mantissa exponent pos =>
            rw [is] at finite
            cases finite
  rw [unpacked, unpacked, neg]
  cases x.toModel.unpack with
  | infinity sign | zero sign | finite sign mantissa exponent pos => cases sign <;> rfl
  | notANumber => rfl

end Reckoner.Decimal
