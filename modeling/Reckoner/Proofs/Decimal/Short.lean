import Reckoner.Proofs.Decimal.Order

/-!
# Doubles with a decimal of few digits

A double of a full mantissa that is around a decimal of at most fifteen digits is around the one
that it rounds to (`Reckoner.Decimal.around_iff_exists_short`): the doubles are closer to each other
there than the decimals. So its text with fifteen digits reads back exactly if it has such a
decimal (`Reckoner.Decimal.readFloat?_significant_iff`).
-/

namespace Reckoner.Decimal

open Token Float.Model Float.Model.UnpackedFloat

variable {mantissa : ℕ} {exponent : ℤ}

/-- What lies between two rationals around a double is around it. -/
theorem Around.of_between {x y z : ℚ} (below : Around mantissa exponent x)
    (above : Around mantissa exponent z) (first : x ≤ y) (second : y ≤ z) :
    Around mantissa exponent y := by
  have unit : (0 : ℚ) < 2 ^ exponent := by positivity
  have first : x / 2 ^ exponent ≤ y / 2 ^ exponent := div_le_div_of_nonneg_right first unit.le
  have second : y / 2 ^ exponent ≤ z / 2 ^ exponent := div_le_div_of_nonneg_right second unit.le
  refine ⟨le_trans below.low first, le_trans second above.high, ?_⟩
  rcases below.tie with even | ⟨low, _⟩
  · exact .inl even
  · exact above.tie.imp_right fun ⟨_, high⟩ =>
      ⟨lt_of_lt_of_le low first, lt_of_le_of_lt second high⟩

theorem ten_zpow_add (count : ℕ) (power : ℤ) :
    (10 : ℚ) ^ (count + power) = (10 ^ count : ℕ) * 10 ^ power := by
  rw [zpow_add₀ (by norm_num), zpow_natCast]
  push_cast
  rfl

section Short

variable {grid : ℤ} (full : 2 ^ 52 ≤ mantissa)
  (leading : 10 ^ (14 + grid) ≤ (mantissa * 2 ^ exponent : ℚ))
  (following : (mantissa * 2 ^ exponent : ℚ) < 10 ^ (15 + grid)) {digits : ℕ}
  (nearest : IsNearest digits (mantissa * 2 ^ exponent / 10 ^ grid))

include leading following nearest in
theorem digits_range : 10 ^ 14 ≤ digits ∧ digits ≤ 10 ^ 15 := by
  have spacing : (0 : ℚ) < 10 ^ grid := by positivity
  have low : ((10 ^ 14 : ℕ) : ℚ) ≤ mantissa * 2 ^ exponent / 10 ^ grid := by
    rw [le_div_iff₀ spacing, ← ten_zpow_add]
    exact leading
  have high : (mantissa * 2 ^ exponent / 10 ^ grid : ℚ) < (10 ^ 15 : ℕ) := by
    rw [div_lt_iff₀ spacing, ← ten_zpow_add]
    exact following
  have above : ((10 ^ 14 : ℕ) : ℚ) < (digits + 1 : ℕ) := by
    push_cast at low ⊢
    linarith [nearest.2.1]
  have below : (digits : ℚ) < (10 ^ 15 + 1 : ℕ) := by
    push_cast at high ⊢
    linarith [nearest.1]
  exact ⟨Nat.le_of_lt_succ (by exact_mod_cast above), Nat.le_of_lt_succ (by exact_mod_cast below)⟩

include full following

/-- With a full mantissa the doubles are closer than the numbers of fifteen digits. -/
theorem unit_lt_grid : (2 : ℚ) ^ exponent < 10 ^ grid := by
  have unit : (0 : ℚ) < 2 ^ exponent := by positivity
  have spacing : (0 : ℚ) < 10 ^ grid := by positivity
  have full : (2 : ℚ) ^ 52 ≤ mantissa := by exact_mod_cast full
  have below := mul_le_mul_of_nonneg_right full unit.le
  have next := ten_zpow_add 15 grid
  push_cast at next
  rw [next] at following
  norm_num at below following
  linarith

include leading nearest

/-- A decimal of few digits around a double is the nearest of those, or there is a power of ten
between them, which then is the nearest. -/
theorem around_nearest_of_short {short : ℕ} {power : ℤ} (few : short < 10 ^ 15)
    (around : Around mantissa exponent (short * 10 ^ power)) :
    Around mantissa exponent (digits * 10 ^ grid) := by
  have closer := unit_lt_grid full following
  have unit : (0 : ℚ) < 2 ^ exponent := by positivity
  have spacing : (0 : ℚ) < 10 ^ grid := by positivity
  have near : |(short * 10 ^ power : ℚ) - mantissa * 2 ^ exponent| < 1 / 2 * 10 ^ grid := by
    have distance := (isNearest_of_around around).abs_sub_le
    rw [div_sub' unit.ne', abs_div, abs_of_pos unit, div_le_iff₀ unit, mul_comm (2 ^ exponent : ℚ)]
      at distance
    linarith
  rcases Int.lt_or_le power grid with finer | coarser
  · -- The decimal has fewer digits than the grid asks for.
    have bound : (short * 10 ^ power : ℚ) ≤ 10 ^ (14 + grid) := by
      have few : (short : ℚ) ≤ (10 ^ 15 : ℕ) := by exact_mod_cast Nat.le_of_lt few
      calc (short * 10 ^ power : ℚ) ≤ (10 ^ 15 : ℕ) * 10 ^ power :=
            mul_le_mul_of_nonneg_right few (by positivity)
        _ = 10 ^ ((15 : ℕ) + power) := (ten_zpow_add 15 power).symm
        _ ≤ 10 ^ (14 + grid) := zpow_le_zpow_right₀ (by norm_num) (by push_cast; omega)
    have start : (10 : ℚ) ^ (14 + grid) = (10 ^ 14 : ℕ) * 10 ^ grid := ten_zpow_add 14 grid
    have same : digits = 10 ^ 14 := by
      refine nearest.unique (.of_multiple spacing ?_)
      have ⟨low, high⟩ := abs_lt.mp near
      rw [← start]
      exact abs_lt.mpr ⟨by linarith, by linarith⟩
    rw [same, ← start]
    exact around.of_between (around_self mantissa exponent) bound leading
  · have multiple : (short * 10 ^ power : ℚ) =
        (short * 10 ^ (power - grid).toNat : ℕ) * 10 ^ grid := by
      have split : power = ((power - grid).toNat : ℤ) + grid := by omega
      rw [Nat.cast_mul, mul_assoc, ← ten_zpow_add, ← split]
    rw [multiple] at around near
    rwa [nearest.unique (.of_multiple spacing near)]

/-- **A double with a full mantissa has a decimal of at most fifteen digits exactly if the nearest
of them is one.** -/
theorem around_iff_exists_short : Around mantissa exponent (digits * 10 ^ grid) ↔
    ∃ (short : ℕ) (power : ℤ), short < 10 ^ 15 ∧
      Around mantissa exponent (short * 10 ^ power) := by
  refine ⟨fun around => ?_, fun ⟨short, power, few, around⟩ =>
    around_nearest_of_short full leading following nearest few around⟩
  rcases Nat.eq_or_lt_of_le (digits_range leading following nearest).2 with rfl | less
  · refine ⟨10 ^ 14, 1 + grid, by decide, ?_⟩
    have same : ((10 ^ 14 : ℕ) * 10 ^ (1 + grid) : ℚ) = (10 ^ 15 : ℕ) * 10 ^ grid := by
      rw [← ten_zpow_add, ← ten_zpow_add]
      congr 1
      push_cast
      ring
    rwa [same]
  · exact ⟨digits, grid, less, around⟩

end Short

/-! ## Reading -/

theorem ofForm_injective {first second : UnpackedFloat} (ofFirst : Form first)
    (ofSecond : Form second) (same : ofForm first = ofForm second) : first = second := by
  have unpacked := congrArg (fun x : Float => x.toModel.unpack) same
  change (Float.Model.pack first).unpack = (Float.Model.pack second).unpack at unpacked
  rwa [unpack_pack ofFirst, unpack_pack ofSecond] at unpacked

/-- A decimal in the range of the doubles that is converted into a double is around it. -/
theorem around_of_scaled (canonical : Canonical mantissa exponent) {digits : ℕ} {power : ℤ}
    (least : 2 ^ (-1075 : ℤ) < (digits * 10 ^ power : ℚ))
    (greatest : (digits * 10 ^ power : ℚ) < (2 ^ 53 - 1 / 2) * 2 ^ (971 : ℤ))
    (is : scaled digits power = ofForm (.finite .positive mantissa exponent canonical.pos)) :
    Around mantissa exponent (digits * 10 ^ power) := by
  obtain ⟨mantissa', exponent', canonical', around⟩ := exists_around least greatest
  have found := (scaled_of_around canonical' around).symm.trans is
  have same := ofForm_injective (.finite _ canonical') (.finite _ canonical) found
  obtain ⟨-, rfl, rfl⟩ := UnpackedFloat.finite.inj same
  exact around

/-- The largest double and what is half a unit past it, among the multiples of a power of ten. -/
theorem exists_range : ∃ r t : ℕ, (2 : ℚ) ^ (971 : ℤ) = r ∧ (10 : ℚ) ^ (294 : ℤ) = t ∧
    0 < t ∧ 179769313486231 * t * 2 < 18014398509481983 * r ∧
      9007199254740991 * r * 2 < 359538626972465 * t := by
  refine ⟨2 ^ 971, 10 ^ 294, ?_, ?_, by decide +kernel, by decide +kernel, by decide +kernel⟩
  · rw [Nat.cast_pow, ← zpow_natCast]
    rfl
  · rw [Nat.cast_pow, ← zpow_natCast]
    rfl

/-- The only number of fifteen digits past the range of the doubles that a double rounds to. -/
theorem eq_of_overflow (canonical : Canonical mantissa exponent) {grid : ℤ} {digits : ℕ}
    (leading : 10 ^ (14 + grid) ≤ (mantissa * 2 ^ exponent : ℚ))
    (nearest : IsNearest digits (mantissa * 2 ^ exponent / 10 ^ grid))
    (most : digits ≤ 10 ^ 15)
    (past : (2 ^ 53 - 1 / 2) * 2 ^ (971 : ℤ) ≤ (digits * 10 ^ grid : ℚ)) :
    digits = 179769313486232 ∧ grid = 294 := by
  obtain ⟨r, t, two, ten, positive, low, high⟩ := exists_range
  have size : (mantissa * 2 ^ exponent : ℚ) ≤ 9007199254740991 * r := by
    have small : (mantissa : ℚ) ≤ 9007199254740991 := by
      exact_mod_cast Nat.le_of_lt_succ canonical.small
    have powers : (2 : ℚ) ^ exponent ≤ r :=
      two ▸ zpow_le_zpow_right₀ one_le_two canonical.greatest
    exact mul_le_mul small powers (by positivity) (by norm_num)
  have positive : (0 : ℚ) < t := by exact_mod_cast positive
  have low : (179769313486231 * t * 2 : ℚ) < 18014398509481983 * r := by exact_mod_cast low
  have high : (9007199254740991 * r * 2 : ℚ) < 359538626972465 * t := by exact_mod_cast high
  rw [two] at past
  have atMost : grid ≤ 294 := by
    have below : (10 : ℚ) ^ (14 + grid) < 10 ^ ((15 : ℕ) + (294 : ℤ)) := by
      rw [ten_zpow_add, ten]
      push_cast
      linarith only [leading, size, high, positive]
    have := (zpow_lt_zpow_iff_right₀ (by norm_num)).mp below
    push_cast at this
    omega
  have atLeast : 294 ≤ grid := by
    have above : (10 : ℚ) ^ ((14 : ℕ) + (294 : ℤ)) < 10 ^ ((15 : ℕ) + grid) := by
      have most : (digits : ℚ) ≤ (10 ^ 15 : ℕ) := by exact_mod_cast most
      have bound := mul_le_mul_of_nonneg_right most (by positivity : (0 : ℚ) ≤ 10 ^ grid)
      rw [ten_zpow_add, ten_zpow_add, ten]
      push_cast at bound ⊢
      linarith only [bound, past, low, positive]
    have := (zpow_lt_zpow_iff_right₀ (by norm_num)).mp above
    push_cast at this
    omega
  obtain rfl := Int.le_antisymm atMost atLeast
  have near := nearest.1
  rw [le_div_iff₀ (by positivity), ten] at near
  rw [ten] at past
  have more : (179769313486231 : ℚ) < digits := by
    refine lt_of_mul_lt_mul_right ?_ positive.le
    linarith only [past, low]
  have less : (digits : ℚ) < 179769313486233 := by
    refine lt_of_mul_lt_mul_right ?_ positive.le
    linarith only [near, size, high]
  have more : 179769313486231 < digits := by exact_mod_cast more
  have less : digits < 179769313486233 := by exact_mod_cast less
  exact ⟨by omega, rfl⟩

theorem e_mem_scientific {digits : List Char} (some : digits ≠ []) (power : ℤ) :
    'e' ∈ scientific digits power := by
  obtain ⟨first, others, _, _, _, part⟩ := exists_exponentDigits power
  have mark : 'e' ∈ exponentPart power := by
    rw [part]
    exact List.mem_cons_self
  cases digits with
  | nil => exact absurd rfl some
  | cons first rest =>
      cases rest with
      | nil => exact List.mem_cons_of_mem _ mark
      | cons second rest => exact List.mem_append_right (first :: '.' :: second :: rest) mark

/-- The text of the nearest number of fifteen digits is read as the double if the number is around
it. Past the range of the doubles it is read as an infinity. -/
theorem readFloat?_nearest_iff (canonical : Canonical mantissa exponent) {grid : ℤ} (pos : 0 < grid)
    (leading : 10 ^ (14 + grid) ≤ (mantissa * 2 ^ exponent : ℚ))
    (following : (mantissa * 2 ^ exponent : ℚ) < 10 ^ (15 + grid)) {digits : ℕ}
    (nearest : IsNearest digits (mantissa * 2 ^ exponent / 10 ^ grid)) {numeral : List Char}
    (is : numeral = Layout.text ⟨(14 + 1 : ℕ), false⟩ (significantDigits digits)
      (grid + (Nat.toDigits 10 digits).length - 1)) :
    readFloat? numeral = some (ofForm (.finite .positive mantissa exponent canonical.pos)) ↔
      Around mantissa exponent (digits * 10 ^ grid) := by
  obtain ⟨least, most⟩ := digits_range leading following nearest
  have some : 0 < digits := Nat.lt_of_lt_of_le (by decide) least
  obtain ⟨isNumeral, read, power, isRead, same⟩ :=
    denotes_significantDigits ⟨(14 + 1 : ℕ), false⟩ some grid
  rw [← is] at isRead
  rw [isRead, Option.some.injEq, ← same]
  refine ⟨fun back => ?_, scaled_of_around canonical⟩
  by_cases past : (2 ^ 53 - 1 / 2) * 2 ^ (971 : ℤ) ≤ (digits * 10 ^ grid : ℚ)
  · obtain ⟨rfl, rfl⟩ := eq_of_overflow canonical leading nearest most past
    have infinite : (readFloat? (Layout.text ⟨(14 + 1 : ℕ), false⟩
        (significantDigits 179769313486232)
        (294 + (Nat.toDigits 10 179769313486232).length - 1))).all (!Float.isFinite ·) := by
      decide +kernel
    rw [← is, isRead, back, Option.all_some, isFinite_ofForm (.finite _ canonical)] at infinite
    cases infinite
  · refine around_of_scaled canonical ?_ ?_ back
    · rw [same]
      have one : (1 : ℚ) ≤ digits := by exact_mod_cast some
      calc (2 : ℚ) ^ (-1075 : ℤ) < 2 ^ (0 : ℤ) := zpow_lt_zpow_right₀ one_lt_two (by decide)
        _ = 1 * 10 ^ (0 : ℤ) := by norm_num
        _ ≤ digits * 10 ^ grid := mul_le_mul one
          (zpow_le_zpow_right₀ (by norm_num) (Int.le_of_lt pos)) (by positivity) (by positivity)
    · rw [same]
      exact lt_of_not_ge past

/-- A sign in front of a numeral is that of the double. -/
theorem readFloat?_signed_iff (sign : Sign) (canonical : Canonical mantissa exponent)
    {numeral : List Char} (isNumeral : IsNumeral numeral) :
    readFloat? (if sign == .negative then '-' :: numeral else numeral) =
        some (ofForm (.finite sign mantissa exponent canonical.pos)) ↔
      readFloat? numeral = some (ofForm (.finite .positive mantissa exponent canonical.pos)) := by
  cases sign with
  | positive => exact Iff.rfl
  | negative =>
      have opposite : ofForm (.finite .negative mantissa exponent canonical.pos) =
          -ofForm (.finite .positive mantissa exponent canonical.pos) :=
        (neg_ofForm (.finite .positive canonical)).symm
      change readFloat? ('-' :: numeral) = _ ↔ _
      rw [readFloat?_minus isNumeral, opposite]
      cases readFloat? numeral with
      | none => exact iff_of_false nofun nofun
      | some value =>
          rw [Option.map_some, Option.some.injEq, Option.some.injEq]
          exact ⟨eq_of_neg_eq, congrArg (-·)⟩

/-- Fifteen digits and more in front of the point are written with an exponent. -/
theorem e_mem_text {digits : ℕ} (least : 10 ^ 14 ≤ digits) {grid : ℤ} (pos : 0 < grid) :
    'e' ∈ Layout.text ⟨(14 + 1 : ℕ), false⟩ (significantDigits digits)
      (grid + (Nat.toDigits 10 digits).length - 1) := by
  have long : 14 < (Nat.toDigits 10 digits).length := by
    by_contra short
    have small := (Nat.length_toDigits_le_iff (b := 10) (by decide) (by decide)).mp
      (Nat.le_of_not_lt short)
    omega
  have some : 0 < digits := Nat.lt_of_lt_of_le (by decide) least
  unfold Layout.text
  rw [if_neg (by simp only [Bool.and_eq_true, decide_eq_true_eq]; omega)]
  exact e_mem_scientific (significantDigits_ne_nil some) _

/-- With all digits in front of the point a double is at least a power of two of full length. -/
theorem full_of_large (canonical : Canonical mantissa exponent)
    (large : 1 ≤ (mantissa * 2 ^ exponent : ℚ)) : 2 ^ 52 ≤ mantissa := by
  refine canonical.full.resolve_right fun least => ?_
  have small : (mantissa : ℚ) < 2 ^ 53 := by exact_mod_cast canonical.small
  have tiny : (2 : ℚ) ^ exponent ≤ 2 ^ (-53 : ℤ) := zpow_le_zpow_right₀ one_le_two (by omega)
  have below : (mantissa * 2 ^ exponent : ℚ) < 1 := by
    calc (mantissa * 2 ^ exponent : ℚ) < 2 ^ 53 * 2 ^ exponent :=
          mul_lt_mul_of_pos_right small (by positivity)
      _ ≤ 2 ^ 53 * 2 ^ (-53 : ℤ) := mul_le_mul_of_nonneg_left tiny (by positivity)
      _ = 1 := by norm_num
  exact absurd large (not_le_of_gt below)

/-- A decimal of at most so many digits is around the double. -/
def IsShort (count : ℕ) (x : Float) : Prop :=
  ∃ (digits : ℕ) (power : ℤ), digits < 10 ^ count ∧
    Around (Binary.ofFloat x).mantissa (Binary.ofFloat x).exponent (digits * 10 ^ power)

section Reading

variable {x : Float} (finite : x.isFinite = true) (large : 10 ^ 15 ≤ |exact x|)

include finite large

/-- From fifteen digits in front of the point on, the text of a double has an exponent. It is read
as the double exactly if some decimal of fifteen digits is. -/
theorem readFloat?_significant_iff : 'e' ∈ (significant 15 x).toList ∧
    (readFloat? (significant 15 x).toList = some x ↔ IsShort 15 x) := by
  obtain ⟨unpacked, form, rfl⟩ := exists_form finite
  cases form with
  | zero sign =>
      rw [exact_zero sign, abs_zero] at large
      exact absurd large (by norm_num)
  | @finite sign mantissa exponent canonical =>
      rw [size_ofForm sign canonical] at large
      have full := full_of_large canonical (le_trans (by norm_num) large)
      obtain ⟨digits, place, ⟨leading, following⟩, nearest, rounded⟩ :=
        exists_roundedDigits sign canonical 15
      obtain ⟨grid, rfl⟩ : ∃ grid, place = 14 + grid := ⟨place - 14, by omega⟩
      have last : 14 + grid - ((15 - 1 : ℕ) : ℤ) = grid := by omega
      have next : 14 + grid + 1 = 15 + grid := by ring
      rw [last] at nearest rounded
      rw [next] at following
      have pos : 0 < grid := by
        have lt : (10 : ℚ) ^ (15 : ℤ) < 10 ^ (15 + grid) := by
          refine lt_of_le_of_lt ?_ following
          exact_mod_cast large
        have := (zpow_lt_zpow_iff_right₀ (by norm_num)).mp lt
        omega
      have ⟨least, _⟩ := digits_range leading following nearest
      have some : 0 < digits := Nat.lt_of_lt_of_le (by decide) least
      have text := toList_significant sign canonical rounded
      have isNumeral := (denotes_significantDigits ⟨(14 + 1 : ℕ), false⟩ some grid).1
      have readBack := readFloat?_nearest_iff canonical pos leading following nearest rfl
      refine ⟨?_, ?_⟩
      · have mark := e_mem_text least pos
        rw [text]
        split
        · exact List.mem_cons_of_mem _ mark
        · exact mark
      · rw [text, readFloat?_signed_iff sign canonical isNumeral, readBack,
          around_iff_exists_short full leading following nearest, IsShort,
          ofFloat_ofForm sign canonical]

end Reading

end Reckoner.Decimal
