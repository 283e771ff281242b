import CodeSystemGraph.Ieee

/-! Exact conversions between the formats: what a wider format holds in its own
units is read back unchanged. -/

namespace CodeSystemGraph.Ieee

namespace Binary

variable {f : Format}

theorem roundHalfEven_mul_pow (a d : Nat) : roundHalfEven (a * 2 ^ d) d = a := by
  have pos : 0 < 2 ^ d := Nat.two_pow_pos d
  simp [roundHalfEven, Nat.mul_div_cancel _ pos, pos.ne]

theorem infinityCode_lt (f : Format) : infinityCode f < 2 ^ (f.expBits + f.mantBits) := by
  rw [infinityCode, pow_add]
  exact Nat.mul_lt_mul_of_pos_right (Nat.sub_lt (Nat.two_pow_pos _) (by decide)) (Nat.two_pow_pos _)

theorem ofCode_code {negative : Bool} {code : Nat} (finite : code < infinityCode f) :
    (ofCode negative code : Binary f).code.val = code :=
  Nat.mod_eq_of_lt (finite.trans (infinityCode_lt f))

theorem lt_two_pow_of_log2 {n d : Nat} (h : n.log2 ≤ d) : n < 2 ^ (d + 1) :=
  Nat.lt_of_lt_of_le Nat.lt_log2_self (Nat.pow_le_pow_right (by decide) (by omega))

/-- Scaling is exact when the bits below the kept ones are zero and the exponent fits. -/
theorem magnitude_ofScaled {n : Nat} {negative : Bool} (exact : 2 ^ (n.log2 - f.mantBits) ∣ n)
    (fits : (n.log2 - f.mantBits + 2) * 2 ^ f.mantBits ≤ infinityCode f) :
    (ofScaled negative n 0 : Binary f).isFinite ∧
      (ofScaled negative n 0 : Binary f).magnitude = n := by
  obtain ⟨q, eq⟩ := exact
  have pos : 0 < 2 ^ f.mantBits := Nat.two_pow_pos _
  have rounded : roundHalfEven n (0 + (n.log2 - f.mantBits)) = q := by
    rw [Nat.zero_add]
    conv => lhs; arg 1; rw [eq, Nat.mul_comm]
    exact roundHalfEven_mul_pow q _
  have small : q < 2 * 2 ^ f.mantBits := by
    have bound := @lt_two_pow_of_log2 n (n.log2 - f.mantBits + f.mantBits) (by omega)
    rw [pow_succ, pow_add, Nat.mul_assoc, Nat.mul_comm (2 ^ f.mantBits)] at bound
    conv at bound => lhs; rw [eq]
    exact Nat.lt_of_mul_lt_mul_left bound
  have below : (n.log2 - f.mantBits) * 2 ^ f.mantBits + q < infinityCode f := by
    rw [Nat.add_mul] at fits
    omega
  have is : (ofScaled negative n 0 : Binary f) =
      ofCode negative ((n.log2 - f.mantBits) * 2 ^ f.mantBits + q) := by
    unfold ofScaled
    dsimp only
    rw [Nat.sub_zero, rounded]
    exact congrArg _ (Nat.min_eq_left below.le)
  rw [is, isFinite, magnitude, ofCode_code below]
  refine ⟨by simpa using below, ?_⟩
  rw [Nat.mul_comm _ (2 ^ f.mantBits), Nat.mul_add_div pos, Nat.mul_add_mod]
  by_cases first : n.log2 - f.mantBits = 0
  · -- subnormal, or in the first binade
    rw [first, pow_zero, Nat.one_mul] at eq
    subst eq
    rw [first, Nat.zero_add]
    by_cases low : n < 2 ^ f.mantBits
    · rw [Nat.div_eq_of_lt low, if_pos rfl, Nat.mod_eq_of_lt low]
    · have one : n / 2 ^ f.mantBits = 1 := by
        exact Nat.div_eq_of_lt_le (by omega) (by omega)
      rw [one, if_neg (by decide)]
      have parts := Nat.div_add_mod n (2 ^ f.mantBits)
      rw [one] at parts
      simpa using parts
  · have large : 2 ^ f.mantBits ≤ q := by
      have nonzero : n ≠ 0 := by
        rintro rfl
        simp at first
      have lead := Nat.log2_self_le nonzero
      have split : n.log2 = n.log2 - f.mantBits + f.mantBits := by omega
      rw [split, pow_add] at lead
      conv at lead => rhs; rw [eq]
      exact Nat.le_of_mul_le_mul_left lead (Nat.two_pow_pos _)
    have one : q / 2 ^ f.mantBits = 1 := Nat.div_eq_of_lt_le (by omega) (by omega)
    have parts := Nat.div_add_mod q (2 ^ f.mantBits)
    rw [one, Nat.mul_one] at parts
    rw [one, if_neg (by omega), Nat.add_sub_cancel, parts, Nat.mul_comm]
    exact eq.symm

theorem log2_mul_two_pow {a : Nat} (pos : a ≠ 0) (d : Nat) : (a * 2 ^ d).log2 = a.log2 + d := by
  have nonzero : a * 2 ^ d ≠ 0 := Nat.mul_ne_zero pos (Nat.two_pow_pos d).ne'
  rw [Nat.log2_eq_iff nonzero]
  refine ⟨?_, ?_⟩
  · rw [pow_add]
    exact Nat.mul_le_mul_right _ (Nat.log2_self_le pos)
  · rw [Nat.add_right_comm, pow_add]
    exact Nat.mul_lt_mul_of_pos_right Nat.lt_log2_self (Nat.two_pow_pos d)

theorem magnitude_eq (x : Binary f) : ∃ a b, x.magnitude = a * 2 ^ b ∧ a < 2 * 2 ^ f.mantBits ∧
    x.code.val = b * 2 ^ f.mantBits + a ∧ (b ≠ 0 → 2 ^ f.mantBits ≤ a) := by
  have pos : 0 < 2 ^ f.mantBits := Nat.two_pow_pos _
  have parts := Nat.div_add_mod x.code.val (2 ^ f.mantBits)
  have low := Nat.mod_lt x.code.val pos
  unfold magnitude
  dsimp only
  split
  · next zero =>
    refine ⟨x.code.val % 2 ^ f.mantBits, 0, by simp, by omega, ?_, by simp⟩
    rw [zero] at parts
    omega
  · next normal =>
    refine ⟨2 ^ f.mantBits + x.code.val % 2 ^ f.mantBits, x.code.val / 2 ^ f.mantBits - 1, rfl,
      by omega, ?_, fun _ => by omega⟩
    obtain ⟨e, he⟩ := Nat.exists_eq_succ_of_ne_zero normal
    rw [he, Nat.mul_succ] at parts
    rw [he, Nat.succ_sub_one, Nat.mul_comm e]
    omega

theorem ofScaled_magnitude {x : Binary f} (finite : x.isFinite) (d : Nat) :
    ofScaled x.negative (x.magnitude * 2 ^ d) d = x := by
  obtain ⟨a, b, is, small, code, normal⟩ := x.magnitude_eq
  have finite : x.code.val < infinityCode f := by simpa [isFinite] using finite
  have shift : (x.magnitude * 2 ^ d).log2 - d - f.mantBits = b := by
    rw [is]
    by_cases zero : a = 0
    · have : b = 0 := by
        by_contra nonzero
        have := normal nonzero
        have := Nat.two_pow_pos f.mantBits
        omega
      simp [zero, this]
    · rw [Nat.mul_assoc, ← pow_add, log2_mul_two_pow zero]
      have upper : a.log2 < f.mantBits + 1 := (Nat.log2_lt zero).mpr (by rw [pow_succ]; omega)
      by_cases first : b = 0
      · omega
      · have lower := (Nat.le_log2 zero).mpr (normal first)
        omega
  have rounded : roundHalfEven (x.magnitude * 2 ^ d) (d + b) = a := by
    rw [is, Nat.mul_assoc, ← pow_add, Nat.add_comm b]
    exact roundHalfEven_mul_pow a _
  have same : (ofScaled x.negative (x.magnitude * 2 ^ d) d : Binary f) =
      ofCode x.negative x.code.val := by
    unfold ofScaled
    dsimp only
    rw [shift, rounded, ← code]
    exact congrArg _ (Nat.min_eq_left finite.le)
  rw [same]
  obtain ⟨negative, value⟩ := x
  simp only [ofCode]
  congr 1
  exact Fin.ext (Nat.mod_eq_of_lt value.isLt)

section Sign

theorem isNan_of_isFinite {x : Binary f} (finite : x.isFinite) : x.isNan = false :=
  decide_eq_false (Nat.lt_asymm (of_decide_eq_true finite))

theorem lt_of_not_le {x y : Binary f} (number : x.isNan = false) (number' : y.isNan = false)
    (larger : ¬x.le y = true) : y.lt x = true := by
  rw [le, number, number'] at larger
  rw [lt, number, number']
  simpa using larger

theorem isNan_ofScaled (negative : Bool) (n shift : Nat) :
    (ofScaled negative n shift : Binary f).isNan = false := by
  refine decide_eq_false (not_lt.2 ((Nat.mod_le _ _).trans ?_))
  exact Nat.min_le_right _ _

theorem isFinite_zero (sized : 0 < infinityCode f) : (zero : Binary f).isFinite := by
  refine decide_eq_true ?_
  simpa [zero, ofCode] using sized

theorem isNan_mul {x y : Binary f} (finite : x.isFinite) (finite' : y.isFinite)
    (sized : 0 < infinityCode f) : (mul x y).isNan = false := by
  have zero := isFinite_zero sized
  unfold mul mulAdd
  rw [isNan_of_isFinite finite, isNan_of_isFinite finite', isNan_of_isFinite zero, if_neg (by simp),
    if_pos ⟨finite, finite', zero⟩]
  exact isNan_ofScaled _ _ _

theorem magnitude_pos {x : Binary f} : 0 < x.magnitude ↔ 0 < x.code.val := by
  have pos : 0 < 2 ^ f.mantBits := Nat.two_pow_pos _
  have parts := Nat.div_add_mod x.code.val (2 ^ f.mantBits)
  unfold magnitude
  dsimp only
  split
  · next low =>
    rw [low, Nat.mul_zero, Nat.zero_add] at parts
    rw [parts]
  · next high =>
    refine iff_of_true (Nat.mul_pos (by omega) (Nat.two_pow_pos _)) ?_
    exact Nat.pos_of_ne_zero fun zero => high (by rw [zero, Nat.zero_div])

theorem zero_lt_iff {x : Binary f} : zero.lt x = true ↔
    x.isNan = false ∧ x.negative = false ∧ 0 < x.code.val := by
  have number : (zero : Binary f).isNan = false := by simp [zero, ofCode, isNan]
  have none : (zero : Binary f).value = 0 := by
    simp [zero, ofCode, value, magnitude]
  rw [lt, number, none, ← magnitude_pos, value]
  cases x.negative <;> simp

theorem ofScaled_pos {n : Nat} (positive : 0 < n) (sized : 0 < infinityCode f) :
    zero.lt (ofScaled false n 0 : Binary f) = true := by
  refine zero_lt_iff.2 ⟨isNan_ofScaled _ _ _, rfl, ?_⟩
  have rounded : 0 < (n.log2 - f.mantBits) * 2 ^ f.mantBits +
      roundHalfEven n (0 + (n.log2 - f.mantBits)) := by
    by_cases kept : n.log2 - f.mantBits = 0
    · have whole := roundHalfEven_mul_pow n 0
      rw [pow_zero, Nat.mul_one] at whole
      rw [kept, Nat.zero_add, whole]
      omega
    · exact Nat.add_pos_left (Nat.mul_pos (Nat.pos_of_ne_zero kept) (Nat.two_pow_pos _)) _
  have code : (ofScaled false n 0 : Binary f).code.val = Nat.min ((n.log2 - f.mantBits) *
      2 ^ f.mantBits + roundHalfEven n (0 + (n.log2 - f.mantBits))) (infinityCode f) :=
    Nat.mod_eq_of_lt ((Nat.min_le_right _ _).trans_lt (infinityCode_lt f))
  rw [code]
  exact lt_min rounded sized

/-- A positive number added to zero or to a positive number: no rounding gives zero. -/
theorem add_pos {x y : Binary f} (left : x = zero ∨ zero.lt x = true) (right : zero.lt y = true)
    (sized : 0 < infinityCode f) : zero.lt (add x y) = true := by
  obtain ⟨number', sign', code'⟩ := zero_lt_iff.1 right
  have known : x.isNan = false ∧ x.negative = false := by
    rcases left with rfl | positive
    · simp [zero, ofCode, isNan]
    · exact ⟨(zero_lt_iff.1 positive).1, (zero_lt_iff.1 positive).2.1⟩
  have finite : x = zero → x.isFinite := fun is => is ▸ isFinite_zero sized
  unfold add
  rw [known.1, number', if_neg (by simp)]
  split
  · have sum : 0 < x.value + y.value := by
      have more := magnitude_pos.2 code'
      rw [value, value, known.2, sign', if_neg Bool.false_ne_true, if_neg Bool.false_ne_true]
      omega
    dsimp only
    rw [decide_eq_false sum.le.not_gt, known.2]
    exact ofScaled_pos (by omega) sized
  · split
    · exact right
    · next infinite =>
      have positive := left.resolve_left fun is => infinite (finite is)
      split
      · exact positive
      · rw [known.2, sign', if_pos rfl]
        exact positive

end Sign

end Binary

theorem widen_magnitude {x : F32} (finite : x.isFinite) :
    (widen x).isFinite ∧ (widen x).magnitude =
      x.magnitude * 2 ^ (Binary.scale ⟨11, 52⟩ - Binary.scale ⟨8, 23⟩) ∧
      (widen x).negative = x.negative := by
  have below : x.code.val < 255 * 2 ^ 23 := of_decide_eq_true finite
  have notNan : x.isNan = false := decide_eq_false (Nat.lt_asymm below)
  obtain ⟨a, b, is, small, code, normal⟩ := x.magnitude_eq
  have exponent : b ≤ 253 := by
    by_contra large
    have lead := normal (by omega)
    dsimp only at lead code
    omega
  have units : Binary.scale ⟨11, 52⟩ - Binary.scale ⟨8, 23⟩ = 925 := by decide
  have value := @Binary.magnitude_ofScaled ⟨11, 52⟩ (x.magnitude * 2 ^ 925) x.negative
  unfold widen
  rw [notNan, if_neg (by decide), if_pos finite, units]
  have exact : 2 ^ ((x.magnitude * 2 ^ 925).log2 - 52) ∣ x.magnitude * 2 ^ 925 ∧
      (x.magnitude * 2 ^ 925).log2 - 52 + 2 ≤ 2047 := by
    rw [is, Nat.mul_assoc, ← pow_add]
    by_cases zero : a = 0
    · simp [zero]
    · have bits : a.log2 < 24 := (Nat.log2_lt zero).mpr (by dsimp only at small; omega)
      rw [Binary.log2_mul_two_pow zero]
      exact ⟨Nat.dvd_mul_left_of_dvd (Nat.pow_dvd_pow 2 (by omega)) a, by omega⟩
  obtain ⟨isFinite, magnitude⟩ := value exact.1 (Nat.mul_le_mul_right (2 ^ 52) exact.2)
  exact ⟨isFinite, magnitude, rfl⟩

theorem narrow_widen {x : F32} (finite : x.isFinite) : narrow (widen x) = x := by
  obtain ⟨wide, magnitude, negative⟩ := widen_magnitude finite
  have notNan : (widen x).isNan = false := decide_eq_false (Nat.lt_asymm (of_decide_eq_true wide))
  unfold narrow
  rw [notNan, if_neg (by decide), if_pos wide, magnitude, negative]
  exact Binary.ofScaled_magnitude finite _

end CodeSystemGraph.Ieee
