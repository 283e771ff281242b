import Mathlib.Algebra.Order.Ring.Nat

/-! Binary interchange floats by sign and magnitude code. The code is the
exponent field above the mantissa field, so larger codes are larger magnitudes
and the infinity is the first code past the finite ones. Magnitudes are counted
in units of the least positive value, which makes every comparison an integer
comparison and every arithmetic operation one rounding of an exact quotient. -/

namespace CodeSystemGraph.Ieee

structure Format where
  expBits : Nat
  mantBits : Nat

structure Binary (f : Format) where
  negative : Bool
  code : Fin (2 ^ (f.expBits + f.mantBits))
deriving DecidableEq

abbrev F32 := Binary ⟨8, 23⟩
abbrev F64 := Binary ⟨11, 52⟩

namespace Binary

variable {f : Format}

def infinityCode (f : Format) : Nat := (2 ^ f.expBits - 1) * 2 ^ f.mantBits

def isNan (x : Binary f) : Bool := infinityCode f < x.code.val

def isFinite (x : Binary f) : Bool := x.code.val < infinityCode f

def magnitude (x : Binary f) : Nat :=
  let exponent := x.code.val / 2 ^ f.mantBits
  let mantissa := x.code.val % 2 ^ f.mantBits
  if exponent = 0 then mantissa else (2 ^ f.mantBits + mantissa) * 2 ^ (exponent - 1)

def value (x : Binary f) : Int := if x.negative then -(x.magnitude : Int) else x.magnitude

def lt (x y : Binary f) : Bool := !x.isNan && !y.isNan && decide (x.value < y.value)

def le (x y : Binary f) : Bool := !x.isNan && !y.isNan && decide (x.value ≤ y.value)

/-- `max` and `min` ignore a single NaN; between equal values the first is returned. -/
def max (x y : Binary f) : Binary f :=
  if x.isNan then y else if y.isNan then x else if x.lt y then y else x

def min (x y : Binary f) : Binary f :=
  if x.isNan then y else if y.isNan then x else if y.lt x then y else x

theorem isNan_min (x y : Binary f) : (min x y).isNan = (x.isNan && y.isNan) := by
  unfold min
  cases hx : x.isNan <;> cases hy : y.isNan <;> simp [hx, hy]
  split <;> assumption

theorem value_min {x y : Binary f} (hx : x.isNan = false) (hy : y.isNan = false) :
    (min x y).value = Min.min x.value y.value := by
  unfold min lt
  simp only [hx, hy, Bool.not_false, Bool.and_self, Bool.true_and, decide_eq_true_eq,
    Bool.false_eq_true, ↓reduceIte]
  split <;> omega

theorem min_of_isNan_left {x y : Binary f} (hx : x.isNan = true) : min x y = y := by
  simp [min, hx]

theorem min_of_isNan_right {x y : Binary f} (hx : x.isNan = false) (hy : y.isNan = true) :
    min x y = x := by
  simp [min, hx, hy]

theorem max_eq {x y : Binary f} (hx : x.isNan = false) (hy : y.isNan = false) :
    max x y = if x.value < y.value then y else x := by
  simp [max, lt, hx, hy]

def ofCode (negative : Bool) (code : Nat) : Binary f :=
  ⟨negative, code % 2 ^ (f.expBits + f.mantBits), Nat.mod_lt _ (Nat.pow_pos (by decide))⟩

def toBits (x : Binary f) : Nat :=
  (if x.negative then 2 ^ (f.expBits + f.mantBits) else 0) + x.code.val

theorem toBits_lt (x : Binary f) : x.toBits < 2 ^ (f.expBits + f.mantBits + 1) := by
  have code := x.code.isLt
  rw [pow_succ]
  unfold toBits
  split <;> omega

theorem toBits_injective : Function.Injective (toBits : Binary f → Nat) := by
  rintro ⟨n, c⟩ ⟨n', c'⟩ h
  have code := c.isLt
  have code' := c'.isLt
  have parts : n = n' ∧ c.val = c'.val := by
    unfold toBits at h
    cases n <;> cases n' <;> simp at h ⊢ <;> omega
  obtain ⟨rfl, same⟩ := parts
  rw [Fin.ext same]

def zero : Binary f := ofCode false 0

def nan : Binary f := ofCode false (infinityCode f + 2 ^ (f.mantBits - 1))

/-- Nearest integer to `n / 2 ^ d`, ties to even. -/
def roundHalfEven (n d : Nat) : Nat :=
  let q := n / 2 ^ d
  let r := 2 * (n % 2 ^ d)
  if 2 ^ d < r ∨ (r = 2 ^ d ∧ q % 2 = 1) then q + 1 else q

/-- The float nearest to `n / 2 ^ shift` units. Dropping `k` low bits leaves one
more bit than the mantissa field holds, which is the carry into the exponent. -/
def ofScaled (negative : Bool) (n shift : Nat) : Binary f :=
  let k := Nat.log2 n - shift - f.mantBits
  ofCode negative
    (Nat.min (k * 2 ^ f.mantBits + roundHalfEven n (shift + k)) (infinityCode f))

def scale (f : Format) : Nat := 2 ^ (f.expBits - 1) - 2 + f.mantBits

def ofNat (n : Nat) : Binary f := ofScaled false (n * 2 ^ scale f) 0

/-- `n / 2 ^ d`, for the constants of a program. -/
def ofDyadic (n d : Nat) : Binary f := ofScaled false (n * 2 ^ scale f) d

def add (x y : Binary f) : Binary f :=
  if x.isNan ∨ y.isNan then nan
  else if x.isFinite ∧ y.isFinite then
    let sum := x.value + y.value
    ofScaled (decide (sum < 0) || (x.negative && y.negative)) sum.natAbs 0
  else if x.isFinite then y
  else if y.isFinite then x
  else if x.negative = y.negative then x else nan

def mulAdd (x y z : Binary f) : Binary f :=
  if x.isNan ∨ y.isNan ∨ z.isNan then nan
  else if x.isFinite ∧ y.isFinite ∧ z.isFinite then
    let sum := x.value * y.value + z.value * (2 ^ scale f : Nat)
    ofScaled (decide (sum < 0)) sum.natAbs (scale f)
  else if x.isFinite ∧ y.isFinite then z
  else if x.value = 0 ∨ y.value = 0 then nan
  else
    let product := ofCode (x.negative != y.negative) (infinityCode f)
    if z.isFinite ∨ z.negative = (x.negative != y.negative) then product else nan

def mul (x y : Binary f) : Binary f := mulAdd x y zero

def div (x y : Binary f) : Binary f :=
  let negative := x.negative != y.negative
  if x.isNan ∨ y.isNan then nan
  else if x.isFinite ∧ y.isFinite then
    if y.magnitude = 0 then
      if x.magnitude = 0 then nan else ofCode negative (infinityCode f)
    else
      let extra := Nat.log2 y.magnitude + f.mantBits + 3
      let n := x.magnitude * 2 ^ (scale f + extra)
      let sticky := if n % y.magnitude = 0 then 0 else 1
      ofScaled negative (2 * (n / y.magnitude) + sticky) (extra + 1)
  else if x.isFinite then ofCode negative 0
  else if y.isFinite then ofCode negative (infinityCode f)
  else nan

def totalKey (x : Binary f) : Int := if x.negative then -(x.code.val : Int) - 1 else x.code.val

theorem totalKey_injective : Function.Injective (totalKey : Binary f → Int) := by
  rintro ⟨n, c⟩ ⟨n', c'⟩ h
  have codes : n = n' ∧ c.val = c'.val := by
    unfold totalKey at h
    cases n <;> cases n' <;> simp at h ⊢ <;> omega
  obtain ⟨rfl, same⟩ := codes
  rw [Fin.ext same]

instance : LinearOrder (Binary f) := LinearOrder.lift' totalKey totalKey_injective

end Binary

/-- `f64::from`, exact on every finite value. -/
def widen (x : F32) : F64 :=
  if x.isNan then .nan
  else if x.isFinite then
    .ofScaled x.negative (x.magnitude * 2 ^ (Binary.scale ⟨11, 52⟩ - Binary.scale ⟨8, 23⟩)) 0
  else .ofCode x.negative (Binary.infinityCode ⟨11, 52⟩)

def narrow (x : F64) : F32 :=
  if x.isNan then .nan
  else if x.isFinite then
    .ofScaled x.negative x.magnitude (Binary.scale ⟨11, 52⟩ - Binary.scale ⟨8, 23⟩)
  else .ofCode x.negative (Binary.infinityCode ⟨8, 23⟩)

example : (Binary.ofDyadic 4 2 : F32).toBits = 0x3F800000 := by decide
example : (Binary.div (.ofNat 1) (.ofNat 3) : F32).toBits = 0x3EAAAAAB := by decide +kernel
example : (Binary.add (.ofNat 16777216) (.ofNat 1) : F32) = .ofNat 16777216 := by decide

end CodeSystemGraph.Ieee
