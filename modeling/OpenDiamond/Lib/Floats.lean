import Mathlib.Algebra.Group.Nat.Defs
import OpenDiamond.Lib.Words

/-!
# Doubles, integers and decimals

`Float` is IEEE-754 binary64. The conversion of an integer overflows, the conversion to an
integer truncates and does not exist for what is not finite, and decimals are rounded half to
even from the exact value of the double. A text is read as the double nearest to its value.
-/

namespace OpenDiamond.Lib.Floats

open Float.Model Unicode Words

/-- The double nearest to an integer, `none` for an overflow. -/
def ofInt (n : ℤ) : Option Float :=
  if (Float.ofInt n).isFinite then some (Float.ofInt n) else none

/-- The integer part of `mantissa * 2 ^ exponent`. -/
def integerPart (mantissa : ℕ) (exponent : ℤ) : ℕ :=
  if 0 ≤ exponent then mantissa * 2 ^ exponent.toNat else mantissa / 2 ^ (-exponent).toNat

/-- The integer part of a double with its sign, `none` for an infinity and for NaN. -/
def truncate (x : Float) : Option ℤ :=
  match x.toModel.unpack with
  | .infinity _ => none
  | .notANumber => none
  | .zero _ => some 0
  | .finite sign mantissa exponent _ => some (sign.apply (integerPart mantissa exponent))

/-- A quotient rounded half to even. -/
def divRoundEven (n d : ℕ) : ℕ :=
  if 2 * (n % d) < d then n / d
  else if d < 2 * (n % d) then n / d + 1
  else n / d + n / d % 2

/-- `mantissa * 2 ^ exponent` in units of the last of so many decimal places. -/
def inPlaces (places mantissa : ℕ) (exponent : ℤ) : ℕ :=
  if 0 ≤ exponent then mantissa * 2 ^ exponent.toNat * 10 ^ places
  else divRoundEven (mantissa * 10 ^ places) (2 ^ (-exponent).toNat)

/-- A double rounded to so many decimal places. -/
def roundTo (places : ℕ) (x : Float) : Float :=
  match x.toModel.unpack with
  | .finite .positive mantissa exponent _ =>
    Float.ofScientific (inPlaces places mantissa exponent) true places
  | .finite .negative mantissa exponent _ =>
    -Float.ofScientific (inPlaces places mantissa exponent) true places
  | _ => x

/-- The minus sign of a negative number. -/
def minus : UnpackedFloat.Sign → String
  | .positive => ""
  | .negative => "-"

/-- A number of units of the last decimal place, with its decimal point. -/
def pointed (places units : ℕ) : String :=
  let digits := toString (units % 10 ^ places)
  toString (units / 10 ^ places) ++ "." ++
    String.ofList (List.replicate (places - digits.length) '0') ++ digits

/-- A double with so many decimal places, at least one. -/
def fixed (places : ℕ) (x : Float) : String :=
  match x.toModel.unpack with
  | .infinity sign => minus sign ++ "inf"
  | .notANumber => "nan"
  | .zero sign => minus sign ++ pointed places 0
  | .finite sign mantissa exponent _ => minus sign ++ pointed places (inPlaces places mantissa exponent)

/-! ## Spellings -/

theorem isDigit_of_mem_repr {n : ℕ} {c : Char} (h : c ∈ (toString n).toList) : c.isDigit = true := by
  rw [Nat.toString_eq_repr, Nat.toList_repr] at h
  exact Nat.isDigit_of_mem_toDigits (by decide) (by decide) h

/-- A number is spelled with digits, signs and points, or in letters. -/
theorem underscore_notMem_fixed (places : ℕ) (x : Float) : '_' ∉ (fixed places x).toList := by
  have hnat : ∀ n : ℕ, '_' ∉ (toString n).toList := fun n h => by
    have hdigit := isDigit_of_mem_repr h
    revert hdigit
    decide
  have hpointed : ∀ units, '_' ∉ (pointed places units).toList := by
    intro units h
    simp only [pointed, String.toList_append, String.toList_ofList, List.mem_append] at h
    rcases h with ((h | h) | h) | h
    · exact hnat _ h
    · revert h
      decide
    · have hzero := List.eq_of_mem_replicate h
      revert hzero
      decide
    · exact hnat _ h
  have hminus : ∀ sign, '_' ∉ (minus sign).toList := by
    intro sign
    cases sign <;> decide
  unfold fixed
  split
  · rename_i sign _
    rw [String.toList_append, List.mem_append, not_or]
    exact ⟨hminus sign, by decide⟩
  · decide
  · rename_i sign _
    rw [String.toList_append, List.mem_append, not_or]
    exact ⟨hminus sign, hpointed 0⟩
  · rename_i sign mantissa exponent _ _
    rw [String.toList_append, List.mem_append, not_or]
    exact ⟨hminus sign, hpointed _⟩

/-- An integer is spelled with digits and a sign. -/
theorem underscore_notMem_toString (n : ℤ) : '_' ∉ (toString n).toList := by
  have hnat : ∀ n : ℕ, '_' ∉ n.repr.toList := fun n h => by
    have hdigit := isDigit_of_mem_repr h
    revert hdigit
    decide
  rw [Int.toString_eq_repr, Int.repr_eq_if]
  split
  · exact hnat _
  · rw [String.toList_append, List.mem_append, not_or]
    exact ⟨by decide, hnat _⟩

/-- The spelling determines the integer. -/
theorem toString_injective : Function.Injective (toString : ℤ → String) := by
  have hnat : Function.Injective Nat.repr := by
    intro n k h
    have hdigits := congrArg String.toList h
    rw [Nat.toList_repr, Nat.toList_repr] at hdigits
    rw [← Nat.ofDigitChars_toDigits (b := 10) (n := n) (by decide) (by decide), hdigits,
      Nat.ofDigitChars_toDigits (by decide) (by decide)]
  have hsign : ∀ n k : ℕ, n.repr ≠ "-" ++ k.repr := by
    intro n k h
    have hmem : '-' ∈ (toString n).toList := by
      rw [Nat.toString_eq_repr, h, String.toList_append]
      exact List.mem_append_left _ (by decide)
    have hdigit := isDigit_of_mem_repr hmem
    revert hdigit
    decide
  intro n k h
  rw [Int.toString_eq_repr, Int.toString_eq_repr, Int.repr_eq_if, Int.repr_eq_if] at h
  split at h <;> split at h
  · have heq := hnat h
    omega
  · exact absurd h (hsign _ _)
  · exact absurd h.symm (hsign _ _)
  · have heq := hnat (String.append_right_inj _ |>.mp h)
    omega

/-! ## Reading -/

/-- A sign in front of a text, true for a minus. -/
def splitSign : Text → Bool × Text
  | [] => (false, [])
  | c :: rest =>
    if c = codePoint '-' then (true, rest)
    else if c = codePoint '+' then (false, rest)
    else (false, c :: rest)

/-- The digits around a point as one number, and how many of them stand after it. -/
def readPoint (text : Text) : Option (ℕ × ℕ) :=
  match text.span fun c => c ≠ codePoint '.' with
  | (whole, []) => (readDigits 0 false whole).map fun value => (value, 0)
  | (whole, _ :: fraction) => do
    if whole = [] ∧ fraction = [] then none
    let value ← if whole = [] then some 0 else readDigits 0 false whole
    let value ← if fraction = [] then some value else readDigits value false fraction
    return (value, fraction.countP fun c => c ≠ codePoint '_')

/-- The exponent after its letter, zero when there is none. -/
def readExponent : Text → Option ℤ
  | [] => some 0
  | _ :: rest =>
    let (negative, digits) := splitSign rest
    (readDigits 0 false digits).map fun value => if negative then -(value : ℤ) else value

/-- A decimal number without a sign. -/
def readDecimal (text : Text) : Option Float := do
  let (mantissa, rest) := text.span fun c => c ≠ codePoint 'e' ∧ c ≠ codePoint 'E'
  let (value, places) ← readPoint mantissa
  let exponent ← readExponent rest
  return if exponent < places then Float.ofScientific value true (places - exponent).toNat
    else Float.ofScientific value false (exponent - places).toNat

/-- An ASCII letter as a small letter. -/
def lower (c : CodePoint) : CodePoint :=
  if codePoint 'A' ≤ c ∧ c ≤ codePoint 'Z' then c + 32 else c

/-- A number without a sign. -/
def readMagnitude (text : Text) : Option Float :=
  if text.map lower ∈ [ofString "inf", ofString "infinity"] then some (1 / 0)
  else if text.map lower = ofString "nan" then some (0 / 0)
  else readDecimal text

/-- `float(text)`, `none` for its `ValueError`. -/
def readFloat (text : Text) : Option Float :=
  let (negative, rest) := splitSign (strip text)
  (readMagnitude rest).map fun x => if negative then -x else x

end OpenDiamond.Lib.Floats
