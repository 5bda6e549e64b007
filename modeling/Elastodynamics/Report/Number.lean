/-!
Numbers in reports. A number is rounded twice: to ten significant digits, so that the order in which
a sum was taken does not show, and then to a fixed number of decimals, so that what is left of a
cancelled sum does not show either. All rounding is exact, and a tie goes to the even neighbour.
-/
namespace Elastodynamics.Report

/-- A quotient rounded to an integer, a tie going to the even one. -/
def roundDiv (num den : Nat) : Nat :=
  let q := num / den
  let r := num % den
  if 2 * r > den || (2 * r == den && q % 2 == 1) then q + 1 else q

/-- The absolute value of a finite number as a fraction. -/
def fraction (x : Float) : Nat × Nat :=
  let bits := x.toBits.toNat
  let e := bits / Nat.pow 2 52 % 2048
  let f := bits % Nat.pow 2 52
  let (m, e) := if e == 0 then (f, 1) else (f + Nat.pow 2 52, e)
  if e >= 1075 then (m * Nat.pow 2 (e - 1075), 1) else (m, Nat.pow 2 (1075 - e))

/-- The number `m * 10 ^ e`, rounded to a floating point number. -/
def scaled (m : Nat) (e : Int) : Float :=
  if e < 0 then .ofScientific m true (-e).toNat else .ofScientific m false e.toNat

def reaches (num den : Nat) (k : Int) : Bool :=
  if k < 0 then den <= num * Nat.pow 10 (-k).toNat else den * Nat.pow 10 k.toNat <= num

/-- The largest exponent `k` for which a positive fraction is at least `10 ^ k`. -/
def exponent (num den : Nat) : Int :=
  let guess : Int := (toString num).length - (toString den).length
  if reaches num den guess then guess else guess - 1

/-- A positive fraction rounded to ten significant digits, as `m * 10 ^ e`. -/
def tenDigits (num den : Nat) : Nat × Int :=
  let e := exponent num den - 9
  if e < 0 then (roundDiv (num * Nat.pow 10 (-e).toNat) den, e)
  else (roundDiv num (den * Nat.pow 10 e.toNat), e)

/-- The number `n / 10 ^ decimals` in positional notation without trailing zeros. -/
def positional (decimals n : Nat) : String :=
  let digits := toString n
  let digits := "".pushn '0' (decimals + 1 - digits.length) ++ digits
  let whole := (digits.take (digits.length - decimals)).toString
  let rest := ((digits.drop (digits.length - decimals)).toString.dropEndWhile (· == '0')).toString
  if rest.isEmpty then whole else whole ++ "." ++ rest

/-- The written form of the absolute value of a finite number. From `10 ^ 15` on it has an exponent,
below it is positional. -/
def magnitude (decimals : Nat) (x : Float) : String :=
  let (num, den) := fraction x
  if num == 0 then "0"
  else
    let (m, e) := tenDigits num den
    let y := scaled m e
    let (num, den) := fraction y
    let n := roundDiv (num * Nat.pow 10 decimals) den
    let z := scaled n (-decimals)
    if z >= 1e15 then s!"{m}e{e}"
    else if z == z.floor then toString z.toUInt64.toNat
    else positional decimals n

/-- The written form of a number. Zero has no sign. -/
def number (decimals : Nat) (x : Float) : String :=
  if x.isNaN then "NaN"
  else if x.isInf then (if x > 0 then "Infinity" else "-Infinity")
  else
    let text := magnitude decimals x
    if x < 0 && text != "0" then "-" ++ text else text

end Elastodynamics.Report
