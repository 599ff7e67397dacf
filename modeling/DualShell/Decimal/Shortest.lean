/-!
# Shortest decimals

The decimal text of a binary floating-point number: the fewest digits that read back as the same number, and of those
the nearest. A number is taken as `m · 2 ^ e` with the interval of reals that round to it, and grids of one, two, …
digits are tried in exact arithmetic until a grid point falls inside.
-/

namespace DualShell.Decimal

/-- A finite non-zero binary number without its sign, and whether the gap below it is half the gap above. -/
structure Binary where
  mantissa : Nat
  exponent : Int
  narrowBelow : Bool

/-- The parts of a finite number's bit pattern; zero has mantissa zero. -/
def Binary.ofBits (bits : UInt64) : Binary :=
  let fraction := (bits &&& 0xFFFFFFFFFFFFF).toNat
  let power := ((bits >>> 52) &&& 0x7FF).toNat
  if power == 0 then ⟨fraction, -1074, false⟩
  else ⟨fraction + Nat.pow 2 52, (power : Int) - 1075, fraction == 0 && power > 1⟩

/-- Digits and the decimal exponent of the first: `d₁.d₂d₃… · 10 ^ exponent`. -/
structure Digits where
  digits : List Char
  exponent : Int
  deriving Repr

/-- A positive quantity as a fraction, scaled so that `value = num / den`, with the ends of its rounding interval over
the same denominator. -/
structure Interval where
  low : Nat
  value : Nat
  high : Nat
  den : Nat
  closed : Bool

/-- The rounding interval of a number, over one denominator: a quarter of the unit in the last place is the unit here. -/
def Binary.interval (b : Binary) : Interval :=
  let below := if b.narrowBelow then 1 else 2
  let scale := fun (n : Nat) => if b.exponent ≥ 0 then n * Nat.pow 2 b.exponent.toNat else n
  let den := if b.exponent ≥ 0 then 4 else 4 * Nat.pow 2 (-b.exponent).toNat
  ⟨scale (4 * b.mantissa - below), scale (4 * b.mantissa), scale (4 * b.mantissa + 2), den, b.mantissa % 2 == 0⟩

/-- Whether `n / d` lies in the interval. -/
def Interval.holds (i : Interval) (n d : Nat) : Bool :=
  if i.closed then i.low * d ≤ n * i.den && n * i.den ≤ i.high * d
  else i.low * d < n * i.den && n * i.den < i.high * d

/-- The decimal exponent of the first digit of `num / den`, found by stepping from a bound above it. -/
def leading (num den : Nat) : (fuel : Nat) → Int → Int
  | 0, e => e
  | fuel + 1, e =>
    let fits := if e ≥ 0 then den * Nat.pow 10 e.toNat ≤ num else den ≤ num * Nat.pow 10 (-e).toNat
    if fits then e else leading num den fuel (e - 1)

/-- The grid point of `count` digits next to the value, if one lies in the interval: of two the nearer, and of two
equally near the even one. `first` is the exponent of the first digit. -/
def Interval.point? (i : Interval) (first : Int) (count : Nat) : Option (Nat × Int) :=
  let unit := first - (count : Int) + 1
  let num := if unit ≥ 0 then i.value else i.value * Nat.pow 10 (-unit).toNat
  let den := if unit ≥ 0 then i.den * Nat.pow 10 unit.toNat else i.den
  let below := num / den
  let inside := fun (n : Nat) =>
    if unit ≥ 0 then i.holds (n * Nat.pow 10 unit.toNat) 1 else i.holds n (Nat.pow 10 (-unit).toNat)
  let twice := 2 * (num % den)
  let nearer := if twice < den then below else if den < twice then below + 1
    else if below % 2 == 0 then below else below + 1
  if inside nearer then some (nearer, unit)
  else if inside below then some (below, unit)
  else if inside (below + 1) then some (below + 1, unit)
  else none

/-- Try one digit, then two, and so on; seventeen always suffice. -/
def Interval.shortest (i : Interval) (first : Int) : (fuel count : Nat) → Nat × Int
  | 0, count => ((i.point? first count).getD (0, 0))
  | fuel + 1, count =>
    match i.point? first count with
    | some p => p
    | none => i.shortest first fuel (count + 1)

/-- A list of digits without the zeros at its end. -/
def trimZeros (ds : List Char) : List Char :=
  (ds.reverse.dropWhile (· == '0')).reverse

/-- The shortest digits of a finite number, by its bit pattern; zero has the one digit zero. -/
def digits (bits : UInt64) : Digits :=
  let b := Binary.ofBits bits
  if b.mantissa == 0 then ⟨['0'], 0⟩
  else
    let i := b.interval
    let first := leading i.value i.den 700 310
    let (n, unit) := i.shortest first 17 1
    let ds := Nat.toDigits 10 n
    ⟨trimZeros ds, unit + (ds.length : Int) - 1⟩

/-- Whether a bit pattern has its sign bit set. -/
def isNegative (bits : UInt64) : Bool :=
  bits >>> 63 == 1

/-- The text of a finite number: positional with a fraction from `10 ^ -5` up to below `10 ^ 16`, otherwise with an
exponent that carries its sign. -/
def render (bits : UInt64) : String :=
  let sign := if isNegative bits then "-" else ""
  let ⟨ds, e⟩ := digits bits
  let body :=
    if 0 ≤ e && e ≤ 15 then
      let whole := e.toNat + 1
      let front := ds.take whole ++ List.replicate (whole - ds.length) '0'
      let back := ds.drop whole
      String.ofList front ++ "." ++ (if back.isEmpty then "0" else String.ofList back)
    else if -5 ≤ e && e < 0 then
      "0." ++ String.ofList (List.replicate ((-e).toNat - 1) '0') ++ String.ofList ds
    else
      let tail := ds.drop 1
      let mantissa := String.ofList (ds.take 1) ++ (if tail.isEmpty then "" else "." ++ String.ofList tail)
      mantissa ++ "e" ++ (if e < 0 then "-" else "+") ++ toString e.natAbs
  sign ++ body

end DualShell.Decimal
