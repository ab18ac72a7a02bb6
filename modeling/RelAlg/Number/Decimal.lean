import RelAlg.Number.Basic

/-!
Decimals: a whole number of powers of ten. A decimal goes to the nearest magnitude, and `read?`
takes a number from its decimal text: an optional sign, then `inf`, `infinity` or `nan` in any case,
or digits with at most one point and an optional exponent.
-/

set_option autoImplicit false

namespace RelAlg

structure Decimal where
  digits : Nat
  exponent : Int
deriving DecidableEq

namespace Decimal

def ofDigits (cs : List Char) : Nat :=
  cs.foldl (fun n c => 10 * n + (c.toNat - '0'.toNat)) 0

def toDigits (n : Nat) : List Char :=
  Nat.toDigits 10 n

/-- The power of ten of the first digit of a number: estimated from its bits, then put right by a
comparison on either side. -/
def log10 (n : Nat) : Nat :=
  let k := n.log2 * 30103 / 100000
  if Nat.pow 10 (k + 1) ≤ n then k + 1 else if n < Nat.pow 10 k then k - 1 else k

def leading (d : Decimal) : Int :=
  d.exponent + log10 d.digits

/-- The nearest magnitude. A number of some digits is infinite from `10 ^ 311` on and zero below
`10 ^ -331`, so no power beyond the size of the digits is ever formed. -/
def toMagnitude (d : Decimal) : Magnitude :=
  if d.digits = 0 then .zero
  else if 310 < d.exponent then .infinity
  else if d.exponent + d.digits.log2 < -331 then .zero
  else if 0 ≤ d.exponent then .ofQuotient (d.digits * Nat.pow 10 d.exponent.toNat) 1
  else .ofQuotient d.digits (Nat.pow 10 (-d.exponent).toNat)

def strip (d : Decimal) : Decimal :=
  if d.digits ≠ 0 ∧ d.digits % 10 = 0 then strip ⟨d.digits / 10, d.exponent + 1⟩ else d
termination_by d.digits
decreasing_by omega

end Decimal

namespace Number

def splitSign : List Char → Bool × List Char
  | '-' :: cs => (true, cs)
  | '+' :: cs => (false, cs)
  | cs => (false, cs)

def readExponent? : List Char → Option Int
  | [] => some 0
  | c :: cs =>
    if c = 'e' || c = 'E' then
      let (negative, digits) := splitSign cs
      if digits.isEmpty || !digits.all Char.isDigit then none
      else some (if negative then -Decimal.ofDigits digits else Decimal.ofDigits digits)
    else none

def readDecimal? (cs : List Char) : Option Decimal :=
  let whole := cs.takeWhile Char.isDigit
  let rest := cs.dropWhile Char.isDigit
  let (fraction, rest) := match rest with
    | '.' :: r => (r.takeWhile Char.isDigit, r.dropWhile Char.isDigit)
    | r => ([], r)
  if whole.isEmpty && fraction.isEmpty then none
  else (readExponent? rest).map fun e => ⟨Decimal.ofDigits (whole ++ fraction), e - fraction.length⟩

def read? (cs : List Char) : Option Number :=
  let (negative, cs) := splitSign cs
  let word := String.ofList (cs.map Char.toLower)
  if word = "nan" then some .nan
  else if word = "inf" || word = "infinity" then some (.real negative .infinity)
  else (readDecimal? cs).map fun d => .real negative d.toMagnitude

end Number

end RelAlg
