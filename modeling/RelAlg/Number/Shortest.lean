import RelAlg.Number.Decimal

/-!
Shortest decimals: the fewest digits that read back to a magnitude, and of those the nearest. Only
the two neighbours of the magnitude on each decimal grid can be that, so only they are tried.
-/

set_option autoImplicit false

namespace RelAlg

inductive Tie where
  | up
  | even

namespace Magnitude

def leadingPower (m : Magnitude) : Int :=
  Decimal.log10 (m.units * Nat.pow 10 324 / unitsPerOne) - 324

def inPowers (m : Magnitude) (power : Int) : Nat × Nat :=
  (m.units * Nat.pow 10 (-power).toNat, unitsPerOne * Nat.pow 10 power.toNat)

/-- The nearest decimal on a grid that reads back, if there is one, without zeros at its end. -/
def onGrid? (m : Magnitude) (tie : Tie) (power : Int) : Option Decimal :=
  let (num, den) := m.inPowers power
  let low := Decimal.strip ⟨num / den, power⟩
  let high := Decimal.strip ⟨num / den + 1, power⟩
  let twice := 2 * (num % den)
  let highFirst := den < twice || (den = twice && match tie with
    | .up => true
    | .even => num / den % 2 = 1)
  let (first, second) := if highFirst then (high, low) else (low, high)
  [first, second].find? (·.toMagnitude = m)

def exactDecimal (m : Magnitude) : Decimal :=
  ⟨m.units * Nat.pow 5 1074, -1074⟩

def shortestDecimal (m : Magnitude) (tie : Tie) : Decimal :=
  let top := m.leadingPower
  ((List.range 17).findSome? fun n : Nat => m.onGrid? tie (top - n)).getD m.exactDecimal

theorem onGrid?_toMagnitude {m : Magnitude} {tie : Tie} {power : Int} {d : Decimal}
    (h : m.onGrid? tie power = some d) : d.toMagnitude = m := by
  simpa using List.find?_some h

end Magnitude

namespace Decimal

/-- In full, without an exponent: a point only if there are digits behind it, and one zero before
it if there is no other digit. -/
def positional (d : Decimal) : List Char :=
  let digits := toDigits d.digits
  if 0 ≤ d.exponent then
    if d.digits = 0 then digits else digits ++ List.replicate d.exponent.toNat '0'
  else
    let places := (-d.exponent).toNat
    if places < digits.length then
      digits.take (digits.length - places) ++ '.' :: digits.drop (digits.length - places)
    else '0' :: '.' :: List.replicate (places - digits.length) '0' ++ digits

end Decimal

namespace Number

def toText : Number → String
  | nan => "NaN"
  | real negative m =>
    let body :=
      if m.rank = 0 then ['0']
      else if m.isFinite then (m.shortestDecimal .up).positional
      else ['i', 'n', 'f']
    String.ofList (if negative then '-' :: body else body)

end Number

end RelAlg
