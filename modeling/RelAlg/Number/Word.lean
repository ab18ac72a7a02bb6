import RelAlg.Number.Decimal

set_option autoImplicit false

namespace RelAlg

def maxWord : Nat := Nat.pow 2 64 - 1

/-- Digits, perhaps behind a plus, that fit in a machine word. -/
def readWord? (cs : List Char) : Option Nat :=
  let digits := if cs.head? = some '+' then cs.drop 1 else cs
  if digits.isEmpty || !digits.all Char.isDigit then none
  else
    let n := Decimal.ofDigits digits
    if n ≤ maxWord then some n else none

end RelAlg
