import RelAlg.Number.Shortest
import RelAlg.Text.Blank

/-!
Numbers in JSON. A small whole number is written without a point, any other one by its shortest
digits. Reading keeps a significand of 64 bits and scales it by powers of ten in floating point, so
a long or far-scaled number can end beside the nearest one.
-/

set_option autoImplicit false

namespace RelAlg.Json

/-- In full for leading powers from -5 to 15, with a point in any case, else with one digit before
the point and an exponent. -/
def writeDecimal (d : Decimal) : List Char :=
  let digits := Decimal.toDigits d.digits
  if -5 ≤ d.leading ∧ d.leading ≤ 15 then
    d.positional ++ if 0 ≤ d.exponent then ['.', '0'] else []
  else
    digits.take 1 ++ (if digits.length = 1 then [] else '.' :: digits.drop 1) ++
      'e' :: (if d.leading < 0 then '-' else '+') :: Decimal.toDigits d.leading.natAbs

def writeNumber : Number → List Char
  | .nan => ['n', 'u', 'l', 'l']
  | .real negative m =>
    let whole := m.units / Magnitude.unitsPerOne
    if !m.isFinite then ['n', 'u', 'l', 'l']
    else if m.units % Magnitude.unitsPerOne = 0 ∧ whole < 9 * Nat.pow 10 15 then
      (if negative ∧ whole ≠ 0 then ['-'] else []) ++ Decimal.toDigits whole
    else (if negative then ['-'] else []) ++ writeDecimal (m.shortestDecimal .even)

def maxSignificand : Nat := Nat.pow 2 64 - 1

/-- Appends digits to a significand while it stays in range: the result, how many were appended,
and the rest of the text. -/
def appendDigits (significand : Nat) : List Char → Nat × Nat × List Char
  | [] => (significand, 0, [])
  | c :: cs =>
    let next := 10 * significand + (c.toNat - '0'.toNat)
    if c.isDigit ∧ next ≤ maxSignificand then
      let (s, count, rest) := appendDigits next cs
      (s, count + 1, rest)
    else (significand, 0, c :: cs)

/-- The whole part: a zero, or digits that start with another one. Digits beyond the range only
count. -/
def readWhole? : List Char → Option (Decimal × List Char)
  | [] => none
  | c :: cs =>
    if c = '0' then
      if cs.head?.any Char.isDigit then none else some (⟨0, 0⟩, cs)
    else if c.isDigit then
      let (s, _, rest) := appendDigits (c.toNat - '0'.toNat) cs
      some (⟨s, (rest.takeWhile Char.isDigit).length⟩, rest.dropWhile Char.isDigit)
    else none

def readFraction? (d : Decimal) : List Char → Option (Decimal × List Char)
  | '.' :: cs =>
    if cs.head?.any Char.isDigit then
      let (s, count, rest) := appendDigits d.digits cs
      some (⟨s, d.exponent - count⟩, rest.dropWhile Char.isDigit)
    else none
  | cs => some (d, cs)

def readPower? (d : Decimal) : List Char → Option (Decimal × List Char)
  | [] => some (d, [])
  | c :: cs =>
    if c = 'e' ∨ c = 'E' then
      let (negative, cs) := Number.splitSign cs
      let digits := cs.takeWhile Char.isDigit
      let power : Int := Decimal.ofDigits digits
      if digits.isEmpty then none
      else some (⟨d.digits, d.exponent + if negative then -power else power⟩,
        cs.dropWhile Char.isDigit)
    else some (d, c :: cs)

/-- Division by `10 ^ power`, at most `10 ^ 308` at a time. -/
def scaleDown (m : Magnitude) (power : Nat) : Magnitude :=
  if power ≤ 308 then m.div (.ofNat (Nat.pow 10 power))
  else if m.rank = 0 then m
  else scaleDown (m.div (.ofNat (Nat.pow 10 308))) (power - 308)
termination_by power

def scale? (d : Decimal) : Option Magnitude :=
  let m := Magnitude.ofNat d.digits
  if d.exponent < 0 then some (scaleDown m d.exponent.natAbs)
  else if m.rank = 0 then some m
  else if 308 < d.exponent then none
  else
    let product := m.mul (.ofNat (Nat.pow 10 d.exponent.toNat))
    if product.isFinite then some product else none

def readNumber? (cs : List Char) : Option (Number × List Char) := do
  let negative := cs.head? == some '-'
  let (d, cs) ← readWhole? (if negative then cs.drop 1 else cs)
  let (d, cs) ← readFraction? d cs
  let (d, cs) ← readPower? d cs
  let m ← scale? d
  return (.real negative m, cs)

theorem length_appendDigits (s : Nat) (cs : List Char) :
    (appendDigits s cs).2.2.length ≤ cs.length := by
  induction cs generalizing s with
  | nil => simp [appendDigits]
  | cons c cs ih =>
    simp only [appendDigits]
    split
    · exact Nat.le_succ_of_le (ih _)
    · exact Nat.le_refl _

theorem length_dropWhile_isDigit_le (cs : List Char) :
    (cs.dropWhile Char.isDigit).length ≤ cs.length :=
  (List.dropWhile_sublist Char.isDigit).length_le

theorem length_readWhole? {cs rest : List Char} {d : Decimal}
    (h : readWhole? cs = some (d, rest)) : rest.length < cs.length := by
  cases cs with
  | nil => simp [readWhole?] at h
  | cons c cs =>
    simp only [readWhole?] at h
    have := length_appendDigits (c.toNat - '0'.toNat) cs
    have := length_dropWhile_isDigit_le (appendDigits (c.toNat - '0'.toNat) cs).2.2
    grind

theorem length_readFraction? {d e : Decimal} {cs rest : List Char}
    (h : readFraction? d cs = some (e, rest)) : rest.length ≤ cs.length := by
  unfold readFraction? at h
  split at h
  · rename_i cs
    have := length_appendDigits d.digits cs
    have := length_dropWhile_isDigit_le (appendDigits d.digits cs).2.2
    grind
  · grind

theorem length_readPower? {d e : Decimal} {cs rest : List Char}
    (h : readPower? d cs = some (e, rest)) : rest.length ≤ cs.length := by
  cases cs with
  | nil => simp_all [readPower?]
  | cons c cs =>
    simp only [readPower?] at h
    have := length_dropWhile_isDigit_le (Number.splitSign cs).2
    have : (Number.splitSign cs).2.length ≤ cs.length := by
      unfold Number.splitSign
      split <;> simp
    grind

theorem length_readNumber? {cs rest : List Char} {n : Number}
    (h : readNumber? cs = some (n, rest)) : rest.length < cs.length := by
  simp only [readNumber?, Option.pure_def, Option.bind_eq_bind, Option.bind_eq_some_iff,
    Option.some.injEq, Prod.mk.injEq, Prod.exists] at h
  obtain ⟨_, _, hw, _, _, hf, _, _, hp, _, _, _, rfl⟩ := h
  have := length_readWhole? hw
  have := length_readFraction? hf
  have := length_readPower? hp
  have : (if cs.head? == some '-' then cs.drop 1 else cs).length ≤ cs.length := by
    split <;> simp
  omega

end RelAlg.Json
