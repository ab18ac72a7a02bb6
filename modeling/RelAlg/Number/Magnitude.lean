/-!
Magnitudes of double-precision numbers, known by their rank: rank `k` is the `k`-th size in
increasing order, from zero to infinity. Every finite one is a whole number of units of `2 ^ -1074`,
and a quotient goes to the nearest one, a tie to the even rank.
-/

set_option autoImplicit false

namespace RelAlg

/-- The number of ranks from one power of two to the next. -/
def Magnitude.ranksPerDoubling : Nat := Nat.pow 2 52

def Magnitude.topRank : Nat := 2047 * ranksPerDoubling

structure Magnitude where
  rank : Nat
  rank_le : rank ≤ Magnitude.topRank
deriving DecidableEq

namespace Magnitude

def zero : Magnitude := ⟨0, Nat.zero_le _⟩

def infinity : Magnitude := ⟨topRank, Nat.le_refl _⟩

instance : Inhabited Magnitude := ⟨zero⟩

def unitsPerOne : Nat := Nat.pow 2 1074

def units (m : Magnitude) : Nat :=
  if m.rank < ranksPerDoubling then m.rank
  else (ranksPerDoubling + m.rank % ranksPerDoubling) *
    Nat.pow 2 (m.rank / ranksPerDoubling - 1)

def isFinite (m : Magnitude) : Bool :=
  m.rank < topRank

def roundHalfEven (num den : Nat) : Nat :=
  let q := num / den
  let twice := 2 * (num % den)
  if twice < den then q else if den < twice then q + 1 else q + q % 2

/-- The magnitude with the given number of units over `den`: the last bit of 53 is rounded, and a
carry moves on to the next rank. -/
def ofUnits (num den : Nat) : Magnitude :=
  let shift := (num / den).log2 - 52
  let rank := shift * ranksPerDoubling + roundHalfEven num (den * Nat.pow 2 shift)
  if h : rank ≤ topRank then ⟨rank, h⟩ else infinity

def ofQuotient (num den : Nat) : Magnitude :=
  ofUnits (num * unitsPerOne) den

def ofNat (n : Nat) : Magnitude :=
  ofQuotient n 1

def mul (a b : Magnitude) : Magnitude :=
  ofUnits (a.units * b.units) unitsPerOne

def div (a b : Magnitude) : Magnitude :=
  ofQuotient a.units b.units

theorem ext_rank {a b : Magnitude} (h : a.rank = b.rank) : a = b := by
  cases a; cases b; simp_all

theorem units_zero : units zero = 0 := by
  simp [units, zero]

end Magnitude

end RelAlg
