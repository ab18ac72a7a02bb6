import RelAlg.Number.Magnitude

/-!
Numbers: a sign and a magnitude, or no number at all. Numbers are equal if they stand at the same
place of the real line, so the two zeros are equal, and no-number is equal to itself. The order
leaves no-number out.
-/

set_option autoImplicit false

namespace RelAlg

inductive Number where
  | nan
  | real (negative : Bool) (magnitude : Magnitude)
deriving DecidableEq

namespace Number

def zero : Number := .real false .zero

instance : Inhabited Number := ⟨zero⟩

def ofNat (n : Nat) : Number := .real false (.ofNat n)

def isFinite : Number → Bool
  | nan => false
  | real _ m => m.isFinite

def negate : Number → Number
  | nan => nan
  | real s m => real (!s) m

def place? : Number → Option Int
  | nan => none
  | real false m => some m.rank
  | real true m => some (-m.rank)

/-- The one that stands for all equal numbers: zero has no sign. -/
def canonical : Number → Number
  | nan => nan
  | real s m => if m.rank = 0 then zero else real s m

def same (a b : Number) : Bool := a.canonical = b.canonical

/-- The order on the real line; no-number counts as equal to everything. -/
def compare (a b : Number) : Ordering :=
  match a.place?, b.place? with
  | some x, some y => Ord.compare x y
  | _, _ => .eq

theorem canonical_canonical (a : Number) : a.canonical.canonical = a.canonical := by
  cases a with
  | nan => rfl
  | real s m => by_cases h : m.rank = 0 <;> simp [canonical, h, zero, Magnitude.zero]

theorem compare_swap (a b : Number) : (a.compare b).swap = b.compare a := by
  cases ha : a.place? <;> cases hb : b.place? <;> simp [compare, ha, hb, Int.compare_swap]

end Number

end RelAlg
