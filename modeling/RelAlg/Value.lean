import RelAlg.Number.Shortest
import RelAlg.Text.Blank

set_option autoImplicit false

namespace RelAlg

inductive Value where
  | number (n : Number)
  | text (s : String)
deriving DecidableEq

namespace Value

def readNumber? (s : String) : Option Number :=
  (Number.read? (Text.trim s.toList)).filter Number.isFinite

/-- Entered text is a number if it spells a finite one, else the text as it stands. -/
def ofInput (s : String) : Value :=
  match readNumber? s with
  | some n => number n
  | none => text s

def asNumber? : Value → Option Number
  | number n => some n
  | text s => readNumber? s

def toText : Value → String
  | number n => n.toText
  | text s => s

instance : ToString Value := ⟨toText⟩

def canonical : Value → Value
  | number n => number n.canonical
  | text s => text s

/-- Equality of values: by kind and content, with one zero. -/
def same (a b : Value) : Bool := a.canonical = b.canonical

/-- By number if both read as one, else by text. -/
def compare (a b : Value) : Ordering :=
  match a.asNumber?, b.asNumber? with
  | some x, some y => x.compare y
  | _, _ => compareOfLessAndEq a.toText b.toText

theorem same_iff {a b : Value} : a.same b = true ↔ a.canonical = b.canonical := by
  simp [same]

theorem same_refl (a : Value) : a.same a = true :=
  same_iff.2 rfl

theorem canonical_canonical (a : Value) : a.canonical.canonical = a.canonical := by
  cases a <;> simp [canonical, Number.canonical_canonical]

end Value

end RelAlg
