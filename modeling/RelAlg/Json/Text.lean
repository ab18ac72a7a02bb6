set_option autoImplicit false

namespace RelAlg.Json

def escapeChar (c : Char) : List Char :=
  match c with
  | '"' => ['\\', '"']
  | '\\' => ['\\', '\\']
  | '\x08' => ['\\', 'b']
  | '\x09' => ['\\', 't']
  | '\x0a' => ['\\', 'n']
  | '\x0c' => ['\\', 'f']
  | '\x0d' => ['\\', 'r']
  | c =>
    if c.toNat < 0x20 then
      ['\\', 'u', '0', '0', Nat.digitChar (c.toNat / 16), Nat.digitChar (c.toNat % 16)]
    else [c]

def writeText (s : String) : List Char :=
  '"' :: s.toList.flatMap escapeChar ++ ['"']

def unescape? : Char → Option Char
  | '"' => some '"'
  | '\\' => some '\\'
  | '/' => some '/'
  | 'b' => some '\x08'
  | 'f' => some '\x0c'
  | 'n' => some '\x0a'
  | 'r' => some '\x0d'
  | 't' => some '\x09'
  | _ => none

def hexValue? (c : Char) : Option Nat :=
  if '0' ≤ c ∧ c ≤ '9' then some (c.toNat - '0'.toNat)
  else if 'a' ≤ c ∧ c ≤ 'f' then some (c.toNat - 'a'.toNat + 10)
  else if 'A' ≤ c ∧ c ≤ 'F' then some (c.toNat - 'A'.toNat + 10)
  else none

def codeUnit? (a b c d : Char) : Option Nat := do
  let a ← hexValue? a
  let b ← hexValue? b
  let c ← hexValue? c
  let d ← hexValue? d
  return ((a * 16 + b) * 16 + c) * 16 + d

def isHighHalf (u : Nat) : Bool := 0xD800 ≤ u && u < 0xDC00

def isLowHalf (u : Nat) : Bool := 0xDC00 ≤ u && u < 0xE000

/-- The text up to the closing quote and what follows it. After the first half of a pair of code
units only the second half can stand; a half alone is refused. -/
def readText? (high : Option Nat) : List Char → Option (List Char × List Char)
  | [] => none
  | '"' :: cs => if high.isSome then none else some ([], cs)
  | '\\' :: 'u' :: a :: b :: c :: d :: cs =>
    match codeUnit? a b c d, high with
    | none, _ => none
    | some u, none =>
      if isHighHalf u then readText? (some u) cs
      else if isLowHalf u then none
      else (readText? none cs).map fun p => (Char.ofNat u :: p.1, p.2)
    | some u, some h =>
      if isLowHalf u then
        (readText? none cs).map fun p =>
          (Char.ofNat (0x10000 + (h - 0xD800) * 0x400 + (u - 0xDC00)) :: p.1, p.2)
      else none
  | '\\' :: e :: cs =>
    if high.isSome then none
    else (unescape? e).bind fun c => (readText? none cs).map fun p => (c :: p.1, p.2)
  | c :: cs =>
    if high.isSome || c.toNat < 0x20 then none
    else (readText? none cs).map fun p => (c :: p.1, p.2)

theorem length_readText? {high : Option Nat} {cs s rest : List Char}
    (h : readText? high cs = some (s, rest)) : rest.length < cs.length := by
  fun_induction readText? high cs generalizing s rest <;>
    simp only [List.length_cons, Option.map_eq_some_iff, Option.bind_eq_some_iff,
      reduceCtorEq] at h ⊢ <;>
    grind

end RelAlg.Json
