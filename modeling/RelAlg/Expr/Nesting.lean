import RelAlg.Expr.Basic

/-!
Nesting in expression text: how many parentheses and brackets are open at each character, and which
characters belong to a quoted literal. Literals are known inside brackets only, and the bracket that
closes a condition also ends a literal left open. Operators count where nothing is open.
-/

set_option autoImplicit false

namespace RelAlg.Expr

/-- What is open between two characters. The counts fall below zero where more is closed than
opened. -/
structure Nesting where
  parens : Int
  brackets : Int
  quote : Option Char
deriving DecidableEq

namespace Nesting

def start : Nesting := ⟨0, 0, none⟩

/-- The next character closes a condition in the middle of a literal. -/
def cutsLiteral (n : Nesting) (c : Char) : Bool :=
  c = ']' && 0 < n.brackets

def opensLiteral (n : Nesting) (c : Char) : Bool :=
  (c = '\'' || c = '"') && 0 < n.brackets

def quotes (n : Nesting) (c : Char) : Bool :=
  match n.quote with
  | some _ => !n.cutsLiteral c
  | none => n.opensLiteral c

def step (n : Nesting) (c : Char) : Nesting :=
  match n.quote with
  | some q =>
    if n.cutsLiteral c then ⟨n.parens, n.brackets - 1, none⟩
    else if c = q then { n with quote := none }
    else n
  | none =>
    if n.opensLiteral c then { n with quote := some c }
    else if c = '(' then { n with parens := n.parens + 1 }
    else if c = ')' then { n with parens := n.parens - 1 }
    else if c = '[' then { n with brackets := n.brackets + 1 }
    else if c = ']' then { n with brackets := n.brackets - 1 }
    else n

def run (n : Nesting) (cs : List Char) : Nesting :=
  cs.foldl step n

def isTopLevel (n : Nesting) (c : Char) : Bool :=
  n.parens = 0 && n.brackets = 0 && !n.quotes c

end Nesting

def utf8Size : List Char → Nat
  | [] => 0
  | c :: cs => c.utf8Size + utf8Size cs

structure Position where
  offset : Nat
  char : Char
  nesting : Nesting
deriving DecidableEq

def positionsFrom (offset : Nat) (n : Nesting) : List Char → List Position
  | [] => []
  | c :: cs => ⟨offset, c, n⟩ :: positionsFrom (offset + c.utf8Size) (n.step c) cs

def positions (cs : List Char) : List Position :=
  positionsFrom 0 .start cs

/-- The first spelling that the text starts with, and what stands for it. -/
def startsWith? {α : Type} (spellings : List (List Char × α)) (cs : List Char) :
    Option (List Char × α) :=
  spellings.find? fun s => s.1.isPrefixOf cs

structure Split where
  left : List Char
  token : List Char
  op : BinaryOp
  right : List Char
deriving DecidableEq

def splitFrom (n : Nesting) : List Char → Option Split
  | [] => none
  | c :: cs =>
    match if n.isTopLevel c then startsWith? BinaryOp.spellings (c :: cs) else none with
    | some (token, op) => some ⟨[], token, op, (c :: cs).drop token.length⟩
    | none => (splitFrom (n.step c) cs).map fun s => { s with left := c :: s.left }

def split? (cs : List Char) : Option Split :=
  splitFrom .start cs

/-- The text before and behind the first unquoted `)` that goes back to `level` open
parentheses. -/
def closeParen (level : Int) (n : Nesting) : List Char → Option (List Char × List Char)
  | [] => none
  | c :: cs =>
    if c = ')' ∧ n.quotes c = false ∧ n.parens = level + 1 then some ([], cs)
    else (closeParen level (n.step c) cs).map fun p => (c :: p.1, p.2)

def enclosed? (n : Nesting) : List Char → Option (List Char × List Char)
  | '(' :: cs => closeParen n.parens (n.step '(') cs
  | _ => none

def splitOffset (offset : Nat) : List Char → List Char × List Char
  | [] => ([], [])
  | c :: cs =>
    if offset = 0 then ([], c :: cs)
    else
      let (before, behind) := splitOffset (offset - c.utf8Size) cs
      (c :: before, behind)

def matchingParen? (cs : List Char) (offset : Nat) : Option Nat :=
  let (before, behind) := splitOffset offset cs
  (enclosed? (Nesting.start.run before) behind).map fun p => utf8Size before + 1 + utf8Size p.1

def hasGrouping (cs : List Char) : Bool :=
  (positions cs).any fun p =>
    !p.nesting.quotes p.char && (p.char = '(' || p.char = ')' || p.char = '[' || p.char = ']')

theorem run_append (n : Nesting) (as bs : List Char) : n.run (as ++ bs) = (n.run as).run bs :=
  List.foldl_append

theorem startsWith?_isPrefixOf {α : Type} {spellings : List (List Char × α)} {cs token : List Char}
    {a : α} (h : startsWith? spellings cs = some (token, a)) :
    (token, a) ∈ spellings ∧ token.isPrefixOf cs = true := by
  simp only [startsWith?] at h
  exact ⟨List.mem_of_find?_eq_some h, by simpa using List.find?_some h⟩

theorem append_of_splitFrom {n : Nesting} {cs : List Char} {s : Split}
    (h : splitFrom n cs = some s) : s.left ++ s.token ++ s.right = cs := by
  induction cs generalizing n s with
  | nil => simp [splitFrom] at h
  | cons c cs ih =>
    simp only [splitFrom] at h
    split at h
    · rename_i token op hs
      split at hs
      · have hp := List.isPrefixOf_iff_prefix.1 (startsWith?_isPrefixOf hs).2
        obtain ⟨rest, hr⟩ := hp
        cases h
        simp [← hr]
      · cases hs
    · obtain ⟨s', hs', rfl⟩ := Option.map_eq_some_iff.1 h
      simpa using ih hs'

theorem append_of_closeParen {level : Int} {n : Nesting} {cs inside rest : List Char}
    (h : closeParen level n cs = some (inside, rest)) : inside ++ ')' :: rest = cs := by
  induction cs generalizing n inside with
  | nil => simp [closeParen] at h
  | cons c cs ih =>
    simp only [closeParen] at h
    split at h
    · rename_i hc
      cases h
      simp [hc.1]
    · obtain ⟨⟨inside', rest'⟩, hp, he⟩ := Option.map_eq_some_iff.1 h
      cases he
      simpa using ih hp

theorem append_splitOffset (offset : Nat) (cs : List Char) :
    (splitOffset offset cs).1 ++ (splitOffset offset cs).2 = cs := by
  induction cs generalizing offset with
  | nil => simp [splitOffset]
  | cons c cs ih =>
    simp only [splitOffset]
    split
    · rfl
    · simpa using ih _

end RelAlg.Expr
