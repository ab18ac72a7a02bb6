import RelAlg.Text.Blank
import RelAlg.Text.Numerals

set_option autoImplicit false

namespace RelAlg.Condition

inductive Token where
  | identifier (name : String)
  | number (literal : String)
  | text (s : String)
  | and
  | or
  | true
  | false
  | equal
  | notEqual
  | less
  | greater
  | lessEqual
  | greaterEqual
  | leftParen
  | rightParen
deriving DecidableEq

namespace Token

def toText : Token → String
  | identifier name => name
  | number literal => literal
  | text s => "'" ++ s ++ "'"
  | and => "AND"
  | or => "OR"
  | true => "true"
  | false => "false"
  | equal => "="
  | notEqual => "!="
  | less => "<"
  | greater => ">"
  | lessEqual => "<="
  | greaterEqual => ">="
  | leftParen => "("
  | rightParen => ")"

/-- A word is a keyword or names an attribute. The links are keywords in capitals only. -/
def ofWord (word : String) : Token :=
  if word = "AND" then and
  else if word = "OR" then or
  else if word = "true" ∨ word = "TRUE" then true
  else if word = "false" ∨ word = "FALSE" then false
  else identifier word

end Token

def startsName (c : Char) : Bool := Text.isLetter c || c = '_'

def continuesName (c : Char) : Bool := Text.isLetterOrNumeral c || c = '_'

/-- What continues a number behind its first character: digits, and a point if a digit follows. -/
def numberTail (cs : List Char) : List Char :=
  let whole := cs.takeWhile Char.isDigit
  match cs.dropWhile Char.isDigit with
  | '.' :: rest => if rest.head?.any Char.isDigit then whole ++ '.' :: rest.takeWhile Char.isDigit
    else whole
  | _ => whole

/-- The text up to the closing quote, and how many characters it takes with that quote. A doubled
quote is one character of the text. -/
def quotedTail? (quote : Char) : List Char → Option (List Char × Nat)
  | [] => none
  | [c] => if c = quote then some ([], 1) else none
  | c :: d :: cs =>
    if c = quote then
      if d = quote then (quotedTail? quote cs).map fun p => (quote :: p.1, p.2 + 2)
      else some ([], 1)
    else (quotedTail? quote (d :: cs)).map fun p => (c :: p.1, p.2 + 1)

inductive LexicalFault where
  | unexpected (c : Char)
  | unterminated
deriving DecidableEq

/-- The token that starts with `c`, a character that is no blank, and how many of the characters
behind it belong to it. -/
def Token.read (c : Char) (cs : List Char) : Except LexicalFault (Token × Nat) :=
  let next := cs.head?
  if c = '=' then .ok (.equal, if next = some '=' then 1 else 0)
  else if c = '<' then
    .ok (if next = some '=' then (.lessEqual, 1)
      else if next = some '>' then (.notEqual, 1) else (.less, 0))
  else if c = '>' then .ok (if next = some '=' then (.greaterEqual, 1) else (.greater, 0))
  else if c = '!' ∧ next = some '=' then .ok (.notEqual, 1)
  else if c = '&' ∧ next = some '&' then .ok (.and, 1)
  else if c = '|' ∧ next = some '|' then .ok (.or, 1)
  else if c = '≠' then .ok (.notEqual, 0)
  else if c = '≤' then .ok (.lessEqual, 0)
  else if c = '≥' then .ok (.greaterEqual, 0)
  else if c = '(' then .ok (.leftParen, 0)
  else if c = ')' then .ok (.rightParen, 0)
  else if c = '\'' ∨ c = '"' then
    match quotedTail? c cs with
    | some (s, count) => .ok (.text (String.ofList s), count)
    | none => .error .unterminated
  else if c.isDigit ∨ (c = '-' ∧ next.any Char.isDigit) then
    .ok (.number (String.ofList (c :: numberTail cs)), (numberTail cs).length)
  else if startsName c then
    let tail := cs.takeWhile continuesName
    .ok (.ofWord (String.ofList (c :: tail)), tail.length)
  else .error (.unexpected c)

structure Lexeme where
  token : Token
  position : Nat
  source : List Char
deriving DecidableEq

def lexemes (position : Nat) : List Char → List Lexeme × Option (LexicalFault × Nat)
  | [] => ([], none)
  | c :: cs =>
    if Text.isBlank c then lexemes (position + 1) cs
    else
      match Token.read c cs with
      | .error fault => ([], some (fault, position))
      | .ok (token, count) =>
        let (rest, fault) := lexemes (position + 1 + count) (cs.drop count)
        (⟨token, position, c :: cs.take count⟩ :: rest, fault)
termination_by cs => cs.length

def lex (cs : List Char) : List Token × Option (LexicalFault × Nat) :=
  let (ls, fault) := lexemes 0 cs
  (ls.map Lexeme.token, fault)

theorem lexemes_nil (position : Nat) : lexemes position [] = ([], none) := by
  simp [lexemes]

theorem lexemes_blank {c : Char} (h : Text.isBlank c = true) (position : Nat) (cs : List Char) :
    lexemes position (c :: cs) = lexemes (position + 1) cs := by
  rw [lexemes]
  simp [h]

theorem lexemes_fault {c : Char} {cs : List Char} {fault : LexicalFault}
    (hb : Text.isBlank c = false) (h : Token.read c cs = .error fault) (position : Nat) :
    lexemes position (c :: cs) = ([], some (fault, position)) := by
  rw [lexemes]
  simp [hb, h]

theorem lexemes_token {c : Char} {cs : List Char} {token : Token} {count : Nat}
    (hb : Text.isBlank c = false) (h : Token.read c cs = .ok (token, count)) (position : Nat) :
    lexemes position (c :: cs) =
      (⟨token, position, c :: cs.take count⟩ ::
        (lexemes (position + 1 + count) (cs.drop count)).1,
        (lexemes (position + 1 + count) (cs.drop count)).2) := by
  rw [lexemes]
  simp [hb, h]

end RelAlg.Condition
