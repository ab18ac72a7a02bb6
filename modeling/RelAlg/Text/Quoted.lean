import RelAlg.Text.Extenders
import RelAlg.Text.Hidden

set_option autoImplicit false

namespace RelAlg.Text

def hex (n : Nat) : List Char :=
  Nat.toDigits 16 n

/-- Line ends, tabs, NUL, quotes and backslashes have short escapes; any other character that
extends its neighbour or shows nothing is written by its code point. -/
def escapeChar (c : Char) : List Char :=
  match c with
  | '\x00' => ['\\', '0']
  | '\t' => ['\\', 't']
  | '\n' => ['\\', 'n']
  | '\r' => ['\\', 'r']
  | '"' => ['\\', '"']
  | '\\' => ['\\', '\\']
  | c =>
    if isExtender c || isHidden c then '\\' :: 'u' :: '\x7b' :: hex c.toNat ++ ['\x7d'] else [c]

def quoted (s : String) : String :=
  String.ofList ('"' :: s.toList.flatMap escapeChar ++ ['"'])

end RelAlg.Text
