import RelAlg.Text.CodePoints

set_option autoImplicit false

namespace RelAlg.Text

/-- The code points with the White_Space property. -/
def blankRanges : CodePoints :=
  [(0x9, 0xD), (0x20, 0x20), (0x85, 0x85), (0xA0, 0xA0), (0x1680, 0x1680), (0x2000, 0x200A),
   (0x2028, 0x2029), (0x202F, 0x202F), (0x205F, 0x205F), (0x3000, 0x3000)]

def isBlank (c : Char) : Bool :=
  blankRanges.contains c

def trimStart (cs : List Char) : List Char :=
  cs.dropWhile isBlank

def trimEnd (cs : List Char) : List Char :=
  (cs.reverse.dropWhile isBlank).reverse

def trim (cs : List Char) : List Char :=
  trimEnd (trimStart cs)

def trimmed (s : String) : String :=
  String.ofList (trim s.toList)

/-- The first word and what follows it, both without outer blanks. -/
def splitWord (cs : List Char) : List Char × List Char :=
  let cs := trim cs
  (cs.takeWhile (!isBlank ·), trimStart (cs.dropWhile (!isBlank ·)))

theorem length_trimStart_le (cs : List Char) : (trimStart cs).length ≤ cs.length :=
  (List.dropWhile_sublist _).length_le

theorem length_trimEnd_le (cs : List Char) : (trimEnd cs).length ≤ cs.length := by
  simpa [trimEnd] using (List.dropWhile_sublist (l := cs.reverse) isBlank).length_le

theorem length_trim_le (cs : List Char) : (trim cs).length ≤ cs.length :=
  Nat.le_trans (length_trimEnd_le _) (length_trimStart_le _)

end RelAlg.Text
