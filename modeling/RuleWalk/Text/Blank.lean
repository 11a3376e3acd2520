/-!
# Blanks

The characters that count as blank at the end of a line: the ASCII blanks and separators and the
Unicode spaces.
-/

namespace RuleWalk.Text

def isBlank (c : Char) : Bool :=
  let n := c.toNat
  (9 ≤ n && n ≤ 13) || (0x1c ≤ n && n ≤ 0x20) || n == 0x85 || n == 0xa0 || n == 0x1680 ||
  (0x2000 ≤ n && n ≤ 0x200a) || n == 0x2028 || n == 0x2029 || n == 0x202f || n == 0x205f ||
  n == 0x3000

/-- The text without the blanks at its end. -/
def trimEnd (s : String) : String :=
  String.ofList (s.toList.reverse.dropWhile isBlank).reverse

/-- The first `n` characters. -/
def clip (n : Nat) (s : String) : String := String.ofList (s.toList.take n)

/-- The lines of a text, cut at each line feed. -/
def lines (s : String) : List String := (s.toList.splitOn '\n').map String.ofList

/-- Every line ending becomes a line feed. -/
def unifyLineEndings : List Char → List Char
  | '\r' :: '\n' :: rest => '\n' :: unifyLineEndings rest
  | '\r' :: rest => '\n' :: unifyLineEndings rest
  | c :: rest => c :: unifyLineEndings rest
  | [] => []

end RuleWalk.Text
