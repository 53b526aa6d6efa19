import Mathlib.Algebra.GroupWithZero.Nat
import Mathlib.Data.List.Basic

/-!
# Go's text functions

The functions of Go's `strings`, `strconv` and `unicode` packages that the program calls, on Lean strings. They work on the
list of characters, so that they evaluate on a concrete string; a Go string that is not UTF-8 has no counterpart here.
-/


namespace Go

/-- `unicode.IsSpace`. -/
def isSpace (c : Char) : Bool :=
  let n := c.toNat
  (9 ≤ n && n ≤ 13) || n == 0x20 || n == 0x85 || n == 0xA0 || n == 0x1680 || (0x2000 ≤ n && n ≤ 0x200A) ||
    n == 0x2028 || n == 0x2029 || n == 0x202F || n == 0x205F || n == 0x3000

/-- `unicode.IsControl`. -/
def isControl (c : Char) : Bool :=
  c.toNat < 0x20 || (0x7F ≤ c.toNat && c.toNat < 0xA0)

/-- `unicode.ToLower`, as far as it can give an ASCII letter: the Kelvin sign and the dotted capital I are the only characters
outside ASCII that do. Every other character outside ASCII is left as it is. -/
def toLowerChar (c : Char) : Char :=
  if 'A' ≤ c ∧ c ≤ 'Z' then Char.ofNat (c.toNat + 32)
  else if c.toNat = 0x212A then 'k'
  else if c.toNat = 0x130 then 'i'
  else c

/-- `strings.ToLower`. -/
def toLower (s : String) : String := String.ofList (s.toList.map toLowerChar)

/-- Simple case folding, as far as it can give an ASCII letter: `toLowerChar`, and the long s. The dotted capital I folds to
nothing but itself. -/
def foldChar (c : Char) : Char :=
  if c.toNat = 0x17F then 's' else if c.toNat = 0x130 then c else toLowerChar c

/-- `strings.EqualFold`. -/
def equalFold (s t : String) : Bool := s.toList.map foldChar == t.toList.map foldChar

/-- Drop white space from both ends. -/
def trimList (cs : List Char) : List Char :=
  ((cs.dropWhile isSpace).reverse.dropWhile isSpace).reverse

/-- `strings.TrimSpace`. -/
def trimSpace (s : String) : String := String.ofList (trimList s.toList)

/-- `strings.HasPrefix`. -/
def hasPrefix (s p : String) : Bool := p.toList.isPrefixOf s.toList

/-- `strings.HasSuffix`. -/
def hasSuffix (s p : String) : Bool := p.toList.isSuffixOf s.toList

/-- `strings.Contains`, for a substring of one character. -/
def containsChar (s : String) (c : Char) : Bool := s.toList.contains c

/-- `strings.ContainsAny`. -/
def containsAny (s chars : String) : Bool := s.toList.any (fun c => chars.toList.contains c)

/-- Cut a list of characters at every character that satisfies `p`: the pieces between, empty ones included. -/
def splitList (p : Char → Bool) : List Char → List (List Char)
  | [] => [[]]
  | c :: cs =>
    match p c, splitList p cs with
    | true, ps => [] :: ps
    | false, [] => [[c]]
    | false, q :: qs => (c :: q) :: qs

/-- `strings.Split`, for a separator of one character. -/
def split (s : String) (sep : Char) : List String := (splitList (· == sep) s.toList).map String.ofList

/-- `strings.FieldsFunc`: the pieces between characters that satisfy `p`, without the empty ones. -/
def fieldsFunc (s : String) (p : Char → Bool) : List String :=
  ((splitList p s.toList).filter (· ≠ [])).map String.ofList

/-- `strings.Cut`, for a separator of one character: what stands before the first one and after it, if there is one. -/
def cut (s : String) (sep : Char) : Option (String × String) :=
  match s.toList.span (· ≠ sep) with
  | (_, []) => none
  | (before, _ :: after) => some (String.ofList before, String.ofList after)

/-- `strings.Join`. -/
def join : List String → String → String
  | [], _ => ""
  | [s], _ => s
  | s :: t :: ss, sep => s ++ sep ++ join (t :: ss) sep

/-- Whether a character is an ASCII digit. -/
def isDigit (c : Char) : Bool := '0' ≤ c && c ≤ '9'

/-- The value of a digit. -/
def digitVal (c : Char) : Nat := c.toNat - '0'.toNat

/-- The number a list of decimal digits denotes. -/
def digitsVal (cs : List Char) : Nat := cs.foldl (fun n c => n * 10 + digitVal c) 0

/-- `strconv.Atoi` on a 64-bit host: an optional sign and decimal digits, in range. -/
def atoi (s : String) : Option Int :=
  let unsigned (cs : List Char) : Option Nat := if cs ≠ [] ∧ cs.all isDigit then some (digitsVal cs) else none
  match s.toList with
  | '-' :: cs => (unsigned cs).bind fun n => if n ≤ 2 ^ 63 then some (-(n : Int)) else none
  | '+' :: cs => (unsigned cs).bind fun n => if n < 2 ^ 63 then some (n : Int) else none
  | cs => (unsigned cs).bind fun n => if n < 2 ^ 63 then some (n : Int) else none

/-- One hexadecimal digit. -/
def hexDigit (n : Nat) : Char := if n < 10 then Char.ofNat (48 + n) else Char.ofNat (87 + n)

/-- `strconv.Quote` of one character. Every character outside ASCII counts as printable here. -/
def quoteChar (c : Char) : List Char :=
  if c = '"' then ['\\', '"']
  else if c = '\\' then ['\\', '\\']
  else if c = '\n' then ['\\', 'n']
  else if c = '\r' then ['\\', 'r']
  else if c = '\t' then ['\\', 't']
  else if c.toNat = 7 then ['\\', 'a']
  else if c.toNat = 8 then ['\\', 'b']
  else if c.toNat = 12 then ['\\', 'f']
  else if c.toNat = 11 then ['\\', 'v']
  else if c.toNat < 32 ∨ c.toNat = 127 then ['\\', 'x', hexDigit (c.toNat / 16), hexDigit (c.toNat % 16)]
  else [c]

/-- `strconv.Quote`, which is what the verb `%q` writes. -/
def quote (s : String) : String := String.ofList ('"' :: s.toList.flatMap quoteChar ++ ['"'])

/-- The longest start of a text that takes at most `max` bytes. -/
def takeBytes : Nat → List Char → List Char
  | _, [] => []
  | max, c :: cs => if c.utf8Size ≤ max then c :: takeBytes (max - c.utf8Size) cs else []

/-- The number of bytes of a text. -/
def byteLen (s : String) : Nat := (s.toList.map Char.utf8Size).sum

end Go

