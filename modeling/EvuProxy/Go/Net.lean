import EvuProxy.Go.Text

/-!
# Go's network addresses

`netip.ParseAddr`, `net.ParseIP` and `net.ParseCIDR`, as far as the program looks at their results.
-/


namespace Go

/-- An address as `netip.Addr` holds it, without a zone. -/
inductive Addr where
  | v4 (a : Nat)
  | v6 (a : Nat)
  deriving DecidableEq, Repr

/-- The number of bits of an address. -/
def Addr.bitLen : Addr → Nat
  | .v4 _ => 32
  | .v6 _ => 128

/-- `net.IP.To4`: the IPv4 address, also when it is written as an IPv4-mapped IPv6 address. -/
def Addr.to4 : Addr → Option Nat
  | .v4 a => some a
  | .v6 a => if a / 2 ^ 32 = 0xFFFF then some (a % 2 ^ 32) else none

/-- A decimal field of an IPv4 address: one to three digits, at most 255, no leading zero. -/
def parseOctet (cs : List Char) : Option Nat :=
  if cs = [] ∨ 3 < cs.length ∨ ¬cs.all isDigit then none
  else if 1 < cs.length ∧ cs.head? = some '0' then none
  else if digitsVal cs ≤ 255 then some (digitsVal cs) else none

/-- An IPv4 address in dotted decimal. -/
def parseIPv4 (cs : List Char) : Option Nat :=
  match splitList (· == '.') cs with
  | [a, b, c, d] => do
    let a ← parseOctet a
    let b ← parseOctet b
    let c ← parseOctet c
    let d ← parseOctet d
    some (((a * 256 + b) * 256 + c) * 256 + d)
  | _ => none

/-- The value of a hexadecimal digit. -/
def hexVal (c : Char) : Option Nat :=
  if '0' ≤ c ∧ c ≤ '9' then some (c.toNat - 48)
  else if 'a' ≤ c ∧ c ≤ 'f' then some (c.toNat - 87)
  else if 'A' ≤ c ∧ c ≤ 'F' then some (c.toNat - 55)
  else none

/-- A group of an IPv6 address: one to four hexadecimal digits. -/
def parseGroup (cs : List Char) : Option Nat :=
  if cs = [] ∨ 4 < cs.length then none
  else cs.foldl (fun acc c => acc.bind fun n => (hexVal c).map (n * 16 + ·)) (some 0)

/-- The groups on one side of `::`, the last of which may be an IPv4 address when `v4` allows it. -/
def parseGroups (v4 : Bool) : List (List Char) → Option (List Nat)
  | [] => some []
  | [g] =>
    if v4 && g.contains '.' then (parseIPv4 g).map fun a => [a / 65536, a % 65536]
    else (parseGroup g).map fun n => [n]
  | g :: gs => do
    let n ← parseGroup g
    let ns ← parseGroups v4 gs
    some (n :: ns)

/-- The groups of a text between colons; the empty text has none. -/
def groupsOf (v4 : Bool) (cs : List Char) : Option (List Nat) :=
  if cs = [] then some [] else parseGroups v4 (splitList (· == ':') cs)

/-- The first place of `::` in a text: what stands before it and after it. -/
def cutDoubleColon : List Char → Option (List Char × List Char)
  | ':' :: ':' :: cs => some ([], cs)
  | c :: cs => (cutDoubleColon cs).map fun p => (c :: p.1, p.2)
  | [] => none

/-- The number eight groups denote. -/
def groupsVal (gs : List Nat) : Nat := gs.foldl (fun n g => n * 65536 + g) 0

/-- An IPv6 address without a zone; `::` stands for at least one group of zeros. -/
def parseIPv6 (cs : List Char) : Option Nat :=
  match cutDoubleColon cs with
  | some (l, r) => do
    let ls ← groupsOf false l
    let rs ← groupsOf true r
    if ls.length + rs.length ≤ 7 then some (groupsVal (ls ++ List.replicate (8 - ls.length - rs.length) 0 ++ rs)) else none
  | none => do
    let gs ← groupsOf true cs
    if gs.length = 8 then some (groupsVal gs) else none

/-- `net.ParseIP`, and `netip.ParseAddr` without a zone: an address with a colon is read as IPv6. -/
def parseIP (s : String) : Option Addr :=
  if s.toList.contains ':' then (parseIPv6 s.toList).map .v6 else (parseIPv4 s.toList).map .v4

/-- `net.ParseCIDR`: an address and a prefix length that fits it. -/
def parseCIDR (s : String) : Option (Addr × Nat) := do
  let (addr, mask) ← cut s '/'
  let a ← parseIP addr
  if mask.toList ≠ [] ∧ mask.toList.all isDigit ∧ digitsVal mask.toList ≤ a.bitLen then
    some (a, digitsVal mask.toList)
  else none

/-- An IPv4 address in dotted decimal, as `net.IP.String` writes it. -/
def ipv4String (a : Nat) : String :=
  toString (a / 2 ^ 24) ++ "." ++ toString (a / 2 ^ 16 % 256) ++ "." ++ toString (a / 2 ^ 8 % 256) ++ "." ++ toString (a % 256)

end Go

