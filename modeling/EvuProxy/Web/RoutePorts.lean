import Mathlib.Data.Rat.Floor
import EvuProxy.Web.Peers
import EvuProxy.Config.Ports

/-!
# The ports of a route in the browser

`expandRoutePortTokens` of `web/static/js/pages/routes.js`, which is to be kept in sync with `ExpandRoutePortNumbers`. The numbers of
JavaScript are exact here; a whole number that is a port is never rounded.
-/

namespace EvuProxy

open Go

/-! ## Numbers -/

/-- A decimal literal without a sign: digits, a fraction and an exponent. -/
def jsDecimal (cs : List Char) : Option ℚ :=
  let int := cs.takeWhile isDigit
  let afterInt := cs.dropWhile isDigit
  let frac := if afterInt.head? = some '.' then afterInt.tail.takeWhile isDigit else []
  let rest := if afterInt.head? = some '.' then afterInt.tail.dropWhile isDigit else afterInt
  if int = [] ∧ frac = [] then none
  else
    let value : ℚ := digitsVal int + digitsVal frac / 10 ^ frac.length
    match rest with
    | [] => some value
    | e :: exponent =>
      if e ≠ 'e' ∧ e ≠ 'E' then none
      else
        let digits := if exponent.head? = some '+' ∨ exponent.head? = some '-' then exponent.tail else exponent
        if digits = [] ∨ ¬digits.all isDigit then none
        else if exponent.head? = some '-' then some (value / 10 ^ digitsVal digits)
        else some (value * 10 ^ digitsVal digits)

/-- The digits of a literal with a base. -/
def jsRadix (base : Nat) (cs : List Char) : Option ℚ :=
  if cs = [] ∨ ¬cs.all (fun c => (hexVal c).any (· < base)) then none
  else some (cs.foldl (fun n c => n * base + (hexVal c).getD 0) 0 : Nat)

/-- `+s`, where it is a finite number. -/
def jsNumber (s : String) : Option ℚ :=
  match (jsTrim s).toList with
  | [] => some 0
  | '0' :: 'x' :: cs | '0' :: 'X' :: cs => jsRadix 16 cs
  | '0' :: 'o' :: cs | '0' :: 'O' :: cs => jsRadix 8 cs
  | '0' :: 'b' :: cs | '0' :: 'B' :: cs => jsRadix 2 cs
  | '+' :: cs => jsDecimal cs
  | '-' :: cs => (jsDecimal cs).map fun q => -q
  | cs => jsDecimal cs

/-! ## Ports -/

/-- A number that `a === (a | 0)` accepts, if it is in the range of ports. -/
def isWhole (q : ℚ) : Bool := q.den == 1

/-- `expandTok`: the ports of a token, in the order in which they are added. -/
def expandTok (tok : String) : List Nat :=
  let tok := jsTrim tok
  if tok = "" then []
  else
    match cut tok '-' with
    | some (lo, hi) =>
      match jsNumber (jsTrim lo), jsNumber (jsTrim hi) with
      | some a, some b =>
        if 1 ≤ a ∧ b ≤ 65535 ∧ a ≤ b ∧ isWhole a ∧ isWhole b then List.range' a.num.toNat (b.num.toNat + 1 - a.num.toNat) else []
      | _, _ => []
    | none =>
      match jsNumber tok with
      | some p => if 1 ≤ p ∧ p ≤ 65535 ∧ isWhole p then [p.num.toNat] else []
      | none => []

/-- The ports of an entry of `ports`. -/
def entryPorts (raw : String) : List Nat :=
  let s := jsTrim raw
  if s = "" then []
  else if isBraceList s then (split (String.ofList (s.toList.tail.dropLast)) ',').flatMap fun part => expandTok (jsTrim part)
  else expandTok s

/-- `addPort`, on the set of the ports seen. -/
def addPort (seen : List Nat) (n : Nat) : List Nat := if 1 ≤ n ∧ n ≤ 65535 ∧ n ∉ seen then seen ++ [n] else seen

/-- `expandRoutePortTokens`; `none` is `null`. -/
def expandRoutePortTokens (ports : List String) : Option (List Nat) :=
  let seen := (ports.flatMap entryPorts).foldl addPort []
  if 65535 < seen.length then none else some (seen.insertionSort (· ≤ ·))

end EvuProxy
