import EvuProxy.Go.Text

/-!
# Go's durations

`time.ParseDuration`, in nanoseconds. The fraction of a unit is computed exactly, where Go computes it in floating point.
-/

namespace Go

/-- The units a duration is written in. -/
def durationUnit : String → Option Nat
  | "ns" => some 1
  | "us" | "µs" | "μs" => some 1000
  | "ms" => some 1000000
  | "s" => some 1000000000
  | "m" => some 60000000000
  | "h" => some 3600000000000
  | _ => none

/-- The digits after a decimal point, as long as they fit: their number and the power of ten they are divided by. -/
def leadingFraction (cs : List Char) : Nat × Nat :=
  cs.foldl (fun p c => let f := p.1 * 10 + digitVal c; if p.2 = 0 ∨ 2 ^ 63 ≤ f then p else (f, p.2 * 10)) (0, 1)

/-- The sum of the parts of a duration without its sign. `fuel` is at least the number of characters. -/
def durationParts (orig : String) : Nat → List Char → Nat → Except String Nat
  | _, [], d => .ok d
  | 0, _ :: _, _ => .error ("time: invalid duration " ++ quote orig)
  | fuel + 1, c :: cs, d =>
    let s := c :: cs
    let whole := s.takeWhile isDigit
    let rest := s.dropWhile isDigit
    let frac := match rest with | '.' :: r => r.takeWhile isDigit | _ => []
    let rest := match rest with | '.' :: r => r.dropWhile isDigit | r => r
    let unit := rest.takeWhile fun c => !(c == '.' || isDigit c)
    let next := rest.dropWhile fun c => !(c == '.' || isDigit c)
    if ¬(c = '.' ∨ isDigit c) ∨ (whole = [] ∧ frac = []) ∨ 2 ^ 63 < digitsVal whole then
      .error ("time: invalid duration " ++ quote orig)
    else if unit = [] then .error ("time: missing unit in duration " ++ quote orig)
    else
      match durationUnit (String.ofList unit) with
      | none => .error ("time: unknown unit " ++ quote (String.ofList unit) ++ " in duration " ++ quote orig)
      | some u =>
        let f := leadingFraction frac
        let v := digitsVal whole * u + f.1 * u / f.2
        if 2 ^ 63 / u < digitsVal whole ∨ 2 ^ 63 < v ∨ 2 ^ 63 < d + v then .error ("time: invalid duration " ++ quote orig)
        else durationParts orig fuel next (d + v)

/-- `time.ParseDuration`. -/
def parseDuration (s : String) : Except String Int :=
  let neg := s.toList.head? = some '-'
  let cs := match s.toList with | '-' :: cs => cs | '+' :: cs => cs | cs => cs
  if cs = ['0'] then .ok 0
  else if cs = [] then .error ("time: invalid duration " ++ quote s)
  else
    match durationParts s cs.length cs 0 with
    | .error e => .error e
    | .ok d =>
      if neg then .ok (-(d : Int))
      else if 2 ^ 63 ≤ d then .error ("time: invalid duration " ++ quote s)
      else .ok d

end Go
