import EvuProxy.Gen.Ruleset
import EvuProxy.Go.Search
import EvuProxy.Nft.Listing

/-!
# The accepted traffic of the routes

`parseRouteAccepted` of `internal/apply/stats.go` and the readers of its lines. `nft` prints the listing; the rules in it were rendered
from a config that need not be the one they are described from.
-/

namespace EvuProxy

open Go Nft

/-- `RouteAcceptedCounter`. -/
structure RouteAcceptedCounter where
  routeIndex : Nat
  name : String
  proto : Proto
  ports : List String
  targetIP : String
  packets : Nat
  bytes : Nat
  deriving DecidableEq

/-! ## Regular expressions -/

/-- `routeAcceptedCommentRE`, from a place on: the digits of the index, and the protocol. -/
def routeAcceptedCommentRE (cs : List Char) : Option (List Char × Proto) := do
  let cs ← lit "comment \"evuproxy-accepted route=" cs
  let (index, cs) ← digits cs
  let cs ← lit " proto=" cs
  if (lit "tcp\"" cs).isSome then return (index, .tcp)
  if (lit "udp\"" cs).isSome then return (index, .udp)
  none

/-- `nftCounterRE`, from a place on: the digits of the packets and of the bytes. -/
def nftCounterRE (cs : List Char) : Option (List Char × List Char) := do
  let cs ← lit "counter" cs
  let cs ← blanks cs
  let cs ← lit "packets" cs
  let cs ← blanks cs
  let (packets, cs) ← digits cs
  let cs ← blanks cs
  let cs ← lit "bytes" cs
  let cs ← blanks cs
  let (bytes, _) ← digits cs
  return (packets, bytes)

/-- `\{[^}]*\}|\S+`: a list in braces, or the text up to a blank. -/
def portsExpr (cs : List Char) : Option (List Char) :=
  let inner := cs.takeWhile (· ≠ '}')
  if cs.head? = some '{' ∧ (cs.dropWhile (· ≠ '}')) ≠ [] then some (inner ++ ['}'])
  else
    let word := cs.takeWhile fun c => !isBlankRE c
    if word = [] then none else some word

/-- `routeAcceptedPublicPortsRE`, from a place on: the expression of the ports. -/
def routeAcceptedPublicPortsRE (cs : List Char) : Option (List Char) := (lit "ct original proto-dst " cs).bind portsExpr

/-- `nftRawPortRE`, from a place on: the digits, and what follows the match. -/
def nftRawPortRE (cs : List Char) : Option (List Char × List Char) := do
  let cs ← lit "0x" cs
  if cs.takeWhile isHexDigit = [] then none
  let rest ← lit " [invalid type]" (cs.dropWhile isHexDigit)
  return (cs.takeWhile isHexDigit, rest)

/-- `nftRawPortRE.ReplaceAllStringFunc`, after `skip` characters of the last match: each raw value becomes a decimal one, if it fits
into 16 bits. -/
def replaceRawPorts : Nat → List Char → List Char
  | _, [] => []
  | skip + 1, _ :: cs => replaceRawPorts skip cs
  | 0, c :: cs =>
    match nftRawPortRE (c :: cs) with
    | none => c :: replaceRawPorts 0 cs
    | some (hex, rest) =>
      let n := hexDigitsVal hex
      let matched := (c :: cs).take ((c :: cs).length - rest.length)
      (if n ≤ 65535 then (toString n).toList else matched) ++ replaceRawPorts (cs.length - rest.length) cs

/-! ## Lines -/

/-- `ParseRouteAcceptedComment`. -/
def parseRouteAcceptedComment (line : String) : Option (Nat × Proto) := do
  let (index, proto) ← search routeAcceptedCommentRE line.toList
  let i ← atoi (String.ofList index)
  return (i.toNat, proto)

/-- `routeAcceptedPortsFit`. -/
def routeAcceptedPortsFit (line : String) (routePorts : List String) : Bool :=
  match search routeAcceptedPublicPortsRE line.toList with
  | none => false
  | some expr =>
    match expandRoutePortNumbers [String.ofList (replaceRawPorts 0 expr)], expandRoutePortNumbers routePorts with
    | .ok live, .ok want => live == want
    | _, _ => false

/-- `strconv.ParseUint` of digits, for 64 bits, whose error is left out: what is too large gives the largest value. -/
def parseUint64 (ds : List Char) : Nat := min (digitsVal ds) (2 ^ 64 - 1)

/-- Whether a rule is one of a route: what `parseRouteAccepted` asks of the protocol, the target and the ports. -/
def ruleFits (line : String) (proto : Proto) (r : ForwardRoute) : Bool :=
  match parseRouteProtocols r.proto with
  | .error _ => false
  | .ok protos => proto ∈ protos && contains line ("ip daddr " ++ trimSpace r.targetIP ++ " ") && routeAcceptedPortsFit line r.ports

/-- The row of one line of the listing. -/
def parseRouteAcceptedLine (c : Config) (line : String) : Option RouteAcceptedCounter := do
  let (i, proto) ← parseRouteAcceptedComment line
  let r ← c.forwarding.routes[i]?
  if !ruleFits line proto r then none
  let (packets, bytes) ← search nftCounterRE line.toList
  return { routeIndex := i, name := r.name, proto := proto, ports := r.ports, targetIP := trimSpace r.targetIP,
           packets := parseUint64 packets, bytes := parseUint64 bytes }

/-- `parseRouteAccepted`. -/
def parseRouteAccepted (c : Config) (listing : String) : List RouteAcceptedCounter :=
  (split listing '\n').filterMap (parseRouteAcceptedLine c)

end EvuProxy
