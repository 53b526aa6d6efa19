import EvuProxy.Go.Text

/-!
# A part of the nft language

Rules, chains, sets, tables and the commands of an nft file, with the text of each: what a generator of firewall rules needs to
write. A set, an address and a port stand in a rule as they were written, because what they mean is for the host to say.
-/

namespace Nft

open Go

/-- A transport protocol. -/
inductive Proto where
  | tcp
  | udp
  deriving DecidableEq, Repr

def Proto.text : Proto → String
  | .tcp => "tcp"
  | .udp => "udp"

/-- What a port is compared with: one token, or a set of tokens in braces. -/
inductive Ports where
  | tok (t : String)
  | set (ts : List String)
  deriving DecidableEq, Repr

def Ports.text : Ports → String
  | .tok t => t
  | .set ts => "\x7b " ++ join ts ", " ++ " \x7d"

/-- The tokens of a port expression. -/
def Ports.tokens : Ports → List String
  | .tok t => [t]
  | .set ts => ts

/-- The state of the connection a packet belongs to. -/
inductive CtState where
  | new
  | established
  | related
  deriving DecidableEq, Repr

def CtState.text : CtState → String
  | .new => "new"
  | .established => "established"
  | .related => "related"

/-- One statement of a rule. -/
inductive Stmt where
  | iif (name : String)
  | iifname (name : String)
  | oifname (neg : Bool) (name : String)
  | saddrSet (neg : Bool) (set : String)
  | saddr (addr : String)
  | daddr (addr : String)
  | dport (proto : Proto) (ports : Ports)
  | origDport (ports : Ports)
  | ctState (states : List CtState)
  | tcpSyn
  | connOver (set : String) (n : Nat)
  | rateOver (set : String) (n burst : Nat)
  | limit (rate : String)
  | log (pre : String)
  | counter
  | comment (text : String)
  | accept
  | drop
  | dnat (host : String) (port : Option String)
  | masquerade
  deriving DecidableEq, Repr

/-- The sign of a negated match. -/
def neqText (neg : Bool) : String := if neg then "!= " else ""

def Stmt.text : Stmt → String
  | .iif n => "iif " ++ quote n
  | .iifname n => "iifname " ++ quote n
  | .oifname neg n => "oifname " ++ neqText neg ++ quote n
  | .saddrSet neg s => "ip saddr " ++ neqText neg ++ "@" ++ s
  | .saddr a => "ip saddr " ++ a
  | .daddr a => "ip daddr " ++ a
  | .dport p e => p.text ++ " dport " ++ e.text
  | .origDport e => "ct original proto-dst " ++ e.text
  | .ctState ss => "ct state " ++ join (ss.map CtState.text) ","
  | .tcpSyn => "tcp flags syn"
  | .connOver s n => "add @" ++ s ++ " \x7b ip saddr ct count over " ++ toString n ++ " \x7d"
  | .rateOver s n b =>
    "update @" ++ s ++ " \x7b ip saddr limit rate over " ++ toString n ++ "/second burst " ++ toString b ++ " packets \x7d"
  | .limit r => "limit rate " ++ r
  | .log p => "log prefix " ++ quote p
  | .counter => "counter"
  | .comment t => "comment " ++ quote t
  | .accept => "accept"
  | .drop => "drop"
  | .dnat h none => "dnat to " ++ h
  | .dnat h (some p) => "dnat to " ++ h ++ ":" ++ p
  | .masquerade => "masquerade"

/-- A rule is a list of statements, tried from the left. -/
abbrev Rule := List Stmt

def ruleText (r : Rule) : String := "        " ++ join (r.map Stmt.text) " " ++ "\n"

/-- A base chain. `spaced` puts an empty line after its header, and `breaks` after these of its rules. -/
structure Chain where
  name : String
  header : String
  rules : List Rule
  spaced : Bool := false
  breaks : List Nat := []
  deriving DecidableEq

/-- The text of the rules from the `i`-th on. -/
def rulesText (breaks : List Nat) : Nat → List Rule → String
  | _, [] => ""
  | i, r :: rs => ruleText r ++ (if i ∈ breaks then "\n" else "") ++ rulesText breaks (i + 1) rs

def Chain.text (c : Chain) : String :=
  "    chain " ++ c.name ++ " \x7b\n        " ++ c.header ++ "\n" ++ (if c.spaced then "\n" else "") ++
    rulesText c.breaks 0 c.rules ++ "    \x7d\n"

/-- The declaration of a set of IPv4 addresses. -/
structure SetDecl where
  name : String
  flags : String
  autoMerge : Bool := false
  timeout : Option String := none
  elements : List String := []
  deriving DecidableEq

def SetDecl.text (s : SetDecl) : String :=
  "    set " ++ s.name ++ " \x7b\n        type ipv4_addr\n        flags " ++ s.flags ++ "\n" ++
    (if s.autoMerge then "        auto-merge\n" else "") ++
    (match s.timeout with | some t => "        timeout " ++ t ++ "\n" | none => "") ++
    (if s.elements = [] then "" else "        elements = \x7b " ++ join s.elements ", " ++ " \x7d\n") ++ "    \x7d\n\n"

/-- A table as a file defines it. -/
structure Table where
  family : String
  name : String
  sets : List SetDecl := []
  chains : List Chain := []
  deriving DecidableEq

def Table.text (t : Table) : String :=
  "table " ++ t.family ++ " " ++ t.name ++ " \x7b\n" ++ join (t.sets.map SetDecl.text) "" ++
    join (t.chains.map Chain.text) "\n" ++ "\x7d\n"

/-- A command of an nft file. -/
inductive Command where
  | comment (text : String)
  | blank
  | addTable (family name : String)
  | deleteTable (family name : String)
  | table (t : Table)
  | flushChain (family table chain : String)
  | flushSet (family table set : String)
  | addElement (family table set : String) (elements : List String)
  deriving DecidableEq

def Command.text : Command → String
  | .comment t => "# " ++ t ++ "\n"
  | .blank => "\n"
  | .addTable f n => "add table " ++ f ++ " " ++ n ++ "\n"
  | .deleteTable f n => "delete table " ++ f ++ " " ++ n ++ "\n"
  | .table t => t.text
  | .flushChain f t c => "flush chain " ++ f ++ " " ++ t ++ " " ++ c ++ "\n"
  | .flushSet f t s => "flush set " ++ f ++ " " ++ t ++ " " ++ s ++ "\n"
  | .addElement f t s es =>
    "add element " ++ f ++ " " ++ t ++ " " ++ s ++ " \x7b " ++ join es ", " ++ " \x7d\n"

/-- A file for `nft -f`: it is loaded as one transaction. -/
abbrev Script := List Command

def scriptText (s : Script) : String := join (s.map Command.text) ""

/-! ## The sets that are named -/

/-- The set that a statement looks into or adds to. -/
def Stmt.setName : Stmt → Option String
  | .saddrSet _ s => some s
  | .connOver s _ => some s
  | .rateOver s _ _ => some s
  | _ => none

/-- The sets that the rules of a table name. -/
def Table.usedSets (t : Table) : List String := t.chains.flatMap fun ch => ch.rules.flatMap fun r => r.filterMap Stmt.setName

/-- The names of the sets that a table declares. -/
def Table.declaredSets (t : Table) : List String := t.sets.map (·.name)

/-- The set that a command empties or fills: its table, by family and name, and its own name. -/
def Command.fills : Command → Option (String × String × String)
  | .flushSet f t s => some (f, t, s)
  | .addElement f t s _ => some (f, t, s)
  | _ => none

end Nft
