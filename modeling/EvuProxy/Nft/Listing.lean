import EvuProxy.Go.Net
import EvuProxy.Nft.Packet

/-!
# Listed chains

The text that `nft list chain` prints for a chain: the rules as they were loaded, with their counters, and the ports in a notation of
nft's own. It merges and sorts the ports of a set, and may print a set of one as its member; nft 1.0.6 prints the members of a conntrack
match as raw hexadecimal values.
-/

namespace Nft

open Go

/-! ## Ports -/

/-- A port or a range of ports, as a member of a listed set. -/
structure PortItem where
  lo : Nat
  hi : Nat
  le : lo ≤ hi
  bound : hi ≤ 65535

/-- The member has a port. -/
def PortItem.Has (i : PortItem) (p : Nat) : Prop := i.lo ≤ p ∧ p ≤ i.hi

def PortItem.text (i : PortItem) : String := if i.lo = i.hi then toString i.lo else toString i.lo ++ "-" ++ toString i.hi

/-- Whether a character is a hexadecimal digit. -/
def isHexDigit (c : Char) : Bool := (hexVal c).isSome

/-- The number a list of hexadecimal digits denotes. -/
def hexDigitsVal (cs : List Char) : Nat := cs.foldl (fun n c => n * 16 + (hexVal c).getD 0) 0

/-- A raw value: hexadecimal digits that denote a port. -/
structure RawPort where
  digits : List Char
  ne : digits ≠ []
  hex : ∀ c ∈ digits, isHexDigit c = true
  bound : hexDigitsVal digits ≤ 65535

def RawPort.value (p : RawPort) : Nat := hexDigitsVal p.digits

def RawPort.text (p : RawPort) : String := "0x" ++ String.ofList p.digits ++ " [invalid type]"

/-- A port or a range of ports, in raw values. -/
structure RawItem where
  lo : RawPort
  hi : RawPort
  le : lo.value ≤ hi.value

/-- The ports of a member in raw values. -/
def RawItem.item (i : RawItem) : PortItem := { lo := i.lo.value, hi := i.hi.value, le := i.le, bound := i.hi.bound }

def RawItem.text (i : RawItem) : String := if i.lo.value = i.hi.value then i.lo.text else i.lo.text ++ "-" ++ i.hi.text

/-- A listed set. -/
def braced (members : List String) : String := "\x7b " ++ join members ", " ++ " \x7d"

/-- A listing of the ports `S`: one member alone, or members in any order in braces, as numbers or as raw values. -/
inductive PortsListed (S : Nat → Prop) : String → Prop where
  | item (i : PortItem) (h : ∀ p, S p ↔ i.Has p) : PortsListed S i.text
  | list (items : List PortItem) (hne : items ≠ []) (h : ∀ p, S p ↔ ∃ i ∈ items, i.Has p) :
    PortsListed S (braced (items.map PortItem.text))
  | raw (items : List RawItem) (hne : items ≠ []) (h : ∀ p, S p ↔ ∃ i ∈ items, i.item.Has p) :
    PortsListed S (braced (items.map RawItem.text))

/-! ## Rules -/

/-- The state of a counter. -/
structure Counter where
  packets : UInt64
  bytes : UInt64

/-- A listing of a statement of a rule whose counter stands at `k`. -/
def StmtListed (k : Counter) : Stmt → String → Prop
  | .dport proto ports, t => ∃ d, PortsListed (fun p => ports.has p = true) d ∧ t = proto.text ++ " dport " ++ d
  | .origDport ports, t => ∃ d, PortsListed (fun p => ports.has p = true) d ∧ t = "ct original proto-dst " ++ d
  | .counter, t => t = "counter packets " ++ toString k.packets.toNat ++ " bytes " ++ toString k.bytes.toNat
  | st, t => t = st.text

/-- A listing of a rule. -/
def RuleListed (k : Counter) (rule : Rule) (line : String) : Prop :=
  ∃ texts, List.Forall₂ (StmtListed k) rule texts ∧ line = "\t\t" ++ join texts " "

/-- A line of the listing that belongs to no rule. It has no quotes. -/
def Frame (line : String) : Prop := '"' ∉ line.toList ∧ '\n' ∉ line.toList

/-- A listing of a chain with the rules and the counters given, in order. -/
def ChainListed (rules : List (Rule × Counter)) (listing : String) : Prop :=
  ∃ opening lines closing, List.Forall₂ (fun rule line => RuleListed rule.2 rule.1 line) rules lines ∧ (∀ line ∈ opening, Frame line) ∧
    (∀ line ∈ closing, Frame line) ∧ closing ≠ [] ∧ listing = join (opening ++ lines ++ closing) "\n"

end Nft
