import EvuProxy.Go.Net
import EvuProxy.Nft.Syntax

/-!
# What rules do to packets

A packet runs through the rules of a chain until one that matches it says what becomes of it. What a rule matches besides the packet,
the elements of sets and the state of limits, is the host's.
-/

namespace Nft

open Go

/-! ## Ports -/

/-- A number as nft reads it: one that starts with a zero is octal. -/
def readNumeral (s : String) : Option Nat :=
  match s.toList with
  | [] => none
  | '0' :: cs => if cs.all (fun c => isDigit c && digitVal c < 8) then some (cs.foldl (fun n c => n * 8 + digitVal c) 0) else none
  | cs => if cs.all isDigit then some (digitsVal cs) else none

/-- A port, or a range of ports, as its first and last one. White space does not count; where nft does not know it, it takes no rule. -/
def readRange (t : String) : Option (Nat × Nat) :=
  match cut t '-' with
  | some (lo, hi) => (readNumeral (trimSpace lo)).bind fun a => (readNumeral (trimSpace hi)).map fun b => (a, b)
  | none => (readNumeral (trimSpace t)).map fun a => (a, a)

/-- The entries of a token: of a list in braces those in it, which may leave some out. -/
def listEntries (t : String) : List String :=
  let t := trimSpace t
  if t = "" then []
  else if hasPrefix t "\x7b" && hasSuffix t "\x7d" then
    ((split (trimSpace (String.ofList t.toList.tail.dropLast)) ',').map trimSpace).filter (· ≠ "")
  else [t]

/-- Whether a port is one of those of an entry. -/
def inRange (p : Nat) (t : String) : Bool :=
  match readRange t with
  | some (lo, hi) => lo ≤ p && p ≤ hi
  | none => false

/-- Whether a port expression has a port. -/
def Ports.has (e : Ports) (p : Nat) : Bool := e.tokens.any fun t => (listEntries t).any (inRange p)

/-! ## Packets -/

/-- A packet: the interfaces between which it goes, its addresses, its port, and what is known of its connection. -/
structure Packet where
  iif : String
  oif : String
  src : Nat
  dst : Nat
  proto : Proto
  dport : Nat
  /-- The port that the first packet of the connection was sent to. -/
  origDport : Nat
  ct : CtState
  syn : Bool

/-- What decides on a match besides the packet: the elements of the sets, and the state of limits and counts. -/
structure Host where
  inSet : String → Nat → Bool
  limited : Stmt → Packet → Bool

/-- Whether an address or a prefix has an address. The length of a prefix is a number to nft like any other. -/
def addrHas (t : String) (x : Nat) : Bool :=
  match cut t '/' with
  | none => parseIP t == some (.v4 x)
  | some (addr, len) =>
    match parseIP addr, readNumeral len with
    | some (.v4 a), some n => n ≤ 32 && x / 2 ^ (32 - n) == a / 2 ^ (32 - n)
    | _, _ => false

/-- What becomes of a packet. -/
inductive Verdict where
  | accept
  | drop
  | dnat (host : String) (port : Option String)
  | masquerade
  deriving DecidableEq

/-- Whether a statement lets a packet on to the next one. -/
def Stmt.matches (h : Host) (k : Packet) : Stmt → Bool
  | .iif n => k.iif == n
  | .iifname n => k.iif == n
  | .oifname neg n => (k.oif == n) != neg
  | .saddrSet neg s => h.inSet s k.src != neg
  | .saddr a => addrHas a k.src
  | .daddr a => addrHas a k.dst
  | .dport p e => k.proto == p && e.has k.dport
  | .origDport e => e.has k.origDport
  | .ctState ss => ss.contains k.ct
  | .tcpSyn => k.syn
  | st@(.connOver _ _) => h.limited st k
  | st@(.rateOver _ _ _) => h.limited st k
  | st@(.limit _) => h.limited st k
  | .log _ | .counter | .comment _ | .accept | .drop | .dnat _ _ | .masquerade => true

/-- What a statement says of the packets that reach it. -/
def Stmt.verdict : Stmt → Option Verdict
  | .accept => some .accept
  | .drop => some .drop
  | .dnat host port => some (.dnat host port)
  | .masquerade => some .masquerade
  | _ => none

/-- Whether a packet goes through all of a rule. -/
def Rule.fires (h : Host) (k : Packet) (r : Rule) : Bool := r.all (Stmt.matches h k)

/-- What a rule says of the packets that go through it. -/
def Rule.verdict (r : Rule) : Option Verdict := r.findSome? Stmt.verdict

/-- What the first rule says that a packet goes through and that says something. -/
def verdict (h : Host) (k : Packet) : List Rule → Option Verdict
  | [] => none
  | r :: rs => if Rule.fires h k r then (Rule.verdict r).or (verdict h k rs) else verdict h k rs

/-- Where a packet goes after `dnat`: a port that the statement does not name stays. -/
def Verdict.destination (p : Nat) : Verdict → Option (String × Nat)
  | .dnat host none => some (host, p)
  | .dnat host (some port) => (readNumeral port).map fun q => (host, q)
  | _ => none

/-- A packet that is sent on to a destination, out of an interface. -/
def Packet.sentTo (k : Packet) (oif : String) (d : String × Nat) : Option Packet :=
  match parseIP d.1 with
  | some (.v4 a) => some { k with oif := oif, dst := a, dport := d.2 }
  | _ => none

/-! ## Rules -/

section rules

variable {h : Host} {k : Packet} {r r₁ r₂ : Rule} {st : Stmt} {rs ss : List Rule}

@[simp] theorem fires_nil : Rule.fires h k [] = true := rfl

@[simp] theorem fires_cons : Rule.fires h k (st :: r) = (st.matches h k && Rule.fires h k r) := rfl

@[simp] theorem fires_append : Rule.fires h k (r₁ ++ r₂) = (Rule.fires h k r₁ && Rule.fires h k r₂) := by
  rw [Rule.fires, List.all_append, Rule.fires, Rule.fires]

@[simp] theorem rule_verdict_nil : Rule.verdict [] = none := rfl

@[simp] theorem rule_verdict_cons : Rule.verdict (st :: r) = st.verdict.or (Rule.verdict r) := by
  rw [Rule.verdict, List.findSome?_cons, Rule.verdict]
  cases st.verdict <;> rfl

@[simp] theorem rule_verdict_append : Rule.verdict (r₁ ++ r₂) = (Rule.verdict r₁).or (Rule.verdict r₂) := by
  induction r₁ with
  | nil => rfl
  | cons st r ih => rw [List.cons_append, rule_verdict_cons, rule_verdict_cons, ih, Option.or_assoc]

/-- A packet that goes through a rule matches each of its statements. -/
theorem matches_of_fires (hfires : Rule.fires h k r = true) (hst : st ∈ r) : st.matches h k = true := List.all_eq_true.mp hfires st hst

@[simp] theorem verdict_nil : verdict h k [] = none := rfl

theorem verdict_append : verdict h k (rs ++ ss) = (verdict h k rs).or (verdict h k ss) := by
  induction rs with
  | nil => rfl
  | cons r rs ih =>
    rw [List.cons_append, verdict, verdict, ih]
    split
    · rw [Option.or_assoc]
    · rfl

theorem verdict_cons : verdict h k (r :: rs) = if Rule.fires h k r then (Rule.verdict r).or (verdict h k rs) else verdict h k rs := rfl

/-- Where each of a list of groups of rules says the one thing or nothing, the first group that says it decides. -/
theorem verdict_flatMap {α : Type} {f : α → List Rule} {P : α → Bool} {v : α → Verdict} {as : List α}
    (hf : ∀ a ∈ as, verdict h k (f a) = if P a then some (v a) else none) : verdict h k (as.flatMap f) = (as.find? P).map v := by
  induction as with
  | nil => rfl
  | cons a as ih =>
    rw [List.flatMap_cons, verdict_append, hf a List.mem_cons_self, ih fun a' ha' => hf a' (List.mem_cons_of_mem _ ha'), List.find?_cons]
    cases P a with
    | true => rw [if_pos rfl, Option.some_or, Option.map_some]
    | false => rw [if_neg Bool.false_ne_true, Option.none_or]

/-- The rules that say what the first one says are enough. -/
theorem verdict_filter_of_some {P : Rule → Bool} {v : Verdict} (hv : verdict h k rs = some v)
    (hP : ∀ r ∈ rs, Rule.verdict r = some v → P r = true) : verdict h k (rs.filter P) = some v := by
  induction rs with
  | nil => cases hv
  | cons r rs ih =>
    have ih := fun hv => ih hv fun r' hr' => hP r' (List.mem_cons_of_mem _ hr')
    rw [verdict_cons] at hv
    by_cases hfires : Rule.fires h k r = true
    · rw [if_pos hfires] at hv
      cases hr : Rule.verdict r with
      | none =>
        rw [hr, Option.none_or] at hv
        rw [List.filter_cons]
        split
        · rw [verdict_cons, if_pos hfires, hr, Option.none_or, ih hv]
        · exact ih hv
      | some v' =>
        rw [hr, Option.some_or] at hv
        rw [List.filter_cons_of_pos (hP r List.mem_cons_self (hr.trans hv)), verdict_cons, if_pos hfires, hr, Option.some_or, hv]
    · rw [if_neg hfires] at hv
      rw [List.filter_cons]
      split
      · rw [verdict_cons, if_neg hfires, ih hv]
      · exact ih hv

/-- Rules that say nothing new can be left out. -/
theorem verdict_filter {P : Rule → Bool} (hrs : ∀ r ∈ rs, Rule.fires h k r = true → Rule.verdict r ≠ none → P r = true) :
    verdict h k (rs.filter P) = verdict h k rs := by
  induction rs with
  | nil => rfl
  | cons r rs ih =>
    have ih := ih fun r' hr' => hrs r' (List.mem_cons_of_mem _ hr')
    rw [List.filter_cons, verdict_cons]
    by_cases hP : P r = true
    · rw [if_pos hP, verdict_cons, ih]
    · rw [if_neg hP, ih]
      split
      · rename_i hfires
        have hnone : Rule.verdict r = none := by
          by_contra hsome
          exact hP (hrs r List.mem_cons_self hfires hsome)
        rw [hnone, Option.none_or]
      · rfl

/-- A verdict is that of a rule. -/
theorem verdict_eq_some {v : Verdict} (hv : verdict h k rs = some v) : ∃ r ∈ rs, Rule.fires h k r = true ∧ Rule.verdict r = some v := by
  induction rs with
  | nil => cases hv
  | cons r rs ih =>
    have hrest : verdict h k rs = some v → ∃ r' ∈ r :: rs, Rule.fires h k r' = true ∧ Rule.verdict r' = some v := fun hv =>
      let ⟨r', hr', hfires⟩ := ih hv
      ⟨r', List.mem_cons_of_mem _ hr', hfires⟩
    unfold verdict at hv
    split at hv
    · rename_i hfires
      cases hr : Rule.verdict r with
      | none =>
        rw [hr, Option.none_or] at hv
        exact hrest hv
      | some v' =>
        rw [hr, Option.some_or] at hv
        exact ⟨r, List.mem_cons_self, hfires, hr.trans hv⟩
    · exact hrest hv

/-- Where all but one of a list of groups of rules say nothing, that one decides. -/
theorem verdict_flatMap_alone {α : Type} {f : α → List Rule} {as : List α} {a : α} (ha : a ∈ as)
    (hothers : ∀ b ∈ as, b ≠ a → verdict h k (f b) = none) : verdict h k (as.flatMap f) = verdict h k (f a) := by
  induction as with
  | nil => cases ha
  | cons b as ih =>
    have hrest : ∀ b ∈ as, b ≠ a → verdict h k (f b) = none := fun b hb => hothers b (List.mem_cons_of_mem _ hb)
    rw [List.flatMap_cons, verdict_append]
    by_cases hb : b = a
    · subst hb
      cases hv : verdict h k (f b) with
      | some v => rw [Option.some_or]
      | none =>
        have hnone : ∀ b' ∈ as, verdict h k (f b') = if false then some .drop else none := by
          intro b' hb'
          rw [if_neg Bool.false_ne_true]
          by_cases heq : b' = b
          · rw [heq, hv]
          · exact hrest b' hb' heq
        rw [Option.none_or, verdict_flatMap (P := fun _ => false) hnone]
        simp
    · rw [hothers b List.mem_cons_self hb, Option.none_or]
      rcases List.mem_cons.mp ha with ha | ha
      · exact absurd ha.symm hb
      · exact ih ha hrest

/-- Where no rule says anything but the one thing, a rule that says it is enough. -/
theorem verdict_unanimous {v : Verdict} (hall : ∀ r ∈ rs, Rule.fires h k r = true → Rule.verdict r = none ∨ Rule.verdict r = some v)
    (hr : r ∈ rs) (hfires : Rule.fires h k r = true) (hv : Rule.verdict r = some v) : verdict h k rs = some v := by
  induction rs with
  | nil => cases hr
  | cons r' rs ih =>
    rw [verdict_cons]
    rcases List.mem_cons.mp hr with rfl | hr
    · rw [if_pos hfires, hv, Option.some_or]
    · have ih := ih (fun r'' hr'' => hall r'' (List.mem_cons_of_mem _ hr'')) hr
      by_cases hfires' : Rule.fires h k r' = true
      · rw [if_pos hfires', ih]
        rcases hall r' List.mem_cons_self hfires' with hnone | hsome
        · rw [hnone, Option.none_or]
        · rw [hsome, Option.some_or]
      · rw [if_neg hfires', ih]

/-- Rules that a packet does not go through do not matter. -/
theorem verdict_eq_none (hrs : ∀ r ∈ rs, Rule.fires h k r = false) : verdict h k rs = none := by
  induction rs with
  | nil => rfl
  | cons r rs ih =>
    rw [verdict, if_neg (by simp [hrs r List.mem_cons_self])]
    exact ih fun r' hr' => hrs r' (List.mem_cons_of_mem _ hr')

end rules

end Nft
