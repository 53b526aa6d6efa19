import EvuProxy.Nft.Syntax

/-!
# The words of a rule

The statements of a rule name interfaces, sets, ports and addresses. A vocabulary says which words may stand for each of them, and a
rule that keeps to it has no other words.
-/

namespace Nft

open Go

/-- The words that may stand in rules. -/
structure Vocabulary where
  iface : String → Prop
  set : String → Prop
  ports : Ports → Prop
  addr : String → Prop

variable {V : Vocabulary}

/-- The words of a statement are of the vocabulary. -/
def Stmt.Words (V : Vocabulary) : Stmt → Prop
  | .iif n => V.iface n
  | .iifname n => V.iface n
  | .oifname _ n => V.iface n
  | .saddrSet _ s => V.set s
  | .connOver s _ => V.set s
  | .rateOver s _ _ => V.set s
  | .saddr a => V.addr a
  | .daddr a => V.addr a
  | .dport _ e => V.ports e
  | .origDport e => V.ports e
  | .dnat h p => V.addr h ∧ ∀ t, p = some t → V.ports (.tok t)
  | _ => True

/-- The words of a rule are of the vocabulary. -/
def RuleWorded (V : Vocabulary) (rule : Rule) : Prop := ∀ st ∈ rule, st.Words V

/-- The words of the rules are of the vocabulary. -/
def Worded (V : Vocabulary) (rules : List Rule) : Prop := ∀ rule ∈ rules, RuleWorded V rule

/-- The words of a table, those of its sets included. -/
structure Table.Worded (V : Vocabulary) (t : Table) : Prop where
  sets : ∀ d ∈ t.sets, V.set d.name ∧ ∀ e ∈ d.elements, V.addr e
  chains : ∀ ch ∈ t.chains, Nft.Worded V ch.rules

@[simp] theorem ruleWorded_nil : RuleWorded V [] := fun _ h => absurd h List.not_mem_nil

@[simp] theorem ruleWorded_cons {st : Stmt} {rule : Rule} : RuleWorded V (st :: rule) ↔ st.Words V ∧ RuleWorded V rule :=
  List.forall_mem_cons

@[simp] theorem ruleWorded_append {r₁ r₂ : Rule} : RuleWorded V (r₁ ++ r₂) ↔ RuleWorded V r₁ ∧ RuleWorded V r₂ :=
  List.forall_mem_append

@[simp] theorem worded_nil : Worded V [] := fun _ h => absurd h List.not_mem_nil

@[simp] theorem worded_cons {rule : Rule} {rules : List Rule} : Worded V (rule :: rules) ↔ RuleWorded V rule ∧ Worded V rules :=
  List.forall_mem_cons

@[simp] theorem worded_append {r₁ r₂ : List Rule} : Worded V (r₁ ++ r₂) ↔ Worded V r₁ ∧ Worded V r₂ := List.forall_mem_append

theorem worded_flatMap {α : Type} {f : α → List Rule} {as : List α} (h : ∀ a ∈ as, Worded V (f a)) : Worded V (as.flatMap f) := by
  intro rule hrule
  obtain ⟨a, ha, hrule⟩ := List.mem_flatMap.mp hrule
  exact h a ha rule hrule

theorem worded_map {α : Type} {f : α → Rule} {as : List α} (h : ∀ a ∈ as, RuleWorded V (f a)) : Worded V (as.map f) := by
  intro rule hrule
  obtain ⟨a, ha, rfl⟩ := List.mem_map.mp hrule
  exact h a ha

/-! ## Sets alone -/

/-- The vocabulary that looks at the names of sets alone. -/
def setsOnly (S : String → Prop) : Vocabulary where
  iface _ := True
  set := S
  ports _ := True
  addr _ := True

theorem words_setsOnly {S : String → Prop} {st : Stmt} : st.Words (setsOnly S) ↔ ∀ n, st.setName = some n → S n := by
  cases st <;> simp [Stmt.Words, Stmt.setName, setsOnly]

theorem worded_usedSets {S : String → Prop} {t : Table} :
    (∀ n ∈ t.usedSets, S n) ↔ ∀ ch ∈ t.chains, Worded (setsOnly S) ch.rules := by
  simp only [Table.usedSets, List.mem_flatMap, List.mem_filterMap, Worded, RuleWorded, words_setsOnly]
  constructor
  · intro h ch hch rule hrule st hst n hn
    exact h n ⟨ch, hch, rule, hrule, st, hst, hn⟩
  · rintro h n ⟨ch, hch, rule, hrule, st, hst, hn⟩
    exact h ch hch rule hrule st hst n hn

end Nft
