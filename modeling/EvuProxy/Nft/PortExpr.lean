import EvuProxy.Go.Pieces
import EvuProxy.Nft.Packet

/-!
# The grammar of port expressions

A port expression is a port, a range, or a list of members in braces. Blanks do not count, in a list line ends do not either, and a
comma may stand after the last member. How deep lists may stand in lists is a parameter: 1 is one pair of braces.
-/

namespace Nft

open Go

/-! ## Reading -/

/-- A blank between the words of a rule. -/
def isBlank (c : Char) : Bool := c == ' ' || c == '\t'

/-- What may stand around a member of a list. -/
def isListBlank (c : Char) : Bool := isBlank c || c == '\n'

def trimBlanks (q : Char → Bool) (s : String) : String := String.ofList (trimBy q s.toList)

/-- A port, or a range from a port to one that is not lower. -/
def readEntry (t : String) : Option (Nat × Nat) :=
  match cut t '-' with
  | some (lo, hi) =>
    (readNumeral (trimBlanks isBlank lo)).bind fun a =>
      (readNumeral (trimBlanks isBlank hi)).bind fun b => if a ≤ b then some (a, b) else none
  | none => (readNumeral (trimBlanks isBlank t)).map fun a => (a, a)

/-- Put characters before the first piece. -/
def consHead (cs : List Char) : List (List Char) → List (List Char)
  | [] => [cs]
  | m :: ms => (cs ++ m) :: ms

/-- Cut at the commas that stand in no braces, where `open_` braces are open. -/
def splitMembers : Nat → List Char → List (List Char)
  | _, [] => [[]]
  | open_, c :: cs =>
    if c = ',' ∧ open_ = 0 then [] :: splitMembers 0 cs
    else consHead [c] (splitMembers (if c = '{' then open_ + 1 else if c = '}' then open_ - 1 else open_) cs)

/-- What stands between the braces of a list. -/
def inBraces : List Char → Option (List Char)
  | '{' :: cs => if cs.getLast? = some '}' then some cs.dropLast else none
  | _ => none

/-- The members of a list, by what stands between its braces. -/
def listMembers (cs : List Char) : List String :=
  let ms := (splitMembers 0 cs).map fun m => String.ofList (trimBy isListBlank m)
  if 1 < ms.length ∧ ms.getLast? = some "" then ms.dropLast else ms

/-- The ranges of texts that are read one after another. -/
def readAll (read : String → Option (List (Nat × Nat))) : List String → Option (List (Nat × Nat))
  | [] => some []
  | t :: ts => (read t).bind fun rs => (readAll read ts).map (rs ++ ·)

/-- A member, with lists in it up to a depth. -/
def readMember : Nat → String → Option (List (Nat × Nat))
  | 0, t => (readEntry t).map ([·])
  | depth + 1, t =>
    match inBraces t.toList with
    | some inner => readAll (readMember depth) (listMembers inner)
    | none => (readEntry t).map ([·])

/-- The ranges of a port expression. -/
def readPorts (depth : Nat) (t : String) : Option (List (Nat × Nat)) := readMember depth (trimBlanks isBlank t)

/-- Whether a port is in a range. -/
def Within (p : Nat) (r : Nat × Nat) : Prop := r.1 ≤ p ∧ p ≤ r.2

/-- What is read, if it is well formed, means these ports. -/
def Means (rs : Option (List (Nat × Nat))) (S : Nat → Prop) : Prop := ∃ l, rs = some l ∧ ∀ p, (∃ r ∈ l, Within p r) ↔ S p

/-- A port is one of what is read. -/
def NamesPort (rs : Option (List (Nat × Nat))) (p : Nat) : Prop := ∃ l, rs = some l ∧ ∃ r ∈ l, Within p r

example : readPorts 1 "\x7b 80, 010-12 , 443,\x7d" = some [(80, 80), (8, 12), (443, 443)] := by decide +kernel

/-! ## Members -/

section members

variable {cs ds : List Char} {ms : List (List Char)} {n : Nat}

theorem consHead_nil (h : ms ≠ []) : consHead [] ms = ms := by
  cases ms with
  | nil => exact absurd rfl h
  | cons m ms => rfl

theorem consHead_append : consHead (cs ++ ds) ms = consHead cs (consHead ds ms) := by
  cases ms with
  | nil => rfl
  | cons m ms => simp [consHead]

theorem splitMembers_ne_nil : splitMembers n cs ≠ [] := by
  cases cs with
  | nil => nofun
  | cons c cs =>
    rw [splitMembers]
    split
    · nofun
    · cases splitMembers _ cs <;> nofun

/-- Characters that cut nothing. -/
theorem splitMembers_append (hbraces : ∀ c ∈ cs, c ≠ '{' ∧ c ≠ '}') (hcommas : n = 0 → ',' ∉ cs) :
    splitMembers n (cs ++ ds) = consHead cs (splitMembers n ds) := by
  induction cs with
  | nil => exact (consHead_nil splitMembers_ne_nil).symm
  | cons c cs ih =>
    obtain ⟨hopen, hclose⟩ := hbraces c List.mem_cons_self
    have hcut : ¬(c = ',' ∧ n = 0) := by
      rintro ⟨rfl, h0⟩
      exact hcommas h0 List.mem_cons_self
    rw [List.cons_append, splitMembers, if_neg hcut, if_neg hopen, if_neg hclose,
      ih (fun d hd => hbraces d (List.mem_cons_of_mem _ hd)) fun h0 hmem => hcommas h0 (List.mem_cons_of_mem _ hmem),
      ← consHead_append]
    rfl

/-- A text that no comma of a list cuts. -/
def Whole (cs : List Char) : Prop := ∀ ds, splitMembers 0 (cs ++ ds) = consHead cs (splitMembers 0 ds)

theorem whole_of_plain (h : ∀ c ∈ cs, c ≠ '{' ∧ c ≠ '}' ∧ c ≠ ',') : Whole cs := fun _ =>
  splitMembers_append (fun c hc => ⟨(h c hc).1, (h c hc).2.1⟩) fun _ hmem => (h ',' hmem).2.2 rfl

/-- A list in braces is whole. -/
theorem whole_of_braces (h : ∀ c ∈ cs, c ≠ '{' ∧ c ≠ '}') : Whole ('{' :: cs ++ ['}']) := by
  intro ds
  have hinner : splitMembers 1 (cs ++ '}' :: ds) = consHead cs (splitMembers 1 ('}' :: ds)) := splitMembers_append h nofun
  have hclose : splitMembers 1 ('}' :: ds) = consHead ['}'] (splitMembers 0 ds) := by
    rw [splitMembers, if_neg (by decide), if_neg (by decide), if_pos rfl]
  have hopen : '{' :: cs ++ ['}'] ++ ds = '{' :: (cs ++ '}' :: ds) := by simp
  rw [hopen, splitMembers, if_neg (by decide), if_pos rfl, hinner, hclose, ← consHead_append, ← consHead_append]
  simp

theorem Whole.append (hcs : Whole cs) (hds : Whole ds) : Whole (cs ++ ds) := by
  intro es
  rw [List.append_assoc, hcs, hds, consHead_append]

/-- The members of texts joined by commas are the texts. -/
theorem splitMembers_join {ts : List String} (hne : ts ≠ []) (hwhole : ∀ t ∈ ts, Whole t.toList) :
    (splitMembers 0 (' ' :: (join ts ", ").toList ++ [' '])).map (fun m => String.ofList (trimBy isListBlank m)) = ts.map (trimBlanks isListBlank) := by
  have hblank : Whole [' '] := whole_of_plain (by simp)
  induction ts with
  | nil => exact absurd rfl hne
  | cons t ts ih =>
    have ht : Whole (' ' :: t.toList) := hblank.append (hwhole t List.mem_cons_self)
    cases ts with
    | nil =>
      have hone : splitMembers 0 (' ' :: (join [t] ", ").toList ++ [' ']) = [' ' :: t.toList ++ [' ']] := by
        rw [join, ht, show splitMembers 0 [' '] = [[' ']] by decide]
        rfl
      rw [hone, List.map_singleton, List.map_singleton, trimBy_snoc (by decide), trimBy_cons (by decide)]
      rfl
    | cons t' ts =>
      have hjoin : ' ' :: (join (t :: t' :: ts) ", ").toList ++ [' '] =
          ' ' :: t.toList ++ (',' :: ' ' :: (join (t' :: ts) ", ").toList ++ [' ']) := by
        simp [join]
      have hcomma : ∀ es, splitMembers 0 (',' :: es) = [] :: splitMembers 0 es := fun es => by rw [splitMembers, if_pos ⟨rfl, rfl⟩]
      rw [hjoin, ht, List.cons_append, hcomma, List.map_cons, ← ih (by simp) fun u hu => hwhole u (List.mem_cons_of_mem _ hu)]
      rw [consHead, List.map_cons, List.append_nil, trimBy_cons (by decide)]
      rfl

end members

/-! ## Lists -/

section lists

variable {S : Nat → Prop} {read : String → Option (List (Nat × Nat))} {ts : List String} {depth : Nat}

theorem means_iff {rs : Option (List (Nat × Nat))} : Means rs S ↔ rs.isSome ∧ ∀ p, NamesPort rs p ↔ S p := by
  cases rs with
  | none => exact iff_of_false (fun ⟨_, h, _⟩ => nomatch h) fun h => nomatch h.1
  | some l => simp [Means, NamesPort]

theorem isSome_readAll : (readAll read ts).isSome ↔ ∀ t ∈ ts, (read t).isSome := by
  induction ts with
  | nil => simp [readAll]
  | cons t ts ih =>
    rw [List.forall_mem_cons, ← ih, readAll]
    cases read t <;> cases readAll read ts <;> simp

theorem namesPort_readAll (h : ∀ t ∈ ts, (read t).isSome) (p : Nat) : NamesPort (readAll read ts) p ↔ ∃ t ∈ ts, NamesPort (read t) p := by
  induction ts with
  | nil => simp [readAll, NamesPort]
  | cons t ts ih =>
    have ih := ih fun u hu => h u (List.mem_cons_of_mem _ hu)
    obtain ⟨l, hl⟩ := Option.isSome_iff_exists.mp (h t List.mem_cons_self)
    obtain ⟨ls, hls⟩ := Option.isSome_iff_exists.mp (isSome_readAll.mpr fun u hu => h u (List.mem_cons_of_mem _ hu))
    rw [List.exists_mem_cons_iff, ← ih, readAll, hl, hls]
    simp only [NamesPort, Option.bind_some, Option.map_some, Option.some.injEq, exists_eq_left', List.mem_append, or_and_right, exists_or]

/-- A list means what its members mean together. -/
theorem means_readAll : Means (readAll read ts) S ↔ (∀ t ∈ ts, (read t).isSome) ∧ ∀ p, (∃ t ∈ ts, NamesPort (read t) p) ↔ S p := by
  rw [means_iff, isSome_readAll]
  exact and_congr_right fun h => forall_congr' fun p => by rw [namesPort_readAll h]

theorem getLast?_braced (cs : List Char) : (cs ++ ['}']).getLast? = some '}' := List.getLast?_concat

theorem inBraces_braced (cs : List Char) : inBraces ('{' :: (cs ++ ['}'])) = some cs := by
  rw [inBraces, if_pos (getLast?_braced cs), List.dropLast_concat]

/-- The members of a list of entries are the entries. -/
theorem listMembers_join (hne : ts ≠ []) (hwhole : ∀ t ∈ ts, Whole t.toList) (htrim : ∀ t ∈ ts, trimBlanks isListBlank t = t)
    (hnone : "" ∉ ts) : listMembers (' ' :: (join ts ", ").toList ++ [' ']) = ts := by
  have hmap : ts.map (trimBlanks isListBlank) = ts := (List.map_congr_left htrim).trans (List.map_id ts)
  rw [listMembers, splitMembers_join hne hwhole, hmap]
  refine if_neg fun h => hnone ?_
  exact List.mem_of_getLast? h.2

theorem trimBlanks_braced (cs : List Char) : trimBlanks isBlank (String.ofList ('{' :: (cs ++ ['}']))) = String.ofList ('{' :: (cs ++ ['}'])) := by
  rw [trimBlanks, String.toList_ofList, trimBy, List.dropWhile_cons_of_neg (by decide), ← List.cons_append,
    List.rdropWhile_concat_neg _ _ _ (by decide)]

theorem readPorts_set (hne : ts ≠ []) (hwhole : ∀ t ∈ ts, Whole t.toList) (htrim : ∀ t ∈ ts, trimBlanks isListBlank t = t)
    (hnone : "" ∉ ts) : readPorts (depth + 1) (Ports.set ts).text = readAll (readMember depth) ts := by
  have htext : (Ports.set ts).text = String.ofList ('{' :: (' ' :: (join ts ", ").toList ++ [' '] ++ ['}'])) := by
    rw [← String.toList_inj, String.toList_ofList]
    simp [Ports.text]
  rw [readPorts, htext, trimBlanks_braced, readMember, String.toList_ofList, inBraces_braced]
  dsimp only
  rw [listMembers_join hne hwhole htrim hnone]

end lists

end Nft
