import EvuProxy.Theorems.Canonical

/-!
# The rows of a list

Which rows of two lists `matchRows` pairs, and what the changes of a list say of the others: every row that no step names is one of the
rows that are the same on both sides, and those stand in one order, or a step names it.
-/

namespace EvuProxy.Review

open Go

/-! ## What is paired and what is left over -/

/-- Lists of the same rows, place by place. -/
def SameRows (xs ys : List Json) : Prop := xs.map (fun x => canonical (some x)) = ys.map fun y => canonical (some y)

section matching

variable (before after : List Json)

theorem editPasses_left : ∀ (keys : List (Json → Nat → Key)) (bs as : List Nat),
    bs.Perm ((editPasses before after keys bs as).pairs.map Prod.fst ++ (editPasses before after keys bs as).left)
  | [], bs, as => List.Perm.refl bs
  | key :: keys, bs, as => by
    have hhere : bs.Perm ((keyPass before after key bs as).pairs.map Prod.fst ++ (keyPass before after key bs as).left) :=
      Pairing.pass_left _ _ bs as
    have hrest := editPasses_left keys (keyPass before after key bs as).left (keyPass before after key bs as).right
    rw [editPasses, List.map_append, List.append_assoc]
    exact hhere.trans (hrest.append_left _)

theorem editPasses_right : ∀ (keys : List (Json → Nat → Key)) (bs as : List Nat),
    as.Perm ((editPasses before after keys bs as).pairs.map Prod.snd ++ (editPasses before after keys bs as).right)
  | [], bs, as => List.Perm.refl as
  | key :: keys, bs, as => by
    have hhere : as.Perm ((keyPass before after key bs as).pairs.map Prod.snd ++ (keyPass before after key bs as).right) :=
      Pairing.pass_right _ _ bs as
    have hrest := editPasses_right keys (keyPass before after key bs as).left (keyPass before after key bs as).right
    rw [editPasses, List.map_append, List.append_assoc]
    exact hhere.trans (hrest.append_left _)

variable (keys : List (Json → Nat → Key))

/-- Every place before is kept, edited or removed. -/
theorem matchRows_before : (List.range before.length).Perm ((matchRows before after keys).kept.map Prod.fst ++
    ((matchRows before after keys).edited.map Prod.fst ++ (matchRows before after keys).removed)) := by
  have hfirst : (List.range before.length).Perm ((keptPass before after).pairs.map Prod.fst ++ (keptPass before after).left) :=
    Pairing.pass_left _ _ _ _
  exact hfirst.trans ((editPasses_left before after keys _ _).append_left _)

/-- Every place after is kept, edited or added. -/
theorem matchRows_after : (List.range after.length).Perm ((matchRows before after keys).kept.map Prod.snd ++
    ((matchRows before after keys).edited.map Prod.snd ++ (matchRows before after keys).added)) := by
  have hfirst : (List.range after.length).Perm ((keptPass before after).pairs.map Prod.snd ++ (keptPass before after).right) :=
    Pairing.pass_right _ _ _ _
  exact hfirst.trans ((editPasses_right before after keys _ _).append_left _)

/-- The rows that are kept are the same. -/
theorem matchRows_kept {p : Nat × Nat} (hp : p ∈ (matchRows before after keys).kept) :
    ∃ x y, before[p.1]? = some x ∧ after[p.2]? = some y ∧ same (some x) (some y) = true := by
  obtain ⟨k, hx, hy⟩ := Pairing.pass_keys _ _ _ _ hp
  obtain ⟨x, hx, hxk⟩ := Option.map_eq_some_iff.mp hx
  obtain ⟨y, hy, hyk⟩ := Option.map_eq_some_iff.mp hy
  exact ⟨x, y, hx, hy, beq_iff_eq.mpr (hxk.trans hyk.symm)⟩

end matching

/-- Lists of the same rows are kept as they are. -/
theorem matchRows_same {before after : List Json} {keys : List (Json → Nat → Key)} (h : SameRows before after) :
    matchRows before after keys = { kept := (List.range before.length).map fun b => (b, b), edited := [], removed := [], added := [] } := by
  have hlen : before.length = after.length := by
    have := congrArg List.length h
    rwa [List.length_map, List.length_map] at this
  have hkeys : ∀ b : Nat, (before[b]?.map fun row => canonical (some row)) = after[b]?.map fun row => canonical (some row) := by
    intro b
    have := congrArg (fun l => l[b]?) h
    rwa [List.getElem?_map, List.getElem?_map] at this
  have hfirst : keptPass before after = { pairs := (List.range before.length).map fun b => (b, b), left := [], right := [] } := by
    rw [keptPass, ← hlen]
    refine Pairing.pass_self _ _ _ fun b hb => ⟨?_, hkeys b⟩
    rw [Option.isSome_map, List.getElem?_eq_getElem (List.mem_range.mp hb), Option.isSome_some]
  have hedits : ∀ keys : List (Json → Nat → Key), editPasses before after keys [] [] = { pairs := [], left := [], right := [] } := by
    intro keys
    induction keys with
    | nil => rfl
    | cons key keys ih =>
      have hhere : keyPass before after key [] [] = { pairs := [], left := [], right := [] } := rfl
      rw [editPasses, hhere, ih]
      rfl
  rw [matchRows, hfirst, hedits]

/-! ## What the steps name -/

/-- Every row that no step names is paired with one that is the same on the other side, and the rows so paired stand in one order on both
sides, or a step names the two orders. -/
structure Unnamed (steps : List Step) (path : List String) (before after : List Json) (kept : List (Nat × Nat)) : Prop where
  same : ∀ p ∈ kept, ∃ x y, before[p.1]? = some x ∧ after[p.2]? = some y ∧ same (some x) (some y) = true
  inOrder : (kept.map Prod.fst).Pairwise (· < ·)
  apart : (kept.map Prod.snd).Nodup
  left : ∀ b x, before[b]? = some x → b ∉ kept.map Prod.fst → ∃ w a bs as, Step.row path (some x) w (some b) a bs as ∈ steps
  right : ∀ a y, after[a]? = some y → a ∉ kept.map Prod.snd → ∃ w b bs as, Step.row path w (some y) b (some a) bs as ∈ steps
  order : (kept.map Prod.snd).Pairwise (· < ·) ∨ ∃ byAfter : List (Nat × Nat), byAfter.Perm kept ∧ (byAfter.map Prod.snd).Pairwise (· < ·) ∧
    Step.order path (kept.filterMap fun p => before[p.1]?) (byAfter.filterMap fun p => after[p.2]?) ∈ steps

/-- The rows at which two lists differ, and a change of the order of the others, are named. -/
def RowsNamed (steps : List Step) (path : List String) (before after : List Json) : Prop := ∃ kept, Unnamed steps path before after kept

/-- Places that differ, sorted. -/
theorem sorted_places {f : Nat × Nat → Nat} {kept : List (Nat × Nat)} (h : (kept.map f).Nodup) :
    ((kept.insertionSort fun x y => f x ≤ f y).map f).Pairwise (· < ·) := by
  have : Std.Total fun x y : Nat × Nat => f x ≤ f y := ⟨fun x y => Nat.le_total _ _⟩
  have : IsTrans (Nat × Nat) fun x y => f x ≤ f y := ⟨fun _ _ _ hxy hyz => Nat.le_trans hxy hyz⟩
  have hperm := (List.perm_insertionSort (fun x y => f x ≤ f y) kept).map f
  have hle : ((kept.insertionSort fun x y => f x ≤ f y).map f).Pairwise (· ≤ ·) :=
    List.pairwise_map.mpr (List.pairwise_insertionSort (fun x y : Nat × Nat => f x ≤ f y) kept)
  have hne : ((kept.insertionSort fun x y => f x ≤ f y).map f).Pairwise (· ≠ ·) := hperm.nodup_iff.mpr h
  exact (hle.and hne).imp fun hxy => Nat.lt_of_le_of_ne hxy.1 hxy.2

section named

variable {path : List String} {before after : List Json} {steps : List Step}

/-- Steps for what is removed, edited and added, and for the order, name all that differs. -/
theorem rowsNamed_of_steps (keys : List (Json → Nat → Key))
    (hremoved : ∀ b ∈ (matchRows before after keys).removed, rowStep path before after (some b) none ∈ steps)
    (hedited : ∀ p ∈ (matchRows before after keys).edited, rowStep path before after (some p.1) (some p.2) ∈ steps)
    (hadded : ∀ a ∈ (matchRows before after keys).added, rowStep path before after none (some a) ∈ steps)
    (horder : ∀ c, orderChange path before after (matchRows before after keys).kept = some c → ∀ s ∈ c.steps, s ∈ steps) :
    RowsNamed steps path before after := by
  have hbefore := matchRows_before before after keys
  have hafter := matchRows_after before after keys
  have hfst : ((matchRows before after keys).kept.map Prod.fst).Nodup :=
    (List.nodup_append.mp (hbefore.nodup_iff.mp List.nodup_range)).1
  have hsnd : ((matchRows before after keys).kept.map Prod.snd).Nodup :=
    (List.nodup_append.mp (hafter.nodup_iff.mp List.nodup_range)).1
  have hperm := List.perm_insertionSort (fun x y : Nat × Nat => x.1 ≤ y.1) (matchRows before after keys).kept
  refine ⟨(matchRows before after keys).kept.insertionSort fun x y => x.1 ≤ y.1, ?_⟩
  refine
    { same := fun p hp => matchRows_kept before after keys (hperm.mem_iff.mp hp)
      inOrder := sorted_places hfst
      apart := (hperm.map Prod.snd).nodup_iff.mpr hsnd
      left := fun b x hx hb => ?_
      right := fun a y hy ha => ?_
      order := ?_ }
  · rw [(hperm.map Prod.fst).mem_iff] at hb
    have hmem := hbefore.mem_iff.mp (List.mem_range.mpr (List.getElem?_eq_some_iff.mp hx).1)
    rcases List.mem_append.mp hmem with hmem | hmem
    · exact absurd hmem hb
    · rcases List.mem_append.mp hmem with hmem | hmem
      · obtain ⟨p, hp, rfl⟩ := List.mem_map.mp hmem
        have hstep := hedited p hp
        rw [rowStep, Option.bind_some, hx] at hstep
        exact ⟨_, _, _, _, hstep⟩
      · have hstep := hremoved b hmem
        rw [rowStep, Option.bind_some, hx] at hstep
        exact ⟨_, _, _, _, hstep⟩
  · rw [(hperm.map Prod.snd).mem_iff] at ha
    have hmem := hafter.mem_iff.mp (List.mem_range.mpr (List.getElem?_eq_some_iff.mp hy).1)
    rcases List.mem_append.mp hmem with hmem | hmem
    · exact absurd hmem ha
    · rcases List.mem_append.mp hmem with hmem | hmem
      · obtain ⟨p, hp, rfl⟩ := List.mem_map.mp hmem
        have hstep := hedited p hp
        rw [rowStep, Option.bind_some, Option.bind_some, hy] at hstep
        exact ⟨_, _, _, _, hstep⟩
      · have hstep := hadded a hmem
        rw [rowStep, Option.bind_some, hy] at hstep
        exact ⟨_, _, _, _, hstep⟩
  · by_cases hchain : ((matchRows before after keys).kept.insertionSort fun x y => x.1 ≤ y.1).IsChain fun x y => x.2 < y.2
    · have : IsTrans (Nat × Nat) fun x y => x.2 < y.2 := ⟨fun _ _ _ hxy hyz => Nat.lt_trans hxy hyz⟩
      exact .inl (List.pairwise_map.mpr (List.isChain_iff_pairwise.mp hchain))
    · refine .inr ⟨_, (List.perm_insertionSort (fun x y : Nat × Nat => x.2 ≤ y.2) _).trans hperm.symm, sorted_places hsnd, ?_⟩
      refine horder _ (if_neg hchain) _ List.mem_cons_self

end named

/-! ## Lists without changes -/

/-- All the places of a list, in order, are its range. -/
theorem places_eq_range {places : List Nat} {n : Nat} (hsorted : places.Pairwise (· < ·)) (hmem : ∀ i, i ∈ places ↔ i < n) :
    places = List.range n := by
  have hperm : places.Perm (List.range n) :=
    (List.perm_ext_iff_of_nodup (hsorted.imp Nat.ne_of_lt) List.nodup_range).mpr fun i => (hmem i).trans List.mem_range.symm
  exact List.Perm.eq_of_pairwise (fun a b _ _ hab hba => absurd (Nat.lt_trans hab hba) (Nat.lt_irrefl a)) hsorted List.pairwise_lt_range hperm

/-- Lists of which no step names anything have the same rows. -/
theorem sameRows_of_unnamed {path : List String} {before after : List Json} (h : RowsNamed [] path before after) : SameRows before after := by
  obtain ⟨kept, h⟩ := h
  have hsorted : (kept.map Prod.snd).Pairwise (· < ·) := by
    rcases h.order with horder | ⟨_, _, _, hmem⟩
    · exact horder
    · exact absurd hmem List.not_mem_nil
  have hfst : kept.map Prod.fst = List.range before.length := by
    refine places_eq_range h.inOrder fun b => ⟨fun hb => ?_, fun hb => ?_⟩
    · obtain ⟨p, hp, rfl⟩ := List.mem_map.mp hb
      obtain ⟨x, -, hx, -⟩ := h.same p hp
      exact (List.getElem?_eq_some_iff.mp hx).1
    · by_contra hnot
      obtain ⟨_, _, _, _, hmem⟩ := h.left b before[b] (List.getElem?_eq_getElem hb) hnot
      exact absurd hmem List.not_mem_nil
  have hsnd : kept.map Prod.snd = List.range after.length := by
    refine places_eq_range hsorted fun a => ⟨fun ha => ?_, fun ha => ?_⟩
    · obtain ⟨p, hp, rfl⟩ := List.mem_map.mp ha
      obtain ⟨-, y, -, hy, -⟩ := h.same p hp
      exact (List.getElem?_eq_some_iff.mp hy).1
    · by_contra hnot
      obtain ⟨_, _, _, _, hmem⟩ := h.right a after[a] (List.getElem?_eq_getElem ha) hnot
      exact absurd hmem List.not_mem_nil
  have hlen : before.length = after.length := by
    have hleft := congrArg List.length hfst
    have hright := congrArg List.length hsnd
    rw [List.length_map, List.length_range] at hleft hright
    omega
  refine List.ext_getElem? fun b => ?_
  rw [List.getElem?_map, List.getElem?_map]
  by_cases hb : b < before.length
  · have hmem : (b, b) ∈ kept := by
      have hfirst : (kept.map Prod.fst)[b]? = some b := by rw [hfst, List.getElem?_range hb]
      have hsecond : (kept.map Prod.snd)[b]? = some b := by rw [hsnd, List.getElem?_range (by omega)]
      rw [List.getElem?_map] at hfirst hsecond
      obtain ⟨p, hp, hpfst⟩ := Option.map_eq_some_iff.mp hfirst
      rw [hp, Option.map_some] at hsecond
      have hpair : p = (b, b) := Prod.ext hpfst (Option.some.inj hsecond)
      exact hpair ▸ List.mem_of_getElem? hp
    obtain ⟨x, y, hx, hy, hsame⟩ := h.same _ hmem
    have hsame : canonical (some x) = canonical (some y) := beq_iff_eq.mp hsame
    rw [show before[b]? = some x from hx, show after[b]? = some y from hy, Option.map_some, Option.map_some, hsame]
  · rw [List.getElem?_eq_none (Nat.le_of_not_lt hb), List.getElem?_eq_none (by omega), Option.map_none]

theorem orderChange_diagonal (path : List String) (before after : List Json) (n : Nat) :
    orderChange path before after ((List.range n).map fun b => (b, b)) = none := by
  have hsorted : ((List.range n).map fun b => (b, b)).insertionSort (fun x y : Nat × Nat => x.1 ≤ y.1) = (List.range n).map fun b => (b, b) :=
    List.Pairwise.insertionSort_eq (List.pairwise_map.mpr (List.pairwise_lt_range.imp Nat.le_of_lt))
  have hpairwise : ((List.range n).map fun b => (b, b)).Pairwise fun x y : Nat × Nat => x.2 < y.2 :=
    List.pairwise_map.mpr List.pairwise_lt_range
  have hchain := hpairwise.isChain
  rw [orderChange, hsorted]
  exact if_pos hchain

section lists

variable {path : List String}

theorem RowsNamed.mono {before after : List Json} {steps steps' : List Step} (h : RowsNamed steps path before after)
    (hsub : ∀ s ∈ steps, s ∈ steps') : RowsNamed steps' path before after := by
  obtain ⟨kept, h⟩ := h
  refine ⟨kept, h.same, h.inOrder, h.apart, fun b x hx hb => ?_, fun a y hy ha => ?_, ?_⟩
  · obtain ⟨w, a, bs, as, hstep⟩ := h.left b x hx hb
    exact ⟨w, a, bs, as, hsub _ hstep⟩
  · obtain ⟨w, b, bs, as, hstep⟩ := h.right a y hy ha
    exact ⟨w, b, bs, as, hsub _ hstep⟩
  · rcases h.order with horder | ⟨byAfter, hperm, hsorted, hstep⟩
    · exact .inl horder
    · exact .inr ⟨byAfter, hperm, hsorted, hsub _ hstep⟩

/-- Lists of the same rows need no step. -/
theorem rowsNamed_same {before after : List Json} {steps : List Step} (h : SameRows before after) : RowsNamed steps path before after := by
  refine rowsNamed_of_steps [] ?_ ?_ ?_ ?_
  · rw [matchRows_same h]
    exact fun b hb => absurd hb List.not_mem_nil
  · rw [matchRows_same h]
    exact fun p hp => absurd hp List.not_mem_nil
  · rw [matchRows_same h]
    exact fun a ha => absurd ha List.not_mem_nil
  · intro c hc
    rw [matchRows_same h] at hc
    rw [orderChange_diagonal] at hc
    cases hc

/-- The steps of changes. -/
def stepsOf (changes : List Change) : List Step := changes.flatMap (·.steps)

theorem mem_stepsOf {changes : List Change} {s : Step} : s ∈ stepsOf changes ↔ ∃ c ∈ changes, s ∈ c.steps := List.mem_flatMap

theorem mem_stepsOf_cons {c : Change} {changes : List Change} {s : Step} : s ∈ stepsOf (c :: changes) ↔ s ∈ c.steps ∨ s ∈ stepsOf changes := by
  rw [stepsOf, List.flatMap_cons, List.mem_append]
  rfl

theorem stepsOf_append (cs ds : List Change) : stepsOf (cs ++ ds) = stepsOf cs ++ stepsOf ds := List.flatMap_append

/-- The changes of a row list name what differs in it. -/
theorem rowsNamed_describeRowList (list : RowList) (applied saved : Json) :
    RowsNamed (stepsOf (describeRowList list applied saved)) list.path (listAt (some applied) list.path) (listAt (some saved) list.path) := by
  refine rowsNamed_of_steps list.keys (fun b hb => ?_) (fun p hp => ?_) (fun a ha => ?_) fun c hc s hs => ?_
  · refine mem_stepsOf.mpr ⟨rowChange _ _ _ (some b) none, ?_, List.mem_cons_self⟩
    exact List.mem_append_left _ (List.mem_append_left _ (List.mem_append_left _ (List.mem_map_of_mem hb)))
  · refine mem_stepsOf.mpr ⟨rowChange _ _ _ (some p.1) (some p.2), ?_, List.mem_cons_self⟩
    exact List.mem_append_left _ (List.mem_append_left _ (List.mem_append_right _ (List.mem_map.mpr ⟨p, hp, rfl⟩)))
  · refine mem_stepsOf.mpr ⟨rowChange _ _ _ none (some a), ?_, List.mem_cons_self⟩
    exact List.mem_append_left _ (List.mem_append_right _ (List.mem_map_of_mem ha))
  · exact mem_stepsOf.mpr ⟨c, List.mem_append_right _ (Option.mem_toList.mpr hc), hs⟩

/-- A row list whose rows are the same has no change. -/
theorem describeRowList_same {list : RowList} {applied saved : Json}
    (h : SameRows (listAt (some applied) list.path) (listAt (some saved) list.path)) : describeRowList list applied saved = [] := by
  rw [describeRowList, matchRows_same h, orderChange_diagonal]
  rfl

theorem rowsNamed_describeScalarList (before after : Option Json) :
    RowsNamed (stepsOf (describeScalarList path before after)) path (rowsOf before) (rowsOf after) := by
  have hnone : (matchRows (rowsOf before) (rowsOf after) []).edited = [] := rfl
  refine rowsNamed_of_steps [] (fun b hb => ?_) (fun p hp => ?_) (fun a ha => ?_) fun c hc s hs => ?_
  · refine mem_stepsOf.mpr ⟨{ steps := [rowStep path (rowsOf before) (rowsOf after) (some b) none], row := none }, ?_, List.mem_cons_self⟩
    exact List.mem_append_left _ (List.mem_append_left _ (List.mem_map.mpr ⟨b, hb, rfl⟩))
  · rw [hnone] at hp
    exact absurd hp List.not_mem_nil
  · refine mem_stepsOf.mpr ⟨{ steps := [rowStep path (rowsOf before) (rowsOf after) none (some a)], row := none }, ?_, List.mem_cons_self⟩
    exact List.mem_append_left _ (List.mem_append_right _ (List.mem_map.mpr ⟨a, ha, rfl⟩))
  · exact mem_stepsOf.mpr ⟨c, List.mem_append_right _ (Option.mem_toList.mpr hc), hs⟩

theorem describeScalarList_same {before after : Option Json} (h : SameRows (rowsOf before) (rowsOf after)) :
    describeScalarList path before after = [] := by
  rw [describeScalarList, matchRows_same h, orderChange_diagonal]
  rfl

/-- The steps of a list are about the list, and none of them is about its value as a whole. -/
def AboutRows (path : List String) (s : Step) : Prop := s.path = path ∧ ∀ b a, s ≠ .value path b a

theorem aboutRows_rowStep (before after : List Json) (b a : Option Nat) : AboutRows path (rowStep path before after b a) := by
  refine ⟨rfl, ?_⟩
  rintro x y heq
  cases heq

theorem aboutRows_orderChange {before after : List Json} {kept : List (Nat × Nat)} {c : Change} (h : orderChange path before after kept = some c)
    {s : Step} (hs : s ∈ c.steps) : AboutRows path s := by
  unfold orderChange at h
  dsimp only at h
  split at h
  · cases h
  · obtain rfl := Option.some.inj h
    rw [List.mem_singleton.mp hs]
    refine ⟨rfl, ?_⟩
    rintro x y heq
    cases heq

theorem aboutRows_describeRowList {list : RowList} {applied saved : Json} {s : Step} (hs : s ∈ stepsOf (describeRowList list applied saved)) :
    AboutRows list.path s := by
  obtain ⟨c, hc, hs⟩ := mem_stepsOf.mp hs
  rcases List.mem_append.mp hc with hc | hc
  · have hrow : ∃ b a, c = rowChange list.path (listAt (some applied) list.path) (listAt (some saved) list.path) b a := by
      rcases List.mem_append.mp hc with hc | hc
      · rcases List.mem_append.mp hc with hc | hc
        · obtain ⟨b, -, rfl⟩ := List.mem_map.mp hc
          exact ⟨_, _, rfl⟩
        · obtain ⟨p, -, rfl⟩ := List.mem_map.mp hc
          exact ⟨_, _, rfl⟩
      · obtain ⟨a, -, rfl⟩ := List.mem_map.mp hc
        exact ⟨_, _, rfl⟩
    obtain ⟨b, a, rfl⟩ := hrow
    rw [List.mem_singleton.mp hs]
    exact aboutRows_rowStep _ _ b a
  · exact aboutRows_orderChange (Option.mem_toList.mp hc) hs

theorem aboutRows_describeScalarList {before after : Option Json} {s : Step} (hs : s ∈ stepsOf (describeScalarList path before after)) :
    AboutRows path s := by
  obtain ⟨c, hc, hs⟩ := mem_stepsOf.mp hs
  rcases List.mem_append.mp hc with hc | hc
  · rcases List.mem_append.mp hc with hc | hc
    · obtain ⟨b, -, rfl⟩ := List.mem_map.mp hc
      rw [List.mem_singleton.mp hs]
      exact aboutRows_rowStep _ _ _ _
    · obtain ⟨a, -, rfl⟩ := List.mem_map.mp hc
      rw [List.mem_singleton.mp hs]
      exact aboutRows_rowStep _ _ _ _
  · exact aboutRows_orderChange (Option.mem_toList.mp hc) hs

end lists

/-! ## Folding -/

/-- Folding moves steps from route changes to peer changes, and loses none. -/
theorem foldCascades_steps (numText : ℚ → String) : ∀ (peers routes : List Change) (s : Step),
    s ∈ stepsOf ((foldCascades numText peers routes).1 ++ (foldCascades numText peers routes).2) ↔ s ∈ stepsOf (peers ++ routes)
  | [], routes, s => Iff.rfl
  | change :: peers, routes, s => by
    unfold foldCascades
    split
    · have ih := foldCascades_steps numText peers routes s
      rw [List.cons_append, List.cons_append, mem_stepsOf_cons, mem_stepsOf_cons, ih]
    · rename_i before _
      dsimp only
      have ih := foldCascades_steps numText peers (if hostOf numText (field (some before) "tunnel_ip") = "" then routes
        else routes.filter fun c => !cascadedFrom numText (hostOf numText (field (some before) "tunnel_ip")) c) s
      rw [List.cons_append, List.cons_append, mem_stepsOf_cons, mem_stepsOf_cons, ih, List.mem_append, or_assoc]
      refine or_congr_right ?_
      rw [stepsOf_append, stepsOf_append, List.mem_append, List.mem_append]
      split
      · rw [List.flatMap_nil]
        simp
      · rw [mem_stepsOf, mem_stepsOf, mem_stepsOf, List.mem_flatMap]
        simp only [List.mem_filter]
        constructor
        · rintro (⟨c, ⟨hc, -⟩, hs⟩ | hs | ⟨c, ⟨hc, -⟩, hs⟩)
          · exact .inr ⟨c, hc, hs⟩
          · exact .inl hs
          · exact .inr ⟨c, hc, hs⟩
        · rintro (hs | ⟨c, hc, hs⟩)
          · exact .inr (.inl hs)
          · cases hcascaded : cascadedFrom numText (hostOf numText (field (some before) "tunnel_ip")) c with
            | true => exact .inl ⟨c, ⟨hc, hcascaded⟩, hs⟩
            | false => exact .inr (.inr ⟨c, ⟨hc, by rw [hcascaded, Bool.not_false]⟩, hs⟩)

theorem foldCascades_nil {numText : ℚ → String} {peers routes : List Change} :
    (foldCascades numText peers routes).1 ++ (foldCascades numText peers routes).2 = [] ↔ peers = [] ∧ routes = [] := by
  cases peers with
  | nil => exact ⟨fun h => ⟨rfl, h⟩, fun h => h.2⟩
  | cons change peers =>
    refine iff_of_false (fun h => ?_) fun h => List.cons_ne_nil _ _ h.1
    unfold foldCascades at h
    split at h <;> cases h

end EvuProxy.Review
