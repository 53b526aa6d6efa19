import EvuProxy.Theorems.AcceptedLines
import EvuProxy.Theorems.Embedding
import EvuProxy.Theorems.Paused

/-!
# The markers of paused routes

The scan of a pause update for its markers finds the routes that are paused in it, whatever the config calls its sets, ports and
targets: a quote stands in no rule of the chain but around a marker.
-/

namespace EvuProxy

open Go Nft

/-! ## Texts with markers -/

/-- What stands before the number of a marker. -/
def markerStart : List Char := ("comment \"" ++ pausedRouteComment).toList

/-- A marker starts with one word and a quote. -/
theorem markerStart_eq : markerStart = "comment ".toList ++ '"' :: pausedRouteComment.toList := by
  decide +kernel

/-- A text with these markers, and no quote that is not one of theirs. -/
inductive HasMarkers : List Nat → List Char → Prop where
  | quiet {cs : List Char} (h : '"' ∉ cs) : HasMarkers [] cs
  | marker {cs rest : List Char} {ns : List Nat} {n : Nat} (h : '"' ∉ cs) (hrest : HasMarkers ns rest) :
    HasMarkers (n :: ns) (cs ++ (markerStart ++ ((toString n).toList ++ '"' :: rest)))

theorem HasMarkers.quiet_append {ns : List Nat} {cs ds : List Char} (hcs : '"' ∉ cs) (h : HasMarkers ns ds) : HasMarkers ns (cs ++ ds) := by
  cases h with
  | quiet hds => exact .quiet (by rw [List.mem_append]; rintro (h | h) <;> contradiction)
  | marker hds hrest =>
    rw [← List.append_assoc]
    exact .marker (by rw [List.mem_append]; rintro (h | h) <;> contradiction) hrest

theorem HasMarkers.append {ns ms : List Nat} {cs ds : List Char} (h : HasMarkers ns cs) (h' : HasMarkers ms ds) : HasMarkers (ns ++ ms) (cs ++ ds) := by
  induction h with
  | quiet hcs => exact h'.quiet_append hcs
  | marker hcs _ ih =>
    rw [List.append_assoc, List.append_assoc, List.append_assoc, List.cons_append, List.cons_append]
    exact .marker hcs ih

/-! ## The scan -/

/-- The marker at the start of a text. -/
def markerAt (cs : List Char) : List Nat :=
  if markerStart.isPrefixOf cs then
    let digits := (cs.drop markerStart.length).takeWhile isDigit
    let rest := (cs.drop markerStart.length).dropWhile isDigit
    if digits ≠ [] ∧ rest.head? = some '"' ∧ digitsVal digits < 2 ^ 63 then [digitsVal digits] else []
  else []

theorem pausedMarkers_cons (c : Char) (cs : List Char) : pausedMarkers (c :: cs) = markerAt (c :: cs) ++ pausedMarkers cs := rfl

theorem upToQuote_marker (rest : List Char) : (markerStart ++ rest).takeWhile (· ≠ '"') = "comment ".toList := by
  rw [markerStart_eq, List.append_assoc, List.takeWhile_append_of_pos (by simp), List.cons_append, List.takeWhile_cons_of_neg (by decide),
    List.append_nil]

/-- Up to the first quote of a marker stands one word. -/
theorem upToQuote_of_markerAt {cs : List Char} (h : markerAt cs ≠ []) : cs.takeWhile (· ≠ '"') = "comment ".toList := by
  unfold markerAt at h
  split at h
  · rename_i hprefix
    obtain ⟨rest, rfl⟩ := List.isPrefixOf_iff_prefix.mp hprefix
    exact upToQuote_marker rest
  · exact absurd rfl h

/-- The scan passes over what starts no marker. -/
theorem pausedMarkers_skip {seg rest : List Char} (h : ∀ v, v ≠ [] → v <:+ seg → markerAt (v ++ rest) = []) :
    pausedMarkers (seg ++ rest) = pausedMarkers rest := by
  induction seg with
  | nil => rfl
  | cons c seg ih =>
    rw [List.cons_append, pausedMarkers_cons, ← List.cons_append, h _ (List.cons_ne_nil c seg) List.suffix_rfl, List.nil_append]
    exact ih fun v hv hsuf => h v hv (hsuf.trans (List.suffix_cons c seg))

theorem takeWhile_quiet {cs ds : List Char} (h : '"' ∉ cs) : (cs ++ ds).takeWhile (· ≠ '"') = cs ++ ds.takeWhile (· ≠ '"') :=
  List.takeWhile_append_of_pos fun c hc => by
    simp only [ne_eq, decide_eq_true_eq]
    rintro rfl
    exact h hc

/-- A text without quotes has no markers. -/
theorem pausedMarkers_quiet {cs : List Char} (h : '"' ∉ cs) : pausedMarkers cs = [] := by
  have hskip := @pausedMarkers_skip cs [] fun v hv hsuf => by
    by_contra hmarker
    have hquiet : '"' ∉ v := fun hmem => h (hsuf.subset hmem)
    rw [List.append_nil] at hmarker
    unfold markerAt at hmarker
    split at hmarker
    · rename_i hprefix
      exact hquiet ((List.isPrefixOf_iff_prefix.mp hprefix).subset (by decide))
    · exact hmarker rfl
  rw [List.append_nil] at hskip
  rw [hskip]
  rfl

/-- A marker is found at its place. -/
theorem markerAt_marker {n : Nat} (hn : n < 2 ^ 63) (rest : List Char) :
    markerAt (markerStart ++ ((toString n).toList ++ '"' :: rest)) = [n] := by
  have hprefix : markerStart.isPrefixOf (markerStart ++ ((toString n).toList ++ '"' :: rest)) = true :=
    List.isPrefixOf_iff_prefix.mpr (List.prefix_append _ _)
  have htake : ((toString n).toList ++ '"' :: rest).takeWhile isDigit = (toString n).toList := by
    rw [List.takeWhile_append_of_pos (isDigit_toString n), List.takeWhile_cons_of_neg (by decide), List.append_nil]
  have hdrop : ((toString n).toList ++ '"' :: rest).dropWhile isDigit = '"' :: rest := by
    rw [List.dropWhile_append_of_pos (isDigit_toString n), List.dropWhile_cons_of_neg (by decide)]
  have hne : (toString n).toList ≠ [] := by
    rw [toList_toString]
    exact Nat.toDigits_ne_nil
  rw [markerAt, if_pos hprefix, List.drop_left, htake, hdrop]
  dsimp only
  rw [digitsVal_toString, if_pos ⟨hne, rfl, hn⟩]

theorem suffix_append_cases {xs ys v : List Char} (h : v <:+ xs ++ ys) : v <:+ ys ∨ ∃ u, u <:+ xs ∧ v = u ++ ys := by
  obtain ⟨t, ht⟩ := h
  rcases List.append_eq_append_iff.mp ht with ⟨u, rfl, rfl⟩ | ⟨u, -, rfl⟩
  · exact .inr ⟨u, List.suffix_append t u, rfl⟩
  · exact .inl (List.suffix_append u v)

/-- No marker starts within another one. -/
theorem markerAt_inside {n : Nat} {v rest : List Char} (hv : v ≠ [])
    (hsuf : v <:+ "omment ".toList ++ '"' :: (pausedRouteComment.toList ++ (toString n).toList ++ ['"'])) : markerAt (v ++ rest) = [] := by
  have hinside : ∀ c ∈ pausedRouteComment.toList ++ (toString n).toList, c ≠ '"' ∧ c ≠ ' ' := by
    intro c hc
    rcases List.mem_append.mp hc with hc | hc
    · have hall : pausedRouteComment.toList.all (fun c => c != '"' && c != ' ') = true := by decide
      simpa using List.all_eq_true.mp hall c hc
    · have hdigit := isDigit_toString n c hc
      refine ⟨?_, ?_⟩ <;> rintro rfl <;> exact absurd hdigit (by decide)
  by_contra hmarker
  have hup := upToQuote_of_markerAt hmarker
  rcases suffix_append_cases hsuf with hsuf | ⟨u, hu, rfl⟩
  · rcases List.suffix_cons_iff.mp hsuf with rfl | hsuf
    · rw [List.cons_append, List.takeWhile_cons_of_neg (by decide)] at hup
      exact absurd hup (by decide)
    · rcases List.suffix_concat_iff.mp hsuf with rfl | ⟨t, rfl, ht⟩
      · exact hv rfl
      · have hquiet : '"' ∉ t := fun hmem => (hinside _ (ht.subset hmem)).1 rfl
        rw [List.append_assoc, takeWhile_quiet hquiet, List.singleton_append, List.takeWhile_cons_of_neg (by decide), List.append_nil] at hup
        exact (hinside ' ' (ht.subset (hup ▸ by decide))).2 rfl
  · have hquiet : '"' ∉ u := fun hmem => absurd (hu.subset hmem) (by decide)
    rw [List.append_assoc, takeWhile_quiet hquiet, List.cons_append, List.takeWhile_cons_of_neg (by decide), List.append_nil] at hup
    have hlen := hu.length_le
    rw [hup] at hlen
    exact absurd hlen (by decide)

/-- The scan finds the markers of a text. -/
theorem HasMarkers.found {ns : List Nat} {cs : List Char} (h : HasMarkers ns cs) (hns : ∀ n ∈ ns, n < 2 ^ 63) : pausedMarkers cs = ns := by
  induction h with
  | quiet hcs => exact pausedMarkers_quiet hcs
  | @marker cs rest ns n hcs _ ih =>
    have hstart : markerStart = 'c' :: ("omment ".toList ++ '"' :: pausedRouteComment.toList) := by decide +kernel
    -- before the marker no other one starts, because its first quote is too far away
    have hbefore : ∀ v, v ≠ [] → v <:+ cs → markerAt (v ++ (markerStart ++ ((toString n).toList ++ '"' :: rest))) = [] := by
      intro v hv hsuf
      by_contra hmarker
      have hup := upToQuote_of_markerAt hmarker
      rw [takeWhile_quiet fun hmem => hcs (hsuf.subset hmem), upToQuote_marker] at hup
      exact hv (List.append_left_eq_self.mp hup)
    have hsplit : markerStart ++ ((toString n).toList ++ '"' :: rest) = 'c' :: (("omment ".toList ++
        '"' :: (pausedRouteComment.toList ++ (toString n).toList ++ ['"'])) ++ rest) := by
      rw [hstart]
      simp
    rw [pausedMarkers_skip hbefore, hsplit, pausedMarkers_cons, ← hsplit, markerAt_marker (hns n List.mem_cons_self),
      pausedMarkers_skip fun v hv hsuf => markerAt_inside hv hsuf, ih fun m hm => hns m (List.mem_cons_of_mem n hm), List.singleton_append]

/-! ## The markers of a text -/

/-- A text whose markers are those of these numbers. -/
def MarksExactly (S : Nat → Prop) (cs : List Char) : Prop := ∃ ns, HasMarkers ns cs ∧ ∀ n, n ∈ ns ↔ S n

theorem marks_quiet {S : Nat → Prop} {cs : List Char} (h : '"' ∉ cs) (hS : ∀ n, ¬S n) : MarksExactly S cs :=
  ⟨[], .quiet h, fun n => iff_of_false List.not_mem_nil (hS n)⟩

theorem MarksExactly.append {S T U : Nat → Prop} {cs ds : List Char} (h : MarksExactly S cs) (h' : MarksExactly T ds)
    (hU : ∀ n, U n ↔ S n ∨ T n) : MarksExactly U (cs ++ ds) := by
  obtain ⟨ns, hns, hS⟩ := h
  obtain ⟨ms, hms, hT⟩ := h'
  exact ⟨ns ++ ms, hns.append hms, fun n => by rw [List.mem_append, hS, hT, hU]⟩

/-- The marker of a route. -/
def markerStmt (n : Nat) : Stmt := .comment (pausedRouteComment ++ toString n)

theorem markerStmt_inj {n m : Nat} (h : markerStmt n = markerStmt m) : n = m := by
  have htext : pausedRouteComment ++ toString n = pausedRouteComment ++ toString m := Stmt.comment.inj h
  have hlist := congrArg String.toList htext
  rw [String.toList_append, String.toList_append] at hlist
  exact toString_inj.mp (String.toList_inj.mp (List.append_cancel_left hlist))

theorem toList_markerStmt (n : Nat) : (markerStmt n).text.toList = markerStart ++ ((toString n).toList ++ ['"']) := by
  have hplain : ∀ c ∈ (pausedRouteComment ++ toString n).toList, quoteChar c = [c] := by
    intro c hc
    rw [String.toList_append, List.mem_append] at hc
    rcases hc with hc | hc
    · have hall : pausedRouteComment.toList.all (fun c => quoteChar c == [c]) = true := by decide +kernel
      exact beq_iff_eq.mp (List.all_eq_true.mp hall c hc)
    · have hchar : ifaceChar c = true := by simp [ifaceChar, isDigit_toString n c hc]
      obtain ⟨hlo, hhi, hquote, hslash⟩ := ifaceChar_range hchar
      exact quoteChar_plain ⟨by omega, hhi⟩ hquote hslash
  have htext : (markerStmt n).text = "comment " ++ quote (pausedRouteComment ++ toString n) := rfl
  rw [htext, @String.toList_append "comment ", quote_plain hplain, @String.toList_append pausedRouteComment, markerStart_eq]
  simp only [List.append_assoc, List.cons_append]

/-- A statement without quotes, or the marker of a route. -/
def Tame (st : Stmt) : Prop := ('"' ∉ st.text.toList ∧ ∀ n, st ≠ markerStmt n) ∨ ∃ n, st = markerStmt n

theorem Tame.marks {st : Stmt} (h : Tame st) : MarksExactly (fun n => st = markerStmt n) st.text.toList := by
  rcases h with ⟨hquiet, hne⟩ | ⟨n, rfl⟩
  · exact marks_quiet hquiet hne
  · refine ⟨[n], ?_, fun m => ?_⟩
    · rw [toList_markerStmt]
      exact @HasMarkers.marker [] _ _ _ List.not_mem_nil (.quiet List.not_mem_nil)
    · rw [List.mem_singleton]
      exact ⟨fun h => h ▸ rfl, fun h => (markerStmt_inj h).symm⟩

/-- The markers of a rule are those among its statements. -/
theorem marks_rule {r : Rule} (h : ∀ st ∈ r, Tame st) : MarksExactly (fun n => markerStmt n ∈ r) (ruleText r).toList := by
  have hjoin : MarksExactly (fun n => markerStmt n ∈ r) (join (r.map Stmt.text) " ").toList := by
    induction r with
    | nil => exact marks_quiet List.not_mem_nil fun n => List.not_mem_nil
    | cons st r ih =>
      have hst := (h st List.mem_cons_self).marks
      have ih := ih fun st' hst' => h st' (List.mem_cons_of_mem st hst')
      cases r with
      | nil =>
        obtain ⟨ns, hns, hmem⟩ := hst
        exact ⟨ns, hns, fun n => (hmem n).trans ⟨fun h => List.mem_singleton.mpr h.symm, fun h => (List.mem_singleton.mp h).symm⟩⟩
      | cons st' r =>
        have hspace : MarksExactly (fun _ => False) [' '] := marks_quiet (by decide) fun _ h => h
        have hrest := hspace.append ih (U := fun n => markerStmt n ∈ st' :: r) fun n => by rw [false_or]
        rw [List.map_cons, List.map_cons, toList_join_space]
        exact hst.append hrest fun n => by rw [List.mem_cons, eq_comm]
  have hindent : MarksExactly (fun _ => False) "        ".toList := marks_quiet (by decide) fun _ h => h
  have hnewline : MarksExactly (fun _ => False) "\n".toList := marks_quiet (by decide) fun _ h => h
  rw [ruleText, @String.toList_append ("        " ++ join (r.map Stmt.text) " "), @String.toList_append "        "]
  exact (hindent.append hjoin (U := fun n => markerStmt n ∈ r) fun n => by rw [false_or]).append hnewline fun n => by rw [or_false]

/-- The markers of a chain are those of its rules. -/
theorem marks_rules : ∀ {rules : List Rule} (i : Nat), (∀ r ∈ rules, ∀ st ∈ r, Tame st) →
    MarksExactly (fun n => ∃ r ∈ rules, markerStmt n ∈ r) (rulesText [] i rules).toList
  | [], i, _ => marks_quiet List.not_mem_nil fun n h => by
    obtain ⟨r, hr, -⟩ := h
    cases hr
  | r :: rules, i, h => by
    have hrule := marks_rule (h r List.mem_cons_self)
    have hrest := marks_rules (i + 1) fun r' hr' => h r' (List.mem_cons_of_mem r hr')
    rw [rulesText, if_neg List.not_mem_nil, String.append_empty, @String.toList_append (ruleText r)]
    exact hrule.append hrest fun n => by simp only [List.mem_cons, exists_eq_or_imp]

theorem quiet_of_all {cs : List Char} (h : cs.all (fun c => c != '"') = true) : '"' ∉ cs := fun hmem =>
  absurd (List.all_eq_true.mp h _ hmem) (by decide)

theorem MarksExactly.before {S : Nat → Prop} {s t : String} (h : MarksExactly S t.toList) (hs : s.toList.all (fun c => c != '"') = true) :
    MarksExactly S (s ++ t).toList := by
  have hquiet : MarksExactly (fun _ => False) s.toList := marks_quiet (quiet_of_all hs) fun _ h => h
  rw [@String.toList_append s t]
  exact hquiet.append h fun n => by rw [false_or]

theorem MarksExactly.after {S : Nat → Prop} {s t : String} (h : MarksExactly S s.toList) (ht : t.toList.all (fun c => c != '"') = true) :
    MarksExactly S (s ++ t).toList := by
  have hquiet : MarksExactly (fun _ => False) t.toList := marks_quiet (quiet_of_all ht) fun _ h => h
  rw [@String.toList_append s t]
  exact h.append hquiet fun n => by rw [or_false]

/-- The markers of the update are those of its rules. -/
theorem marks_preroutingScript {qs : List RoutePolicy} {paused : List Nat} (h : ∀ r ∈ writeNATPreroutingRules qs paused, ∀ st ∈ r, Tame st) :
    MarksExactly (fun n => ∃ r ∈ writeNATPreroutingRules qs paused, markerStmt n ∈ r) (scriptText (preroutingScript qs paused)).toList := by
  have hchain : MarksExactly (fun n => ∃ r ∈ writeNATPreroutingRules qs paused, markerStmt n ∈ r) (preroutingChain qs paused).text.toList := by
    have hhead : (("    chain " ++ "prerouting" ++ " \x7b\n        " ++ "type nat hook prerouting priority -100;" ++ "\n" ++ "").toList.all
        fun c => c != '"') = true := by decide +kernel
    have hrules := marks_rules 0 h
    exact (hrules.before hhead).after (by decide +kernel)
  have htable : MarksExactly (fun n => ∃ r ∈ writeNATPreroutingRules qs paused, markerStmt n ∈ r)
      (Command.table { family := "ip", name := "evuproxy", chains := [preroutingChain qs paused] }).text.toList := by
    have hhead : (("table " ++ "ip" ++ " " ++ "evuproxy" ++ " \x7b\n" ++ "").toList.all fun c => c != '"') = true := by decide +kernel
    exact (hchain.before hhead).after (by decide +kernel)
  have hcomment : ((Command.comment "Generated by evuproxy for paused routes — do not edit.").text ++ "").toList.all (fun c => c != '"') = true := by
    decide +kernel
  have hblank : (Command.blank.text ++ "").toList.all (fun c => c != '"') = true := by decide +kernel
  have hflush : ((Command.flushChain "ip" "evuproxy" "prerouting").text ++ "").toList.all (fun c => c != '"') = true := by decide +kernel
  exact ((htable.before hflush).before hblank).before hcomment

/-! ## The rules of the update -/

theorem tame_of_quiet {st : Stmt} (hquiet : '"' ∉ st.text.toList) (hne : ∀ t, st ≠ .comment t) : Tame st := .inl ⟨hquiet, fun _ => hne _⟩

/-- The words of the prerouting rules of a policy have no quotes. -/
structure QuoteFree (q : RoutePolicy) : Prop where
  srcAllow : ∀ s ∈ q.srcAllow, '"' ∉ s.toList
  srcDeny : ∀ s ∈ q.srcDeny, '"' ∉ s.toList
  globalDeny : ∀ s ∈ q.globalDeny, '"' ∉ s.toList
  breakGlass : ∀ s ∈ q.breakGlass, '"' ∉ s.toList
  geo : q.geo.enabled = true → '"' ∉ q.geo.setName.toList
  ports : ∀ l ∈ q.dnat, '"' ∉ l.publicDport.toList
  targets : ∀ l ∈ q.dnat, '"' ∉ l.dnatTo.1.toList ∧ ∀ p ∈ l.dnatTo.2, '"' ∉ p.toList

/-- A text that is put together of two without quotes has none. -/
theorem quiet_append {s t : String} (hs : s.toList.all (fun c => c != '"') = true) (ht : '"' ∉ t.toList) : '"' ∉ (s ++ t).toList := by
  rw [@String.toList_append s t, List.mem_append]
  rintro (hmem | hmem)
  · exact quiet_of_all hs hmem
  · exact ht hmem

theorem tame_saddrSet {neg : Bool} {s : String} (h : '"' ∉ s.toList) : Tame (.saddrSet neg s) := by
  have hhead : ("ip saddr " ++ neqText neg ++ "@").toList.all (fun c => c != '"') = true := by
    cases neg <;> decide +kernel
  exact tame_of_quiet (quiet_append hhead h) (by rintro t ⟨⟩)

theorem tame_dport {proto : Proto} {port : String} (h : '"' ∉ port.toList) : Tame (.dport proto (.tok port)) := by
  have hhead : (proto.text ++ " dport ").toList.all (fun c => c != '"') = true := by
    cases proto <;> decide +kernel
  exact tame_of_quiet (quiet_append hhead h) (by rintro t ⟨⟩)

theorem tame_dnat {host : String} {port : Option String} (h : '"' ∉ host.toList) (hp : ∀ p ∈ port, '"' ∉ p.toList) : Tame (.dnat host port) := by
  have hto : '"' ∉ ("dnat to " ++ host).toList := quiet_append (by decide +kernel) h
  cases port with
  | none => exact tame_of_quiet hto (by rintro t ⟨⟩)
  | some p =>
    have htext : (Stmt.dnat host (some p)).text = "dnat to " ++ host ++ ":" ++ p := rfl
    refine tame_of_quiet ?_ (by rintro t ⟨⟩)
    rw [htext]
    rw [@String.toList_append ("dnat to " ++ host ++ ":"), @String.toList_append ("dnat to " ++ host), List.mem_append, List.mem_append]
    rintro ((hmem | hmem) | hmem)
    · exact hto hmem
    · exact quiet_of_all (by decide +kernel) hmem
    · exact hp p rfl hmem

theorem tame_counter : ∀ {b : Bool}, ∀ st ∈ counterStmt b, Tame st
  | true, _, h => List.mem_singleton.mp h ▸ tame_of_quiet (quiet_of_all (by decide +kernel)) (by rintro t ⟨⟩)
  | false, _, h => absurd h List.not_mem_nil

theorem tame_drop : Tame .drop := tame_of_quiet (quiet_of_all (by decide +kernel)) (by rintro t ⟨⟩)

theorem tame_fromSet {set : Option String} (h : ∀ s ∈ set, '"' ∉ s.toList) : ∀ st ∈ fromSet set, Tame st := by
  intro st hst
  cases set with
  | none => cases hst
  | some s => exact List.mem_singleton.mp hst ▸ tame_saddrSet (h s rfl)

theorem tame_notFromSet {set : Option String} (h : ∀ s ∈ set, '"' ∉ s.toList) : ∀ st ∈ notFromSet set, Tame st := by
  intro st hst
  cases set with
  | none => cases hst
  | some s => exact List.mem_singleton.mp hst ▸ tame_saddrSet (h s rfl)

section rules

variable {q : RoutePolicy} {port : String} {w : Rule}

/-- The statements of the rules of a port are tame if those of their ending are. -/
theorem QuoteFree.tame (h : QuoteFree q) (hport : '"' ∉ port.toList) (hw : ∀ st ∈ w, Tame st) :
    ∀ r ∈ writePolicyPrerouting q port w, ∀ st ∈ r, Tame st := by
  have hdeny : ∀ r ∈ writeDenyDrops [] q [.dport q.proto (.tok port)], ∀ st ∈ r, Tame st := by
    intro r hr
    obtain ⟨set, hset, hr⟩ := List.mem_flatMap.mp hr
    have hfree : ∀ s ∈ set, '"' ∉ s.toList := by
      rcases List.mem_cons.mp hset with rfl | hset
      · exact h.globalDeny
      · exact List.mem_singleton.mp hset ▸ h.srcDeny
    cases set with
    | none => cases hr
    | some s =>
      rw [List.mem_singleton.mp hr]
      simp only [List.nil_append, List.forall_mem_append, List.forall_mem_singleton]
      exact ⟨⟨⟨tame_saddrSet (hfree s rfl), tame_dport hport⟩, tame_counter⟩, tame_drop⟩
  have hallow : ∀ geoSet, (∀ s ∈ geoSet, '"' ∉ s.toList) →
      ∀ r ∈ writePolicyAllow q.proto (.tok port) q.srcAllow geoSet w, ∀ st ∈ r, Tame st := by
    intro geoSet hgeo r hr
    rw [List.mem_singleton.mp hr]
    simp only [List.forall_mem_append, List.forall_mem_singleton]
    exact ⟨⟨⟨tame_fromSet h.srcAllow, tame_fromSet hgeo⟩, tame_dport hport⟩, hw⟩
  unfold writePolicyPrerouting
  dsimp only
  rw [List.forall_mem_append]
  refine ⟨hdeny, ?_⟩
  by_cases hgeo : q.geo.enabled = true
  · rw [if_neg (not_not.mpr hgeo)]
    split
    · rw [List.forall_mem_append]
      refine ⟨fun r hr => ?_, hallow none fun _ hs => absurd hs (Option.not_mem_none _)⟩
      rw [List.mem_singleton.mp hr]
      rw [geoBlockMatch, List.forall_mem_append, List.forall_mem_append, List.forall_mem_append, List.forall_mem_cons, List.forall_mem_singleton,
        List.forall_mem_singleton]
      exact ⟨⟨⟨⟨tame_saddrSet (h.geo hgeo), tame_notFromSet h.breakGlass⟩, tame_dport hport⟩, tame_counter⟩, tame_drop⟩
    · rw [List.forall_mem_append]
      refine ⟨hallow (some _) fun s hs => Option.some.inj hs ▸ h.geo hgeo, ?_⟩
      cases hglass : q.breakGlass with
      | none => exact fun _ hr => absurd hr List.not_mem_nil
      | some s =>
        rw [List.forall_mem_singleton, List.forall_mem_append, List.forall_mem_cons, List.forall_mem_singleton]
        exact ⟨⟨tame_saddrSet (h.breakGlass s hglass), tame_dport hport⟩, hw⟩
  · rw [if_pos hgeo]
    exact hallow none fun _ hs => absurd hs (Option.not_mem_none _)

theorem markerStmt_ne_counter {n : Nat} {b : Bool} : markerStmt n ∉ counterStmt b := by
  cases b <;> simp [counterStmt, markerStmt]

theorem markerStmt_not_fromSet {n : Nat} {set : Option String} : markerStmt n ∉ fromSet set ∧ markerStmt n ∉ notFromSet set := by
  cases set <;> simp [fromSet, notFromSet, markerStmt]

/-- A marker is in the rules of a port if it is in their ending. -/
theorem marker_prerouting {n : Nat} : (∃ r ∈ writePolicyPrerouting q port w, markerStmt n ∈ r) ↔ markerStmt n ∈ w := by
  have hallow : ∀ srcAllow geoSet, markerStmt n ∈ w →
      ∃ r ∈ writePolicyAllow q.proto (.tok port) srcAllow geoSet w, markerStmt n ∈ r := fun srcAllow geoSet h =>
    ⟨_, List.mem_singleton_self _, List.mem_append_right _ h⟩
  have hallow' : ∀ srcAllow geoSet, ∀ r ∈ writePolicyAllow q.proto (.tok port) srcAllow geoSet w, markerStmt n ∈ r → markerStmt n ∈ w := by
    intro srcAllow geoSet r hr hmem
    rw [List.mem_singleton.mp hr, List.mem_append, List.mem_append, List.mem_append, List.mem_singleton] at hmem
    rcases hmem with ((hmem | hmem) | hmem) | hmem
    · exact absurd hmem markerStmt_not_fromSet.1
    · exact absurd hmem markerStmt_not_fromSet.1
    · cases hmem
    · exact hmem
  unfold writePolicyPrerouting
  dsimp only
  constructor
  · rintro ⟨r, hr, hmem⟩
    rcases List.mem_append.mp hr with hr | hr
    · obtain ⟨set, -, hr⟩ := List.mem_flatMap.mp hr
      cases set with
      | none => cases hr
      | some s =>
        rw [List.mem_singleton.mp hr] at hmem
        simp [markerStmt_ne_counter] at hmem
        simp [markerStmt] at hmem
    · split at hr
      · exact hallow' _ _ r hr hmem
      · split at hr
        · rcases List.mem_append.mp hr with hr | hr
          · rw [List.mem_singleton.mp hr, geoBlockMatch] at hmem
            simp [markerStmt_ne_counter, markerStmt_not_fromSet] at hmem
            simp [markerStmt] at hmem
          · exact hallow' _ _ r hr hmem
        · rcases List.mem_append.mp hr with hr | hr
          · exact hallow' _ _ r hr hmem
          · cases hglass : q.breakGlass with
            | none =>
              rw [hglass] at hr
              cases hr
            | some s =>
              rw [hglass] at hr
              rw [List.mem_singleton.mp hr] at hmem
              rcases List.mem_append.mp hmem with hmem | hmem
              · simp [markerStmt] at hmem
              · exact hmem
  · intro h
    split
    · obtain ⟨r, hr, hmem⟩ := hallow q.srcAllow none h
      exact ⟨r, List.mem_append_right _ hr, hmem⟩
    · split
      · obtain ⟨r, hr, hmem⟩ := hallow q.srcAllow none h
        exact ⟨r, List.mem_append_right _ (List.mem_append_right _ hr), hmem⟩
      · obtain ⟨r, hr, hmem⟩ := hallow q.srcAllow (some q.geo.setName) h
        exact ⟨r, List.mem_append_right _ (List.mem_append_left _ hr), hmem⟩

end rules

/-! ## The lines of a route -/

/-- What stands in a DNAT line of an entry of `ports`. -/
structure LineOf (r : ForwardRoute) (tok : String) (l : RouteDNATLine) : Prop where
  port : l.publicDport = tok ∨ ∃ n : Nat, l.publicDport = toString n
  dest : ∀ p ∈ l.dnatTo.2, (∃ n : Nat, p = toString n) ∨ ∃ m ∈ r.portMaps, p = trimSpace m.internal

theorem expandPortToken_ne_nil {t : String} {ps : List Nat} (h : expandPortToken t = .ok ps) : ps ≠ [] := by
  unfold expandPortToken at h
  dsimp only at h
  obtain ⟨_, h⟩ := ite_errorf_ok.mp h
  split at h
  · split at h
    · obtain ⟨hbounds, h⟩ := ite_errorf_ok.mp h
      rintro rfl
      have := congrArg List.length (Except.ok.inj h)
      rw [List.length_range', List.length_nil] at this
      omega
    · cases h
  · split at h
    · cases h
    · obtain ⟨_, h⟩ := ite_errorf_ok.mp h
      rintro rfl
      cases h

theorem rangePortPairs_ne_nil {tok : String} : ∀ {maps : List PortMap} {pairs : List (Nat × Nat)},
    rangePortPairs tok maps = .ok (some pairs) → pairs ≠ []
  | [], _, h => (nomatch h)
  | m :: ms, pairs, h => by
    unfold rangePortPairs at h
    dsimp only at h
    split at h
    · exact rangePortPairs_ne_nil h
    · obtain ⟨ps, hps, h⟩ := bind_ok.mp h
      obtain ⟨qs, hqs, h⟩ := bind_ok.mp h
      obtain ⟨hlen, h⟩ := ite_errorf_ok.mp h
      obtain rfl := Option.some.inj (Except.ok.inj h)
      have hpos := List.length_pos_of_ne_nil (expandPortToken_ne_nil hps)
      have hpos' := List.length_pos_of_ne_nil (expandPortToken_ne_nil hqs)
      refine List.ne_nil_of_length_pos ?_
      rw [List.length_zip]
      omega

/-- An entry of `ports` has a line. -/
theorem lines_of_token {r : ForwardRoute} {tok : String} {lines : List RouteDNATLine} (h : buildTokenDNATLines r tok = .ok lines) :
    lines ≠ [] ∧ ∀ l ∈ lines, LineOf r tok l := by
  unfold buildTokenDNATLines at h
  obtain ⟨pairs, hpairs, h⟩ := bind_ok.mp h
  cases pairs with
  | some pairs =>
    cases h
    refine ⟨fun hnil => rangePortPairs_ne_nil hpairs (List.map_eq_nil_iff.mp hnil), fun l hl => ?_⟩
    obtain ⟨p, -, rfl⟩ := List.mem_map.mp hl
    exact ⟨.inr ⟨_, rfl⟩, fun q hq => .inl ⟨_, (Option.some.inj hq).symm⟩⟩
  | none =>
    obtain ⟨dest, hdest, h⟩ := bind_ok.mp h
    cases h
    refine ⟨List.cons_ne_nil _ _, fun l hl => ?_⟩
    rw [List.mem_singleton.mp hl]
    refine ⟨.inl rfl, fun p hp => ?_⟩
    unfold dnatDestination at hdest
    split at hdest
    · cases hdest
      cases hp
    · rename_i m hm
      obtain ⟨_, hdest⟩ := ite_errorf_ok.mp hdest
      cases hdest
      exact .inr ⟨m, List.mem_of_find?_eq_some hm, (Option.some.inj hp).symm⟩

theorem lines_of_tokens {r : ForwardRoute} : ∀ {toks : List String} {lines : List RouteDNATLine}, buildRouteDNATLines r toks = .ok lines →
    (toks ≠ [] → lines ≠ []) ∧ ∀ l ∈ lines, ∃ tok ∈ toks, LineOf r tok l
  | [], _, h => by
    cases h
    exact ⟨fun hne => absurd rfl hne, fun l hl => absurd hl List.not_mem_nil⟩
  | tok :: toks, _, h => by
    unfold buildRouteDNATLines at h
    obtain ⟨lines, hlines, h⟩ := bind_ok.mp h
    obtain ⟨rest, hrest, h⟩ := bind_ok.mp h
    cases h
    obtain ⟨hne, hall⟩ := lines_of_token hlines
    obtain ⟨-, hall'⟩ := lines_of_tokens hrest
    refine ⟨fun _ hnil => hne (List.append_eq_nil_iff.mp hnil).1, fun l hl => ?_⟩
    rcases List.mem_append.mp hl with hl | hl
    · exact ⟨tok, List.mem_cons_self, hall l hl⟩
    · obtain ⟨tok', htok', hline⟩ := hall' l hl
      exact ⟨tok', List.mem_cons_of_mem tok htok', hline⟩

/-! ## The policies of an accepted config -/

section config

variable {c : Config} {qs : List RoutePolicy} {q : RoutePolicy} {paused : List Nat}

theorem quiet_of_inert {t : String} (h : ∀ ch ∈ t.toList, breaks ch = false) : '"' ∉ t.toList := fun hmem => by
  have := h _ hmem
  revert this
  decide

theorem quiet_toString (n : Nat) : '"' ∉ (toString n).toList := fun hmem => absurd (isDigit_toString n _ hmem) (by decide)

/-- An entry of `ports` of an accepted route has no quotes. -/
theorem Checked.quiet_port (h : Checked c) {i : Nat} {r : ForwardRoute} (hr : (i, r) ∈ activeRoutes c) {tok : String}
    (htok : tok ∈ normalizedPortTokens r.ports) : '"' ∉ tok.toList := by
  obtain ⟨hget, hd⟩ := mem_activeRoutes.mp hr
  obtain ⟨ks, hks⟩ := validateForwardingRoutePortOverlaps_claims h.overlaps i r hget hd
  unfold routeClaims at hks
  obtain ⟨_, _, hks⟩ := bind_ok.mp hks
  obtain ⟨ps, hps, _⟩ := bind_ok.mp hks
  obtain ⟨raw, _, rfl⟩ := List.mem_map.mp (List.mem_filter.mp htok).1
  have hchars := portTokens_chars (trimmed_trimSpace raw) (expandRoutePublicPortNumbers_tokens (wrapf_ok.mp hps) _ htok)
  exact fun hmem => absurd (hchars _ hmem) (by decide)

/-- The words of a policy have no quotes, each of its lines is written, and it has one. -/
theorem Checked.quoteFree (h : Checked c) (hqs : EvuProxy.routePolicies c = .ok qs) (hq : q ∈ qs) :
    QuoteFree q ∧ q.dnat ≠ [] ∧ ∀ l ∈ q.dnat, ¬(l.publicDport = "" ∨ l.dnatTo = ("", none)) := by
  have hsets := policySets_filter hqs q hq
  have hset : ∀ {n : String}, InFilter c n → '"' ∉ n.toList := fun hn => quiet_of_inert (h.inFilter_embedded hn).inert
  obtain ⟨i, r, protos, dnat, hr, -, -, hdnat, heq⟩ := mem_routePolicies hqs hq
  have hchecked := h.active hr
  obtain ⟨hne, hlines⟩ := lines_of_tokens hdnat
  have hdnat' : q.dnat = dnat := by rw [heq]; rfl
  have hport : ∀ tok ∈ normalizedPortTokens r.ports, tok ≠ "" := fun tok htok => by
    simpa using (List.mem_filter.mp htok).2
  refine ⟨?_, ?_, ?_⟩
  · exact
      { srcAllow := fun s hs => hset (hsets.srcAllow s hs)
        srcDeny := fun s hs => hset (hsets.srcDeny s hs)
        globalDeny := fun s hs => hset (hsets.globalDeny s hs)
        breakGlass := fun s hs => hset (hsets.breakGlass s hs)
        geo := fun hen => hset (hsets.geo hen)
        ports := by
          rw [hdnat']
          intro l hl
          obtain ⟨tok, htok, hline⟩ := hlines l hl
          rcases hline.port with heq | ⟨n, heq⟩
          · exact heq ▸ h.quiet_port hr htok
          · exact heq ▸ quiet_toString n
        targets := by
          rw [hdnat']
          intro l hl
          obtain ⟨tok, htok, hline⟩ := hlines l hl
          refine ⟨routeLines_target hdnat l hl ▸ quiet_of_inert hchecked.target_embedded.inert, fun p hp => ?_⟩
          rcases hline.dest p hp with ⟨n, rfl⟩ | ⟨m, hm, rfl⟩
          · exact quiet_toString n
          · exact quiet_of_inert (hchecked.maps.rows m hm).internal_embedded.inert }
  · rw [hdnat']
    exact hne hchecked.ports
  · rw [hdnat']
    intro l hl
    obtain ⟨tok, htok, hline⟩ := hlines l hl
    rintro (hempty | hempty)
    · rcases hline.port with heq | ⟨n, heq⟩
      · exact hport tok htok (heq ▸ hempty)
      · have hnil : (toString n).toList = [] := by rw [← heq, hempty]; rfl
        rw [toList_toString] at hnil
        exact Nat.toDigits_ne_nil hnil
    · exact @dnat_target_ne _ _ _ _ q.proto hchecked hdnat l hl (congrArg Prod.fst hempty)

/-- The statements of the update are tame. -/
theorem Checked.tame (h : Checked c) (hqs : EvuProxy.routePolicies c = .ok qs) (paused : List Nat) : ∀ r ∈ writeNATPreroutingRules qs paused, ∀ st ∈ r, Tame st := by
  intro r hr
  obtain ⟨q, hq, hr⟩ := List.mem_flatMap.mp hr
  obtain ⟨hfree, -, -⟩ := h.quoteFree hqs hq
  split at hr
  · obtain ⟨l, hl, hr⟩ := List.mem_flatMap.mp hr
    split at hr
    · cases hr
    · refine hfree.tame (hfree.ports l hl) ?_ r hr
      rw [List.forall_mem_append]
      refine ⟨tame_counter, ?_⟩
      rw [List.forall_mem_cons, List.forall_mem_singleton]
      exact ⟨tame_drop, .inr ⟨_, rfl⟩⟩
  · obtain ⟨l, hl, hr⟩ := List.mem_flatMap.mp hr
    unfold writePolicyDnatLine at hr
    split at hr
    · cases hr
    · refine hfree.tame (hfree.ports l hl) ?_ r hr
      rw [List.forall_mem_singleton]
      exact tame_dnat (hfree.targets l hl).1 (hfree.targets l hl).2

/-- The routes whose markers are in the update are those of its policies that are paused. -/
theorem Checked.marker_mem (h : Checked c) (hqs : EvuProxy.routePolicies c = .ok qs) {n : Nat} :
    (∃ r ∈ writeNATPreroutingRules qs paused, markerStmt n ∈ r) ↔ n ∈ paused ∧ ∃ q ∈ qs, q.routeIndex = n := by
  constructor
  · rintro ⟨r, hr, hmem⟩
    obtain ⟨q, hq, hr⟩ := List.mem_flatMap.mp hr
    split at hr
    · rename_i hpaused
      obtain ⟨l, -, hr⟩ := List.mem_flatMap.mp hr
      split at hr
      · cases hr
      · have := marker_prerouting.mp ⟨r, hr, hmem⟩
        rcases List.mem_append.mp this with hmem | hmem
        · exact absurd hmem markerStmt_ne_counter
        · rcases List.mem_cons.mp hmem with hmem | hmem
          · cases hmem
          · obtain rfl := markerStmt_inj (List.mem_singleton.mp hmem)
            exact ⟨hpaused, q, hq, rfl⟩
    · obtain ⟨l, -, hr⟩ := List.mem_flatMap.mp hr
      unfold writePolicyDnatLine at hr
      split at hr
      · cases hr
      · have := marker_prerouting.mp ⟨r, hr, hmem⟩
        cases List.mem_singleton.mp this
  · rintro ⟨hpaused, q, hq, rfl⟩
    obtain ⟨-, hne, hwritten⟩ := h.quoteFree hqs hq
    obtain ⟨l, hl⟩ := List.exists_mem_of_ne_nil _ hne
    obtain ⟨r, hr, hmem⟩ := (@marker_prerouting q l.publicDport
      (counterStmt q.counter ++ [.drop, .comment (pausedRouteComment ++ toString q.routeIndex)]) q.routeIndex).mpr
        (List.mem_append_right _ (List.mem_cons_of_mem _ (List.mem_singleton_self _)))
    refine ⟨r, List.mem_flatMap.mpr ⟨q, hq, ?_⟩, hmem⟩
    rw [if_pos hpaused]
    refine List.mem_flatMap.mpr ⟨l, hl, ?_⟩
    rw [if_neg (hwritten l hl)]
    exact hr

/-- The indexes of the active routes are in order. -/
theorem activeRoutes_sorted (c : Config) : ((activeRoutes c).map (·.1)).Pairwise (· < ·) := by
  have hsorted : (c.forwarding.routes.zipIdx.map (·.2)).Pairwise (· < ·) := by
    rw [List.zipIdx_map_snd]
    exact List.pairwise_lt_range'
  rw [activeRoutes, List.map_map]
  exact hsorted.sublist (List.filter_sublist.map _)

/-- A route that is on is the route of a policy, unless the config is in maintenance mode. -/
theorem policy_index (hqs : EvuProxy.routePolicies c = .ok qs) {n : Nat} :
    (∃ q ∈ qs, q.routeIndex = n) ↔ c.forwarding.maintenanceMode = false ∧ n ∈ (activeRoutes c).map (·.1) := by
  constructor
  · rintro ⟨q, hq, rfl⟩
    obtain ⟨i, r, protos, dnat, hr, -, -, -, heq⟩ := mem_routePolicies hqs hq
    refine ⟨?_, ?_⟩
    · by_contra hm
      unfold EvuProxy.routePolicies at hqs
      rw [if_pos (Bool.not_eq_false _ ▸ hm)] at hqs
      cases hqs
      cases hq
    · rw [heq]
      exact List.mem_map.mpr ⟨(i, r), hr, rfl⟩
  · rintro ⟨hon, hn⟩
    obtain ⟨⟨i, r⟩, hr, rfl⟩ := List.mem_map.mp hn
    obtain ⟨protos, dnat, hprotos, -, hmem⟩ := policyOf_mem_routePolicies hqs hon hr
    obtain ⟨p, hp⟩ := List.exists_mem_of_ne_nil _ (parseRouteProtocols_ok hprotos).1
    exact ⟨_, hmem p hp, rfl⟩

/-- The scan of the update finds the active routes that are paused, in order. -/
theorem pausedRoutesIn_update (hchecked : Checked c) (hlen : c.forwarding.routes.length ≤ 2 ^ 63)
    (hqs : EvuProxy.routePolicies c = .ok qs) : pausedRoutesIn (scriptText (preroutingScript qs paused)) =
      if c.forwarding.maintenanceMode then [] else ((activeRoutes c).map (·.1)).filter (· ∈ paused) := by
  obtain ⟨ns, hns, hmem⟩ := marks_preroutingScript (hchecked.tame hqs paused)
  have hmarked : ∀ n, n ∈ ns ↔ n ∈ paused ∧ c.forwarding.maintenanceMode = false ∧ n ∈ (activeRoutes c).map (·.1) := fun n =>
    (hmem n).trans ((hchecked.marker_mem hqs).trans (and_congr_right' (policy_index hqs)))
  have hbound : ∀ n ∈ ns, n < 2 ^ 63 := by
    intro n hn
    obtain ⟨⟨i, r⟩, hr, rfl⟩ := List.mem_map.mp ((hmarked n).mp hn).2.2
    have hget := (List.getElem?_eq_some_iff.mp (mem_activeRoutes.mp hr).1).1
    exact Nat.lt_of_lt_of_le hget hlen
  have hle : (ns.dedup.insertionSort (· ≤ ·)).Pairwise (· ≤ ·) := List.pairwise_insertionSort _ _
  have hsorted : (ns.dedup.insertionSort (· ≤ ·)).Pairwise (· < ·) := by
    have hnodup : (ns.dedup.insertionSort (· ≤ ·)).Nodup := (List.perm_insertionSort _ _).nodup_iff.mpr (List.nodup_dedup ns)
    exact (hle.and hnodup).imp fun hxy => Nat.lt_of_le_of_ne hxy.1 hxy.2
  rw [pausedRoutesIn, hns.found hbound]
  refine List.Perm.eq_of_pairwise (fun a b _ _ hab hba => absurd (Nat.lt_trans hab hba) (Nat.lt_irrefl a)) hsorted ?_ ?_
  · split
    · exact List.Pairwise.nil
    · exact (activeRoutes_sorted c).sublist List.filter_sublist
  · refine (List.perm_ext_iff_of_nodup (hsorted.imp Nat.ne_of_lt) ?_).mpr fun n => ?_
    · split
      · exact List.nodup_nil
      · exact ((activeRoutes_sorted c).imp Nat.ne_of_lt).sublist List.filter_sublist
    · rw [List.mem_insertionSort, List.mem_dedup, hmarked]
      cases c.forwarding.maintenanceMode with
      | true => simp
      | false =>
        rw [if_neg Bool.false_ne_true, List.mem_filter, decide_eq_true_iff]
        exact ⟨fun h => ⟨h.2.2, h.1⟩, fun h => ⟨h.2, rfl, h.1⟩⟩

theorem append_sandwich (x pre s post y : String) : x ++ (pre ++ s ++ post) ++ y = x ++ pre ++ s ++ (post ++ y) := by
  simp only [String.append_assoc]

/-- What a text is joined from is in it. -/
theorem join_has (sep : String) {s : String} : ∀ {ss : List String}, s ∈ ss → ∃ pre post, join ss sep = pre ++ s ++ post
  | [], h => absurd h List.not_mem_nil
  | [t], h => by
    rw [List.mem_singleton.mp h]
    exact ⟨"", "", by rw [String.empty_append, String.append_empty]; rfl⟩
  | t :: u :: ss, h => by
    rcases List.mem_cons.mp h with rfl | h
    · exact ⟨"", sep ++ join (u :: ss) sep, by rw [join, String.empty_append, String.append_assoc]⟩
    · obtain ⟨pre, post, heq⟩ := join_has sep h
      refine ⟨t ++ sep ++ pre, post, ?_⟩
      rw [join, heq]
      simp only [String.append_assoc]

theorem table_text_has {t : Table} {ch : Chain} (hch : ch ∈ t.chains) : ∃ pre post, t.text = pre ++ ch.text ++ post := by
  obtain ⟨pre, post, hchains⟩ := join_has "\n" (List.mem_map_of_mem (f := Chain.text) hch)
  rw [Table.text, hchains]
  exact ⟨_, _, append_sandwich _ _ _ _ _⟩

/-- A file has the text of a chain of one of its tables. -/
theorem scriptText_has {script : Script} {t : Table} {ch : Chain} (ht : .table t ∈ script) (hch : ch ∈ t.chains) :
    ∃ pre post, scriptText script = pre ++ ch.text ++ post := by
  obtain ⟨pre, post, hscript⟩ := join_has "" (List.mem_map_of_mem (f := Command.text) ht)
  obtain ⟨pre', post', htable⟩ := table_text_has hch
  rw [scriptText, hscript, show (Command.table t).text = t.text from rfl, htable]
  exact ⟨_, _, append_sandwich _ _ _ _ _⟩

end config

/-! ## Pausing -/

/-- The pause update closes exactly the routes that are paused, and says so. -/
structure PausesExactly (c : Config) : Prop where
  /-- The same route decides on a packet as in the full chain, and drops it if it is paused. -/
  packets : ∀ qs paused h k, routePolicies c = .ok qs → verdict h k (preroutingChain qs []).rules = (decidingRoute h k qs).map Prod.snd ∧
    verdict h k (preroutingChain qs paused).rules = (decidingRoute h k qs).map fun d => if d.1 ∈ paused then .drop else d.2
  /-- With no route paused the chain is that of the full ruleset. -/
  resumed : ∀ ord text update, nftables c ord = .ok text → natPreroutingUpdate c [] = .ok update →
    ∃ chain pre post pre' post' : String, text = pre ++ chain ++ post ∧ update = pre' ++ chain ++ post' ∧
      ∃ qs, routePolicies c = .ok qs ∧ chain = (preroutingChain qs []).text
  /-- The scan of the update finds the routes that are paused in it. -/
  readBack : ∀ paused update, natPreroutingUpdate c paused = .ok update →
    pausedRoutesIn update = if c.forwarding.maintenanceMode then [] else ((activeRoutes c).map (·.1)).filter (· ∈ paused)

theorem pausesExactly {c : Config} (hv : c.validate = .ok ()) (hlen : c.forwarding.routes.length ≤ 2 ^ 63) : PausesExactly c where
  packets qs paused h k _ := ⟨verdict_full qs, verdict_paused qs paused⟩
  resumed ord text update htext hupdate := by
    obtain ⟨qs, hqs⟩ := (Config.checked hv).routePolicies
    rw [natPreroutingUpdate, hqs] at hupdate
    obtain rfl := Except.ok.inj hupdate
    rw [nftables, (Config.checked hv).rulesetScript, hqs] at htext
    obtain ⟨allows, -, htext⟩ : ∃ allows, inputAllowRules c c.inputAllows = .ok allows ∧ text = scriptText (rulesetOf c ord [] qs allows) := by
      cases hallows : inputAllowRules c c.inputAllows with
      | error e =>
        rw [hallows] at htext
        cases htext
      | ok allows =>
        rw [hallows] at htext
        exact ⟨allows, rfl, (Except.ok.inj htext).symm⟩
    have hfull : .table (natTable c (tableSets c ord false) qs []) ∈ rulesetOf c ord [] qs allows := by
      simp [rulesetOf]
    obtain ⟨pre, post, hpre⟩ := scriptText_has hfull List.mem_cons_self
    have hscript : Command.table { family := "ip", name := "evuproxy", chains := [preroutingChain qs []] } ∈ preroutingScript qs [] := by
      simp [preroutingScript]
    obtain ⟨pre', post', hpre'⟩ := scriptText_has hscript List.mem_cons_self
    exact ⟨_, pre, post, pre', post', htext.trans hpre, hpre', qs, hqs, rfl⟩
  readBack paused update hupdate := by
    obtain ⟨qs, hqs⟩ := (Config.checked hv).routePolicies
    rw [natPreroutingUpdate, hqs] at hupdate
    obtain rfl := Except.ok.inj hupdate
    exact pausedRoutesIn_update (Config.checked hv) hlen hqs

theorem pausesExactly_sample : PausesExactly (mapConfig ["80-81", "443"] [⟨"80-81", "8080-8081"⟩]) :=
  pausesExactly (by decide +kernel) (by decide)

end EvuProxy
