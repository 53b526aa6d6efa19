import Mathlib.Data.List.Find
import EvuProxy.Config.PortMeaning
import EvuProxy.Gen.Rendered

/-!
# Where the lines of a route lead

The lines that `buildRouteDNATLines` writes, as a packet meets them: the first entry of `ports` that has its port decides where it goes.
-/

namespace EvuProxy

open Go Nft

/-! ## Port maps -/

/-- The first port of a token. -/
def firstPort (t : String) : Nat :=
  match expandPortToken t with
  | .ok (p :: _) => p
  | _ => 0

/-- Whether a map leads to a range of ports. -/
def PortMap.isRange (m : PortMap) : Bool := containsChar (trimSpace m.internal) '-'

/-- A route whose port texts, on both sides of its maps, nft reads as the config does. The single port that a map leads to is passed on
as it is, and need only be a numeral. -/
structure RouteAlike (r : ForwardRoute) : Prop where
  ports : ∀ tok ∈ portTokens r.ports, ReadAlike tok
  ranges : ∀ m ∈ r.portMaps, m.isRange = true → ReadAlike (trimSpace m.internal)
  numerals : ∀ m ∈ r.portMaps, m.isRange = false → (readNumeral (trimSpace m.internal)).isSome = true

/-- The internal port that a map names for a public one. -/
def PortMap.names (m : PortMap) (p : Nat) : Nat :=
  if m.isRange then firstPort (trimSpace m.internal) + (p - firstPort (trimSpace m.pub)) else firstPort (trimSpace m.internal)

/-- A map covers a port. -/
def PortMap.Covers (m : PortMap) (p : Nat) : Prop := InTokens p (portTokens [trimSpace m.pub])

/-- Where an entry of `ports` leads a port of its own: to where its map does, the one internal port of which is read by nft. -/
def leadsTo (maps : List PortMap) (tok : String) (p : Nat) : Option Nat :=
  match maps.find? fun m => trimSpace m.pub = tok with
  | none => some p
  | some m => if m.isRange then some (m.names p) else readNumeral (trimSpace m.internal)

/-- Where a line leads a port. -/
def RouteDNATLine.destination (l : RouteDNATLine) (p : Nat) : Option (String × Nat) := (Verdict.dnat l.dnatTo.1 l.dnatTo.2).destination p

/-- Whether a line has a port. -/
def RouteDNATLine.has (p : Nat) (l : RouteDNATLine) : Bool := (Ports.tok l.publicDport).has p

theorem leadsTo_unmapped {maps : List PortMap} {tok : String} {p : Nat} (h : maps.find? (fun m => trimSpace m.pub = tok) = none) :
    leadsTo maps tok p = some p := by
  rw [leadsTo, h]

theorem leadsTo_mapped {maps : List PortMap} {tok : String} {p : Nat} {m : PortMap}
    (h : maps.find? (fun m => trimSpace m.pub = tok) = some m) :
    leadsTo maps tok p = if m.isRange then some (m.names p) else readNumeral (trimSpace m.internal) := by
  rw [leadsTo, h]

/-! ## Ranges -/

/-- The ports of a token are a run of numbers. -/
theorem expandPortToken_run {t : String} {ps : List Nat} (h : expandPortToken t = .ok ps) :
    ps = List.range' (firstPort t) ps.length ∧ ∀ p, p ∈ ps ↔ firstPort t ≤ p ∧ p < firstPort t + ps.length := by
  have hrun : ps = List.range' (firstPort t) ps.length := by
    have hfirst : ∀ {a w}, ps = List.range' a w → 0 < w → ps = List.range' (firstPort t) ps.length := by
      intro a w hps hw
      obtain ⟨w, rfl⟩ := Nat.exists_eq_succ_of_ne_zero (Nat.ne_of_gt hw)
      have ha : firstPort t = a := by rw [firstPort, h, hps, List.range'_succ]
      rw [ha, hps, List.length_range']
    unfold expandPortToken at h
    dsimp only at h
    obtain ⟨_, h⟩ := ite_errorf_ok.mp h
    split at h
    · split at h
      · obtain ⟨hbounds, h⟩ := ite_errorf_ok.mp h
        exact hfirst (Except.ok.inj h).symm (by omega)
      · cases h
    · split at h
      · cases h
      · obtain ⟨_, h⟩ := ite_errorf_ok.mp h
        exact hfirst (w := 1) (Except.ok.inj h).symm (by omega)
  refine ⟨hrun, fun p => ?_⟩
  rw [hrun, List.mem_range'_1, List.length_range']

theorem find_zip (p : Nat) : ∀ w a b : Nat, ((List.range' a w).zip (List.range' b w)).find? (fun q => q.1 = p) =
    if a ≤ p ∧ p < a + w then some (p, b + (p - a)) else none
  | 0, a, b => by
    rw [if_neg (by omega)]
    rfl
  | w + 1, a, b => by
    rw [List.range'_succ, List.range'_succ, List.zip_cons_cons]
    by_cases ha : a = p
    · rw [List.find?_cons_of_pos (by simpa using ha), if_pos (by omega), ha, Nat.sub_self, Nat.add_zero]
    · rw [List.find?_cons_of_neg (by simpa using ha), find_zip p w (a + 1) (b + 1)]
      by_cases hin : a ≤ p ∧ p < a + (w + 1)
      · rw [if_pos hin, if_pos (by omega)]
        congr 2
        omega
      · rw [if_neg hin, if_neg (by omega)]

/-! ## Pairs -/

theorem PortMapChecked.internal_noBrace {m : PortMap} (h : PortMapChecked m) : containsChar (trimSpace m.internal) '{' = false := by
  have hplain : validatePlainDportToken (trimSpace m.internal) = .ok () → ¬containsChar (trimSpace m.internal) '{' = true := by
    intro hp hbrace
    unfold validatePlainDportToken at hp
    dsimp only at hp
    obtain ⟨_, hp⟩ := ite_errorf_ok.mp hp
    refine (ite_errorf_ok.mp hp).1 (.inl ?_)
    rw [trimSpace_trimSpace]
    exact List.any_eq_true.mpr ⟨'{', by simpa [containsChar] using hbrace, by decide⟩
  have hp := h.pair
  unfold validatePortMapPair at hp
  obtain ⟨_, hp⟩ := ite_errorf_ok.mp hp
  refine Bool.eq_false_iff.mpr fun hbrace => ?_
  by_cases hpub : containsChar (trimSpace m.pub) '-' ∧ ¬containsChar (trimSpace m.pub) '{'
  · rw [if_pos hpub] at hp
    exact (ite_errorf_ok.mp hp).1 (.inr hbrace)
  · rw [if_neg hpub] at hp
    obtain ⟨_, hp⟩ := ite_errorf_ok.mp hp
    by_cases hopen : hasPrefix (trimSpace (trimSpace m.pub)) "\x7b" = true
    · rw [if_pos hopen] at hp
      obtain ⟨_, _, hp⟩ := bind_ok.mp hp
      exact hplain (ite_errorf_ok.mp hp).2 hbrace
    · rw [if_neg hopen] at hp
      obtain ⟨_, _, hp⟩ := bind_ok.mp hp
      exact hplain (ite_errorf_ok.mp hp).2 hbrace

theorem rangePortPairs_none {tok : String} : ∀ {maps : List PortMap},
    (∀ m ∈ maps, trimSpace m.pub = trimSpace tok → m.isRange = false) → rangePortPairs tok maps = .ok none
  | [], _ => rfl
  | m :: ms, h => by
    unfold rangePortPairs
    dsimp only
    rw [if_pos]
    · exact rangePortPairs_none fun m' hm' => h m' (List.mem_cons_of_mem _ hm')
    · by_cases hpub : trimSpace m.pub = trimSpace tok
      · exact .inr (.inl (by rw [show containsChar (trimSpace m.internal) '-' = false from h m List.mem_cons_self hpub]; exact Bool.false_ne_true))
      · exact .inl hpub

theorem rangePortPairs_some {tok : String} {m : PortMap} (hrange : m.isRange = true) : ∀ {maps : List PortMap},
    (∀ m ∈ maps, PortMapChecked m) → maps.find? (fun m => trimSpace m.pub = trimSpace tok) = some m →
      ∃ ps qs, expandPortToken (trimSpace tok) = .ok ps ∧ expandPortToken (trimSpace m.internal) = .ok qs ∧ ps.length = qs.length ∧
        rangePortPairs tok maps = .ok (some (ps.zip qs))
  | [], _, hfind => (nomatch hfind)
  | m' :: ms, hrows, hfind => by
    unfold rangePortPairs
    dsimp only
    by_cases hpub : trimSpace m'.pub = trimSpace tok
    · rw [List.find?_cons_of_pos (by simpa using hpub)] at hfind
      obtain rfl := Option.some.inj hfind
      have hrow := hrows m' List.mem_cons_self
      have hno := hrow.internal_noBrace
      obtain ⟨ps, qs, hps, hqs, hlen⟩ := hrow.range hrange (by rw [hno]; exact Bool.false_ne_true)
      rw [hpub] at hps
      refine ⟨ps, qs, hps, hqs, hlen, ?_⟩
      rw [if_neg, hps, hqs]
      · exact if_neg (not_not.mpr hlen)
      · simp only [not_or, not_not]
        exact ⟨hpub, hrange, by rw [hno]; exact Bool.false_ne_true⟩
    · rw [List.find?_cons_of_neg (by simpa using hpub)] at hfind
      obtain ⟨ps, qs, hps, hqs, hlen, hpairs⟩ := rangePortPairs_some hrange (fun m hm => hrows m (List.mem_cons_of_mem _ hm)) hfind
      exact ⟨ps, qs, hps, hqs, hlen, by rw [if_pos (.inl hpub), hpairs]⟩

/-! ## The lines of a token -/

/-- The line of a pair of ports. -/
def pairLine (target : String) (q : Nat × Nat) : RouteDNATLine := { publicDport := toString q.1, dnatTo := (target, some (toString q.2)) }

theorem pairLine_has {target : String} {q : Nat × Nat} {p : Nat} (hlo : 1 ≤ q.1) (hhi : q.1 ≤ 65535) :
    RouteDNATLine.has p (pairLine target q) = true ↔ q.1 = p := by
  rw [RouteDNATLine.has, pairLine, has_toString hlo hhi, eq_comm]

theorem pairLine_destination {target : String} {a b p : Nat} (h : 0 < b) : (pairLine target (a, b)).destination p = some (target, b) := by
  rw [RouteDNATLine.destination, pairLine, Verdict.destination, readNumeral_toString h, Option.map_some]

section lines

variable {r : ForwardRoute} {tok : String} {ls : List RouteDNATLine} {p : Nat}

/-- The line of a range that has a port is the one for it. -/
theorem find_pairs {m : PortMap} {ps qs : List Nat} (hpub : trimSpace m.pub = tok) (hrange : m.isRange = true)
    (hps : expandPortToken tok = .ok ps) (hqs : expandPortToken (trimSpace m.internal) = .ok qs) (hlen : ps.length = qs.length)
    (target : String) : ((ps.zip qs).map (pairLine target)).find? (RouteDNATLine.has p) =
      if p ∈ ps then some (pairLine target (p, m.names p)) else none := by
  obtain ⟨hps', hmem⟩ := expandPortToken_run hps
  obtain ⟨hqs', -⟩ := expandPortToken_run hqs
  have hfind : (ps.zip qs).find? (RouteDNATLine.has p ∘ pairLine target) = (ps.zip qs).find? fun q => q.1 = p := by
    refine List.find?_congr fun q hq => Bool.eq_iff_iff.mpr ?_
    obtain ⟨hlo, hhi⟩ := expandPortToken_range hps q.1 (List.of_mem_zip hq).1
    rw [Function.comp_apply, pairLine_has hlo hhi, decide_eq_true_iff]
  have hzip := find_zip p ps.length (firstPort tok) (firstPort (trimSpace m.internal))
  rw [← hps', hlen, ← hqs', ← hlen] at hzip
  rw [List.find?_map, hfind, hzip, PortMap.names, if_pos hrange, hpub]
  by_cases hp : p ∈ ps
  · rw [if_pos hp, if_pos ((hmem p).mp hp), Option.map_some]
  · rw [if_neg hp, if_neg fun hin => hp ((hmem p).mpr hin), Option.map_none]

theorem inTokens_singleton {ps : List Nat} (ht : Trimmed tok) (h : expandPortToken tok = .ok ps) :
    InTokens p (portTokens [tok]) ↔ p ∈ ps := by
  rw [portTokens_of_token ht h]
  simp only [InTokens, List.mem_singleton, exists_eq_left, h, Except.ok.injEq, exists_eq_left']

/-- A line of a whole entry has its ports. -/
theorem find_line (dest : String × Option String) :
    [({ publicDport := tok, dnatTo := dest } : RouteDNATLine)].find? (RouteDNATLine.has p) =
      if (Ports.tok tok).has p then some { publicDport := tok, dnatTo := dest } else none := by
  rw [List.find?_singleton]
  rfl

theorem line_destination {host : String} {port : Option String} :
    RouteDNATLine.destination { publicDport := tok, dnatTo := (host, port) } p = (Verdict.dnat host port).destination p := rfl

/-- The first line of an entry that has a port leads it where the entry does. -/
theorem tokenLines_find (hmaps : PortMapsChecked r.ports r.portMaps) (ht : Trimmed tok) (hread : PlainlyRead (portTokens [tok]))
    (h : buildTokenDNATLines r tok = .ok ls) :
    (ls.find? (RouteDNATLine.has p)).map (RouteDNATLine.destination · p) =
      if (Ports.tok tok).has p then some ((leadsTo r.portMaps tok p).map fun q => (trimSpace r.targetIP, q)) else none := by
  unfold buildTokenDNATLines at h
  obtain ⟨pairs, hpairs, h⟩ := bind_ok.mp h
  have htrim : trimSpace tok = tok := ht
  cases hfind : r.portMaps.find? fun m => trimSpace m.pub = tok with
  | none =>
    have hnone := @rangePortPairs_none tok r.portMaps fun m hm hpub => by
      have := List.find?_eq_none.mp hfind m hm
      rw [decide_eq_true_iff, ← htrim] at this
      exact absurd hpub this
    obtain rfl := Except.ok.inj (hpairs.symm.trans hnone)
    obtain ⟨dest, hdest, h⟩ := bind_ok.mp h
    unfold dnatDestination at hdest
    rw [htrim, hfind] at hdest
    cases hdest
    cases h
    rw [find_line, leadsTo_unmapped hfind]
    split
    · rw [Option.map_some, Option.map_some, line_destination, Verdict.destination]
    · rw [Option.map_none]
  | some m =>
    have hm := List.mem_of_find?_eq_some hfind
    have hpub : trimSpace m.pub = tok := by simpa using List.find?_some hfind
    rw [leadsTo_mapped hfind]
    by_cases hrange : m.isRange = true
    · obtain ⟨ps, qs, hps, hqs, hlen, hsome⟩ := @rangePortPairs_some tok m hrange r.portMaps hmaps.rows (by rw [htrim, hfind])
      obtain rfl := Except.ok.inj (hpairs.symm.trans hsome)
      obtain rfl : (ps.zip qs).map (pairLine (trimSpace r.targetIP)) = ls := Except.ok.inj h
      rw [htrim] at hps
      have hhas : (Ports.tok tok).has p = true ↔ p ∈ ps := (has_tok hread p).trans (inTokens_singleton ht hps)
      rw [find_pairs hpub hrange hps hqs hlen, if_pos hrange]
      by_cases hp : p ∈ ps
      · have hpos : 0 < m.names p := by
          have hfirst := ((expandPortToken_run hqs).2 (firstPort (trimSpace m.internal))).mpr
            ⟨Nat.le_refl _, by have := List.length_pos_of_mem hp; omega⟩
          have hlo := (expandPortToken_range hqs _ hfirst).1
          rw [PortMap.names, if_pos hrange]
          omega
        rw [if_pos hp, if_pos (hhas.mpr hp), Option.map_some, Option.map_some, pairLine_destination hpos]
      · rw [if_neg hp, if_neg fun hin => hp (hhas.mp hin), Option.map_none]
    · have hnone := @rangePortPairs_none tok r.portMaps fun m' hm' hpub' => by
        have heq : m' = m := List.inj_on_of_nodup_map hmaps.nodup hm' hm (by rw [hpub', htrim, hpub])
        rw [heq]
        exact Bool.eq_false_iff.mpr hrange
      obtain rfl := Except.ok.inj (hpairs.symm.trans hnone)
      obtain ⟨dest, hdest, h⟩ := bind_ok.mp h
      unfold dnatDestination at hdest
      rw [htrim, hfind] at hdest
      obtain ⟨_, hdest⟩ := ite_errorf_ok.mp hdest
      cases hdest
      cases h
      rw [find_line, if_neg hrange]
      split
      · rw [Option.map_some, line_destination, Verdict.destination]
      · rw [Option.map_none]

end lines

/-! ## The lines of a route -/

/-- The first entry of a list that has a port leads it where its lines do. -/
theorem routeLines_find {r : ForwardRoute} (hmaps : PortMapsChecked r.ports r.portMaps) (p : Nat) :
    ∀ {toks : List String} {ls : List RouteDNATLine}, (∀ tok ∈ toks, Trimmed tok ∧ PlainlyRead (portTokens [tok])) →
      buildRouteDNATLines r toks = .ok ls →
        (ls.find? (RouteDNATLine.has p)).map (RouteDNATLine.destination · p) =
          (toks.find? fun tok => (Ports.tok tok).has p).map fun tok => (leadsTo r.portMaps tok p).map fun q => (trimSpace r.targetIP, q)
  | [], _, _, h => by
    cases h
    rfl
  | tok :: toks, _, hread, h => by
    unfold buildRouteDNATLines at h
    obtain ⟨lines, hlines, h⟩ := bind_ok.mp h
    obtain ⟨rest, hrest, h⟩ := bind_ok.mp h
    obtain rfl := Except.ok.inj h
    obtain ⟨ht, hplain⟩ := hread tok List.mem_cons_self
    have htok := @tokenLines_find r tok lines p hmaps ht hplain hlines
    have ih := routeLines_find hmaps p (fun t ht => hread t (List.mem_cons_of_mem _ ht)) hrest
    rw [List.find?_append, Option.map_or, htok, ih, List.find?_cons]
    cases (Ports.tok tok).has p with
    | true => rw [if_pos rfl, Option.some_or, Option.map_some]
    | false => rw [if_neg Bool.false_ne_true, Option.none_or]

/-- All lines of a route lead to its target. -/
theorem routeLines_target {r : ForwardRoute} : ∀ {toks : List String} {ls : List RouteDNATLine},
    buildRouteDNATLines r toks = .ok ls → ∀ l ∈ ls, l.dnatTo.1 = trimSpace r.targetIP
  | [], _, h, _, hl => by
    cases h
    cases hl
  | tok :: toks, _, h, l, hl => by
    unfold buildRouteDNATLines at h
    obtain ⟨lines, hlines, h⟩ := bind_ok.mp h
    obtain ⟨rest, hrest, h⟩ := bind_ok.mp h
    obtain rfl := Except.ok.inj h
    rcases List.mem_append.mp hl with hl | hl
    · unfold buildTokenDNATLines at hlines
      obtain ⟨pairs, -, hlines⟩ := bind_ok.mp hlines
      cases pairs with
      | some pairs =>
        cases hlines
        obtain ⟨q, -, rfl⟩ := List.mem_map.mp hl
        rfl
      | none =>
        obtain ⟨dest, hdest, hlines⟩ := bind_ok.mp hlines
        cases hlines
        rw [List.mem_singleton.mp hl]
        unfold dnatDestination at hdest
        split at hdest
        · cases hdest
          rfl
        · obtain ⟨_, hdest⟩ := ite_errorf_ok.mp hdest
          cases hdest
          rfl
    · exact routeLines_target hrest l hl

end EvuProxy
