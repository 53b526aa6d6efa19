import EvuProxy.AutoPause.Loop
import EvuProxy.Config.Braces

/-!
# Route keys

What the key of a paused route says about the route: its protocols and the ports that its entries name.
-/

namespace EvuProxy

open Go
open Nft (Proto)

theorem isSpace_toLowerChar (c : Char) : isSpace (toLowerChar c) = isSpace c := by
  unfold toLowerChar
  split
  · rename_i h
    simp only [char_le] at h
    have hlo : 65 ≤ c.toNat := h.1
    have hhi : c.toNat ≤ 90 := h.2
    have hvalid : (c.toNat + 32).isValidChar := .inl (by omega)
    have hlow : (Char.ofNat (c.toNat + 32)).toNat = c.toNat + 32 := by
      rw [Char.ofNat, dif_pos hvalid]
      rfl
    rw [isSpace_ascii (by omega) (by omega), isSpace_ascii (by omega) (by omega)]
  · split
    · rename_i h
      simp [isSpace, h]
    · split
      · rename_i h
        simp [isSpace, h]
      · rfl

theorem trimSpace_toLower (s : String) : trimSpace (toLower s) = toLower (trimSpace s) := by
  have hspace : isSpace ∘ toLowerChar = isSpace := funext isSpace_toLowerChar
  unfold trimSpace toLower trimList
  simp only [String.toList_ofList]
  rw [List.dropWhile_map, hspace, ← List.map_reverse, List.dropWhile_map, hspace, ← List.map_reverse]

/-! ## The tokens in a text of entries -/

/-- The tokens of a text in which the entries of `ports` are joined with commas: its pieces, without braces and white space. -/
def bareTokens (cs : List Char) : List (List Char) :=
  ((splitList (· == ',') (cs.filter fun c => c ≠ '{' ∧ c ≠ '}')).map trimList).filter (· ≠ [])

theorem bareTokens_comma (xs ys : List Char) : bareTokens (xs ++ ',' :: ys) = bareTokens xs ++ bareTokens ys := by
  unfold bareTokens
  rw [List.filter_append, List.filter_cons_of_pos (by decide), splitList_append (by decide), List.map_append, List.filter_append]

theorem bareTokens_join : ∀ ss : List String, bareTokens (join ss ",").toList = ss.flatMap fun s => bareTokens s.toList
  | [] => by decide
  | [s] => by simp [join]
  | s :: t :: ss => by
    have hcomma : ",".toList = [','] := by decide
    rw [join, String.toList_append, String.toList_append, hcomma, List.append_assoc, List.singleton_append, bareTokens_comma,
      bareTokens_join (t :: ss)]
    rfl

theorem filter_braces {cs : List Char} (h : ∀ c ∈ cs, c ≠ '{' ∧ c ≠ '}') : (cs.filter fun c => c ≠ '{' ∧ c ≠ '}') = cs :=
  List.filter_eq_self.mpr fun c hc => decide_eq_true (h c hc)

theorem bareTokens_trim (cs : List Char) : bareTokens (trimList cs) = bareTokens cs := by
  obtain ⟨ws, vs, hws, hvs, hcs⟩ := trimList_between cs
  have hspace : ∀ {cs : List Char}, (∀ c ∈ cs, isSpace c = true) → (cs.filter fun c => c ≠ '{' ∧ c ≠ '}') = cs := fun h =>
    filter_braces fun c hc => (not_comma_or_brace (.inl (h c hc))).2
  unfold bareTokens
  conv_rhs => rw [hcs]
  rw [List.filter_append, List.filter_append, hspace hws, hspace hvs,
    trimmed_pieces_between (fun c hc => (not_comma_or_brace (.inl hc)).1) hws hvs]

theorem bareTokens_braces {inner : List Char} (h : ∀ c ∈ inner, c ≠ '{' ∧ c ≠ '}') :
    bareTokens ('{' :: inner ++ ['}']) = ((splitList (· == ',') inner).map trimList).filter (· ≠ []) := by
  unfold bareTokens
  rw [List.cons_append, List.filter_cons_of_neg (by decide), List.filter_append, filter_braces h, List.filter_cons_of_neg (by decide),
    List.filter_nil, List.append_nil]

/-- The tokens of an entry that `ExpandRoutePortNumbers` reads are those of its text. -/
theorem portTokens_bare {t : String} (h : ∀ tok ∈ portTokens [t], ∃ qs, expandPortToken tok = .ok qs) :
    portTokens [t] = (bareTokens t.toList).map String.ofList := by
  have htrim : (trimSpace t).toList = trimList t.toList := String.toList_ofList
  rw [← bareTokens_trim, ← htrim]
  rw [portTokens_singleton] at h ⊢
  by_cases hnil : trimSpace t = ""
  · rw [if_pos hnil, hnil]
    rfl
  rw [if_neg hnil] at h ⊢
  by_cases hbrace : isBraceList (trimSpace t) = true
  · rw [if_pos hbrace] at h ⊢
    obtain ⟨inner, hinner⟩ := isBraceList_toList hbrace
    rw [braceTokens_eq hinner, filter_ofList] at h ⊢
    rw [hinner, bareTokens_braces (braceTokens_chars fun q hq hne => ?_)]
    exact h _ (List.mem_map_of_mem (List.mem_filter.mpr ⟨hq, decide_eq_true hne⟩))
  · rw [if_neg hbrace] at h ⊢
    obtain ⟨qs, hqs⟩ := h (trimSpace t) List.mem_cons_self
    have hchars := fun c hc => not_comma_or_brace (expandPortToken_chars hqs c hc)
    unfold bareTokens
    rw [filter_braces fun c hc => (hchars c hc).2, splitList_noSep fun c hc => (hchars c hc).1, List.map_singleton]
    rw [htrim, trimList_trimList, ← htrim]
    simp [hnil]

/-- The tokens of a list of entries are those of the text in which they are joined in order. -/
theorem mem_portTokens_join {ports : List String} (h : ∀ tok ∈ portTokens ports, ∃ qs, expandPortToken tok = .ok qs) (tok : String) :
    tok ∈ portTokens ports ↔ tok ∈ (bareTokens (join (ports.insertionSort (· ≤ ·)) ",").toList).map String.ofList := by
  have hall : ∀ tok, tok ∈ portTokens ports ↔ ∃ t ∈ ports, tok ∈ portTokens [t] := by
    intro tok
    simp only [portTokens, List.mem_flatMap, List.mem_singleton, exists_eq_left]
  have hentry : ∀ t ∈ ports, portTokens [t] = (bareTokens t.toList).map String.ofList := fun t ht =>
    portTokens_bare fun tok htok => h tok ((hall tok).mpr ⟨t, ht, htok⟩)
  rw [hall, bareTokens_join, List.map_flatMap, List.mem_flatMap]
  simp only [List.mem_insertionSort]
  constructor
  · rintro ⟨t, ht, htok⟩
    exact ⟨t, ht, hentry t ht ▸ htok⟩
  · rintro ⟨t, ht, htok⟩
    exact ⟨t, ht, (hentry t ht).symm ▸ htok⟩

/-- The protocols of a route depend on the lower-case text only. -/
theorem parseRouteProtocols_lower {s t : String} (h : toLower s = toLower t) : parseRouteProtocols s = parseRouteProtocols t := by
  have hlow : toLower (trimSpace s) = toLower (trimSpace t) := by rw [← trimSpace_toLower, h, trimSpace_toLower]
  unfold parseRouteProtocols
  rw [hlow]

/-- The text of the protocols of a route holds no NUL. -/
theorem parseRouteProtocols_noNul {s : String} {ps : List Proto} (h : parseRouteProtocols s = .ok ps) :
    '\x00' ∉ (toLower s).toList := by
  intro hmem
  have hmem' : '\x00' ∈ (toLower (trimSpace s)).toList := by
    rw [← trimSpace_toLower]
    exact (mem_trimSpace_or hmem).resolve_left (by decide)
  unfold parseRouteProtocols at h
  dsimp only at h
  obtain ⟨_, h⟩ := ite_errorf_ok.mp h
  by_cases hboth : toLower (trimSpace s) = "both"
  · rw [hboth] at hmem'
    exact absurd hmem' (by decide)
  rw [if_neg hboth] at h
  split at h
  · cases h
  · rename_i hfind
    obtain hsep | ⟨q, hq, hcq⟩ := @mem_splitList (fun c => c == ',' || c == '+' || isSpace c) _ _ hmem'
    · exact absurd hsep (by decide)
    · have hpart : '\x00' ∈ (trimSpace (String.ofList q)).toList :=
        (@mem_trimSpace_or (String.ofList q) _ (by rwa [String.toList_ofList])).resolve_left (by decide)
      have hne : trimSpace (String.ofList q) ≠ "" := fun he => by
        rw [he] at hpart
        exact absurd hpart List.not_mem_nil
      have hin : trimSpace (String.ofList q) ∈
          ((fieldsFunc (toLower (trimSpace s)) fun c => c == ',' || c == '+' || isSpace c).map trimSpace).filter (· ≠ "") := by
        refine List.mem_filter.mpr ⟨List.mem_map_of_mem (List.mem_map_of_mem (List.mem_filter.mpr ⟨hq, ?_⟩)), decide_eq_true hne⟩
        exact decide_eq_true (List.ne_nil_of_mem hcq)
      have hword := List.find?_eq_none.mp hfind _ hin
      have : trimSpace (String.ofList q) = "tcp" ∨ trimSpace (String.ofList q) = "udp" := by
        by_contra hno
        exact hword (decide_eq_true (not_or.mp hno))
      rcases this with he | he <;> rw [he] at hpart <;> exact absurd hpart (by decide)
/-! ## Keys -/

/-- The first place of a character cuts a list in one way. -/
theorem append_cons_inj {a : Char} {xs ys us vs : List Char} (hx : a ∉ xs) (hu : a ∉ us) (h : xs ++ a :: ys = us ++ a :: vs) :
    xs = us ∧ ys = vs := by
  induction xs generalizing us with
  | nil =>
    cases us with
    | nil => exact ⟨rfl, (List.cons.inj h).2⟩
    | cons u us => exact absurd ((List.cons.inj h).1 ▸ List.mem_cons_self) hu
  | cons x xs ih =>
    cases us with
    | nil => exact absurd ((List.cons.inj h).1 ▸ List.mem_cons_self) hx
    | cons u us =>
      obtain ⟨rfl, hrest⟩ := List.cons.inj h
      obtain ⟨rfl, rfl⟩ := ih (fun hm => hx (List.mem_cons_of_mem _ hm)) (fun hm => hu (List.mem_cons_of_mem _ hm)) hrest
      exact ⟨rfl, rfl⟩

namespace AutoPause

/-- A key gives the protocols, the joined ports and the target back, when neither of the outer two holds a NUL. -/
theorem PausedRoute.key_inj {q q' : PausedRoute} (h : q.key = q'.key) (hp : '\x00' ∉ (toLower q.proto).toList)
    (hp' : '\x00' ∉ (toLower q'.proto).toList) (ht : '\x00' ∉ q.targetIP.toList) (ht' : '\x00' ∉ q'.targetIP.toList) :
    toLower q.proto = toLower q'.proto ∧
      join (q.ports.insertionSort (· ≤ ·)) "," = join (q'.ports.insertionSort (· ≤ ·)) "," ∧ q.targetIP = q'.targetIP := by
  have hnul : "\x00".toList = ['\x00'] := by decide
  have hlist := congrArg String.toList h
  simp only [PausedRoute.key, String.toList_append, hnul, List.append_assoc, List.cons_append, List.nil_append] at hlist
  obtain ⟨hproto, hrest⟩ := append_cons_inj hp hp' hlist
  have hback := congrArg List.reverse hrest
  simp only [List.reverse_append, List.reverse_cons, List.append_assoc, List.cons_append, List.nil_append] at hback
  obtain ⟨htarget, hports⟩ := append_cons_inj (by simpa using ht) (by simpa using ht') hback
  exact ⟨String.toList_inj.mp hproto, String.toList_inj.mp (List.reverse_injective hports),
    String.toList_inj.mp (List.reverse_injective htarget)⟩

/-- The key of a route. -/
def routeKey (r : ForwardRoute) : String := (pausedRoute 0 r {}).key

theorem key_pausedRoute (i : Nat) (r : ForwardRoute) (p : Peer) : (pausedRoute i r p).key = routeKey r := rfl

/-- Two accepted routes with one key claim the same ports. -/
theorem claims_of_key {c c' : Config} {i j : Nat} {r r' : ForwardRoute} (hr : RouteChecked c i r) (hr' : RouteChecked c' j r')
    {ps ps' : List Nat} (hps : expandRoutePublicPortNumbers r = .ok ps) (hps' : expandRoutePublicPortNumbers r' = .ok ps')
    (hkey : routeKey r = routeKey r') {k : ProtoPort} (hk : Claims r k) : Claims r' k := by
  obtain ⟨protos, hprotos⟩ := hr.protos
  obtain ⟨protos', hprotos'⟩ := hr'.protos
  have htarget : ∀ {t : String}, (parseIP t).isSome → '\x00' ∉ t.toList := by
    intro t ht hmem
    obtain ⟨a, ha⟩ := Option.isSome_iff_exists.mp ht
    exact absurd (parseIP_chars ha _ hmem) (by decide)
  obtain ⟨hproto, hports, -⟩ := PausedRoute.key_inj hkey (parseRouteProtocols_noNul hprotos) (parseRouteProtocols_noNul hprotos')
    (htarget hr.ip) (htarget hr'.ip)
  obtain ⟨protos₁, ports₁, hprotos₁, hports₁, hk₁, hk₂⟩ := hk
  refine ⟨protos₁, ps', ?_, hps', hk₁, ?_⟩
  · rw [← hprotos₁]
    exact (parseRouteProtocols_lower hproto).symm
  · rw [publicPorts_mem hports₁ hr.maps] at hk₂
    rw [publicPorts_mem hps' hr'.maps]
    obtain ⟨tok, htok, qs, hqs, hp⟩ := hk₂
    refine ⟨tok, ?_, qs, hqs, hp⟩
    rw [mem_portTokens_join (portTokens_ok hps)] at htok
    rw [mem_portTokens_join (portTokens_ok hps')]
    rwa [show join (r.ports.insertionSort (· ≤ ·)) "," = join (r'.ports.insertionSort (· ≤ ·)) "," from hports] at htok

end AutoPause

end EvuProxy
