import Mathlib.Data.List.Sort
import EvuProxy.Wg.Routing

/-!
# Interfaces

What `wg-quick up` makes of a file: the addresses of the interface, its port and its peers, and the routes to it. An address brings the
route to its subnet; a prefix of a peer gets one of its own unless a route covers it.
-/

namespace Wg

open Go

/-- An interface: its addresses with the length of their subnets, its port, its peers by public key, and the routes to it. -/
structure Iface where
  addresses : List Prefix
  listenPort : String
  peers : List (String × List Prefix)
  routes : List Prefix

/-- A prefix without the bits that do not count. -/
def mask : Prefix → Prefix
  | (.v4 a, n) => (.v4 (a / 2 ^ (32 - n) * 2 ^ (32 - n)), n)
  | (.v6 a, n) => (.v6 (a / 2 ^ (128 - n) * 2 ^ (128 - n)), n)

/-- Whether a route leads to every address of a prefix. -/
def RouteCovers (r p : Prefix) : Prop := r.2 ≤ p.2 ∧ InPrefix r p.1

instance (r p : Prefix) : Decidable (RouteCovers r p) := inferInstanceAs (Decidable (_ ∧ _))

/-- The route that an address brings: the one to its subnet, which an IPv4 address alone does not have. -/
def subnetRoute (x : Prefix) : List Prefix :=
  match x with
  | (.v4 _, 32) => []
  | x => [mask x]

/-- Add a route for each prefix that none covers yet. -/
def addRoutes (routes : List Prefix) (ps : List Prefix) : List Prefix :=
  ps.foldl (fun routes p => if ∃ r ∈ routes, RouteCovers r p then routes else routes ++ [mask p]) routes

/-- The routes for the prefixes of the peers, the longest first. -/
def peerRoutes (routes : List Prefix) (peers : List (String × List Prefix)) : List Prefix :=
  addRoutes routes ((peers.flatMap (·.2)).insertionSort fun p q => q.2 ≤ p.2)

/-- The port of a file. -/
def listenPort (ss : List Section) : String := ((ss.find? fun s => s.name = "[Interface]").map (·.value "ListenPort")).getD ""

/-- The entries of the address of a file. -/
def addressEntries (ss : List Section) : List String :=
  ((ss.find? fun s => s.name = "[Interface]").map fun s => listOf (s.value "Address")).getD []

/-- `wg-quick up`, for a file on a host without the interface. -/
def bringUp (text : String) : Option Iface :=
  match parse text with
  | none => none
  | some ss =>
    ((addressEntries ss).mapM readPrefix).map fun addresses =>
      { addresses := addresses
        listenPort := listenPort ss
        peers := sectionPeers ss
        routes := peerRoutes (addresses.flatMap subnetRoute) (sectionPeers ss) }

/-- `wg syncconf`: the port and the peers, and nothing else. -/
def syncconf (text : String) (i : Iface) : Option Iface :=
  (parse text).map fun ss => { i with listenPort := listenPort ss, peers := sectionPeers ss }

/-- `ip -4 addr replace`, which takes one IPv4 address. -/
def addrReplace (addr : String) (i : Iface) : Option Iface :=
  match readPrefix addr with
  | some (.v4 a, n) => some { i with addresses := (.v4 a, n) :: i.addresses, routes := subnetRoute (.v4 a, n) ++ i.routes }
  | _ => none

/-- Two interfaces with the same addresses, port, peers and routes. -/
structure Same (i j : Iface) : Prop where
  addresses : ∀ x, x ∈ i.addresses ↔ x ∈ j.addresses
  listenPort : i.listenPort = j.listenPort
  peers : i.peers = j.peers
  routes : ∀ x, x ∈ i.routes ↔ x ∈ j.routes

theorem addrReplace_some {addr : String} {a n : Nat} (h : readPrefix addr = some (.v4 a, n)) (i : Iface) : addrReplace addr i =
    some { i with addresses := (.v4 a, n) :: i.addresses, routes := subnetRoute (.v4 a, n) ++ i.routes } := by
  rw [addrReplace, h]

/-! ## Routes -/

theorem inPrefix_mask (q : Prefix) (b : Addr) : InPrefix (mask q) b ↔ InPrefix q b := by
  obtain ⟨a, n⟩ := q
  have hdiv : ∀ x m : Nat, x / 2 ^ m * 2 ^ m / 2 ^ m = x / 2 ^ m := fun x m => Nat.mul_div_cancel _ (Nat.two_pow_pos m)
  cases a with
  | v4 a => cases b <;> simp [mask, InPrefix, hdiv]
  | v6 a => cases b <;> simp [mask, InPrefix, hdiv]

theorem mask_length (q : Prefix) : (mask q).2 = q.2 := by
  obtain ⟨a, n⟩ := q
  cases a <;> rfl

/-- Prefixes of one length, one of which covers the other, are the same. -/
theorem mask_eq_of_inPrefix {p q : Prefix} (hlen : q.2 = p.2) (h : InPrefix q p.1) : mask p = mask q := by
  obtain ⟨a, n⟩ := p
  obtain ⟨b, m⟩ := q
  obtain rfl : m = n := hlen
  cases a <;> cases b <;> simp_all [mask, InPrefix]

theorem routeCovers_mask_self (p : Prefix) : RouteCovers (mask p) p := by
  refine ⟨Nat.le_of_eq (mask_length p), (inPrefix_mask p p.1).mpr ?_⟩
  obtain ⟨a, n⟩ := p
  cases a <;> exact rfl

/-- A route that covers a prefix and is no shorter is the route for the prefix. -/
theorem mask_eq_of_routeCovers {p q : Prefix} (h : RouteCovers (mask q) p) (hle : p.2 ≤ q.2) : mask p = mask q := by
  have hlen := h.1
  rw [mask_length] at hlen
  exact mask_eq_of_inPrefix (Nat.le_antisymm hlen hle) ((inPrefix_mask q p.1).mp h.2)

theorem mem_addRoutes_of {base : List Prefix} (x : Prefix) (ps : List Prefix) : ∀ routes : List Prefix,
    ps.Pairwise (fun p q => q.2 ≤ p.2) → (∀ r ∈ base, r ∈ routes) →
    (∀ r ∈ routes, r ∈ base ∨ ∃ q, r = mask q ∧ ∀ p ∈ ps, p.2 ≤ q.2) →
    (x ∈ addRoutes routes ps ↔ x ∈ routes ∨ ∃ p ∈ ps, x = mask p ∧ ¬∃ r ∈ base, RouteCovers r p) := by
  induction ps with
  | nil => simp [addRoutes]
  | cons p ps ih =>
    intro routes hsorted hbase hroutes
    obtain ⟨hp, hsorted⟩ := List.pairwise_cons.mp hsorted
    have hrest : ∀ r ∈ routes, r ∈ base ∨ ∃ q, r = mask q ∧ ∀ p ∈ ps, p.2 ≤ q.2 := fun r hr =>
      (hroutes r hr).imp_right fun ⟨q, hq, hle⟩ => ⟨q, hq, fun p' hp' => hle p' (List.mem_cons_of_mem _ hp')⟩
    rw [List.exists_mem_cons_iff]
    by_cases hcovered : ∃ r ∈ routes, RouteCovers r p
    · rw [show addRoutes routes (p :: ps) = addRoutes routes ps by simp only [addRoutes, List.foldl_cons, if_pos hcovered],
        ih routes hsorted hbase hrest]
      -- A route that was added before covers the prefix only if it is the route for it.
      have hthere : x = mask p → (¬∃ r ∈ base, RouteCovers r p) → x ∈ routes := by
        intro hx hno
        obtain ⟨r, hr, hcovers⟩ := hcovered
        rcases hroutes r hr with hbase' | ⟨q, rfl, hle⟩
        · exact absurd ⟨r, hbase', hcovers⟩ hno
        · rw [hx, mask_eq_of_routeCovers hcovers (hle p List.mem_cons_self)]
          exact hr
      tauto
    · have hno : ¬∃ r ∈ base, RouteCovers r p := fun ⟨r, hr, hcovers⟩ => hcovered ⟨r, hbase r hr, hcovers⟩
      have hadded : ∀ r ∈ routes ++ [mask p], r ∈ base ∨ ∃ q, r = mask q ∧ ∀ p ∈ ps, p.2 ≤ q.2 := by
        intro r hr
        rcases List.mem_append.mp hr with hr | hr
        · exact hrest r hr
        · exact .inr ⟨p, List.mem_singleton.mp hr, hp⟩
      rw [show addRoutes routes (p :: ps) = addRoutes (routes ++ [mask p]) ps by
          simp only [addRoutes, List.foldl_cons, if_neg hcovered],
        ih _ hsorted (fun r hr => List.mem_append_left _ (hbase r hr)) hadded, List.mem_append, List.mem_singleton]
      tauto

/-- A prefix gets a route where no route to a subnet covers it. The longer prefixes come first, so that a prefix of a peer covers
another one only where the two are the same. -/
theorem mem_peerRoutes (base : List Prefix) (peers : List (String × List Prefix)) (x : Prefix) :
    x ∈ peerRoutes base peers ↔ x ∈ base ∨ ∃ k ∈ peers, ∃ p ∈ k.2, x = mask p ∧ ¬∃ r ∈ base, RouteCovers r p := by
  have hsorted : ((peers.flatMap (·.2)).insertionSort fun p q => q.2 ≤ p.2).Pairwise fun p q => q.2 ≤ p.2 := by
    have : Std.Total fun p q : Prefix => q.2 ≤ p.2 := ⟨fun p q => Nat.le_total q.2 p.2⟩
    have : IsTrans Prefix fun p q => q.2 ≤ p.2 := ⟨fun _ _ _ h h' => Nat.le_trans h' h⟩
    exact List.pairwise_insertionSort _ _
  rw [peerRoutes, mem_addRoutes_of x _ base hsorted (fun _ h => h) fun _ h => .inl h]
  simp only [List.mem_insertionSort, List.mem_flatMap]
  constructor
  · rintro (hx | ⟨p, ⟨k, hk, hp⟩, hroute⟩)
    · exact .inl hx
    · exact .inr ⟨k, hk, p, hp, hroute⟩
  · rintro (hx | ⟨k, hk, p, hp, hroute⟩)
    · exact .inl hx
    · exact .inr ⟨p, ⟨k, hk, hp⟩, hroute⟩

/-! ## Files without the directives of `wg-quick` -/

/-- The directives of the interface that `wg` does not know. -/
def quickKeys : List String := ["Address", "MTU", "DNS", "Table", "PreUp", "PreDown", "PostUp", "PostDown", "SaveConfig"]

/-- Whether a line stays. -/
def keepsLine (line : List Char) : Bool :=
  match readLine line with
  | .directive key _ => key ∉ quickKeys
  | _ => true

/-- `wg-quick strip`: the lines of a file without the directives of its own. -/
def strip (text : String) : String :=
  String.ofList (((splitList (· == '\n') text.toList).filter keepsLine).flatMap fun line => line ++ ['\n'])

/-- A section without the directives of `wg-quick`. -/
def Section.strip (s : Section) : Section := { s with entries := s.entries.filter fun e => e.1 ∉ quickKeys }

theorem readLines_strip {lines : List (List Char)} : ∀ {entries ss}, readLines lines = some (entries, ss) →
    readLines (lines.filter keepsLine) = some (entries.filter fun e => e.1 ∉ quickKeys, ss.map Section.strip) := by
  induction lines with
  | nil =>
    intro entries ss h
    cases h
    rfl
  | cons line lines ih =>
    intro entries ss h
    unfold readLines at h
    split at h
    · cases h
    · cases h
    · rename_i hrest hline
      cases h
      rw [List.filter_cons_of_pos (by rw [keepsLine, hline])]
      exact readLines_blank hline (ih hrest)
    · rename_i hrest hline
      cases h
      rw [List.filter_cons_of_pos (by rw [keepsLine, hline])]
      exact readLines_header hline (ih hrest)
    · rename_i key value hrest hline
      cases h
      by_cases hkey : key ∈ quickKeys
      · rw [List.filter_cons_of_neg (by simp [keepsLine, hline, hkey]), ih hrest]
        simp [hkey]
      · rw [List.filter_cons_of_pos (by simp [keepsLine, hline, hkey])]
        simp [readLines, ih hrest, hline, hkey]

theorem Section.value_strip {s : Section} {key : String} (hkey : key ∉ quickKeys) : s.strip.value key = s.value key := by
  have hlookup : ∀ es : List (String × String), (es.filter fun e => e.1 ∉ quickKeys).lookup key = es.lookup key := by
    intro es
    induction es with
    | nil => rfl
    | cons e es ih =>
      obtain ⟨k, v⟩ := e
      by_cases hk : k ∈ quickKeys
      · have hne : (key == k) = false := beq_eq_false_iff_ne.mpr fun he => hkey (he ▸ hk)
        rw [List.filter_cons_of_neg (by simpa using hk), ih, List.lookup_cons, hne]
      · rw [List.filter_cons_of_pos (by simpa using hk), List.lookup_cons, List.lookup_cons, ih]
  rw [Section.value, Section.value, Section.strip, hlookup]

/-- The empty line at the end does not matter. -/
theorem readLines_concat_nil (lines : List (List Char)) : readLines (lines ++ [[]]) = readLines lines := by
  induction lines with
  | nil => decide
  | cons line lines ih => rw [List.cons_append, readLines, readLines, ih]

theorem listenPort_strip (ss : List Section) : listenPort (ss.map Section.strip) = listenPort ss := by
  have hfind : (ss.map Section.strip).find? (fun s => s.name = "[Interface]") =
      (ss.find? fun s => s.name = "[Interface]").map Section.strip := List.find?_map ..
  rw [listenPort, listenPort, hfind, Option.map_map]
  congr 2
  exact funext fun s => s.value_strip (by decide)

theorem sectionPeers_strip (ss : List Section) : sectionPeers (ss.map Section.strip) = sectionPeers ss := by
  have hfilter : (ss.map Section.strip).filter (fun s => s.name = "[Peer]") = (ss.filter fun s => s.name = "[Peer]").map Section.strip :=
    List.filter_map
  have hentry : ∀ s : Section, (s.strip.value "PublicKey", allowedIPs (s.strip.value "AllowedIPs")) =
      (s.value "PublicKey", allowedIPs (s.value "AllowedIPs")) := fun s => by
    rw [s.value_strip (by decide), s.value_strip (by decide)]
  rw [sectionPeers, hfilter, List.map_map, sectionPeers]
  exact List.map_congr_left fun s _ => hentry s

/-- A stripped file has the port and the peers of the file. -/
theorem parse_strip {text : String} {ss : List Section} (h : parse text = some ss) :
    ∃ ss', parse (strip text) = some ss' ∧ listenPort ss' = listenPort ss ∧ sectionPeers ss' = sectionPeers ss := by
  unfold parse at h
  split at h
  · rename_i hread
    cases h
    have hlines : ((splitList (· == '\n') text.toList).filter keepsLine).map (String.toList ∘ String.ofList) =
        (splitList (· == '\n') text.toList).filter keepsLine := by
      simp [Function.comp_def]
    refine ⟨ss.map Section.strip, @parse_lines _ (((splitList (· == '\n') text.toList).filter keepsLine).map String.ofList) _ ?_ ?_ ?_,
      listenPort_strip ss, sectionPeers_strip ss⟩
    · rw [strip, String.toList_ofList, List.flatMap_map]
      simp
    · intro line hline
      obtain ⟨cs, hcs, rfl⟩ := List.mem_map.mp hline
      rw [String.toList_ofList]
      intro hmem
      have := noSep_of_mem_splitList (List.mem_filter.mp hcs).1 '\n' hmem
      simp at this
    · rw [List.map_map, hlines, readLines_concat_nil]
      exact readLines_strip hread
  · cases h

end Wg
