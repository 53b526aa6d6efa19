import Mathlib.Data.List.Pairwise
import EvuProxy.Apply.Crowdsec
import EvuProxy.Config.Words
import EvuProxy.Go.Dotted
import EvuProxy.Go.Pieces

/-!
# Bans across a reload

Which listings of the ban set come back as they were: those without a range, and without a prefix that stands outside an `elem`
object.
-/

namespace EvuProxy

open Go

/-! ## Listings -/

/-- The value of an element: an address, a prefix or a range of addresses. -/
inductive BanValue where
  | addr (a : Nat)
  | pfx (a len : Nat)
  | range (lo hi : Nat)
  deriving DecidableEq

/-- The first and the last address of a value. -/
def BanValue.span : BanValue → Nat × Nat
  | .addr a => (a, a)
  | .pfx a len => (a / 2 ^ (32 - len) * 2 ^ (32 - len), a / 2 ^ (32 - len) * 2 ^ (32 - len) + (2 ^ (32 - len) - 1))
  | .range lo hi => (lo, hi)

/-- The addresses are IPv4 addresses, and the value is not empty. -/
def BanValue.Wf : BanValue → Prop
  | .addr a => a < 2 ^ 32
  | .pfx a len => a < 2 ^ 32 ∧ len ≤ 32
  | .range lo hi => lo ≤ hi ∧ hi < 2 ^ 32

/-- A value as nft lists it. -/
def BanValue.json : BanValue → Json
  | .addr a => .str (ipv4String a)
  | .pfx a len => .obj [("prefix", .obj [("addr", .str (ipv4String a)), ("len", .num len)])]
  | .range lo hi => .obj [("range", .arr [.str (ipv4String lo), .str (ipv4String hi)])]

/-- An element: a value alone, or in an `elem` object with the timeout it was added with and the time that remains. -/
inductive Ban where
  | bare (v : BanValue)
  | elem (v : BanValue) (timeout : Option Nat) (expires : Option ℚ)
  deriving DecidableEq

def Ban.value : Ban → BanValue
  | .bare v => v
  | .elem v _ _ => v

/-- The time that remains of an element, in seconds. -/
def Ban.remaining : Ban → Option ℚ
  | .bare _ => none
  | .elem _ _ expires => expires

/-- The fields of an `elem` object. -/
def elemFields (v : BanValue) (timeout : Option Nat) (expires : Option ℚ) : List (String × Json) :=
  [("val", v.json)] ++ (timeout.map fun n : Nat => ("timeout", Json.num n)).toList ++ (expires.map fun q => ("expires", Json.num q)).toList

/-- An element as nft lists it. -/
def Ban.json : Ban → Json
  | .bare v => v.json
  | .elem v timeout expires => .obj [("elem", .obj (elemFields v timeout expires))]

/-- Two values have no address in common. -/
def BanValue.Apart (v w : BanValue) : Prop := v.span.2 < w.span.1 ∨ w.span.2 < v.span.1

/-- What nft lists of the set: elements that do not overlap. -/
structure Listing where
  bans : List Ban
  wf : ∀ b ∈ bans, b.value.Wf
  apart : bans.Pairwise fun b b' => b.value.Apart b'.value

/-- The document with a listing of the set. -/
def Listing.json (l : Listing) : Json :=
  .obj [("nftables", .arr [.obj [("metainfo", .obj [])],
    .obj [("set", .obj [("family", .str "inet"), ("name", .str "crowdsec_block_v4"), ("table", .str "evuproxy"),
      ("elem", .arr (l.bans.map Ban.json))])]])]

theorem span_le {v : BanValue} (h : v.Wf) : v.span.1 ≤ v.span.2 := by
  cases v with
  | addr a => exact le_rfl
  | pfx a len => exact Nat.le_add_right _ _
  | range lo hi => exact h.1

/-! ## Reading what is added -/

/-- The addresses of a value in `nft add element`: the first and the last. -/
def readBanValue (v : String) : Option (Nat × Nat) :=
  if containsChar v '/' then
    match parseCIDR v with
    | some (.v4 a, n) => some (BanValue.pfx a n).span
    | _ => none
  else
    match parseIP v with
    | some (.v4 a) => some (a, a)
    | _ => none

/-- A timeout in seconds after the word for it. -/
def readTimeout (s : String) : Option Nat :=
  if hasPrefix s "timeout " ∧ hasSuffix s "s" then
    let ds := (s.toList.drop 8).dropLast
    if ds ≠ [] ∧ ds.all isDigit then some (digitsVal ds) else none
  else none

/-- An element of `nft add element`: its addresses, and its timeout if it has one. -/
def readBan (part : String) : Option ((Nat × Nat) × Option Nat) :=
  match cut part ' ' with
  | none => (readBanValue part).map fun span => (span, none)
  | some (v, rest) => do
    let span ← readBanValue v
    let n ← readTimeout rest
    some (span, some n)

/-- An element is added as it is listed: the same addresses, and a timeout if and only if time remains, of at least one second and
at most the remaining time rounded up, or of one second. -/
def AddedAs (b : Ban) (part : String) : Prop :=
  ∃ timeout, readBan part = some (b.value.span, timeout) ∧
    match b.remaining with
    | none => timeout = none
    | some q => ∃ n : Nat, timeout = some n ∧ 1 ≤ n ∧ ((n : Int) ≤ ⌈q⌉ ∨ n = 1)

/-- An address is one of those that an added element covers. -/
def Covers (part : String) (x : Nat) : Prop := ∃ r, readBan part = some r ∧ r.1.1 ≤ x ∧ x ≤ r.1.2

/-- The bans survive a reload: what is added covers what was listed, every element is added as it was listed, and nothing else is. -/
structure Survives (l : Listing) : Prop where
  covers : ∀ x, (∃ part ∈ readdedBans l.json, Covers part x) ↔ ∃ b ∈ l.bans, b.value.span.1 ≤ x ∧ x ≤ b.value.span.2
  added : ∀ b ∈ l.bans, ∃ part ∈ readdedBans l.json, AddedAs b part
  nothingElse : ∀ part ∈ readdedBans l.json, ∃ b ∈ l.bans, AddedAs b part

/-- The forms of an element that the reader of the listing knows. -/
def Ban.known : Ban → Bool
  | .bare (.addr _) => true
  | .elem (.addr _) _ _ => true
  | .elem (.pfx _ _) _ _ => true
  | _ => false

/-! ## What is read and added -/

/-- A value in the words of `nft add element`; a range is never added. -/
def BanValue.text : BanValue → String
  | .addr a => ipv4String a
  | .pfx a len => ipv4String a ++ "/" ++ toString len
  | .range _ _ => ""

/-- The timeout with which an element is added, zero without one. -/
def Ban.seconds (b : Ban) : Int :=
  match b.remaining with
  | none => 0
  | some q => max ⌈q⌉ 1

theorem BanValue.text_chars {v : BanValue} : ∀ c ∈ v.text.toList, isDigit c = true ∨ c = '.' ∨ c = '/' := by
  intro c hc
  cases v with
  | addr a => exact (ipv4String_chars a c hc).imp_right .inl
  | pfx a len =>
    have hslash : "/".toList = ['/'] := by decide
    simp only [BanValue.text, String.toList_append, hslash, List.mem_append, List.mem_singleton] at hc
    rcases hc with (hc | rfl) | hc
    · exact (ipv4String_chars a c hc).imp_right .inl
    · exact .inr (.inr rfl)
    · exact .inl (isDigit_toString len c hc)
  | range lo hi => exact absurd hc List.not_mem_nil

theorem trimSpace_text (v : BanValue) : trimSpace v.text = v.text := by
  refine trimmed_of_noSpace fun c hc => ?_
  rcases v.text_chars c hc with h | rfl | rfl
  · exact isDigit_space h
  · decide
  · decide

theorem text_noSpace (v : BanValue) : ' ' ∉ v.text.toList := by
  intro hc
  rcases v.text_chars _ hc with h | h | h
  · exact absurd h (by decide)
  · exact absurd h (by decide)
  · exact absurd h (by decide)

theorem elem_fields (v : BanValue) (timeout : Option Nat) (expires : Option ℚ) :
    jsonField (elemFields v timeout expires) "val" = some v.json ∧
      jsonField (elemFields v timeout expires) "expires" = expires.map Json.num := by
  have hval : equalFold "val" "val" = true := by decide
  have htimeout : equalFold "timeout" "val" = false := by decide
  have hexpires : equalFold "expires" "val" = false := by decide
  have hval' : equalFold "val" "expires" = false := by decide
  have htimeout' : equalFold "timeout" "expires" = false := by decide
  have hexpires' : equalFold "expires" "expires" = true := by decide
  cases timeout <;> cases expires <;> simp [elemFields, jsonField, *]

theorem asInt_natCast {n : Nat} (h : n ≤ 32) : Json.asInt (.num n) = some (n : Int) := by
  have hrange : (-2 ^ 63 : Int) ≤ n ∧ (n : Int) < 2 ^ 63 := by omega
  simp only [Json.asInt, Rat.num_natCast, Rat.den_natCast, true_and]
  rw [if_pos hrange]

theorem crowdsecElemVal_addr (a : Nat) : crowdsecElemVal (some (BanValue.addr a).json) = some (ipv4String a) := by
  have hne : trimSpace (ipv4String a) ≠ "" := by
    rw [trimSpace_ipv4String]
    exact ipv4String_ne a
  simp [crowdsecElemVal, BanValue.json, Json.asString, hne]

theorem pointerField_obj (fields : List (String × Json)) : pointerField Json.asFields (some (.obj fields)) = some (some fields) := rfl

theorem crowdsecElemVal_prefix {i j : Json} {addr : String} {n : Int} (hi : i.asString = some addr) (hj : j.asInt = some n)
    (hne : addr ≠ "") : crowdsecElemVal (some (.obj [("prefix", .obj [("addr", i), ("len", j)])])) = some (addr ++ "/" ++ toString n) := by
  have hprefix : ∀ {k : Json}, jsonField [("prefix", k)] "prefix" = some k := by
    intro k
    have heq : equalFold "prefix" "prefix" = true := by decide
    simp [jsonField, heq]
  have haddr : jsonField [("addr", i), ("len", j)] "addr" = some i := by
    have h₁ : equalFold "len" "addr" = false := by decide
    have h₂ : equalFold "addr" "addr" = true := by decide
    simp [jsonField, h₁, h₂]
  have hlen : jsonField [("addr", i), ("len", j)] "len" = some j := by
    have heq : equalFold "len" "len" = true := by decide
    simp [jsonField, heq]
  have hobj : ∀ {fields : List (String × Json)}, (Json.obj fields).asString = none ∧ (Json.obj fields).asFields = some fields :=
    ⟨rfl, rfl⟩
  unfold crowdsecElemVal
  simp only [hobj, Option.bind_some, Option.map_some, hprefix, pointerField_obj, haddr, hlen, plainField, hi, hj]
  rw [if_neg hne]

theorem crowdsecElemVal_pfx {a len : Nat} (h : len ≤ 32) :
    crowdsecElemVal (some (BanValue.pfx a len).json) = some (ipv4String a ++ "/" ++ toString len) :=
  crowdsecElemVal_prefix rfl (asInt_natCast h) (ipv4String_ne a)

/-- A range is no value to the reader. -/
theorem crowdsecElemVal_range (lo hi : Nat) : crowdsecElemVal (some (BanValue.range lo hi).json) = none := by
  have hprefix : ∀ {j : Json}, jsonField [("range", j)] "prefix" = none := by
    intro j
    have heq : equalFold "range" "prefix" = false := by decide
    simp [jsonField, heq]
  simp [crowdsecElemVal, BanValue.json, Json.asString, Json.asFields, hprefix, pointerField]

/-- What the reader makes of an `elem` object. -/
theorem parse_elem (v : BanValue) (timeout : Option Nat) (expires : Option ℚ) :
    parseCrowdsecElem (Ban.elem v timeout expires).json =
      (crowdsecElemVal (some v.json)).map fun val => { val, timeout := (Ban.elem v timeout expires).seconds } := by
  have helem : ∀ {j : Json}, jsonField [("elem", j)] "elem" = some j := by
    intro j
    have heq : equalFold "elem" "elem" = true := by decide
    simp [jsonField, heq]
  obtain ⟨h₁, h₂⟩ := elem_fields v timeout expires
  unfold parseCrowdsecElem Ban.json
  simp only [Json.asString, Json.asFields, helem, pointerField, Option.map_some, Option.bind_eq_bind, Option.bind_some, h₁, h₂]
  cases expires <;> cases crowdsecElemVal (some v.json) <;> rfl

theorem parse_known {b : Ban} (hb : b.known = true) (hwf : b.value.Wf) :
    parseCrowdsecElem b.json = some { val := b.value.text, timeout := b.seconds } := by
  cases b with
  | bare v =>
    cases v with
    | addr a =>
      have hne : trimSpace (ipv4String a) ≠ "" := by
        rw [trimSpace_ipv4String]
        exact ipv4String_ne a
      simp [parseCrowdsecElem, Ban.json, BanValue.json, Json.asString, hne, Ban.value, BanValue.text, Ban.seconds, Ban.remaining]
    | pfx a len => cases hb
    | range lo hi => cases hb
  | elem v timeout expires =>
    rw [parse_elem]
    cases v with
    | addr a =>
      rw [crowdsecElemVal_addr]
      rfl
    | pfx a len =>
      rw [crowdsecElemVal_pfx hwf.2]
      rfl
    | range lo hi => cases hb

theorem parse_unknown {b : Ban} (hb : b.known = false) : parseCrowdsecElem b.json = none := by
  have hother : ∀ {name : String} {j : Json}, equalFold name "elem" = false → parseCrowdsecElem (.obj [(name, j)]) = none := by
    intro name j hne
    simp [parseCrowdsecElem, Json.asString, Json.asFields, jsonField, hne, pointerField]
  cases b with
  | bare v =>
    cases v with
    | addr a => cases hb
    | pfx a len => exact hother (by decide)
    | range lo hi => exact hother (by decide)
  | elem v timeout expires =>
    cases v with
    | addr a => cases hb
    | pfx a len => cases hb
    | range lo hi =>
      rw [parse_elem, crowdsecElemVal_range]
      rfl

/-- What the reader makes of a listing: its known elements. -/
theorem parseCrowdsecSetJSON_json (l : Listing) : parseCrowdsecSetJSON l.json =
    some ((l.bans.filter Ban.known).map fun b => { val := b.value.text, timeout := b.seconds }) := by
  have hparse : (l.bans.map Ban.json).filterMap parseCrowdsecElem =
      (l.bans.filter Ban.known).map fun b => { val := b.value.text, timeout := b.seconds } := by
    have hwf := l.wf
    generalize l.bans = bans at hwf
    induction bans with
    | nil => rfl
    | cons b bans ih =>
      have ih := ih fun b' hb' => hwf b' (List.mem_cons_of_mem _ hb')
      cases hb : b.known with
      | true =>
        rw [List.map_cons, List.filterMap_cons, parse_known hb (hwf b List.mem_cons_self), List.filter_cons_of_pos hb, List.map_cons, ih]
      | false =>
        rw [List.map_cons, List.filterMap_cons, parse_unknown hb,
          List.filter_cons_of_neg (by simp [hb]), ih]
  have hnft : ∀ {j : Json}, jsonField [("nftables", j)] "nftables" = some j := by
    intro j
    have heq : equalFold "nftables" "nftables" = true := by decide
    simp [jsonField, heq]
  have hmeta : ∀ {j : Json}, crowdsecItemElems (.obj [("metainfo", j)]) = some [] := by
    intro j
    have heq : equalFold "metainfo" "set" = false := by decide
    simp [crowdsecItemElems, Json.asFields, jsonField, heq, pointerField]
  have hset : ∀ {bans : List Json}, crowdsecItemElems (.obj [("set", .obj [("family", .str "inet"), ("name", .str "crowdsec_block_v4"),
      ("table", .str "evuproxy"), ("elem", .arr bans)])]) = some bans := by
    intro bans
    have h₁ : equalFold "set" "set" = true := by decide
    have h₂ : equalFold "elem" "elem" = true := by decide
    simp [crowdsecItemElems, Json.asFields, jsonField, h₁, h₂, pointerField, plainField, Json.asArray]
  unfold parseCrowdsecSetJSON Listing.json
  simp only [Json.asFields, hnft, plainField, Json.asArray, Option.bind_eq_bind, Option.bind_some, List.mapM_cons, List.mapM_nil, hmeta,
    hset, Option.pure_def, List.flatten_cons, List.flatten_nil, List.nil_append, List.append_nil, hparse]

/-- The text with which an element is added. -/
def Ban.part (b : Ban) : String :=
  if 0 < b.seconds then b.value.text ++ " timeout " ++ toString b.seconds ++ "s" else b.value.text

theorem readBanValue_text {v : BanValue} (hv : v.Wf) (hr : ∀ lo hi, v ≠ .range lo hi) :
    validCrowdsecElemVal v.text = true ∧ readBanValue v.text = some v.span := by
  cases v with
  | addr a =>
    have hslash : containsChar (ipv4String a) '/' = false := by
      simpa [containsChar] using ipv4String_noChar (a := a) (c := '/') (by decide) (by decide)
    unfold validCrowdsecElemVal readBanValue BanValue.text
    rw [hslash, if_neg Bool.false_ne_true, if_neg Bool.false_ne_true, parseIP_ipv4String hv]
    exact ⟨by simp [ipv4String_ne a], rfl⟩
  | pfx a len =>
    have hslash : containsChar (ipv4String a ++ "/" ++ toString len) '/' = true := by simp [containsChar]
    unfold validCrowdsecElemVal readBanValue BanValue.text
    rw [if_pos hslash, if_pos hslash, parseCIDR_prefix hv.1 hv.2]
    exact ⟨by simp, rfl⟩
  | range lo hi => exact absurd rfl (hr lo hi)

theorem readTimeout_text (n : Nat) : readTimeout ("timeout " ++ toString n ++ "s") = some n := by
  have hword : "timeout ".toList = ['t', 'i', 'm', 'e', 'o', 'u', 't', ' '] := by decide
  have hs : "s".toList = ['s'] := by decide
  have hlist : ("timeout " ++ toString n ++ "s").toList = "timeout ".toList ++ ((toString n).toList ++ ['s']) := by
    rw [String.toList_append, String.toList_append, hs, List.append_assoc]
  have hpre : hasPrefix ("timeout " ++ toString n ++ "s") "timeout " = true := by
    unfold hasPrefix
    rw [hlist, List.isPrefixOf_iff_prefix]
    exact List.prefix_append _ _
  have hsuf : hasSuffix ("timeout " ++ toString n ++ "s") "s" = true := by
    unfold hasSuffix
    rw [hlist, hs, List.isSuffixOf_iff_suffix, ← List.append_assoc]
    exact List.suffix_append _ _
  have hdrop : (("timeout " ++ toString n ++ "s").toList.drop 8).dropLast = (toString n).toList := by
    rw [hlist, hword]
    simp only [List.cons_append, List.nil_append, List.drop_succ_cons, List.drop_zero, List.dropLast_concat]
  unfold readTimeout
  rw [if_pos ⟨hpre, hsuf⟩, hdrop]
  dsimp only
  rw [if_pos ⟨toString_ne_nil n, List.all_eq_true.mpr (isDigit_toString n)⟩, digitsVal_toString]

theorem not_range_of_known {b : Ban} (hb : b.known = true) : ∀ lo hi, b.value ≠ .range lo hi := by
  rintro lo hi h
  cases b with
  | bare v =>
    obtain rfl : v = .range lo hi := h
    cases hb
  | elem v timeout expires =>
    obtain rfl : v = .range lo hi := h
    cases hb

/-- A known element is added as it is listed. -/
theorem addedAs_part {b : Ban} (hb : b.known = true) (hwf : b.value.Wf) : AddedAs b b.part := by
  obtain ⟨-, hread⟩ := readBanValue_text hwf (not_range_of_known hb)
  unfold AddedAs Ban.part
  cases hrem : b.remaining with
  | none =>
    have hsec : b.seconds = 0 := by rw [Ban.seconds, hrem]
    rw [hsec, if_neg (lt_irrefl _), readBan, cut_none (text_noSpace _)]
    exact ⟨none, by rw [hread]; rfl, rfl⟩
  | some q =>
    have hsec : b.seconds = max ⌈q⌉ 1 := by rw [Ban.seconds, hrem]
    obtain ⟨n, hn⟩ := Int.eq_ofNat_of_zero_le (a := max ⌈q⌉ 1) (by omega)
    have hcut : cut (b.value.text ++ " timeout " ++ toString n ++ "s") ' ' = some (b.value.text, "timeout " ++ toString n ++ "s") := by
      have hspace : " timeout ".toList = ' ' :: "timeout ".toList := by decide
      have hlist : (b.value.text ++ " timeout " ++ toString n ++ "s").toList =
          b.value.text.toList ++ ' ' :: ("timeout " ++ toString n ++ "s").toList := by
        simp only [String.toList_append, hspace, List.append_assoc, List.cons_append]
      rw [cut_of_toList (text_noSpace _) hlist, String.ofList_toList]
    rw [hsec, hn, if_pos (by omega)]
    refine ⟨some n, ?_, n, rfl, by omega, by omega⟩
    show readBan (b.value.text ++ " timeout " ++ toString n ++ "s") = _
    rw [readBan, hcut]
    simp only [hread, readTimeout_text, Option.bind_eq_bind, Option.bind_some]

/-- The elements that are added are the known ones. -/
theorem readdedBans_json (l : Listing) : readdedBans l.json = (l.bans.filter Ban.known).map Ban.part := by
  have hvalid : ∀ b ∈ l.bans.filter Ban.known, validCrowdsecElemVal (trimSpace b.value.text) = true := by
    intro b hb
    obtain ⟨hb, hknown⟩ := List.mem_filter.mp hb
    rw [trimSpace_text]
    exact (readBanValue_text (l.wf b hb) (not_range_of_known hknown)).1
  have hfilter : (l.bans.filter Ban.known).filter ((fun e : CrowdsecElem => validCrowdsecElemVal (trimSpace e.val)) ∘
      fun b => { val := b.value.text, timeout := b.seconds }) = l.bans.filter Ban.known := List.filter_eq_self.mpr hvalid
  unfold readdedBans crowdsecParts
  rw [parseCrowdsecSetJSON_json, Option.getD_some, List.filter_map, hfilter, List.map_map]
  refine List.map_congr_left fun b _ => ?_
  simp only [Function.comp, trimSpace_text, Ban.part]

/-- A listing of the addresses 203.0.113.0 to 203.0.113.5 as a range. -/
def rangeListing : Listing where
  bans := [.bare (.range 3405803776 3405803781)]
  wf b hb := by
    rw [List.mem_singleton.mp hb]
    exact ⟨by decide, by decide⟩
  apart := List.pairwise_singleton _ _

end EvuProxy
