import EvuProxy.Apply.Lockout
import EvuProxy.Gen.InputChain
import EvuProxy.Theorems.PortText

/-!
# Lockout warnings and the input chain

The warnings look at the entries of `input_allows` and at `admin_tcp_ports` in numbers as Go reads them. The chain they stand for reads
the numbers as nft does, applies geo to the entries where the config says so, and has the rules of the routes as well.
-/

namespace EvuProxy

open Go Nft

/-! ## Ports as the warnings read them -/

theorem tokenCovers_trim {p : Nat} {t : String} : tokenCovers p (trimSpace t) = tokenCovers p t := by
  unfold tokenCovers
  rw [trimSpace_trimSpace]

/-- A token that passes the check of `input_allows` covers the ports that the check reads in it. -/
theorem tokenCovers_iff {m : String} (h : validatePlainDportToken m = .ok ()) (p : Nat) :
    tokenCovers p (trimSpace m) = true ↔ ∃ r, parsedRange (trimSpace m) = some r ∧ Within p r := by
  unfold validatePlainDportToken at h
  dsimp only at h
  obtain ⟨-, h⟩ := ite_errorf_ok.mp h
  obtain ⟨-, h⟩ := ite_errorf_ok.mp h
  unfold tokenCovers parsedRange
  rw [trimSpace_trimSpace]
  rcases hcut : cut (trimSpace m) '-' with _ | ⟨lo, hi⟩
  · rw [hcut] at h
    obtain ⟨n, hn, -⟩ := bind_ok.mp h
    obtain ⟨hdigits, hvalue, -, hhi⟩ := parsePort_ok hn
    have hatoi := atoi_digits hdigits (by omega)
    simp only [Option.getD_none, hatoi, hn, Except.toOption, Option.map_some, Option.some.injEq, exists_eq_left', Within,
      Bool.and_eq_true, decide_eq_true_eq]
    omega
  · rw [hcut] at h
    obtain ⟨a, ha, h⟩ := bind_ok.mp h
    obtain ⟨b, hb, -⟩ := bind_ok.mp h
    obtain ⟨hdigits, hvalue, -, hhi⟩ := parsePort_ok ha
    obtain ⟨hdigits', hvalue', -, hhi'⟩ := parsePort_ok hb
    have hatoi := atoi_digits hdigits (by omega)
    have hatoi' := atoi_digits hdigits' (by omega)
    simp only [Option.getD_some, hatoi, hatoi', ha, hb, Except.toOption, Option.bind_some, Option.map_some, Option.some.injEq,
      exists_eq_left', Within, Bool.and_eq_true, decide_eq_true_eq]
    omega

theorem trimBraces_plain {s : String} (h : ∀ ch ∈ s.toList, ch ≠ '{' ∧ ch ≠ '}') : trimBraces s = s := by
  have hbrace : ∀ ch ∈ s.toList, ¬(ch == '{' || ch == '}') = true := fun ch hch => by simp [h ch hch]
  rw [trimBraces, trimBy_eq_self (fun hlen => hbrace _ (List.getElem_mem hlen)) fun hne => hbrace _ (List.getLast_mem hne), String.ofList_toList]

theorem trimBraces_list {s : String} {inner : List Char} (hs : s.toList = '{' :: inner ++ ['}'])
    (h : ∀ ch ∈ inner, ch ≠ '{' ∧ ch ≠ '}') : trimBraces s = String.ofList inner := by
  have hinner := @trimBraces_plain (String.ofList inner) (by rwa [String.toList_ofList])
  rw [trimBraces, String.toList_ofList] at hinner
  rw [trimBraces, hs, trimBy_snoc rfl, trimBy_cons rfl, hinner]

/-- The tokens of an accepted `dport`, each of which passes the check on its own. -/
theorem dportTokens_plain {d : String} (h : validateInputAllowDport d = .ok ()) :
    ∀ tok ∈ dportTokens (trimSpace d), ∃ m, tok = trimSpace m ∧ validatePlainDportToken m = .ok () := by
  unfold validateInputAllowDport at h
  dsimp only at h
  obtain ⟨-, h⟩ := ite_errorf_ok.mp h
  obtain ⟨-, h⟩ := ite_errorf_ok.mp h
  unfold dportTokens
  split
  · rename_i hbrace
    rw [if_pos hbrace] at h
    unfold validateBraceDport at h
    dsimp only at h
    rw [trimSpace_trimSpace] at h
    obtain ⟨-, h⟩ := ite_errorf_ok.mp h
    obtain ⟨-, h⟩ := ite_errorf_ok.mp h
    intro tok htok
    obtain ⟨part, hpart, rfl⟩ := List.mem_map.mp htok
    obtain ⟨-, hone⟩ := ite_errorf_ok.mp (forIdx_ok_mem.mp h part hpart)
    exact ⟨trimSpace part, (trimSpace_trimSpace part).symm, (ite_errorf_ok.mp hone).2⟩
  · rename_i hbrace
    rw [if_neg hbrace] at h
    intro tok htok
    rw [List.mem_singleton.mp htok]
    exact ⟨trimSpace d, (trimSpace_trimSpace d).symm, h⟩

theorem any_tokenCovers_trim {p : Nat} {css : List (List Char)} :
    ((css.map trimList).map String.ofList).any (tokenCovers p) = (css.map String.ofList).any (tokenCovers p) := by
  have hone : ∀ cs, tokenCovers p (String.ofList (trimList cs)) = tokenCovers p (String.ofList cs) := by
    intro cs
    have htrim := @tokenCovers_trim p (String.ofList cs)
    rwa [trimSpace, String.toList_ofList] at htrim
  induction css with
  | nil => rfl
  | cons cs css ih => simp only [List.map_cons, List.any_cons, hone, ih]

/-- What the warnings cut a `dport` into are its tokens. -/
theorem dportCovers_tokens {d : String} (h : validateInputAllowDport d = .ok ()) (p : Nat) :
    dportCovers d p = (dportTokens (trimSpace d)).any (tokenCovers p) := by
  have htokens := dportTokens_plain h
  unfold validateInputAllowDport at h
  dsimp only at h
  obtain ⟨-, h⟩ := ite_errorf_ok.mp h
  obtain ⟨-, h⟩ := ite_errorf_ok.mp h
  unfold dportCovers
  by_cases hbrace : containsChar (trimSpace d) '{' = true
  · rw [if_pos hbrace] at h
    unfold validateBraceDport at h
    dsimp only at h
    rw [trimSpace_trimSpace] at h
    obtain ⟨hlist, -⟩ := ite_errorf_ok.mp h
    obtain ⟨inner, hinner⟩ := isBraceList_toList (not_not.mp hlist)
    have heq := braceTokens_eq hinner
    rw [dportTokens, if_pos hbrace] at htokens ⊢
    have hchars : ∀ ch ∈ inner, ch ≠ '{' ∧ ch ≠ '}' := by
      refine braceTokens_chars fun q hq _ => ?_
      have hmem : String.ofList q ∈ (split (braceInner (trimSpace d)) ',').map trimSpace := by
        rw [heq]
        exact List.mem_map_of_mem hq
      obtain ⟨m, hm, hok⟩ := htokens _ hmem
      obtain ⟨qs, hqs, -⟩ := plainDport_ok hok
      rw [hm]
      exact ⟨qs, hqs⟩
    rw [trimBraces_list hinner hchars, heq, split, String.toList_ofList, any_tokenCovers_trim]
  · rw [if_neg hbrace] at h
    have hchars := validatePlainDportToken_chars h
    rw [trimSpace_trimSpace] at hchars
    have hplain : ∀ ch ∈ (trimSpace d).toList, ch ≠ '{' ∧ ch ≠ '}' := fun ch hch => (not_comma_or_brace (.inr (hchars ch hch))).2
    have hsplit : split (trimSpace d) ',' = [trimSpace d] := by
      rw [split, splitList_noSep fun ch hch => (not_comma_or_brace (.inr (hchars ch hch))).1, List.map_singleton, String.ofList_toList]
    rw [trimBraces_plain hplain, hsplit, dportTokens, if_neg hbrace]

/-- The ports that the warnings read in an accepted `dport` are those that were checked. -/
theorem dportCovers_iff {d : String} (h : validateInputAllowDport d = .ok ()) (p : Nat) :
    dportCovers d p = true ↔ CheckedPort (trimSpace d) p := by
  rw [dportCovers_tokens h, List.any_eq_true]
  refine exists_congr fun tok => and_congr_right fun htok => ?_
  obtain ⟨m, rfl, hm⟩ := dportTokens_plain h tok htok
  exact tokenCovers_iff hm p

/-- The config names a port as open on the host: in an entry of `input_allows` for TCP that is on, in decimal numbers, or in
`admin_tcp_ports`. -/
def NamesOpen (c : Config) (p : Nat) : Prop :=
  (∃ a ∈ c.inputAllows, a.disabled = false ∧ toLower (trimSpace a.proto) = "tcp" ∧ CheckedPort (trimSpace a.dport) p) ∨
    (p : Int) ∈ c.network.adminTCPPorts

/-- `EqualFold` with `tcp` and the lower case agree on a protocol that `NFTables` can read. -/
theorem equalFold_tcp {a : AllowRule} (h : a.HasProto) : equalFold (trimSpace a.proto) "tcp" = true ↔ toLower (trimSpace a.proto) = "tcp" := by
  unfold equalFold
  rcases h with h | h
  · rw [map_foldChar h (by decide) (by decide), h]
    decide
  · rw [map_foldChar h (by decide) (by decide), h]
    decide

theorem tcpPortAccepted_iff {c : Config} (hc : Checked c) (hknown : InputProtosKnown c) (p : Nat) : tcpPortAccepted c p = true ↔ NamesOpen c p := by
  unfold tcpPortAccepted NamesOpen
  rw [Bool.or_eq_true, List.any_eq_true, List.contains_iff_mem]
  refine or_congr (exists_congr fun a => and_congr_right fun ha => ?_) Iff.rfl
  rw [Bool.and_eq_true, Bool.and_eq_true, Bool.not_eq_true', and_assoc]
  refine and_congr_right fun hd => ?_
  rw [equalFold_tcp (hknown a ha hd), dportCovers_iff (hc.inputAllows a ha hd)]

/-! ## What the warnings are about -/

section warnings

variable {zones : ZoneFiles} {countryISOCodeLower : String → String} {c : Config} {ip : String}

/-- What the message about a port starts with. -/
def portMessage (p : Nat) : String := "No enabled inbound rule allows TCP port " ++ toString p ++ " ("

/-- The warning is about a port. -/
def LockoutWarning.AboutPort (w : LockoutWarning) (p : Nat) : Prop :=
  w.code = "lockout_risk_input_allows" ∧ hasPrefix w.message (portMessage p) = true

/-- The warning is about an address. -/
def LockoutWarning.AboutAddress (w : LockoutWarning) (ip : String) : Prop :=
  w.code ∈ ["lockout_risk_source_deny", "lockout_risk_source_allow", "lockout_risk_geo"] ∧
    ∃ pre post, w.message = pre ++ "your address (" ++ ip ++ ")" ++ post

/-- The address is on none of the lists that the warnings read. -/
structure Unlisted (zones : ZoneFiles) (countryISOCodeLower : String → String) (c : Config) (ip : String) : Prop where
  global : ipv4ContainedInCIDRs ip c.forwarding.sourceDenyCIDRs = false
  denied : ∀ p ∈ activeRoutes c, ipv4ContainedInCIDRs ip p.2.sourceDenyCIDRs = false
  allowed : ∀ p ∈ activeRoutes c, p.2.sourceAllowCIDRs ≠ [] → ipv4ContainedInCIDRs ip p.2.sourceAllowCIDRs = true
  geo : ipv4ContainedInCIDRs ip c.geo.breakGlassCIDRs = true ∨
    ∀ p ∈ activeRoutes c, geoBlocksRoute zones countryISOCodeLower c ip p.2 = false

theorem geoLockoutWarning_none : geoLockoutWarning zones countryISOCodeLower c ip = none ↔
    ipv4ContainedInCIDRs ip c.geo.breakGlassCIDRs = true ∨
      ∀ p ∈ activeRoutes c, geoBlocksRoute zones countryISOCodeLower c ip p.2 = false := by
  unfold geoLockoutWarning
  split
  · rename_i hglass
    exact iff_of_true rfl (.inl hglass)
  · rename_i hglass
    rw [Option.map_eq_none_iff, List.find?_eq_none, or_iff_right hglass]
    simp only [Bool.not_eq_true]

theorem routeLockoutWarnings_nil {i : Nat} {r : ForwardRoute} : routeLockoutWarnings ip i r = [] ↔
    ipv4ContainedInCIDRs ip r.sourceDenyCIDRs = false ∧
      (r.sourceAllowCIDRs ≠ [] → ipv4ContainedInCIDRs ip r.sourceAllowCIDRs = true) := by
  unfold routeLockoutWarnings
  rw [List.append_eq_nil_iff]
  refine and_congr ?_ ?_
  · cases ipv4ContainedInCIDRs ip r.sourceDenyCIDRs <;> simp
  · by_cases hnil : r.sourceAllowCIDRs = []
    · simp [hnil]
    · cases ipv4ContainedInCIDRs ip r.sourceAllowCIDRs <;> simp [hnil]

theorem addressWarnings_nil : addressWarnings zones countryISOCodeLower c ip = [] ↔ Unlisted zones countryISOCodeLower c ip := by
  unfold addressWarnings
  rw [List.append_eq_nil_iff, List.append_eq_nil_iff, List.flatMap_eq_nil_iff, Option.toList_eq_nil_iff, geoLockoutWarning_none]
  simp only [routeLockoutWarnings_nil]
  constructor
  · rintro ⟨⟨hglobal, hroutes⟩, hgeo⟩
    refine ⟨?_, fun p hp => (hroutes p hp).1, fun p hp => (hroutes p hp).2, hgeo⟩
    by_contra hin
    rw [Bool.not_eq_false] at hin
    rw [if_pos hin] at hglobal
    cases hglobal
  · intro h
    refine ⟨⟨?_, fun p hp => ⟨h.denied p hp, h.allowed p hp⟩⟩, h.geo⟩
    rw [h.global]
    rfl

theorem aboutAddress_of_mem {w : LockoutWarning} (hw : w ∈ addressWarnings zones countryISOCodeLower c ip) : w.AboutAddress ip := by
  unfold addressWarnings at hw
  rcases List.mem_append.mp hw with hw | hw
  · rcases List.mem_append.mp hw with hw | hw
    · obtain ⟨-, hw⟩ := mem_ite_list.mp hw
      rw [List.mem_singleton.mp hw]
      exact ⟨by simp, "Global forward denylist includes ", ".", by simp [String.append_assoc]⟩
    · obtain ⟨p, -, hw⟩ := List.mem_flatMap.mp hw
      rcases List.mem_append.mp hw with hw | hw
      · obtain ⟨-, hw⟩ := mem_ite_list.mp hw
        rw [List.mem_singleton.mp hw]
        exact ⟨by simp, "Route " ++ toString p.1 ++ " denylist includes ", ".", by simp [String.append_assoc]⟩
      · obtain ⟨-, hw⟩ := mem_ite_list.mp hw
        rw [List.mem_singleton.mp hw]
        exact ⟨by simp, "Route " ++ toString p.1 ++ " allowlist does not include ", ".", by simp [String.append_assoc]⟩
  · obtain hw := Option.mem_toList.mp hw
    unfold geoLockoutWarning at hw
    split at hw
    · cases hw
    · obtain ⟨p, -, rfl⟩ := Option.map_eq_some_iff.mp hw
      have hparen : ") on route " = ")" ++ " on route " := by decide
      exact ⟨by simp, "Geoblocking may block ",
        " on route " ++ toString p.1 ++ " (" ++ toLower (trimSpace c.geo.mode) ++ " mode).", by
          rw [hparen]
          simp only [String.append_assoc]
          rfl⟩

/-- The number after a common text is the same in a text and in what it starts with. -/
theorem number_of_prefix {pre rest : String} {p q : Nat}
    (h : hasPrefix (pre ++ toString q ++ " (" ++ rest) (pre ++ toString p ++ " (") = true) : p = q := by
  obtain ⟨cs, hcs⟩ := List.isPrefixOf_iff_prefix.mp h
  have hopen : " (".toList = ' ' :: ['('] := by decide
  simp only [String.toList_append, List.append_assoc, hopen, List.cons_append] at hcs
  exact numeral_inj (by decide) (List.append_cancel_left hcs)

theorem portWarning_about {t : Nat × String} {p : Nat} : (portWarning t).AboutPort p ↔ p = t.1 := by
  have hmessage : (portWarning t).message = portMessage t.1 ++ (t.2 ++ ") in this config; new connections to it would be dropped.") :=
    String.append_assoc ..
  constructor
  · rintro ⟨-, hpre⟩
    rw [hmessage] at hpre
    exact number_of_prefix hpre
  · rintro rfl
    refine ⟨rfl, ?_⟩
    rw [hmessage, hasPrefix, String.toList_append]
    exact List.isPrefixOf_iff_prefix.mpr (List.prefix_append _ _)

/-- The ports of a client: that of SSH, that of the admin UI and that of its own connection. -/
def ClientIPInfo.ports (client : ClientIPInfo) : List Nat :=
  [lockoutSSHPort, lockoutUIPort] ++ if client.connPort = 0 then [] else [client.connPort]

theorem mem_lockoutTargets {client : ClientIPInfo} {p : Nat} (hp : p ∈ client.ports) : ∃ t ∈ lockoutTargets client.connPort, t.1 = p := by
  unfold ClientIPInfo.ports at hp
  unfold lockoutTargets
  dsimp only
  by_cases hzero : client.connPort = 0
  · rw [if_pos hzero, List.append_nil] at hp
    rw [if_pos hzero]
    obtain ⟨t, ht, rfl⟩ := List.mem_map.mp (show p ∈ [(lockoutSSHPort, "SSH"), (lockoutUIPort, "admin UI")].map Prod.fst from hp)
    exact ⟨t, ht, rfl⟩
  · rw [if_neg hzero] at hp ⊢
    have hlabels : ([(lockoutSSHPort, "SSH"), (lockoutUIPort, "admin UI")].map fun t : Nat × String =>
        if t.1 = client.connPort then (t.1, t.2 ++ ", your current connection") else t).map Prod.fst = [lockoutSSHPort, lockoutUIPort] := by
      rw [List.map_map, List.map_congr_left (g := Prod.fst) fun t _ => by simp only [Function.comp_apply]; split <;> rfl]
      rfl
    by_cases hknown : p ∈ [lockoutSSHPort, lockoutUIPort]
    · rw [← hlabels] at hknown
      obtain ⟨t, ht, rfl⟩ := List.mem_map.mp hknown
      exact ⟨t, List.mem_append_left _ ht, rfl⟩
    · obtain rfl : p = client.connPort := by
        rcases List.mem_append.mp hp with hp | hp
        · exact absurd hp hknown
        · exact List.mem_singleton.mp hp
      refine ⟨(client.connPort, "your current connection"), List.mem_append_right _ ?_, rfl⟩
      simp only [List.mem_cons, List.not_mem_nil, or_false, not_or] at hknown
      rw [if_pos (by simp [Ne.symm hknown.1, Ne.symm hknown.2])]
      exact List.mem_singleton_self _

/-- There is a warning about a port just when the applied config names it as open and the new one does not. -/
theorem portWarned_iff {applied : Config} {client : ClientIPInfo} {p : Nat} (hc : Checked c) (hknown : InputProtosKnown c)
    (hc' : Checked applied) (hknown' : InputProtosKnown applied) (hp : p ∈ client.ports) :
    (∃ w ∈ inputAllowLockoutWarnings c (some applied) client.connPort, w.AboutPort p) ↔ NamesOpen applied p ∧ ¬NamesOpen c p := by
  unfold inputAllowLockoutWarnings
  simp only [List.mem_map, List.mem_filter, Option.any_some, Bool.not_eq_true', Bool.or_eq_false_iff, Bool.not_eq_false']
  rw [← tcpPortAccepted_iff hc hknown, ← tcpPortAccepted_iff hc' hknown', Bool.not_eq_true, and_comm]
  constructor
  · rintro ⟨_, ⟨t, ⟨-, hnew, hold⟩, rfl⟩, habout⟩
    rw [portWarning_about.mp habout]
    exact ⟨hnew, hold⟩
  · rintro ⟨hnew, hold⟩
    obtain ⟨t, ht, rfl⟩ := mem_lockoutTargets hp
    exact ⟨_, ⟨t, ⟨ht, hnew, hold⟩, rfl⟩, portWarning_about.mpr rfl⟩

end warnings

/-! ## The check -/

/-- The packet opens a TCP connection from an address to a port. -/
structure Opening (k : Packet) (x p : Nat) : Prop where
  src : k.src = x
  dport : k.dport = p
  proto : k.proto = .tcp
  new : k.ct = .new

/-- A change of rulesets that shuts a client out of a port comes with a warning of a lockout about that port or about the client's
address. -/
def LockoutWarned (s s' : Script) (h h' : Host) (client : ClientIPInfo) (x : Nat) (warnings : List LockoutWarning) : Prop :=
  ∀ p ∈ client.ports, ∀ k, Opening k x p → verdict h k (inputRules s) = some .accept → verdict h' k (inputRules s') ≠ some .accept →
    ∃ w ∈ warnings, hasPrefix w.code "lockout_risk_" = true ∧ (w.AboutPort p ∨ w.AboutAddress (trimSpace client.ip))

/-- Of a port that the applied config lets a client in at, whose address is on none of the lists: if the new config names the port, it lets
the client in as well, and if it does not, the applied config named it, or the new one lets the client in through the rules of a route. -/
def NamedRight (zones : ZoneFiles) (countryISOCodeLower : String → String) (applied c : Config) (h h' : Host) (client : ClientIPInfo)
    (x : Nat) : Prop :=
  ∀ p ∈ client.ports, ∀ k, Opening k x p → k.iif ≠ "lo" → Unlisted zones countryISOCodeLower c (trimSpace client.ip) → LetsIn applied h k →
    (NamesOpen c p → LetsIn c h' k) ∧ (¬NamesOpen c p → NamesOpen applied p ∨ LetsIn c h' k)

/-- The warnings about a port or an address, out of all. -/
theorem warned_iff {host : ConfigHost} {zones : ZoneFiles} {countryISOCodeLower : String → String} {applied c : Config}
    {client : ClientIPInfo} {p : Nat} {fromDraft : Bool} (hc : Checked c.normalize) (hknown : InputProtosKnown c.normalize)
    (hc' : Checked applied) (hknown' : InputProtosKnown applied) (hip : trimSpace client.ip ≠ "") (hp : p ∈ client.ports) :
    (∃ w ∈ (validateConfigWithWarnings host zones countryISOCodeLower c (some applied) client fromDraft).warnings,
      hasPrefix w.code "lockout_risk_" = true ∧ (w.AboutPort p ∨ w.AboutAddress (trimSpace client.ip))) ↔
    ¬Unlisted zones countryISOCodeLower c.normalize (trimSpace client.ip) ∨ NamesOpen applied p ∧ ¬NamesOpen c.normalize p := by
  rw [← portWarned_iff hc hknown hc' hknown' hp, ← addressWarnings_nil]
  have hne : client.ip ≠ "" := by
    intro hnil
    rw [hnil] at hip
    exact hip (by decide)
  have hwarnings : (validateConfigWithWarnings host zones countryISOCodeLower c (some applied) client fromDraft).warnings =
      lockoutWarnings zones countryISOCodeLower c.normalize client.ip ++
        inputAllowLockoutWarnings c.normalize (some applied) client.connPort := by
    rw [validateConfigWithWarnings, validateConfig]
    simp only [if_neg hne, List.append_nil]
  have hrisk : ∀ code ∈ ["lockout_risk_source_deny", "lockout_risk_source_allow", "lockout_risk_geo", "lockout_risk_input_allows"],
      hasPrefix code "lockout_risk_" = true := by decide
  rw [hwarnings]
  constructor
  · rintro ⟨w, hw, -, habout⟩
    rcases List.mem_append.mp hw with hw | hw
    · unfold lockoutWarnings at hw
      dsimp only at hw
      rw [if_neg hip] at hw
      rcases List.mem_append.mp hw with hw | hw
      · obtain ⟨-, hw⟩ := mem_ite_list.mp hw
        rw [List.mem_singleton.mp hw] at habout
        rcases habout with habout | habout
        · exact absurd habout.1 (by simp)
        · exact absurd habout.1 (by simp)
      · exact .inl (List.ne_nil_of_mem hw)
    · rcases habout with habout | habout
      · exact .inr ⟨w, hw, habout⟩
      · unfold inputAllowLockoutWarnings at hw
        obtain ⟨t, -, rfl⟩ := List.mem_map.mp hw
        exact absurd habout.1 (by simp [portWarning])
  · rintro (hne | ⟨w, hw, habout⟩)
    · obtain ⟨w, hw⟩ := List.exists_mem_of_ne_nil _ hne
      have habout := aboutAddress_of_mem hw
      refine ⟨w, List.mem_append_left _ ?_, hrisk _ (List.mem_append_left _ habout.1), .inr habout⟩
      unfold lockoutWarnings
      dsimp only
      rw [if_neg hip]
      exact List.mem_append_right _ hw
    · exact ⟨w, List.mem_append_right _ hw, hrisk _ (by rw [habout.1]; simp), .inl habout⟩

/-- Where one thing is warned of, and another too unless it is missed, is where nothing is missed. -/
theorem warned_or_missed {old new unlisted named named' : Prop} : (old → ¬new → ¬unlisted ∨ named ∧ ¬named') ↔
    (unlisted → old → (named' → new) ∧ (¬named' → named ∨ new)) := by
  tauto

/-- A change of rulesets that shuts a client out comes with a warning just when the ports that the new config names let the client in. -/
theorem lockoutWarned_iff {applied c : Config} {ord ord' : MapOrder} {s s' : Script} (hv : applied.validate = .ok ())
    (hs : rulesetScript applied ord [] = .ok s) (hv' : c.normalize.validate = .ok ()) (hs' : rulesetScript c.normalize ord' [] = .ok s')
    {client : ClientIPInfo} {x : Nat} (hip : (parseIP (trimSpace client.ip)).bind Addr.to4 = some x) (host : ConfigHost)
    (zones : ZoneFiles) (countryISOCodeLower : String → String) (fromDraft : Bool) (h h' : Host) :
    LockoutWarned s s' h h' client x
        (validateConfigWithWarnings host zones countryISOCodeLower c (some applied) client fromDraft).warnings ↔
      NamedRight zones countryISOCodeLower applied c.normalize h h' client x := by
  have hc := Config.checked hv
  have hc' := Config.checked hv'
  have hne : trimSpace client.ip ≠ "" := by
    intro hnil
    have hnone : parseIP "" = none := by decide
    rw [hnil, hnone] at hip
    cases hip
  unfold LockoutWarned NamedRight
  refine forall_congr' fun p => forall_congr' fun hp => forall_congr' fun k => forall_congr' fun hk => ?_
  rw [warned_iff hc' (hc'.renders.mp ⟨s', hs'⟩) hc (hc.renders.mp ⟨s, hs⟩) hne hp, Ne, hc.inputRules_accept hs hk.proto hk.new,
    hc'.inputRules_accept hs' hk.proto hk.new]
  by_cases hlo : k.iif = "lo"
  · exact iff_of_true (fun _ hno => absurd (.inl hlo) hno) fun hout => absurd hlo hout
  · rw [or_iff_right hlo, or_iff_right hlo, warned_or_missed, forall_prop_of_true hlo]

/-! ## A lockout that no warning is about -/

/-- A config that has SSH open, with the countries given. -/
def sshConfig (geo : Geo) : Config where
  wireGuard := { interface := "wg0", listenPort := 51820, privateKeyFile := "/k", address := "10.0.0.1/24" }
  network := { publicInterface := "eth0" }
  geo := geo
  inputAllows := [{ proto := "tcp", dport := "22" }]

/-- One country is let in, and the entries of `input_allows` are for it alone. -/
def geoOnInput : Geo :=
  { enabled := true, mode := "allow", setName := "geo_v4", countries := ["se"], zoneDir := "/zones", applyToInputAllows := true }

/-- A network of that country is in the set. -/
def geoHost : Host where
  inSet s x := s == "geo_v4" && addrHas "198.51.100.0/24" x
  limited _ _ := false

/-- A client from another network. -/
def sshClient : ClientIPInfo := { ip := "203.0.113.5", source := "direct", connPort := 22 }

/-- Nothing is missing on the host. -/
def quietHost : ConfigHost := { order := {}, wireGuardError := fun _ => none, nftError := fun _ => none }

def geoZones : ZoneFiles := fun _ _ => some "198.51.100.0/24"

theorem sshConfig_renders (geo : Geo) (hv : (sshConfig geo).validate = .ok ()) : ∃ s, rulesetScript (sshConfig geo) {} [] = .ok s :=
  (Config.checked hv).renders.mpr fun a ha _ => by
    rw [List.mem_singleton.mp ha]
    decide

theorem lockoutWarned_iff_sample : ∃ s s', rulesetScript (sshConfig geoOnInput) {} [] = .ok s ∧
    rulesetScript (sshConfig {}).normalize {} [] = .ok s' ∧
    (LockoutWarned s s' geoHost geoHost sshClient 0xCB007105
      (validateConfigWithWarnings quietHost geoZones (fun _ => "") (sshConfig {}) (some (sshConfig geoOnInput)) sshClient false).warnings ↔
    NamedRight geoZones (fun _ => "") (sshConfig geoOnInput) (sshConfig {}).normalize geoHost geoHost sshClient 0xCB007105) := by
  have hnormal : (sshConfig {}).normalize = sshConfig {} := by decide +kernel
  obtain ⟨s, hs⟩ := sshConfig_renders geoOnInput (by decide +kernel)
  obtain ⟨s', hs'⟩ := sshConfig_renders {} (by decide +kernel)
  rw [← hnormal] at hs'
  exact ⟨s, s', hs, hs', lockoutWarned_iff (by decide +kernel) hs (by decide +kernel) hs' (by decide +kernel) quietHost geoZones (fun _ => "")
    false geoHost geoHost⟩

/-- Geo comes to apply to the entry for SSH, the client is of another country, and there is no warning at all. -/
theorem ssh_lost_unwarned : (sshConfig {}).validate = .ok () ∧ (sshConfig geoOnInput).normalize.validate = .ok () ∧
    ∃ s s', rulesetScript (sshConfig {}) {} [] = .ok s ∧ rulesetScript (sshConfig geoOnInput).normalize {} [] = .ok s' ∧
      (validateConfigWithWarnings quietHost geoZones (fun _ => "") (sshConfig geoOnInput) (some (sshConfig {})) sshClient false).warnings = [] ∧
      ¬LockoutWarned s s' geoHost geoHost sshClient 0xCB007105
        (validateConfigWithWarnings quietHost geoZones (fun _ => "") (sshConfig geoOnInput) (some (sshConfig {})) sshClient false).warnings := by
  have hv : (sshConfig {}).validate = .ok () := by decide +kernel
  have hnormal : (sshConfig geoOnInput).normalize = sshConfig geoOnInput := by decide +kernel
  have hv' : (sshConfig geoOnInput).validate = .ok () := by decide +kernel
  obtain ⟨s, hs⟩ := sshConfig_renders {} hv
  obtain ⟨s', hs'⟩ := sshConfig_renders geoOnInput hv'
  have hnone : (validateConfigWithWarnings quietHost geoZones (fun _ => "") (sshConfig geoOnInput) (some (sshConfig {})) sshClient
      false).warnings = [] := by decide +kernel
  rw [hnormal]
  refine ⟨hv, hv', s, s', hs, hs', hnone, fun hwarned => ?_⟩
  let k : Packet := { iif := "eth0", oif := "", src := 0xCB007105, dst := 0, proto := .tcp, dport := 22, origDport := 22, ct := .new, syn := true }
  have hopens : [({ proto := "tcp", dport := "22" } : AllowRule)].any (AllowRule.opens .tcp 22) = true := by decide +kernel
  have hentry : ∀ geo, (sshConfig geo).inputAllows.any (AllowRule.opens .tcp k.dport) = true := fun _ => hopens
  have hin : LetsIn (sshConfig {}) geoHost k := ⟨fun _ => rfl, fun hno => absurd (hentry {}) (by rw [hno]; exact Bool.false_ne_true)⟩
  have hout : ¬LetsIn (sshConfig geoOnInput) geoHost k := fun h => absurd (h.entry (hentry geoOnInput)) (by decide +kernel)
  obtain ⟨w, hw, -⟩ := hwarned 22 (by decide) k ⟨rfl, rfl, rfl, rfl⟩
    (((Config.checked hv).inputRules_accept hs rfl rfl).mpr (.inr hin)) fun haccept => by
      rcases ((Config.checked hv').inputRules_accept hs' rfl rfl).mp haccept with hlo | h
      · exact absurd hlo (by decide)
      · exact hout h
  rw [hnone] at hw
  cases hw

end EvuProxy
