import EvuProxy.Config.Valid
import EvuProxy.Go.Dotted
import EvuProxy.Go.Lexical

/-!
# The words of an accepted config

A word of the config that stands in the ruleset is embedded as it is: the check that accepted it accepts it without trimming, and no
character of it ends a rule or a quoted word.
-/

namespace EvuProxy

open Go

/-! ## Embedded words -/

/-- A character that ends a rule or a quoted word, or turns the rest of a line into a comment. -/
def breaks (c : Char) : Bool := "\n\r;\"'#\\".toList.contains c

/-- A word that stands in the ruleset as its check accepts it. -/
structure Embedded (accepts : String → Prop) (t : String) : Prop where
  trimmed : Trimmed t
  accepted : accepts t
  inert : ∀ ch ∈ t.toList, breaks ch = false

theorem breaks_eq_true {ch : Char} (h : breaks ch = true) :
    ch = '\n' ∨ ch = '\r' ∨ ch = ';' ∨ ch = '"' ∨ ch.toNat = 39 ∨ ch = '#' ∨ ch = '\\' := by
  have hlist : "\n\r;\"'#\\".toList = ['\n', '\r', ';', '"', Char.ofNat 39, '#', '\\'] := by decide
  unfold breaks at h
  rw [hlist, List.contains_iff_mem] at h
  simp only [List.mem_cons, List.not_mem_nil, or_false] at h
  rcases h with h | h | h | h | h | h | h
  · exact .inl h
  · exact .inr (.inl h)
  · exact .inr (.inr (.inl h))
  · exact .inr (.inr (.inr (.inl h)))
  · exact .inr (.inr (.inr (.inr (.inl (h ▸ rfl)))))
  · exact .inr (.inr (.inr (.inr (.inr (.inl h)))))
  · exact .inr (.inr (.inr (.inr (.inr (.inr h)))))

/-- The characters that a class holds do not break a rule, if none of the seven that do is in the class. -/
theorem not_breaks_of (good : Char → Bool) (hgood : ("\n\r;\"'#\\".toList.all fun ch => !good ch) = true) {ch : Char}
    (h : good ch = true) : breaks ch = false := by
  by_contra hb
  have hmem : ch ∈ "\n\r;\"'#\\".toList := List.contains_iff_mem.mp (Bool.not_eq_false _ ▸ hb)
  have hnot := List.all_eq_true.mp hgood ch hmem
  rw [h] at hnot
  exact absurd hnot (by decide)

/-- A word all of whose characters are of a class without white space. -/
theorem embedded_of {accepts : String → Prop} {t : String} (good : Char → Bool)
    (hgood : ("\n\r;\"'#\\".toList.all fun ch => !good ch) = true) (hspace : ∀ ch, good ch = true → isSpace ch = false)
    (ht : ∀ ch ∈ t.toList, good ch = true) (h : accepts t) : Embedded accepts t where
  trimmed := trimmed_of_noSpace fun ch hch => hspace ch (ht ch hch)
  accepted := h
  inert ch hch := not_breaks_of good hgood (ht ch hch)

/-! ## Names -/

/-- A character of the name of an interface. -/
def ifaceChar (c : Char) : Bool := isLetter c || isDigit c || c == '.' || c == '_' || c == '-'

theorem validLinuxIface_chars {n : String} (h : validLinuxIface n = .ok ()) : ∀ ch ∈ (trimSpace n).toList, ifaceChar ch = true := by
  unfold validLinuxIface at h
  dsimp only at h
  split at h
  · rename_i hall
    exact List.all_eq_true.mp hall.2.2
  · cases h

/-- An accepted name of an interface is embedded as it is exactly when no white space is around it. -/
theorem iface_embedded {n : String} (h : validLinuxIface n = .ok ()) (ht : Trimmed n) : Embedded (validLinuxIface · = .ok ()) n where
  trimmed := ht
  accepted := h
  inert ch hch := by
    have hchars := validLinuxIface_chars h
    rw [show trimSpace n = n from ht] at hchars
    exact not_breaks_of ifaceChar (by decide) (hchars ch hch)

/-- A character of the name of a set. -/
def setChar (c : Char) : Bool := isLetter c || c == '_' || isDigit c

theorem isSpace_ascii {c : Char} (h : 0x20 < c.toNat) (h' : c.toNat < 0x80) : isSpace c = false := by
  unfold isSpace
  simp only [Bool.or_eq_false_iff, Bool.and_eq_false_iff, decide_eq_false_iff_not, beq_eq_false_iff_ne]
  omega

theorem char_le {a b : Char} : a ≤ b ↔ a.toNat ≤ b.toNat := by
  rw [Char.le_def, UInt32.le_iff_toNat_le]
  rfl

theorem isDigit_space {c : Char} (h : isDigit c = true) : isSpace c = false := by
  unfold isDigit at h
  simp only [Bool.and_eq_true, decide_eq_true_eq, char_le] at h
  exact isSpace_ascii (lt_of_lt_of_le (by decide) h.1) (lt_of_le_of_lt h.2 (by decide))

theorem trimSpace_ipv4String (a : Nat) : trimSpace (ipv4String a) = ipv4String a := by
  refine trimmed_of_noSpace fun ch hch => ?_
  rcases ipv4String_chars a ch hch with hd | rfl
  · exact isDigit_space hd
  · decide

theorem isLetter_space {c : Char} (h : isLetter c = true) : isSpace c = false := by
  unfold isLetter at h
  simp only [Bool.or_eq_true, Bool.and_eq_true, decide_eq_true_eq, char_le] at h
  rcases h with h | h
  · exact isSpace_ascii (lt_of_lt_of_le (by decide) h.1) (lt_of_le_of_lt h.2 (by decide))
  · exact isSpace_ascii (lt_of_lt_of_le (by decide) h.1) (lt_of_le_of_lt h.2 (by decide))

theorem setChar_space {c : Char} (h : setChar c = true) : isSpace c = false := by
  unfold setChar at h
  simp only [Bool.or_eq_true, beq_iff_eq] at h
  rcases h with (h | rfl) | h
  · exact isLetter_space h
  · decide
  · exact isDigit_space h

theorem addrChar_space {c : Char} (h : addrChar c = true) : isSpace c = false := by
  unfold addrChar at h
  simp only [Bool.or_eq_true, Bool.and_eq_true, decide_eq_true_eq, char_le, beq_iff_eq] at h
  rcases h with ((((h | h) | h) | rfl) | rfl) | rfl
  · exact isDigit_space h
  · exact isSpace_ascii (lt_of_lt_of_le (by decide) h.1) (lt_of_le_of_lt h.2 (by decide))
  · exact isSpace_ascii (lt_of_lt_of_le (by decide) h.1) (lt_of_le_of_lt h.2 (by decide))
  all_goals decide

/-- A name that starts with a letter or an underscore, and goes on with these and digits. -/
theorem set_embedded {n : String} {ch : Char} {cs : List Char} (hn : n.toList = ch :: cs) (hhead : (isLetter ch || ch == '_') = true)
    (hrest : ∀ d ∈ cs, setChar d = true) : Embedded (validNFTSetName · = .ok ()) n := by
  have hchars : ∀ d ∈ n.toList, setChar d = true := by
    intro d hd
    rw [hn] at hd
    rcases List.mem_cons.mp hd with rfl | hd
    · simp [setChar, hhead]
    · exact hrest d hd
  refine embedded_of setChar (by decide) (fun _ => setChar_space) hchars ?_
  have htrim : trimSpace n = n := trimmed_of_noSpace fun d hd => setChar_space (hchars d hd)
  unfold validNFTSetName
  dsimp only
  rw [htrim, hn]
  have hall : cs.all (fun c => isLetter c || c == '_' || isDigit c) = true := List.all_eq_true.mpr hrest
  simp only [hhead, hall, Bool.and_self, if_true]

theorem validNFTSetName_embedded {n : String} (h : validNFTSetName n = .ok ()) (ht : Trimmed n) :
    Embedded (validNFTSetName · = .ok ()) n := by
  unfold validNFTSetName at h
  dsimp only at h
  rw [show trimSpace n = n from ht] at h
  split at h
  · rename_i ch cs hn
    split at h
    · rename_i hall
      simp only [Bool.and_eq_true] at hall
      exact set_embedded hn hall.1 (List.all_eq_true.mp hall.2)
    · cases h
  · cases h

/-! ## Addresses -/

theorem isIPv4OrCIDR_chars {s : String} (h : isIPv4OrCIDR s = true) : ∀ ch ∈ s.toList, addrChar ch = true := by
  unfold isIPv4OrCIDR at h
  split at h
  · obtain ⟨p, hp, _⟩ := Option.bind_eq_some_iff.mp (Option.isSome_iff_exists.mp h).choose_spec
    exact parseCIDR_chars hp
  · obtain ⟨p, hp, _⟩ := Option.bind_eq_some_iff.mp (Option.isSome_iff_exists.mp h).choose_spec
    exact parseIP_chars hp

theorem addr_embedded {s : String} (h : isIPv4OrCIDR s = true) : Embedded (isIPv4OrCIDR · = true) s :=
  embedded_of addrChar (by decide) (fun _ => addrChar_space) (isIPv4OrCIDR_chars h) h

/-- The entries of an accepted list of sources. -/
theorem validateSourceCIDRs_ok {path : String} {cidrs : List String} (h : validateSourceCIDRs path cidrs = .ok ()) :
    ∀ s ∈ cidrs, isIPv4OrCIDR (trimSpace s) = true := by
  intro s hs
  unfold validateSourceCIDRs at h
  rw [if_neg (List.ne_nil_of_mem hs)] at h
  obtain ⟨_, h⟩ := ite_errorf_ok.mp h
  have hone := forIdx_ok_mem.mp h s hs
  dsimp only at hone
  obtain ⟨_, hone⟩ := ite_errorf_ok.mp hone
  by_contra hno
  rw [if_neg hno] at hone
  split at hone <;> cases hone

/-! ## Ports -/

/-- An entry of `ports` that `ExpandRoutePortNumbers` reads as one port or more. -/
def RoutePorts (t : String) : Prop := portTokens [t] ≠ [] ∧ ∀ tok ∈ portTokens [t], ∃ ps, expandPortToken tok = .ok ps

/-- What the check of a port expression accepts: that of `input_allows`, that of `ports`, or that of `port_maps`. -/
def AcceptsPort (t : String) : Prop :=
  validateInputAllowDport t = .ok () ∨ RoutePorts t ∨ validatePlainDportToken t = .ok ()

/-- A character of a port expression. -/
def portChar (c : Char) : Bool := isSpace c || numChar c || c == '{' || c == '}' || c == ','

theorem portTokens_singleton {t : String} : portTokens [t] = if trimSpace t = "" then []
    else if isBraceList (trimSpace t) then ((split (braceInner (trimSpace t)) ',').map trimSpace).filter (· ≠ "") else [trimSpace t] := by
  unfold portTokens
  rw [List.flatMap_cons, List.flatMap_nil, List.append_nil]

/-- The characters of a list in braces are those of its parts, commas, white space and the braces. -/
theorem braceList_chars {t : String} (h : isBraceList t = true) (hparts : ∀ part ∈ split (braceInner t) ',', ∀ ch ∈ part.toList, portChar ch = true) :
    ∀ ch ∈ t.toList, portChar ch = true := by
  have hinner : ∀ ch ∈ t.toList.tail.dropLast, portChar ch = true := by
    intro ch hch
    rcases @mem_trimSpace_or (String.ofList t.toList.tail.dropLast) ch (by rwa [String.toList_ofList]) with hs | hch
    · simp [portChar, hs]
    · rcases @mem_split (braceInner t) ',' ch hch with rfl | ⟨part, hpart, hch⟩
      · decide
      · exact hparts part hpart ch hch
  unfold isBraceList hasPrefix hasSuffix at h
  obtain ⟨hpre, hsuf⟩ := Bool.and_eq_true_iff.mp h
  obtain ⟨xs, hxs⟩ := List.isPrefixOf_iff_prefix.mp hpre
  obtain ⟨ys, hys⟩ := List.isSuffixOf_iff_suffix.mp hsuf
  have hopen : "\x7b".toList = ['{'] := by decide
  have hclose : "\x7d".toList = ['}'] := by decide
  rw [hopen, List.singleton_append] at hxs
  rw [hclose] at hys
  rw [← hxs, List.tail_cons] at hinner
  intro ch hch
  rw [← hxs] at hch
  rcases List.mem_cons.mp hch with rfl | hch
  · decide
  · have hne := List.ne_nil_of_mem hch
    rw [← List.dropLast_append_getLast hne, List.mem_append, List.mem_singleton] at hch
    rcases hch with hch | rfl
    · exact hinner ch hch
    · have hlast : (t.toList).getLast? = some '}' := by rw [← hys, List.getLast?_concat]
      rw [← hxs, List.getLast?_cons_of_ne_nil hne, List.getLast?_eq_some_getLast hne] at hlast
      rw [Option.some.inj hlast]
      decide

theorem expandPortToken_chars {tok : String} {ps : List Nat} (h : expandPortToken tok = .ok ps) :
    ∀ ch ∈ tok.toList, isSpace ch = true ∨ numChar ch = true := by
  have hnum : ∀ {s : String} {n : Int}, atoi (trimSpace s) = some n → ∀ ch ∈ s.toList, isSpace ch = true ∨ numChar ch = true :=
    fun hs ch hch => (mem_trimSpace_or hch).imp id (atoi_chars hs ch)
  unfold expandPortToken at h
  dsimp only at h
  obtain ⟨_, h⟩ := ite_errorf_ok.mp h
  intro ch hch
  rcases mem_trimSpace_or hch with hs | hch
  · exact .inl hs
  · split at h
    · rename_i lo hi hcut
      split at h
      · rename_i a b ha hb
        rcases mem_cut hcut hch with hlo | rfl | hhi
        · exact hnum ha ch hlo
        · exact .inr rfl
        · exact hnum hb ch hhi
      · cases h
    · split at h
      · cases h
      · rename_i n hn
        exact .inr (atoi_chars hn ch hch)

/-- The characters of an entry whose tokens are accepted. -/
theorem portTokens_chars {t : String} (ht : Trimmed t) (hall : ∀ tok ∈ portTokens [t], ∃ ps, expandPortToken tok = .ok ps) :
    ∀ ch ∈ t.toList, portChar ch = true := by
  rw [portTokens_singleton, show trimSpace t = t from ht] at hall
  have htok : ∀ {tok : String} {ps : List Nat}, expandPortToken tok = .ok ps → ∀ ch ∈ tok.toList, portChar ch = true := by
    intro tok ps htok ch hch
    rcases expandPortToken_chars htok ch hch with hs | hn
    · simp [portChar, hs]
    · simp [portChar, hn]
  by_cases hempty : t = ""
  · rw [hempty]
    exact fun _ hch => absurd hch List.not_mem_nil
  · rw [if_neg hempty] at hall
    by_cases hbrace : isBraceList t = true
    · rw [if_pos hbrace] at hall
      refine braceList_chars hbrace fun part hpart ch hch => ?_
      rcases mem_trimSpace_or hch with hs | hch
      · simp [portChar, hs]
      · have hpart_ne : trimSpace part ≠ "" := by
          intro he
          rw [he] at hch
          exact absurd hch List.not_mem_nil
        obtain ⟨ps, hps⟩ := hall (trimSpace part) (List.mem_filter.mpr ⟨List.mem_map_of_mem hpart, by simpa using hpart_ne⟩)
        exact htok hps ch hch
    · rw [if_neg hbrace] at hall
      obtain ⟨ps, hps⟩ := hall t List.mem_cons_self
      exact htok hps

/-- The characters of an entry of `ports`. -/
theorem RoutePorts.chars {t : String} (ht : Trimmed t) (h : RoutePorts t) : ∀ ch ∈ t.toList, portChar ch = true :=
  portTokens_chars ht h.2

/-- A port expression on one line does not break a rule. -/
theorem not_breaks_port {ch : Char} (h : portChar ch = true) (hnl : ch ≠ '\n') (hcr : ch ≠ '\r') : breaks ch = false := by
  by_contra hb
  rcases breaks_eq_true (Bool.not_eq_false _ ▸ hb) with rfl | rfl | rfl | rfl | hch | rfl | rfl
  · exact hnl rfl
  · exact hcr rfl
  · exact absurd h (by decide)
  · exact absurd h (by decide)
  · have hchar : ch = Char.ofNat 39 := Char.toNat_inj.mp hch
    rw [hchar] at h
    exact absurd h (by decide)
  · exact absurd h (by decide)
  · exact absurd h (by decide)

theorem parsePort_chars {s : String} {n : Nat} (h : parsePort s = .ok n) : ∀ ch ∈ s.toList, numChar ch = true := by
  unfold parsePort at h
  obtain ⟨hno, _⟩ := ite_errorf_ok.mp h
  push Not at hno
  intro ch hch
  simp [numChar, List.all_eq_true.mp hno.2.2 ch hch]

theorem validatePlainDportToken_chars {t : String} (h : validatePlainDportToken t = .ok ()) :
    ∀ ch ∈ (trimSpace t).toList, numChar ch = true := by
  unfold validatePlainDportToken at h
  dsimp only at h
  obtain ⟨_, h⟩ := ite_errorf_ok.mp h
  obtain ⟨_, h⟩ := ite_errorf_ok.mp h
  intro ch hch
  split at h
  · obtain ⟨n, hn, _⟩ := bind_ok.mp h
    exact parsePort_chars hn ch hch
  · rename_i lo hi hcut
    obtain ⟨a, ha, h⟩ := bind_ok.mp h
    obtain ⟨b, hb, _⟩ := bind_ok.mp h
    rcases mem_cut hcut hch with hch | rfl | hch
    · exact parsePort_chars ha ch hch
    · rfl
    · exact parsePort_chars hb ch hch

theorem validateInputAllowDport_chars {t : String} (h : validateInputAllowDport t = .ok ()) :
    ∀ ch ∈ (trimSpace t).toList, portChar ch = true ∧ ch ≠ '\n' ∧ ch ≠ '\r' := by
  have hplain : ∀ {t : String}, validatePlainDportToken t = .ok () → ∀ ch ∈ (trimSpace t).toList, portChar ch = true :=
    fun ht ch hch => by simp [portChar, validatePlainDportToken_chars ht ch hch]
  unfold validateInputAllowDport at h
  dsimp only at h
  obtain ⟨_, h⟩ := ite_errorf_ok.mp h
  obtain ⟨hclean, h⟩ := ite_errorf_ok.mp h
  have hline : ∀ ch ∈ (trimSpace t).toList, ch ≠ '\n' ∧ ch ≠ '\r' := by
    intro ch hch
    have hnot : ¬("\n\r;\"'`!$&|".toList.contains ch) = true := fun hb => hclean (List.any_eq_true.mpr ⟨ch, hch, hb⟩)
    refine ⟨fun he => hnot ?_, fun he => hnot ?_⟩
    · rw [he]
      decide
    · rw [he]
      decide
  intro ch hch
  refine ⟨?_, hline ch hch⟩
  split at h
  · unfold validateBraceDport at h
    dsimp only at h
    rw [trimSpace_trimSpace] at h
    obtain ⟨hbrace, h⟩ := ite_errorf_ok.mp h
    obtain ⟨_, h⟩ := ite_errorf_ok.mp h
    refine braceList_chars (not_not.mp hbrace) (fun part hpart c hc => ?_) ch hch
    have hone := forIdx_ok_mem.mp h part hpart
    obtain ⟨_, hone⟩ := ite_errorf_ok.mp hone
    obtain ⟨_, hone⟩ := ite_errorf_ok.mp hone
    rcases mem_trimSpace_or hc with hs | hc
    · simp [portChar, hs]
    · rw [← trimSpace_trimSpace] at hc
      exact hplain hone c hc
  · have := hplain h ch
    rw [trimSpace_trimSpace] at this
    exact this hch

/-! ## Embedded port expressions -/

/-- A text on one line. -/
def OneLine (t : String) : Prop := '\n' ∉ t.toList ∧ '\r' ∉ t.toList

instance (t : String) : Decidable (OneLine t) := inferInstanceAs (Decidable (_ ∧ _))

theorem inputAllow_embedded {t : String} (h : validateInputAllowDport t = .ok ()) : Embedded AcceptsPort (trimSpace t) where
  trimmed := trimmed_trimSpace t
  accepted := by
    refine .inl ?_
    unfold validateInputAllowDport at h ⊢
    rwa [trimSpace_trimSpace]
  inert ch hch := by
    obtain ⟨hport, hnl, hcr⟩ := validateInputAllowDport_chars h ch hch
    exact not_breaks_port hport hnl hcr

theorem routePorts_embedded {t : String} (ht : Trimmed t) (h : RoutePorts t) (hline : OneLine t) : Embedded AcceptsPort t where
  trimmed := ht
  accepted := .inr (.inl h)
  inert ch hch := not_breaks_port (h.chars ht ch hch) (fun he => hline.1 (he ▸ hch)) fun he => hline.2 (he ▸ hch)

theorem plain_embedded {t : String} (ht : Trimmed t) (h : validatePlainDportToken t = .ok ()) : Embedded AcceptsPort t where
  trimmed := ht
  accepted := .inr (.inr h)
  inert ch hch := by
    have hnum := validatePlainDportToken_chars h ch (by rwa [show trimSpace t = t from ht])
    exact not_breaks_of numChar (by decide) hnum

theorem not_braceList {t : String} (h : ∀ ch ∈ t.toList, isSpace ch = true ∨ numChar ch = true) : isBraceList t = false := by
  by_contra hb
  obtain ⟨hpre, _⟩ := Bool.and_eq_true_iff.mp (Bool.not_eq_false _ ▸ hb)
  obtain ⟨xs, hxs⟩ := List.isPrefixOf_iff_prefix.mp hpre
  have hmem : '{' ∈ t.toList := by
    rw [← hxs]
    exact List.mem_cons_self
  exact absurd (h '{' hmem) (by decide)

theorem expandPortToken_trim (t : String) : expandPortToken (trimSpace t) = expandPortToken t := by
  unfold expandPortToken
  rw [trimSpace_trimSpace]

/-- A token that is one port or one range is an entry of `ports`. -/
theorem routePorts_of_token {t : String} {ps : List Nat} (ht : Trimmed t) (h : expandPortToken t = .ok ps) : RoutePorts t := by
  have hne : t ≠ "" := by
    have hno := h
    unfold expandPortToken at hno
    have := (ite_errorf_ok.mp hno).1
    rwa [show trimSpace t = t from ht] at this
  have htok : portTokens [t] = [t] := by
    rw [portTokens_singleton, show trimSpace t = t from ht, if_neg hne, not_braceList (expandPortToken_chars h)]
    rfl
  unfold RoutePorts
  rw [htok]
  exact ⟨List.cons_ne_nil _ _, fun tok htok => ⟨ps, List.mem_singleton.mp htok ▸ h⟩⟩

theorem trimmed_toString (n : Nat) : Trimmed (toString n) := trimmed_of_noSpace fun ch hch => isDigit_space (isDigit_toString n ch hch)

theorem not_mem_toString {n : Nat} {ch : Char} (h : isDigit ch = false) : ch ∉ (toString n).toList := fun hmem => by
  rw [isDigit_toString n ch hmem] at h
  cases h

theorem expandPortToken_toString {n : Nat} (hlo : 1 ≤ n) (hhi : n ≤ 65535) : expandPortToken (toString n) = .ok [n] := by
  have hne : toString n ≠ "" := fun he => toString_ne_nil n (congrArg String.toList he)
  unfold expandPortToken
  dsimp only
  rw [show trimSpace (toString n) = toString n from trimmed_toString n, if_neg hne, cut_none (not_mem_toString (by decide)),
    atoi_toString (by omega)]
  have hrange : ¬((n : Int) < 1 ∨ (65535 : Int) < n) := by omega
  dsimp only
  rw [if_neg hrange]
  rfl

/-- A number between 1 and 65535 is a port. -/
theorem numeral_embedded {n : Nat} (hlo : 1 ≤ n) (hhi : n ≤ 65535) : Embedded AcceptsPort (toString n) :=
  routePorts_embedded (trimmed_toString n) (routePorts_of_token (trimmed_toString n) (expandPortToken_toString hlo hhi))
    ⟨not_mem_toString (by decide), not_mem_toString (by decide)⟩

theorem int_numeral_embedded {n : Int} (hlo : 0 < n) (hhi : n ≤ 65535) : Embedded AcceptsPort (toString n) := by
  obtain ⟨m, rfl⟩ := Int.eq_ofNat_of_zero_le (Int.le_of_lt hlo)
  exact numeral_embedded (n := m) (by omega) (by omega)

/-- The ports of a token are ports. -/
theorem expandPortToken_range {t : String} {ps : List Nat} (h : expandPortToken t = .ok ps) : ∀ p ∈ ps, 1 ≤ p ∧ p ≤ 65535 := by
  unfold expandPortToken at h
  dsimp only at h
  obtain ⟨_, h⟩ := ite_errorf_ok.mp h
  intro p hp
  split at h
  · split at h
    · rename_i a b _ _
      obtain ⟨hin, h⟩ := ite_errorf_ok.mp h
      cases h
      obtain ⟨i, hi, rfl⟩ := List.mem_range'.mp hp
      omega
    · cases h
  · split at h
    · cases h
    · obtain ⟨hin, h⟩ := ite_errorf_ok.mp h
      cases h
      rw [List.mem_singleton.mp hp]
      omega

/-- What a row of `port_maps` maps to. -/
theorem PortMapChecked.internal_embedded {m : PortMap} (h : PortMapChecked m) : Embedded AcceptsPort (trimSpace m.internal) := by
  have ht := trimmed_trimSpace m.internal
  have hp := h.pair
  unfold validatePortMapPair at hp
  obtain ⟨hclean, hp⟩ := ite_errorf_ok.mp hp
  have hline : OneLine (trimSpace m.internal) := by
    have hno : ∀ ch ∈ ['\n', '\r'], ch ∉ (trimSpace m.internal).toList := fun ch hch hmem =>
      hclean (.inr (List.any_eq_true.mpr ⟨ch, hmem, List.contains_iff_mem.mpr hch⟩))
    exact ⟨hno _ List.mem_cons_self, hno _ (by simp)⟩
  by_cases hpub : containsChar (trimSpace m.pub) '-' ∧ ¬containsChar (trimSpace m.pub) '{'
  · rw [if_pos hpub] at hp
    obtain ⟨_, hp⟩ := ite_errorf_ok.mp hp
    obtain ⟨_, _, hp⟩ := bind_ok.mp hp
    obtain ⟨qs, hqs, _⟩ := bind_ok.mp hp
    exact routePorts_embedded ht (routePorts_of_token ht hqs) hline
  · rw [if_neg hpub] at hp
    obtain ⟨_, hp⟩ := ite_errorf_ok.mp hp
    have hlast : validatePlainDportToken (trimSpace m.internal) = .ok () := by
      by_cases hbrace : hasPrefix (trimSpace (trimSpace m.pub)) "\x7b" = true
      · rw [if_pos hbrace] at hp
        obtain ⟨_, _, hp⟩ := bind_ok.mp hp
        exact (ite_errorf_ok.mp hp).2
      · rw [if_neg hbrace] at hp
        obtain ⟨_, _, hp⟩ := bind_ok.mp hp
        exact (ite_errorf_ok.mp hp).2
    exact plain_embedded ht hlast

/-- An embedded port expression holds a port and is on one line. -/
theorem Embedded.port {t : String} (h : Embedded AcceptsPort t) : portTokens [t] ≠ [] ∧ OneLine t := by
  have hline : OneLine t := ⟨fun hmem => absurd (h.inert _ hmem) (by decide), fun hmem => absurd (h.inert _ hmem) (by decide)⟩
  have htrim : trimSpace t = t := h.trimmed
  refine ⟨?_, hline⟩
  rcases h.accepted with hin | hroute | hplain
  · rw [portTokens_singleton, htrim]
    unfold validateInputAllowDport at hin
    dsimp only at hin
    rw [htrim] at hin
    obtain ⟨hne, hin⟩ := ite_errorf_ok.mp hin
    obtain ⟨_, hin⟩ := ite_errorf_ok.mp hin
    rw [if_neg hne]
    by_cases hbrace : isBraceList t = true
    · rw [if_pos hbrace]
      obtain ⟨hpre, _⟩ := Bool.and_eq_true_iff.mp hbrace
      have hopen : containsChar t '{' = true := by
        obtain ⟨xs, hxs⟩ := List.isPrefixOf_iff_prefix.mp hpre
        unfold containsChar
        rw [← hxs]
        simp
      rw [if_pos hopen] at hin
      unfold validateBraceDport at hin
      dsimp only at hin
      rw [htrim] at hin
      obtain ⟨_, hin⟩ := ite_errorf_ok.mp hin
      obtain ⟨_, hin⟩ := ite_errorf_ok.mp hin
      obtain ⟨part, hpart⟩ := List.exists_mem_of_ne_nil _ (split_ne_nil (braceInner t) ',')
      have hne := (ite_errorf_ok.mp (forIdx_ok_mem.mp hin part hpart)).1
      have hmem : trimSpace part ∈ ((split (braceInner t) ',').map trimSpace).filter (· ≠ "") :=
        List.mem_filter.mpr ⟨List.mem_map_of_mem hpart, by simpa using hne⟩
      exact List.ne_nil_of_mem hmem
    · rw [if_neg hbrace]
      exact List.cons_ne_nil _ _
  · exact hroute.1
  · have hchars := validatePlainDportToken_chars hplain
    rw [htrim] at hchars
    rw [portTokens_singleton, htrim, not_braceList fun ch hch => .inr (hchars ch hch)]
    unfold validatePlainDportToken at hplain
    have hne := (ite_errorf_ok.mp hplain).1
    rw [htrim] at hne
    rw [if_neg hne]
    exact List.cons_ne_nil _ _

/-! ## The ports of a route -/

theorem expandTokens_ok {what : String} {wrap : String → ValidationError → ValidationError} : ∀ {toks : List String} {seen ps : List Nat},
    expandTokens what wrap toks seen = .ok ps → ∀ tok ∈ toks, ∃ qs, expandPortToken tok = .ok qs
  | [], _, _, _, _, htok => (nomatch htok)
  | t :: toks, seen, ps, h, tok, htok => by
    unfold expandTokens at h
    split at h
    · cases h
    · rename_i qs hqs
      split at h
      · cases h
      · rcases List.mem_cons.mp htok with rfl | htok
        · exact ⟨qs, hqs⟩
        · exact expandTokens_ok h tok htok

theorem map_ok {ε α β : Type} {f : α → β} {x : Except ε α} {b : β} (h : x.map f = .ok b) : ∃ a, x = .ok a := by
  cases x with
  | error e => cases h
  | ok a => exact ⟨a, rfl⟩

/-- The parts of the entries of an accepted route are ports and ranges. -/
theorem expandRoutePublicPortNumbers_tokens {r : ForwardRoute} {ps : List Nat} (h : expandRoutePublicPortNumbers r = .ok ps) :
    ∀ tok ∈ normalizedPortTokens r.ports, ∀ part ∈ portTokens [tok], ∃ qs, expandPortToken part = .ok qs := by
  intro tok htok part hpart
  obtain ⟨raw, hraw, rfl⟩ := List.mem_map.mp (List.mem_filter.mp htok).1
  unfold expandRoutePublicPortNumbers at h
  by_cases hmaps : r.portMaps = []
  · rw [if_pos hmaps] at h
    obtain ⟨seen, hseen⟩ := map_ok h
    refine expandTokens_ok hseen part (List.mem_flatMap.mpr ⟨raw, hraw, ?_⟩)
    rw [portTokens_singleton, trimSpace_trimSpace] at hpart
    exact hpart
  · rw [if_neg hmaps] at h
    dsimp only at h
    split at h
    · cases h
    · rename_i seen hmapped
      obtain ⟨seen', hrest⟩ := map_ok h
      have htoken : ∃ qs, expandPortToken (trimSpace raw) = .ok qs := by
        by_cases hin : trimSpace raw ∈ r.portMaps.map fun m => trimSpace m.pub
        · obtain ⟨m, hm, heq⟩ := List.mem_map.mp hin
          obtain ⟨qs, hqs⟩ := expandTokens_ok hmapped m.pub (List.mem_map_of_mem hm)
          exact ⟨qs, by rw [← heq, expandPortToken_trim, hqs]⟩
        · exact expandTokens_ok hrest _ (List.mem_filter.mpr ⟨htok, by simpa using hin⟩)
      obtain ⟨qs, hqs⟩ := htoken
      exact (routePorts_of_token (trimmed_trimSpace raw) hqs).2 part hpart

/-- The entries of an accepted route are embedded as they are, if each holds a port and is on one line. -/
theorem Checked.ports_embedded {c : Config} (h : Checked c) {i : Nat} {r : ForwardRoute} (hr : c.forwarding.routes[i]? = some r)
    (hd : r.disabled = false) {tok : String} (htok : tok ∈ normalizedPortTokens r.ports) (hport : portTokens [tok] ≠ [])
    (hline : OneLine tok) : Embedded AcceptsPort tok := by
  obtain ⟨ks, hks⟩ := validateForwardingRoutePortOverlaps_claims h.overlaps i r hr hd
  unfold routeClaims at hks
  obtain ⟨_, _, hks⟩ := bind_ok.mp hks
  obtain ⟨ps, hps, _⟩ := bind_ok.mp hks
  obtain ⟨raw, _, rfl⟩ := List.mem_map.mp (List.mem_filter.mp htok).1
  exact routePorts_embedded (trimmed_trimSpace raw)
    ⟨hport, expandRoutePublicPortNumbers_tokens (wrapf_ok.mp hps) _ htok⟩ hline

/-- The target of an accepted route is an IPv4 address. -/
theorem RouteChecked.target_embedded {c : Config} {i : Nat} {r : ForwardRoute} (h : RouteChecked c i r) :
    Embedded (isIPv4OrCIDR · = true) (trimSpace r.targetIP) := by
  obtain ⟨p, hp, hne⟩ : ∃ p ∈ c.peers, peerTunnelIPv4 p.tunnelIP = trimSpace r.targetIP := by
    obtain ⟨p, hp, heq⟩ := List.mem_map.mp (List.mem_filter.mp h.target).1
    exact ⟨p, (List.mem_filter.mp hp).1, heq⟩
  have hchars : ∀ ch ∈ (trimSpace r.targetIP).toList, isDigit ch = true ∨ ch = '.' := by
    rw [← hne]
    unfold peerTunnelIPv4
    dsimp only
    split
    · rename_i a _
      intro ch hch
      have hdot : ".".toList = ['.'] := by decide
      unfold ipv4String at hch
      simp only [String.toList_append, hdot, List.mem_append, List.mem_singleton] at hch
      rcases hch with (((((hch | hch) | hch) | hch) | hch) | hch) | hch
      · exact .inl (isDigit_toString _ ch hch)
      · exact .inr hch
      · exact .inl (isDigit_toString _ ch hch)
      · exact .inr hch
      · exact .inl (isDigit_toString _ ch hch)
      · exact .inr hch
      · exact .inl (isDigit_toString _ ch hch)
    · intro ch hch
      exact absurd hch List.not_mem_nil
  have hno : ∀ ch : Char, isDigit ch = false → ch ≠ '.' → ((trimSpace r.targetIP).toList.contains ch) = false := by
    intro ch hdigit hdot
    by_contra hmem
    rcases hchars ch (List.contains_iff_mem.mp (Bool.not_eq_false _ ▸ hmem)) with hd | hd
    · rw [hd] at hdigit
      cases hdigit
    · exact hdot hd
  have hslash : containsChar (trimSpace r.targetIP) '/' = false := hno '/' (by decide) (by decide)
  have hcolon : (trimSpace r.targetIP).toList.contains ':' = false := hno ':' (by decide) (by decide)
  refine addr_embedded ?_
  have hip := h.ip
  unfold isIPv4OrCIDR
  unfold parseIP at hip ⊢
  rw [hslash, if_neg Bool.false_ne_true, hcolon, if_neg Bool.false_ne_true]
  rw [hcolon, if_neg Bool.false_ne_true] at hip
  obtain ⟨a, ha⟩ := Option.isSome_iff_exists.mp hip
  obtain ⟨n, hn, rfl⟩ := Option.map_eq_some_iff.mp ha
  rw [hn]
  rfl

end EvuProxy
