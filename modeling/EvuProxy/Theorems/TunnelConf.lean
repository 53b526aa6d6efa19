import EvuProxy.Apply.Generate
import EvuProxy.Config.Words
import EvuProxy.Nft.Text
import EvuProxy.Wg.AllowedIPs

/-!
# The WireGuard config

What `wg-quick` reads in the text of `WireGuardConf` for an accepted config: one section for the interface and one for each peer that
is on. Three things may come out otherwise than configured: a private key with a `#` in it, white space outside of ASCII, which the
checks drop and the generator does not, and the allowed addresses of a peer with a bare IPv6 address.
-/

namespace EvuProxy

open Go Wg

/-! ## What the config says -/

/-- The section of the interface. -/
def IsInterface (c : Config) (key : String) (s : Section) : Prop :=
  ∃ address, s = ⟨"[Interface]", [("Address", address), ("ListenPort", toString c.wireGuard.listenPort), ("PrivateKey", key)]⟩ ∧
    listOf address = (split (trimSpace c.wireGuard.address) ',').map trimSpace

/-- The allowed addresses of a peer: the prefix configured, or the one host. -/
def AllowedFor (tunnelIP value : String) : Prop :=
  (containsChar (trimSpace tunnelIP) '/' = true → value = trimSpace tunnelIP) ∧
    (containsChar (trimSpace tunnelIP) '/' = false → ∃ a, parseIP (trimSpace tunnelIP) = some a ∧ ∀ b, Allows value b ↔ b = a)

/-- The section of a peer. -/
def IsPeer (p : Peer) (s : Section) : Prop :=
  ∃ allowed, s = ⟨"[Peer]", [("PublicKey", trimSpace p.publicKey), ("AllowedIPs", allowed), ("PersistentKeepalive", "25")]⟩ ∧
    AllowedFor p.tunnelIP allowed

/-- The peers that are on. -/
def enabledPeers (c : Config) : List Peer := c.peers.filter fun p => !p.disabled

/-- A text that says what the config says: the section of the interface, and those of the peers that are on, in order. -/
def SaysConfig (c : Config) (key text : String) : Prop :=
  ∃ i ss, parse text = some (i :: ss) ∧ IsInterface c key i ∧ List.Forall₂ IsPeer (enabledPeers c) ss

/-! ## The lines of the file -/

/-- The lines of a peer. -/
def peerLines (p : Peer) : List String :=
  ["", "[Peer]", "# " ++ p.name, directive "PublicKey" p.publicKey, directive "AllowedIPs" (peerAllowedIPs p.tunnelIP),
    directive "PersistentKeepalive" "25"]

/-- The lines of the file. -/
def confLines (c : Config) (priv : String) : List String :=
  ["# Generated by evuproxy — do not edit.", "", "[Interface]", directive "Address" c.wireGuard.address,
    directive "ListenPort" (toString c.wireGuard.listenPort), directive "PrivateKey" priv] ++ (enabledPeers c).flatMap peerLines

theorem toList_join (ss : List String) : (join ss "").toList = ss.flatMap String.toList := by
  induction ss with
  | nil => rfl
  | cons s ss ih => rw [join_cons, String.toList_append, ih, List.flatMap_cons]

theorem wireGuardPeer_toList (p : Peer) : (wireGuardPeer p).toList =
    if p.disabled then [] else (peerLines p).flatMap fun line => line.toList ++ ['\n'] := by
  unfold wireGuardPeer
  split
  · rfl
  · simp [peerLines, directive]

theorem wireGuardPeers_toList (ps : List Peer) : (join (ps.map wireGuardPeer) "").toList =
    ((ps.filter fun p => !p.disabled).flatMap peerLines).flatMap fun line => line.toList ++ ['\n'] := by
  rw [toList_join]
  induction ps with
  | nil => rfl
  | cons p ps ih =>
    rw [List.map_cons, List.flatMap_cons, ih, wireGuardPeer_toList, List.filter_cons]
    cases p.disabled with
    | true => simp
    | false => simp [List.flatMap_append]

theorem wireGuardText_toList (c : Config) (priv : String) :
    (wireGuardText c priv).toList = (confLines c priv).flatMap fun line => line.toList ++ ['\n'] := by
  unfold wireGuardText confLines enabledPeers
  rw [String.toList_append, wireGuardPeers_toList, List.flatMap_append]
  simp [directive]

/-! ## What is read -/

/-- The section that is read for a peer. -/
def readPeer (p : Peer) : Section :=
  ⟨"[Peer]", [("PublicKey", readValue p.publicKey), ("AllowedIPs", readValue (peerAllowedIPs p.tunnelIP)), ("PersistentKeepalive", "25")]⟩

/-- The section that is read for the interface. -/
def readInterface (c : Config) (priv : String) : Section :=
  ⟨"[Interface]", [("Address", readValue c.wireGuard.address), ("ListenPort", readValue (toString c.wireGuard.listenPort)),
    ("PrivateKey", readValue priv)]⟩

theorem readLines_peers (ps : List Peer) :
    readLines ((ps.flatMap peerLines).map String.toList ++ [[]]) = some ([], ps.map readPeer) := by
  induction ps with
  | nil => decide
  | cons p ps ih =>
    have hkeepalive := readLines_directive "25" (show IsKey "PersistentKeepalive" by decide) ih
    have hallowed := readLines_directive (peerAllowedIPs p.tunnelIP) (show IsKey "AllowedIPs" by decide) hkeepalive
    have hpublic := readLines_directive p.publicKey (show IsKey "PublicKey" by decide) hallowed
    have hname := readLines_blank (readLine_comment (show ("# " ++ p.name).toList.head? = some '#' by simp)) hpublic
    have hheader := readLines_header (show readLine "[Peer]".toList = .header "[Peer]" by decide) hname
    exact readLines_blank (show readLine [] = .blank by decide) hheader

/-- The sections of the file, whatever the values are, as long as each stands on one line. -/
theorem parse_wireGuardText {c : Config} {priv : String} (h : ∀ line ∈ confLines c priv, '\n' ∉ line.toList) :
    parse (wireGuardText c priv) = some (readInterface c priv :: (enabledPeers c).map readPeer) := by
  refine parse_lines (wireGuardText_toList c priv) h ?_
  have hpriv := readLines_directive priv (show IsKey "PrivateKey" by decide) (readLines_peers (enabledPeers c))
  have hport := readLines_directive (toString c.wireGuard.listenPort) (show IsKey "ListenPort" by decide) hpriv
  have haddress := readLines_directive c.wireGuard.address (show IsKey "Address" by decide) hport
  have hheader := readLines_header (show readLine "[Interface]".toList = .header "[Interface]" by decide) haddress
  have hblank := readLines_blank (show readLine [] = .blank by decide) hheader
  exact readLines_blank (readLine_comment (show "# Generated by evuproxy — do not edit.".toList.head? = some '#' by decide)) hblank

/-! ## The values of an accepted config -/

theorem not_hash_of_addrChar {ch : Char} (h : addrChar ch = true) : ch ≠ '#' ∧ ch ≠ '\n' ∧ ch ≠ ',' ∧ isBlank ch = false := by
  have hspace := addrChar_space h
  refine ⟨fun he => ?_, fun he => ?_, fun he => ?_, Bool.eq_false_iff.mpr fun hb => ?_⟩
  · exact absurd (he ▸ h) (by decide)
  · exact absurd (he ▸ h) (by decide)
  · exact absurd (he ▸ h) (by decide)
  · rw [isSpace_of_isBlank hb] at hspace
    cases hspace

theorem noNewline_of_hasControlChars {s : String} (h : ¬hasControlChars s = true) : '\n' ∉ s.toList := by
  intro hmem
  refine h (List.any_eq_true.mpr ⟨'\n', hmem, by decide⟩)

/-- An entry of `wireguard.address`, trimmed, has the characters of an address. -/
theorem address_entries {addr : String} (h : validateWireGuardAddress addr = .ok ()) :
    ∀ raw ∈ split (trimSpace addr) ',', ∀ ch ∈ (trimSpace raw).toList, addrChar ch = true := by
  unfold validateWireGuardAddress at h
  obtain ⟨_, h⟩ := ite_errorf_ok.mp h
  obtain ⟨_, h⟩ := ite_errorf_ok.mp h
  intro raw hraw
  have hentry := forIdx_ok_mem.mp h raw hraw
  obtain ⟨_, hentry⟩ := ite_errorf_ok.mp hentry
  split at hentry
  · obtain ⟨hcidr, _⟩ := ite_errorf_ok.mp hentry
    obtain ⟨p, hp⟩ := Option.ne_none_iff_exists'.mp (by simpa using hcidr)
    exact parseCIDR_chars hp
  · obtain ⟨hip, _⟩ := ite_errorf_ok.mp hentry
    obtain ⟨a, ha⟩ := Option.ne_none_iff_exists'.mp (by simpa using hip)
    exact parseIP_chars ha

theorem address_noNewline {addr : String} (h : validateWireGuardAddress addr = .ok ()) : '\n' ∉ addr.toList := by
  unfold validateWireGuardAddress at h
  exact noNewline_of_hasControlChars (ite_errorf_ok.mp h).1

/-- The entries of an address do not depend on the white space around it. -/
theorem address_pieces (addr : String) :
    (split (trimSpace addr) ',').map trimSpace = (splitList (· == ',') addr.toList).map fun cs => String.ofList (trimList cs) := by
  obtain ⟨ws, vs, hws, hvs, hcs⟩ := trimList_between addr.toList
  have hcomma : ∀ c, isSpace c = true → (c == ',') = false := by
    intro c hc
    refine beq_eq_false_iff_ne.mpr fun he => ?_
    exact absurd (he ▸ hc) (by decide)
  have hpieces := trimmed_pieces_between hcomma hws hvs (trimList addr.toList)
  rw [← hcs] at hpieces
  have hlist := congrArg (List.map String.ofList) hpieces.symm
  rw [List.map_map, List.map_map] at hlist
  have hsplit : (split (trimSpace addr) ',').map trimSpace =
      (splitList (· == ',') (trimList addr.toList)).map (String.ofList ∘ trimList) := by
    simp [split, trimSpace, Function.comp_def]
  exact hsplit.trans hlist

theorem listOf_pieces (addr : String) (h : '#' ∉ addr.toList) :
    listOf (readValue addr) = (splitList (· == ',') addr.toList).map fun cs => String.ofList (trim cs) := by
  obtain ⟨ws, vs, hws, hvs, hcs⟩ := trimBy_between isBlank addr.toList
  have hcomma : ∀ c, isBlank c = true → (c == ',') = false := by
    intro c hc
    refine beq_eq_false_iff_ne.mpr fun he => ?_
    exact absurd (he ▸ hc) (by decide)
  have hpieces := trimmedBy_pieces_between hcomma hws hvs (trimBy isBlank addr.toList)
  rw [← hcs] at hpieces
  have hlist := congrArg (List.map String.ofList) hpieces.symm
  rw [List.map_map, List.map_map] at hlist
  rw [readValue_noHash h, listOf, String.toList_ofList]
  exact hlist

/-- Every character of an accepted address is a comma, a character of an entry, or white space. -/
theorem address_chars {addr : String} (h : validateWireGuardAddress addr = .ok ()) {ch : Char} (hch : ch ∈ addr.toList) :
    ch = ',' ∨ isSpace ch = true ∨ addrChar ch = true := by
  rcases mem_trimSpace_or hch with hspace | hch
  · exact .inr (.inl hspace)
  · rcases mem_split hch with hcomma | ⟨raw, hraw, hch⟩
    · exact .inl hcomma
    · rcases mem_trimSpace_or hch with hspace | hch
      · exact .inr (.inl hspace)
      · exact .inr (.inr (address_entries h raw hraw ch hch))

theorem address_noHash {addr : String} (h : validateWireGuardAddress addr = .ok ()) : '#' ∉ addr.toList := by
  intro hmem
  rcases address_chars h hmem with hcomma | hspace | haddr
  · exact absurd hcomma (by decide)
  · exact absurd hspace (by decide)
  · exact absurd haddr (by decide)

/-- The entries read are those configured where the white space between them is ASCII. -/
theorem address_iff {addr : String} (h : validateWireGuardAddress addr = .ok ()) :
    listOf (readValue addr) = (split (trimSpace addr) ',').map trimSpace ↔ AsciiSpaced addr := by
  rw [listOf_pieces addr (address_noHash h), address_pieces]
  have hpiece : ∀ cs ∈ splitList (· == ',') addr.toList, (String.ofList (trim cs) = String.ofList (trimList cs) ↔
      ∀ c ∈ cs, isSpace c = true → isBlank c = true) := by
    intro cs hcs
    rw [String.ofList_inj]
    refine trim_eq_trimList_iff fun c hc => ?_
    have htrimmed : String.ofList (trimList cs) ∈ (split (trimSpace addr) ',').map trimSpace := by
      rw [address_pieces]
      exact List.mem_map.mpr ⟨cs, hcs, rfl⟩
    obtain ⟨raw, hraw, heq⟩ := List.mem_map.mp htrimmed
    refine addrChar_space (address_entries h raw hraw c ?_)
    rw [heq, String.toList_ofList]
    exact hc
  rw [List.map_inj_left]
  constructor
  · intro hall c hc hspace
    rcases @mem_splitList (· == ',') c _ hc with hcomma | ⟨cs, hcs, hc⟩
    · rw [beq_iff_eq.mp hcomma] at hspace
      exact absurd hspace (by decide)
    · exact (hpiece cs hcs).mp (hall cs hcs) c hc hspace
  · intro hascii cs hcs
    exact (hpiece cs hcs).mpr fun c hc => hascii c (mem_of_mem_splitList hc hcs)

/-! ## Keys and allowed addresses -/

/-- What an accepted public key is. -/
theorem publicKey_chars {key : String} (h : validateWireGuardKey key = .ok ()) :
    '\n' ∉ key.toList ∧ ∀ ch ∈ (trimSpace key).toList, isSpace ch = false ∧ ch ≠ '#' := by
  unfold validateWireGuardKey at h
  obtain ⟨hcontrol, h⟩ := ite_errorf_ok.mp h
  refine ⟨noNewline_of_hasControlChars hcontrol, ?_⟩
  split at h
  · rename_i hkey
    obtain ⟨-, hlast, hall⟩ := hkey
    obtain ⟨cs, hcs⟩ := List.getLast?_eq_some_iff.mp hlast
    intro ch hch
    rw [hcs, List.mem_append, List.mem_singleton] at hch
    rcases hch with hch | rfl
    · rw [hcs, List.dropLast_concat] at hall
      have hgood := List.all_eq_true.mp hall ch hch
      simp only [Bool.or_eq_true, beq_iff_eq] at hgood
      refine ⟨?_, fun he => absurd (he ▸ hgood) (by decide)⟩
      rcases hgood with ((hletter | hdigit) | rfl) | rfl
      · exact isLetter_space hletter
      · exact isDigit_space hdigit
      · decide
      · decide
    · decide
  · exact absurd h errorf_ne_ok

theorem publicKey_iff {key : String} (h : validateWireGuardKey key = .ok ()) :
    readValue key = trimSpace key ↔ AsciiSpaced key := by
  have hno : '#' ∉ key.toList := by
    intro hmem
    rcases mem_trimSpace_or hmem with hspace | hmem
    · exact absurd hspace (by decide)
    · exact ((publicKey_chars h).2 _ hmem).2 rfl
  rw [readValue_noHash hno, trimSpace, String.ofList_inj]
  refine trim_eq_trimList_iff fun c hc => ((publicKey_chars h).2 c ?_).1
  rwa [trimSpace, String.toList_ofList]

theorem privateKey_iff {key : String} (h : Trimmed key) : readValue key = key ↔ '#' ∉ key.toList := by
  refine readValue_eq_self_iff (trim_of_trimList ?_)
  have hlist := congrArg String.toList h
  rwa [trimSpace, String.toList_ofList] at hlist

theorem tunnelIP_chars {p : Peer} (h : PeerChecked p) : ∀ ch ∈ (trimSpace p.tunnelIP).toList, addrChar ch = true := by
  rcases h.tunnelIP with hcidr | hip
  · obtain ⟨q, hq⟩ := Option.isSome_iff_exists.mp hcidr
    exact parseCIDR_chars hq
  · obtain ⟨a, ha⟩ := Option.isSome_iff_exists.mp hip
    exact parseIP_chars ha

/-- The allowed addresses of a peer have the characters of a prefix. -/
theorem peerAllowedIPs_chars {p : Peer} (h : PeerChecked p) : ∀ ch ∈ (peerAllowedIPs p.tunnelIP).toList, addrChar ch = true := by
  unfold peerAllowedIPs
  split
  · exact tunnelIP_chars h
  · intro ch hch
    rw [String.toList_append] at hch
    rcases List.mem_append.mp hch with hch | hch
    · exact tunnelIP_chars h ch hch
    · exact List.all_eq_true.mp (show "/32".toList.all addrChar = true by decide) ch hch

theorem readValue_peerAllowedIPs {p : Peer} (h : PeerChecked p) : readValue (peerAllowedIPs p.tunnelIP) = peerAllowedIPs p.tunnelIP :=
  readValue_self fun ch hch =>
    ⟨(not_hash_of_addrChar (peerAllowedIPs_chars h ch hch)).2.2.2, (not_hash_of_addrChar (peerAllowedIPs_chars h ch hch)).1⟩

/-- A bare address is made a prefix of 32 bits. -/
theorem allowedIPs_bare {p : Peer} (h : PeerChecked p) (hbare : containsChar (trimSpace p.tunnelIP) '/' = false) :
    ∃ a, parseIP (trimSpace p.tunnelIP) = some a ∧ allowedIPs (peerAllowedIPs p.tunnelIP) = [(a, 32)] := by
  have hslash : '/' ∉ (trimSpace p.tunnelIP).toList := by simpa [containsChar] using hbare
  have hip : (parseIP (trimSpace p.tunnelIP)).isSome := by
    refine h.tunnelIP.resolve_left fun hcidr => ?_
    obtain ⟨q, hq⟩ := Option.isSome_iff_exists.mp hcidr
    unfold parseCIDR at hq
    rw [cut_none hslash] at hq
    cases hq
  obtain ⟨a, ha⟩ := Option.isSome_iff_exists.mp hip
  refine ⟨a, ha, ?_⟩
  have hvalue : peerAllowedIPs p.tunnelIP = trimSpace p.tunnelIP ++ "/" ++ toString 32 := by
    rw [peerAllowedIPs, if_neg (by simpa using hbare), String.append_assoc]
    rfl
  have hcidr := parseCIDR_slash hslash ha (show 32 ≤ a.bitLen by cases a <;> simp [Addr.bitLen])
  rw [allowedIPs_single fun ch hch => (not_hash_of_addrChar (peerAllowedIPs_chars h ch hch)).2.2, readPrefix,
    if_pos (by simp [hvalue, containsChar]), hvalue, hcidr]
  rfl

/-- The allowed addresses of a peer are as configured unless its address is a bare one of IPv6. -/
theorem allowedFor_iff {p : Peer} (h : PeerChecked p) : AllowedFor p.tunnelIP (peerAllowedIPs p.tunnelIP) ↔
    (containsChar (trimSpace p.tunnelIP) '/' = false → ∀ a, parseIP (trimSpace p.tunnelIP) ≠ some (.v6 a)) := by
  unfold AllowedFor
  cases hslash : containsChar (trimSpace p.tunnelIP) '/' with
  | true => simp [peerAllowedIPs, hslash]
  | false =>
    obtain ⟨a, ha, hallowed⟩ := allowedIPs_bare h hslash
    simp only [Bool.false_eq_true, false_implies, true_and, forall_const, Allows, hallowed, List.mem_singleton, exists_eq_left, ha,
      Option.some.injEq, exists_eq_left']
    cases a with
    | v4 a => exact iff_of_true (inPrefix_host (.v4 a)) (fun b hb => by cases hb)
    | v6 a =>
      obtain ⟨b, hne, hin⟩ := inPrefix_another (show 32 < 128 by decide)
      exact iff_of_false (fun hall => hne ((hall b).mp hin)) fun hno => hno a rfl

/-! ## The whole file -/

/-- No value of the config or key is read otherwise than it is checked: the key has no `#`, white space around addresses and keys is
ASCII, and no peer that is on has a bare IPv6 address. -/
structure ReadsPlainly (c : Config) (key : String) : Prop where
  privateKey : '#' ∉ key.toList
  address : AsciiSpaced c.wireGuard.address
  publicKeys : ∀ p ∈ enabledPeers c, AsciiSpaced p.publicKey
  bare : ∀ p ∈ enabledPeers c, containsChar (trimSpace p.tunnelIP) '/' = false → ∀ a, parseIP (trimSpace p.tunnelIP) ≠ some (.v6 a)

theorem toString_listenPort {n : Int} (h : 0 < n) : ∀ ch ∈ (toString n).toList, isDigit ch = true := by
  obtain ⟨m, rfl⟩ := Int.eq_ofNat_of_zero_le (Int.le_of_lt h)
  exact isDigit_toString m

theorem mem_enabledPeers {c : Config} {p : Peer} (h : p ∈ enabledPeers c) : p ∈ c.peers ∧ p.disabled = false := by
  simpa [enabledPeers] using h

theorem Checked.peerChecked {c : Config} (h : Checked c) {p : Peer} (hp : p ∈ enabledPeers c) : PeerChecked p :=
  validatePeer_ok (h.peers p (mem_enabledPeers hp).1) (mem_enabledPeers hp).2

theorem noNewline_directive {key value : String} (hkey : '\n' ∉ key.toList) (hvalue : '\n' ∉ value.toList) :
    '\n' ∉ (directive key value).toList := by
  simp [directive, hkey, hvalue]

theorem noNewline_of_chars {s : String} (h : ∀ ch ∈ s.toList, ch ≠ '\n') : '\n' ∉ s.toList := fun hmem => h _ hmem rfl

theorem peerName_noNewline {name : String} (h : validPeerName name = .ok ()) : '\n' ∉ name.toList := by
  unfold validPeerName at h
  obtain ⟨hno, _⟩ := ite_errorf_ok.mp h
  intro hmem
  exact hno (List.any_eq_true.mpr ⟨'\n', hmem, by decide⟩)

/-- Every value of an accepted config stands on one line. -/
theorem confLines_noNewline {c : Config} (h : c.validate = .ok ()) {key : String} (hkey : '\n' ∉ key.toList) :
    ∀ line ∈ confLines c key, '\n' ∉ line.toList := by
  intro line hline
  have hport : '\n' ∉ (toString c.wireGuard.listenPort).toList := by
    refine noNewline_of_chars fun ch hch he => ?_
    exact absurd (he ▸ toString_listenPort (Config.checked h).listenPort.1 ch hch) (by decide)
  unfold confLines at hline
  rcases List.mem_append.mp hline with hline | hline
  · simp only [List.mem_cons, List.not_mem_nil, or_false] at hline
    rcases hline with rfl | rfl | rfl | rfl | rfl | rfl
    · decide
    · decide
    · decide
    · exact noNewline_directive (by decide) (address_noNewline (Config.address_checked h))
    · exact noNewline_directive (by decide) hport
    · exact noNewline_directive (by decide) hkey
  · obtain ⟨p, hp, hline⟩ := List.mem_flatMap.mp hline
    have hpeer := (Config.checked h).peerChecked hp
    simp only [peerLines, List.mem_cons, List.not_mem_nil, or_false] at hline
    rcases hline with rfl | rfl | rfl | rfl | rfl | rfl
    · decide
    · decide
    · simpa using peerName_noNewline hpeer.name
    · exact noNewline_directive (by decide) (publicKey_chars hpeer.publicKey).1
    · refine noNewline_directive (by decide) (noNewline_of_chars fun ch hch => ?_)
      exact (not_hash_of_addrChar (peerAllowedIPs_chars hpeer ch hch)).2.1
    · exact noNewline_directive (by decide) (by decide)

/-- The text of an accepted config says what the config says where each section does. -/
theorem saysConfig_sections {c : Config} (h : c.validate = .ok ()) {key : String} (hkey : '\n' ∉ key.toList) :
    SaysConfig c key (wireGuardText c key) ↔
      IsInterface c key (readInterface c key) ∧ ∀ p ∈ enabledPeers c, IsPeer p (readPeer p) := by
  unfold SaysConfig
  rw [parse_wireGuardText (confLines_noNewline h hkey)]
  simp only [Option.some.injEq, List.cons.injEq]
  constructor
  · rintro ⟨i, ss, ⟨rfl, rfl⟩, hi, hss⟩
    refine ⟨hi, ?_⟩
    rwa [List.forall₂_map_right_iff, List.forall₂_same] at hss
  · rintro ⟨hi, hss⟩
    refine ⟨_, _, ⟨rfl, rfl⟩, hi, ?_⟩
    rwa [List.forall₂_map_right_iff, List.forall₂_same]

theorem isInterface_iff {c : Config} (h : c.validate = .ok ()) {key : String} (hkey : Trimmed key) :
    IsInterface c key (readInterface c key) ↔ '#' ∉ key.toList ∧ AsciiSpaced c.wireGuard.address := by
  have hport : readValue (toString c.wireGuard.listenPort) = toString c.wireGuard.listenPort := by
    refine readValue_self fun ch hch => ?_
    have haddr := addrChar_of_isDigit (toString_listenPort (Config.checked h).listenPort.1 ch hch)
    exact ⟨(not_hash_of_addrChar haddr).2.2.2, (not_hash_of_addrChar haddr).1⟩
  rw [← privateKey_iff hkey, ← address_iff (Config.address_checked h)]
  unfold IsInterface readInterface
  rw [hport]
  constructor
  · rintro ⟨address, hs, haddress⟩
    simp only [Section.mk.injEq, List.cons.injEq, Prod.mk.injEq, true_and, and_true] at hs
    obtain ⟨rfl, hpriv⟩ := hs
    exact ⟨hpriv, haddress⟩
  · rintro ⟨hpriv, haddress⟩
    refine ⟨readValue c.wireGuard.address, ?_, haddress⟩
    rw [hpriv]

theorem isPeer_iff {p : Peer} (h : PeerChecked p) : IsPeer p (readPeer p) ↔ AsciiSpaced p.publicKey ∧
    (containsChar (trimSpace p.tunnelIP) '/' = false → ∀ a, parseIP (trimSpace p.tunnelIP) ≠ some (.v6 a)) := by
  rw [← publicKey_iff h.publicKey, ← allowedFor_iff h]
  unfold IsPeer readPeer
  rw [readValue_peerAllowedIPs h]
  constructor
  · rintro ⟨allowed, hs, hallowed⟩
    simp only [Section.mk.injEq, List.cons.injEq, Prod.mk.injEq, true_and, and_true] at hs
    obtain ⟨hpublic, rfl⟩ := hs
    exact ⟨hpublic, hallowed⟩
  · rintro ⟨hpublic, hallowed⟩
    refine ⟨peerAllowedIPs p.tunnelIP, ?_, hallowed⟩
    rw [hpublic]

/-- The text of an accepted config and a private key of one line says what the config says exactly where the values read plainly. -/
theorem saysConfig_iff {c : Config} (h : c.validate = .ok ()) {key : String} (hkey : '\n' ∉ (trimSpace key).toList) :
    SaysConfig c (trimSpace key) (wireGuardText c (trimSpace key)) ↔ ReadsPlainly c (trimSpace key) := by
  rw [saysConfig_sections h hkey, isInterface_iff h (trimmed_trimSpace key)]
  have hpeers : (∀ p ∈ enabledPeers c, IsPeer p (readPeer p)) ↔ ∀ p ∈ enabledPeers c, AsciiSpaced p.publicKey ∧
      (containsChar (trimSpace p.tunnelIP) '/' = false → ∀ a, parseIP (trimSpace p.tunnelIP) ≠ some (.v6 a)) :=
    forall₂_congr fun p hp => isPeer_iff ((Config.checked h).peerChecked hp)
  rw [hpeers]
  constructor
  · rintro ⟨⟨hpriv, haddress⟩, hpeers⟩
    exact ⟨hpriv, haddress, fun p hp => (hpeers p hp).1, fun p hp => (hpeers p hp).2⟩
  · rintro ⟨hpriv, haddress, hpublic, hbare⟩
    exact ⟨⟨hpriv, haddress⟩, fun p hp => ⟨hpublic p hp, hbare p hp⟩⟩

/-! ## A bare IPv6 address -/

/-- A peer with the tunnel address given. -/
def tunnelPeer (tunnelIP : String) : Peer where
  name := "a"
  publicKey := "AAAAAAAAAAAAAAAAAAAAAAAAAAAAAAAAAAAAAAAAAAA="
  tunnelIP := tunnelIP

/-- A config of that peer alone. -/
def tunnelConfig (tunnelIP : String) : Config where
  wireGuard := { interface := "wg0", listenPort := 51820, privateKeyFile := "/k", address := "10.0.0.1/24, fd00::1/64" }
  network := { publicInterface := "eth0" }
  peers := [tunnelPeer tunnelIP]

theorem saysConfig_iff_sample : SaysConfig (tunnelConfig "10.0.0.2") (trimSpace " key=\n") (wireGuardText (tunnelConfig "10.0.0.2") (trimSpace " key=\n")) ↔
    ReadsPlainly (tunnelConfig "10.0.0.2") (trimSpace " key=\n") :=
  saysConfig_iff (by decide +kernel) (by decide +kernel)

/-- The peer with the address `fd00::2` is allowed another host's address too. -/
theorem bare_ipv6_allows_others : (tunnelConfig "fd00::2").normalize.validate = .ok () ∧
    Allows (peerAllowedIPs "fd00::2") (.v6 (0xfd00 * 2 ^ 112 + 3)) ∧
    ¬SaysConfig (tunnelConfig "fd00::2").normalize "key=" (wireGuardText (tunnelConfig "fd00::2").normalize "key=") := by
  have hvalid : (tunnelConfig "fd00::2").normalize.validate = .ok () := by decide +kernel
  have hmem : tunnelPeer "fd00::2" ∈ enabledPeers (tunnelConfig "fd00::2").normalize := by decide +kernel
  refine ⟨hvalid, by decide +kernel, fun hsays => ?_⟩
  have hpeer := ((saysConfig_sections hvalid (by decide)).mp hsays).2 _ hmem
  have hbare := ((isPeer_iff ((Config.checked hvalid).peerChecked hmem)).mp hpeer).2
  exact hbare (by decide +kernel) (0xfd00 * 2 ^ 112 + 2) (by decide +kernel)

end EvuProxy
