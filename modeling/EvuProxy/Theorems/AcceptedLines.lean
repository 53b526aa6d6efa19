import EvuProxy.Config.Words
import EvuProxy.Gen.Rendered
import EvuProxy.Go.Dotted
import EvuProxy.Go.Pieces
import EvuProxy.Theorems.ListedPorts

/-!
# The lines of the accepted counters

What the readers of `parseRouteAccepted` find in the listing of a rule: each finds the word it looks for where the rule has it, and
nowhere before.
-/

namespace EvuProxy

open Go Nft

/-! ## The words that are looked for -/

theorem twoWords_comment : TwoWords routeAcceptedCommentRE "comment".toList "\"evuproxy-accepted route=".toList := by
  refine twoWords_of_lit (l := "comment \"evuproxy-accepted route=") (by decide) (by decide) fun cs hcs hnone => hcs ?_
  rw [routeAcceptedCommentRE, hnone]
  rfl

theorem twoWords_publicPorts : TwoWords routeAcceptedPublicPortsRE "ct".toList "original proto-dst ".toList := by
  refine twoWords_of_lit (l := "ct original proto-dst ") (by decide) (by decide) fun cs hcs hnone => hcs ?_
  rw [routeAcceptedPublicPortsRE, hnone]
  rfl

theorem twoWords_counter : TwoWords nftCounterRE "counter".toList "packets".toList := by
  intro cs hcs
  unfold nftCounterRE at hcs
  cases hcounter : lit "counter" cs with
  | none =>
    rw [hcounter] at hcs
    exact absurd rfl hcs
  | some t =>
    rw [hcounter, Option.bind_eq_bind, Option.bind_some] at hcs
    cases hblanks : blanks t with
    | none =>
      rw [hblanks] at hcs
      exact absurd rfl hcs
    | some u =>
      rw [hblanks, Option.bind_some] at hcs
      obtain ⟨c, t', rfl, hc, rfl⟩ := blanks_eq_some hblanks
      cases hpackets : lit "packets" (t'.dropWhile isBlankRE) with
      | none =>
        rw [hpackets] at hcs
        exact absurd rfl hcs
      | some v =>
        refine ⟨c, t', lit_eq_some.mp hcounter, hc, ?_⟩
        rw [lit_eq_some.mp hpackets]
        exact List.prefix_append _ _

theorem twoWords_daddr (target : String) :
    TwoWords (lit ("ip daddr " ++ target ++ " ")) "ip".toList ('d' :: ("addr ".toList ++ target.toList ++ [' '])) := by
  have hip : "ip daddr ".toList = "ip".toList ++ ' ' :: 'd' :: "addr ".toList := by decide
  have hspace : " ".toList = [' '] := by decide
  refine twoWords_of_lit (l := "ip daddr " ++ target ++ " ") ?_ (by decide) fun cs hcs => hcs
  rw [String.toList_append, String.toList_append, hip, hspace]
  simp only [List.append_assoc, List.cons_append]

/-! ## Texts that a search passes over -/

section passing

variable {α : Type} {p : List Char → Option α} {a b : Char} {w second rest : List Char}

/-- A word that no text of a port expression has: its first letter is no digit, its second none of a hexadecimal number, and what else
stands in the expression has no start of it. -/
structure NoPortWord (w : List Char) : Prop where
  two : ∃ a b v, w = a :: b :: v ∧ isDigit a = false ∧ a ≠ ' ' ∧ isHexDigit b = false ∧ b ≠ ' '
  zerox : apart w "0x".toList = true
  invalid : apart w "[invalid type]".toList = true
  dash : apart w ['-'] = true
  comma : apart w ", ".toList = true
  opening : apart w "\x7b ".toList = true
  closing : apart w " \x7d".toList = true

variable {first : List Char} (h : TwoWords p first second) (hw : NoPortWord first)

include h hw

theorem clear_number (n : Nat) : Clear p (toString n).toList := by
  obtain ⟨a, b, v, rfl, ha, -⟩ := hw.two
  exact clear_of_not_mem h fun hmem => by
    rw [isDigit_toString n a hmem] at ha
    exact Bool.noConfusion ha

theorem clear_item (i : PortItem) : Clear p i.text.toList := by
  unfold PortItem.text
  split
  · exact clear_number h hw _
  · rw [String.toList_append, String.toList_append]
    exact ((clear_number h hw _).append (clear_of_apart h hw.dash)).append (clear_number h hw _)

theorem clear_rawPort (q : RawPort) : Clear p q.text.toList := by
  obtain ⟨a, b, v, rfl, -, ha, hb, hb'⟩ := hw.two
  have hinvalid : " [invalid type]".toList = ' ' :: "[invalid type]".toList := by decide
  have hdigits : Clear p (q.digits ++ [' ']) := clear_of_second h ha.symm fun hmem => by
    rcases List.mem_append.mp hmem with hmem | hmem
    · rw [q.hex b hmem] at hb
      exact Bool.noConfusion hb
    · exact hb' (List.mem_singleton.mp hmem)
  have htext : q.text.toList = "0x".toList ++ ((q.digits ++ [' ']) ++ "[invalid type]".toList) := by
    rw [RawPort.text, String.toList_append, String.toList_append, @String.toList_ofList q.digits, hinvalid]
    simp only [List.append_assoc, List.cons_append, List.nil_append]
  rw [htext]
  exact (clear_of_apart h hw.zerox).append (hdigits.append (clear_of_apart h hw.invalid))

theorem clear_rawItem (i : RawItem) : Clear p i.text.toList := by
  unfold RawItem.text
  split
  · exact clear_rawPort h hw _
  · rw [String.toList_append, String.toList_append]
    exact ((clear_rawPort h hw _).append (clear_of_apart h hw.dash)).append (clear_rawPort h hw _)

theorem clear_join {members : List String} (hall : ∀ t ∈ members, Clear p t.toList) : Clear p (join members ", ").toList := by
  induction members with
  | nil => exact clear_nil
  | cons t members ih =>
    have hrest := ih fun u hu => hall u (List.mem_cons_of_mem _ hu)
    cases members with
    | nil => exact hall t List.mem_cons_self
    | cons u members =>
      rw [join, String.toList_append, String.toList_append]
      exact ((hall t List.mem_cons_self).append (clear_of_apart h hw.comma)).append hrest

theorem clear_braced {members : List String} (hall : ∀ t ∈ members, Clear p t.toList) : Clear p (braced members).toList := by
  rw [braced, String.toList_append, String.toList_append]
  exact ((clear_of_apart h hw.opening).append (clear_join h hw hall)).append (clear_of_apart h hw.closing)

theorem clear_ports {S : Nat → Prop} {e : String} (he : PortsListed S e) : Clear p e.toList := by
  cases he with
  | item i _ => exact clear_item h hw i
  | list items _ _ =>
    refine clear_braced h hw fun t ht => ?_
    obtain ⟨i, -, rfl⟩ := List.mem_map.mp ht
    exact clear_item h hw i
  | raw items _ _ =>
    refine clear_braced h hw fun t ht => ?_
    obtain ⟨i, -, rfl⟩ := List.mem_map.mp ht
    exact clear_rawItem h hw i

end passing

/-! ## The line of a policy -/

section line

variable (q : RoutePolicy) (k : Counter) (dport ports : String)

/-- The comment of a listed rule. -/
def commentPart : List Char :=
  "comment \"evuproxy-accepted route=".toList ++ ((toString q.routeIndex).toList ++ (" proto=".toList ++ (q.proto.text ++ "\"").toList))

/-- A listed rule from its counter on. -/
def counterPart : List Char :=
  "counter packets ".toList ++ ((toString k.packets.toNat).toList ++ (" bytes ".toList ++ ((toString k.bytes.toNat).toList ++
    ' ' :: commentPart q)))

/-- A listed rule from its public ports on. -/
def portsPart : List Char := "ct original proto-dst ".toList ++ (ports.toList ++ ' ' :: counterPart q k)

/-- A listed rule from its address on. -/
def daddrPart : List Char :=
  "ip daddr ".toList ++ (q.target.toList ++ ((" " ++ q.proto.text ++ " dport ").toList ++ (dport.toList ++ ' ' :: portsPart q k ports)))

/-- A listed rule. -/
def linePart (pub wg : String) : List Char :=
  "\t\tiifname ".toList ++ ((quote pub).toList ++ (" oifname ".toList ++ ((quote wg).toList ++ ' ' :: daddrPart q k dport ports)))

end line

theorem quoteChar_plain {c : Char} (h : 32 ≤ c.toNat ∧ c.toNat < 127) (hquote : c ≠ '"') (hslash : c ≠ '\\') : quoteChar c = [c] := by
  have hne : ∀ d : Char, d.toNat < 32 → c ≠ d := fun d hd hcd => by
    rw [hcd] at h
    omega
  unfold quoteChar
  rw [if_neg hquote, if_neg hslash, if_neg (hne _ (by decide)), if_neg (hne _ (by decide)), if_neg (hne _ (by decide)),
    if_neg (by omega), if_neg (by omega), if_neg (by omega), if_neg (by omega), if_neg (by omega)]

theorem flatMap_quoteChar {cs : List Char} (h : ∀ c ∈ cs, quoteChar c = [c]) : cs.flatMap quoteChar = cs := by
  induction cs with
  | nil => rfl
  | cons c cs ih =>
    rw [List.flatMap_cons, h c List.mem_cons_self, ih fun d hd => h d (List.mem_cons_of_mem _ hd), List.singleton_append]

theorem quote_plain {s : String} (h : ∀ c ∈ s.toList, quoteChar c = [c]) : (quote s).toList = '"' :: s.toList ++ ['"'] := by
  rw [quote, String.toList_ofList, flatMap_quoteChar h]

theorem ifaceChar_range {c : Char} (h : ifaceChar c = true) : 32 < c.toNat ∧ c.toNat < 127 ∧ c ≠ '"' ∧ c ≠ '\\' := by
  have hrange : 32 < c.toNat ∧ c.toNat < 127 := by
    have hvalues : 'a'.toNat = 97 ∧ 'z'.toNat = 122 ∧ 'A'.toNat = 65 ∧ 'Z'.toNat = 90 ∧ '0'.toNat = 48 ∧ '9'.toNat = 57 := by decide
    simp only [ifaceChar, isLetter, isDigit, Bool.or_eq_true, Bool.and_eq_true, decide_eq_true_eq, char_le, beq_iff_eq] at h
    rcases h with (((h | h) | rfl) | rfl) | rfl
    · omega
    · omega
    · decide
    · decide
    · decide
  refine ⟨hrange.1, hrange.2, ?_, ?_⟩ <;> rintro rfl <;> exact absurd h (by decide)

/-- The quotes around the name of an interface. -/
theorem quote_iface {n : String} (h : validLinuxIface n = .ok ()) : ∃ lead core trail, (∀ c ∈ lead, isSpace c = true) ∧
    (∀ c ∈ core, isBlankRE c = false) ∧ (∀ c ∈ trail, isSpace c = true) ∧ (quote n).toList = quotedName lead core trail := by
  obtain ⟨ws, vs, hws, hvs, hn⟩ := trimList_between n.toList
  have hchars : ∀ c ∈ trimList n.toList, ifaceChar c = true := by
    have := validLinuxIface_chars h
    rwa [trimSpace, String.toList_ofList] at this
  refine ⟨ws, trimList n.toList, vs, hws, fun c hc => ?_, hvs, ?_⟩
  · have hlow := (ifaceChar_range (hchars c hc)).1
    simp only [isBlankRE, Bool.or_eq_false_iff, beq_eq_false_iff_ne]
    refine ⟨⟨⟨⟨?_, ?_⟩, ?_⟩, ?_⟩, ?_⟩ <;> rintro rfl <;> exact absurd hlow (by decide)
  · have hcore : (trimList n.toList).flatMap quoteChar = trimList n.toList := flatMap_quoteChar fun c hc => by
      obtain ⟨hlo, hhi, hquote, hslash⟩ := ifaceChar_range (hchars c hc)
      exact quoteChar_plain ⟨by omega, hhi⟩ hquote hslash
    have hparts : n.toList.flatMap quoteChar = quotedSpace ws ++ trimList n.toList ++ quotedSpace vs := by
      conv_lhs => rw [hn]
      rw [List.flatMap_append, List.flatMap_append, hcore]
      rfl
    rw [quote, String.toList_ofList, hparts, quotedName]
    simp only [List.cons_append, List.append_assoc]

theorem RouteChecked.target_chars {c : Config} {i : Nat} {r : ForwardRoute} (h : RouteChecked c i r) :
    ∀ ch ∈ (trimSpace r.targetIP).toList, isDigit ch = true ∨ ch = '.' := by
  obtain ⟨hmem, hne⟩ := List.mem_filter.mp h.target
  obtain ⟨p, -, hp⟩ := List.mem_map.mp hmem
  rw [← hp] at hne ⊢
  unfold peerTunnelIPv4 at hne ⊢
  dsimp only at hne ⊢
  split
  · exact ipv4String_chars _
  · exact fun ch hch => absurd hch List.not_mem_nil

/-- The rule of a policy matches two ports, before it counts. -/
theorem routeAcceptedRule_policyOf (pub wg : String) (c : Config) (i : Nat) (r : ForwardRoute) (dnat : List RouteDNATLine) (proto : Proto) :
    ∃ d, routeAcceptedRule pub wg (policyOf c i r dnat proto) = [.iifname pub, .oifname false wg, .daddr (trimSpace r.targetIP),
      .dport proto d, .origDport (.set (normalizedPortTokens r.ports)), .counter, .comment (routeAcceptedComment i proto)] := by
  by_cases hmaps : r.portMaps = []
  · refine ⟨.set (normalizedPortTokens r.ports), ?_⟩
    simp [routeAcceptedRule, policyOf, routeForwardPorts, hmaps, wanToTunnel, PortMatch.stmts]
  · simp [routeAcceptedRule, policyOf, routeForwardPorts, hmaps, wanToTunnel, PortMatch.stmts]

theorem toList_append₄ (s t u v : String) : (s ++ t ++ u ++ v).toList = s.toList ++ (t.toList ++ (u.toList ++ v.toList)) := by
  simp only [String.toList_append, List.append_assoc]

theorem toList_routeAcceptedComment (i : Nat) (proto : Proto) : (routeAcceptedComment i proto).toList =
    "evuproxy-accepted route=".toList ++ ((toString i).toList ++ (" proto=".toList ++ proto.text.toList)) :=
  toList_append₄ "evuproxy-accepted route=" (toString i) " proto=" proto.text

theorem quote_comment (i : Nat) (proto : Proto) : (quote (routeAcceptedComment i proto)).toList =
    "\"evuproxy-accepted route=".toList ++ ((toString i).toList ++ (" proto=".toList ++ (proto.text ++ "\"").toList)) := by
  have hlit : ∀ cs : List Char, cs.all (fun c => quoteChar c == [c]) = true → ∀ c ∈ cs, quoteChar c = [c] := fun cs hcs c hc =>
    beq_iff_eq.mp (List.all_eq_true.mp hcs c hc)
  have hproto : ∀ c ∈ proto.text.toList, quoteChar c = [c] := by
    cases proto
    · exact hlit "tcp".toList (by decide +kernel)
    · exact hlit "udp".toList (by decide +kernel)
  have hplain : ∀ c ∈ (routeAcceptedComment i proto).toList, quoteChar c = [c] := by
    intro c hc
    rw [toList_routeAcceptedComment, List.mem_append, List.mem_append, List.mem_append] at hc
    rcases hc with hc | hc | hc | hc
    · exact hlit "evuproxy-accepted route=".toList (by decide +kernel) c hc
    · have hdigit := isDigit_toString i c hc
      have hchar : ifaceChar c = true := by simp [ifaceChar, hdigit]
      obtain ⟨hlo, hhi, hquote, hslash⟩ := ifaceChar_range hchar
      exact quoteChar_plain ⟨by omega, hhi⟩ hquote hslash
    · exact hlit " proto=".toList (by decide +kernel) c hc
    · exact hproto c hc
  have hopen : "\"evuproxy-accepted route=".toList = '"' :: "evuproxy-accepted route=".toList := by decide
  have hclose : "\"".toList = ['"'] := by decide
  rw [quote_plain hplain, toList_routeAcceptedComment, hopen, @String.toList_append proto.text, hclose]
  simp only [List.cons_append, List.append_assoc]

theorem toList_join_space (s t : String) (ss : List String) :
    (join (s :: t :: ss) " ").toList = s.toList ++ ' ' :: (join (t :: ss) " ").toList := by
  have hspace : " ".toList = [' '] := by decide
  rw [join, @String.toList_append (s ++ " "), @String.toList_append s, hspace, List.append_assoc, List.singleton_append]

theorem toList_dport (proto : Proto) (d : String) :
    ' ' :: (proto.text ++ " dport " ++ d).toList = (" " ++ proto.text ++ " dport ").toList ++ d.toList := by
  have hspace : " ".toList = [' '] := by decide
  rw [@String.toList_append (proto.text ++ " dport ") d, @String.toList_append proto.text, @String.toList_append (" " ++ proto.text),
    @String.toList_append " " proto.text, hspace]
  simp only [List.append_assoc, List.cons_append, List.nil_append]

/-- A listed rule of a policy, piece by piece. -/
theorem listed_line {pub wg : String} {c : Config} {i : Nat} {r : ForwardRoute} {dnat : List RouteDNATLine} {proto : Proto} {k : Counter}
    {line : String} (h : RuleListed k (routeAcceptedRule pub wg (policyOf c i r dnat proto)) line) :
    ∃ (ports : Ports) (dport e : String), PortsListed (fun p => ports.has p = true) dport ∧
      PortsListed (fun p => (policyOf c i r dnat proto).portExpr.has p = true) e ∧
      line.toList = linePart (policyOf c i r dnat proto) k dport e pub wg := by
  obtain ⟨ports, hrule⟩ := routeAcceptedRule_policyOf pub wg c i r dnat proto
  rw [hrule] at h
  obtain ⟨texts, hall, rfl⟩ := h
  rcases hall with _ | ⟨hiif, _ | ⟨hoif, _ | ⟨hdaddr, _ | ⟨hdport, _ | ⟨horig, _ | ⟨hcounter, _ | ⟨hcomment, _ | _⟩⟩⟩⟩⟩⟩⟩
  rename_i tiif toif tdaddr tdport torig tcounter tcomment
  obtain ⟨d, hd, hdport⟩ := hdport
  obtain ⟨e, he, horig⟩ := horig
  refine ⟨ports, d, e, hd, he, ?_⟩
  have hiif : tiif.toList = "iifname ".toList ++ (quote pub).toList := (congrArg String.toList hiif).trans String.toList_append
  have hoif : toif.toList = "oifname ".toList ++ (quote wg).toList := (congrArg String.toList hoif).trans String.toList_append
  have hdaddr : tdaddr.toList = "ip daddr ".toList ++ (trimSpace r.targetIP).toList :=
    (congrArg String.toList hdaddr).trans String.toList_append
  have hdport : ∀ rest, ' ' :: (tdport.toList ++ rest) = (" " ++ proto.text ++ " dport ").toList ++ (d.toList ++ rest) := fun rest => by
    rw [hdport, ← List.append_assoc, ← toList_dport, List.cons_append]
  have horig : torig.toList = "ct original proto-dst ".toList ++ e.toList := (congrArg String.toList horig).trans String.toList_append
  have hcounter : tcounter.toList = "counter packets ".toList ++ ((toString k.packets.toNat).toList ++ (" bytes ".toList ++
      (toString k.bytes.toNat).toList)) := (congrArg String.toList hcounter).trans (toList_append₄ _ _ _ _)
  have hcomment : tcomment.toList = "comment ".toList ++ (quote (routeAcceptedComment i proto)).toList :=
    (congrArg String.toList hcomment).trans String.toList_append
  have hopen : "comment \"evuproxy-accepted route=".toList = "comment ".toList ++ "\"evuproxy-accepted route=".toList := by decide
  have htabs : "\t\tiifname ".toList = "\t\t".toList ++ "iifname ".toList := by decide
  have hoifname : " oifname ".toList = ' ' :: "oifname ".toList := by decide
  have hsingle : join [tcomment] " " = tcomment := rfl
  rw [@String.toList_append "\t\t", toList_join_space, toList_join_space, toList_join_space, toList_join_space, toList_join_space,
    toList_join_space, hsingle, hiif, hoif, hdaddr, horig, hcounter, hcomment, quote_comment]
  unfold linePart daddrPart portsPart counterPart commentPart
  rw [htabs, hoifname, hopen]
  simp only [List.append_assoc, List.cons_append, hdport, policyOf]

/-! ## What a search passes over in it -/

/-- A word that stands nowhere in a listed rule, beside the words that some search is for. -/
structure RuleWord (w : List Char) : Prop where
  word : isWord w = true
  ports : NoPortWord w
  blank : apart w [' '] = true
  iif : apart w "\t\tiifname ".toList = true
  oif : apart w " oifname ".toList = true
  tcp : apart w " tcp dport ".toList = true
  udp : apart w " udp dport ".toList = true

section pieces

variable {α : Type} {p : List Char → Option α} {first second rest : List Char} {q : RoutePolicy} {k : Counter} {dport e pub wg : String}
variable {S : Nat → Prop} (h : TwoWords p first second) (hw : RuleWord first)

include h hw

theorem search_blank : search p (' ' :: rest) = search p rest := (clear_of_apart h hw.blank).search_eq

/-- A text without small letters. -/
theorem clear_of_noLetters {cs : List Char} (hcs : ∀ c ∈ cs, c.toNat < 97) : Clear p cs := by
  cases first with
  | nil => exact Bool.noConfusion hw.word
  | cons a w =>
    refine clear_of_not_mem h fun ha => ?_
    have hlo := (isWord_letters hw.word a List.mem_cons_self).1
    have := hcs a ha
    omega

theorem search_number {n : Nat} : search p ((toString n).toList ++ rest) = search p rest := by
  refine (clear_of_noLetters h hw fun c hc => ?_).search_eq
  have hdigit := isDigit_toString n c hc
  simp only [isDigit, Bool.and_eq_true, decide_eq_true_eq, char_le] at hdigit
  have h9 : '9'.toNat = 57 := by decide
  omega

theorem search_target {t : String} (ht : ∀ ch ∈ t.toList, isDigit ch = true ∨ ch = '.') : search p (t.toList ++ rest) = search p rest := by
  refine (clear_of_noLetters h hw fun c hc => ?_).search_eq
  rcases ht c hc with hdigit | rfl
  · simp only [isDigit, Bool.and_eq_true, decide_eq_true_eq, char_le] at hdigit
    have h9 : '9'.toNat = 57 := by decide
    omega
  · decide

/-- The start of a listed rule has the names of the interfaces. -/
theorem search_linePart (hsecond : startsPlainly second = true) (hpub : validLinuxIface pub = .ok ()) (hwg : validLinuxIface wg = .ok ()) :
    search p (linePart q k dport e pub wg) = search p (daddrPart q k dport e) := by
  obtain ⟨lead, core, trail, hlead, hcore, htrail, hquote⟩ := quote_iface hpub
  obtain ⟨lead', core', trail', hlead', hcore', htrail', hquote'⟩ := quote_iface hwg
  have hoifname : " oifname ".toList = ' ' :: "oifname ".toList := by decide
  unfold linePart
  rw [(clear_of_apart h hw.iif).search_eq, hquote, hoifname, List.cons_append,
    search_quotedName h hw.word hsecond hlead hcore htrail, ← List.cons_append, ← hoifname, (clear_of_apart h hw.oif).search_eq, hquote',
    search_quotedName h hw.word hsecond hlead' hcore' htrail', search_blank h hw]

theorem search_dport (htarget : ∀ ch ∈ q.target.toList, isDigit ch = true ∨ ch = '.') (hdport : PortsListed S dport) :
    search p (q.target.toList ++ ((" " ++ q.proto.text ++ " dport ").toList ++ (dport.toList ++ ' ' :: portsPart q k e))) =
      search p (portsPart q k e) := by
  have hproto : apart first (" " ++ q.proto.text ++ " dport ").toList = true := by
    cases q.proto
    · exact hw.tcp
    · exact hw.udp
  rw [search_target h hw htarget, (clear_of_apart h hproto).search_eq, (clear_ports h hw.ports hdport).search_eq, search_blank h hw]

/-- A search that does not stop at the address goes on to the public ports. -/
theorem search_toPorts (hsecond : startsPlainly second = true) (hdaddr : apart first "ip daddr ".toList = true)
    (hpub : validLinuxIface pub = .ok ()) (hwg : validLinuxIface wg = .ok ()) (hdport : PortsListed S dport)
    (htarget : ∀ ch ∈ q.target.toList, isDigit ch = true ∨ ch = '.') :
    search p (linePart q k dport e pub wg) = search p (portsPart q k e) := by
  have hskip := @Clear.search_eq _ _ _ (q.target.toList ++ ((" " ++ q.proto.text ++ " dport ").toList ++ (dport.toList ++
    ' ' :: portsPart q k e))) (clear_of_apart h hdaddr)
  exact (search_linePart h hw hsecond hpub hwg).trans (hskip.trans (search_dport h hw htarget hdport))

theorem search_portsPart (hct : apart first "ct original proto-dst ".toList = true) (he : PortsListed S e) :
    search p (portsPart q k e) = search p (counterPart q k) := by
  unfold portsPart
  rw [(clear_of_apart h hct).search_eq, (clear_ports h hw.ports he).search_eq, search_blank h hw]

theorem search_counterPart (hcounter : apart first "counter packets ".toList = true) (hbytes : apart first " bytes ".toList = true) :
    search p (counterPart q k) = search p (commentPart q) := by
  unfold counterPart
  rw [(clear_of_apart h hcounter).search_eq, search_number h hw, (clear_of_apart h hbytes).search_eq, search_number h hw,
    search_blank h hw]

theorem search_commentPart (hcomment : apart first "comment \"evuproxy-accepted route=".toList = true)
    (hproto : apart first " proto=".toList = true) (htcp : apart first "tcp\"".toList = true) (hudp : apart first "udp\"".toList = true) :
    search p (commentPart q) = p [] := by
  have htext : apart first (q.proto.text ++ "\"").toList = true := by
    cases q.proto
    · exact htcp
    · exact hudp
  have hend := @Clear.search_eq _ _ _ [] (clear_of_apart h htext)
  rw [List.append_nil] at hend
  unfold commentPart
  rw [(clear_of_apart h hcomment).search_eq, search_number h hw, (clear_of_apart h hproto).search_eq, hend, search]

end pieces

/-! ## What is found -/

theorem ruleWord_comment : RuleWord "comment".toList where
  word := by decide
  ports := ⟨⟨'c', 'o', "mment".toList, by decide⟩, by decide, by decide, by decide, by decide, by decide, by decide⟩
  blank := by decide
  iif := by decide
  oif := by decide
  tcp := by decide
  udp := by decide

theorem ruleWord_counter : RuleWord "counter".toList where
  word := by decide
  ports := ⟨⟨'c', 'o', "unter".toList, by decide⟩, by decide, by decide, by decide, by decide, by decide, by decide⟩
  blank := by decide
  iif := by decide
  oif := by decide
  tcp := by decide
  udp := by decide

theorem ruleWord_ct : RuleWord "ct".toList where
  word := by decide
  ports := ⟨⟨'c', 't', [], by decide⟩, by decide, by decide, by decide, by decide, by decide, by decide⟩
  blank := by decide
  iif := by decide
  oif := by decide
  tcp := by decide
  udp := by decide

theorem ruleWord_ip : RuleWord "ip".toList where
  word := by decide
  ports := ⟨⟨'i', 'p', [], by decide⟩, by decide, by decide, by decide, by decide, by decide, by decide⟩
  blank := by decide
  iif := by decide
  oif := by decide
  tcp := by decide
  udp := by decide

/-- A listing of the rule of a policy, with the interfaces of an accepted config. -/
structure LineListed (q : RoutePolicy) (k : Counter) (line : String) : Prop where
  shape : ∃ (pub wg dport e : String) (S : Nat → Prop), validLinuxIface pub = .ok () ∧ validLinuxIface wg = .ok () ∧
    PortsListed S dport ∧ PortsListed (fun p => q.portExpr.has p = true) e ∧ line.toList = linePart q k dport e pub wg
  target : ∀ ch ∈ q.target.toList, isDigit ch = true ∨ ch = '.'

theorem LineListed.noBlank {q : RoutePolicy} {k : Counter} {line : String} (h : LineListed q k line) : ' ' ∉ q.target.toList := by
  intro hmem
  rcases h.target _ hmem with hdigit | hdot
  · exact absurd hdigit (by decide)
  · exact absurd hdot (by decide)

theorem commentRE_commentPart (q : RoutePolicy) : routeAcceptedCommentRE (commentPart q) = some ((toString q.routeIndex).toList, q.proto) := by
  have hspace : " proto=".toList = ' ' :: "proto=".toList := by decide
  have hdigits : digits ((toString q.routeIndex).toList ++ (" proto=".toList ++ (q.proto.text ++ "\"").toList)) =
      some ((toString q.routeIndex).toList, " proto=".toList ++ (q.proto.text ++ "\"").toList) := by
    refine digits_toString fun c hc => ?_
    rw [hspace, List.cons_append, List.head?_cons] at hc
    rw [← Option.some.inj hc]
    decide
  have hproto : (if (lit "tcp\"" (q.proto.text ++ "\"").toList).isSome then some ((toString q.routeIndex).toList, Proto.tcp)
      else if (lit "udp\"" (q.proto.text ++ "\"").toList).isSome then some ((toString q.routeIndex).toList, Proto.udp) else none) =
        some ((toString q.routeIndex).toList, q.proto) := by
    cases q.proto
    · exact if_pos (by decide)
    · rw [if_neg (by decide), if_pos (by decide)]
  unfold routeAcceptedCommentRE commentPart
  rw [lit_append, Option.bind_eq_bind, Option.bind_some, hdigits, Option.bind_eq_bind, Option.bind_some]
  dsimp only
  rw [lit_append, Option.bind_some]
  exact hproto

theorem publicPortsRE_portsPart {q : RoutePolicy} {k : Counter} {e : String} {S : Nat → Prop} (he : PortsListed S e) :
    routeAcceptedPublicPortsRE (portsPart q k e) = some e.toList := by
  unfold routeAcceptedPublicPortsRE portsPart
  rw [lit_append, Option.bind_some]
  exact portsExpr_listed he _

theorem isDigit_notBlank {c : Char} (h : isDigit c = true) : isBlankRE c = false := by
  simp only [isBlankRE, Bool.or_eq_false_iff, beq_eq_false_iff_ne]
  refine ⟨⟨⟨⟨?_, ?_⟩, ?_⟩, ?_⟩, ?_⟩ <;> rintro rfl <;> exact absurd h (by decide)

/-- A number after a blank. -/
theorem blanks_number (n : Nat) (rest : List Char) : blanks (' ' :: ((toString n).toList ++ rest)) = some ((toString n).toList ++ rest) := by
  cases hcs : (toString n).toList with
  | nil => exact absurd hcs (toString_ne_nil n)
  | cons c cs => exact blanks_space (isDigit_notBlank (isDigit_toString n c (hcs ▸ List.mem_cons_self)))

theorem counterRE_counterPart (q : RoutePolicy) (k : Counter) :
    nftCounterRE (counterPart q k) = some ((toString k.packets.toNat).toList, (toString k.bytes.toNat).toList) := by
  have hcounter : "counter packets ".toList = "counter".toList ++ (' ' :: 'p' :: "ackets ".toList) := by decide
  have hpackets : 'p' :: "ackets ".toList = "packets".toList ++ [' '] := by decide
  have hbytes : " bytes ".toList = ' ' :: 'b' :: "ytes ".toList := by decide
  have hbytes' : 'b' :: "ytes ".toList = "bytes".toList ++ [' '] := by decide
  have hstart : ∀ rest, "counter packets ".toList ++ rest = "counter".toList ++ (' ' :: 'p' :: ("ackets ".toList ++ rest)) := fun rest => by
    rw [hcounter, List.append_assoc, List.cons_append, List.cons_append]
  have hafter : ∀ rest, 'p' :: ("ackets ".toList ++ rest) = "packets".toList ++ ' ' :: rest := fun rest => by
    rw [← List.cons_append, hpackets, List.append_assoc, List.singleton_append]
  have hafter' : ∀ rest, 'b' :: ("ytes ".toList ++ rest) = "bytes".toList ++ ' ' :: rest := fun rest => by
    rw [← List.cons_append, hbytes', List.append_assoc, List.singleton_append]
  have hblank : ∀ (n : Nat) (rest : List Char), digits ((toString n).toList ++ ' ' :: rest) = some ((toString n).toList, ' ' :: rest) := by
    intro n rest
    refine digits_toString fun c hc => ?_
    rw [← Option.some.inj hc]
    decide
  have hp : isBlankRE 'p' = false := by decide
  have hb : isBlankRE 'b' = false := by decide
  unfold nftCounterRE counterPart
  rw [hstart, lit_append, Option.bind_eq_bind, Option.bind_some, blanks_space hp, Option.bind_some, hafter, lit_append,
    Option.bind_some, blanks_number, Option.bind_some, hbytes, List.cons_append, List.cons_append, hblank, Option.bind_eq_bind,
    Option.bind_some]
  dsimp only
  rw [blanks_space hb, Option.bind_some, hafter', lit_append, Option.bind_some, blanks_number, Option.bind_some, hblank]
  rfl

/-- A text up to its first blank. -/
theorem word_inj {xs ys rest rest' : List Char} (hx : ' ' ∉ xs) (hy : ' ' ∉ ys) (h : xs ++ ' ' :: rest = ys ++ ' ' :: rest') : xs = ys := by
  have htake : ∀ {zs rest : List Char}, ' ' ∉ zs → (zs ++ ' ' :: rest).takeWhile (· ≠ ' ') = zs := by
    intro zs rest hz
    have hpos : ∀ c ∈ zs, decide (c ≠ ' ') = true := by
      intro c hc
      refine decide_eq_true ?_
      rintro rfl
      exact hz hc
    rw [List.takeWhile_append_of_pos hpos, List.takeWhile_cons_of_neg (by decide), List.append_nil]
  rw [← @htake xs rest hx, h, htake hy]

theorem lit_nil {l : String} (hl : l.toList ≠ []) : lit l [] = none := by
  by_contra hsome
  obtain ⟨rest, hrest⟩ := Option.ne_none_iff_exists'.mp hsome
  exact hl (List.append_eq_nil_iff.mp (lit_eq_some.mp hrest).symm).1

theorem startsPlainly_letter {b : Char} {w : List Char} (h : 97 ≤ b.toNat ∧ b.toNat ≤ 122) : startsPlainly (b :: w) = true := by
  have hother : b ≠ '"' ∧ b ≠ '\\' := by
    refine ⟨?_, ?_⟩ <;> rintro rfl <;> exact absurd h.1 (by decide)
  unfold startsPlainly
  split
  · rename_i heq
    exact absurd (List.cons.inj heq).1 hother.1
  · rename_i heq
    rw [← (List.cons.inj heq).1]
    simp [hother]
    omega
  · rename_i heq
    exact absurd heq (List.cons_ne_nil _ _)

/-- No address stands after the start of the rule's own. -/
theorem search_daddrPart {α : Type} {p : List Char → Option α} {second : List Char} {q : RoutePolicy} {k : Counter} {dport e : String}
    {S S' : Nat → Prop} (h : TwoWords p "ip".toList second) (hdport : PortsListed S dport) (he : PortsListed S' e)
    (htarget : ∀ ch ∈ q.target.toList, isDigit ch = true ∨ ch = '.') (hnil : p [] = none) :
    search p (daddrPart q k dport e) = p (daddrPart q k dport e) := by
  have hw := ruleWord_ip
  have hip : "ip daddr ".toList = 'i' :: "p daddr ".toList := by decide
  have hp : apart "ip".toList "p daddr ".toList = true := by decide
  have hct : apart "ip".toList "ct original proto-dst ".toList = true := by decide
  have hcounter : apart "ip".toList "counter packets ".toList = true := by decide
  have hbytes : apart "ip".toList " bytes ".toList = true := by decide
  have hcomment : apart "ip".toList "comment \"evuproxy-accepted route=".toList = true := by decide
  have hproto : apart "ip".toList " proto=".toList = true := by decide
  have htcp : apart "ip".toList "tcp\"".toList = true := by decide
  have hudp : apart "ip".toList "udp\"".toList = true := by decide
  have hafter : search p ("p daddr ".toList ++ (q.target.toList ++ ((" " ++ q.proto.text ++ " dport ").toList ++ (dport.toList ++
      ' ' :: portsPart q k e)))) = none := by
    rw [(clear_of_apart h hp).search_eq, search_dport h hw htarget hdport, search_portsPart h hw hct he,
      search_counterPart h hw hcounter hbytes, search_commentPart h hw hcomment hproto htcp hudp, hnil]
  unfold daddrPart
  rw [hip, List.cons_append, search, hafter, Option.or_none]

/-- The address that a rule is searched for, and the address in it. -/
theorem toList_daddr (target : String) : ("ip daddr " ++ target ++ " ").toList = "ip daddr ".toList ++ (target.toList ++ [' ']) := by
  have hspace : " ".toList = [' '] := by decide
  rw [@String.toList_append ("ip daddr " ++ target), @String.toList_append "ip daddr ", hspace, List.append_assoc]

theorem toList_daddr_ne (target : String) : ("ip daddr " ++ target ++ " ").toList ≠ [] := by
  have hip : "ip daddr ".toList ≠ [] := by decide
  rw [toList_daddr]
  exact List.append_ne_nil_of_left_ne_nil hip _

theorem daddrPart_eq (q : RoutePolicy) (k : Counter) (dport e : String) : ∃ rest, daddrPart q k dport e =
    "ip daddr ".toList ++ (q.target.toList ++ ' ' :: rest) := by
  have hspace : " ".toList = [' '] := by decide
  have hdport : (" " ++ q.proto.text ++ " dport ").toList = ' ' :: (q.proto.text.toList ++ " dport ".toList) := by
    rw [@String.toList_append (" " ++ q.proto.text), @String.toList_append " " q.proto.text, hspace, List.append_assoc, List.singleton_append]
  unfold daddrPart
  rw [hdport, List.cons_append]
  exact ⟨_, rfl⟩

section found

variable {q : RoutePolicy} {k : Counter} {line : String} (h : LineListed q k line)

include h

/-- The comment of the rule is found. -/
theorem search_comment : search routeAcceptedCommentRE line.toList = some ((toString q.routeIndex).toList, q.proto) := by
  obtain ⟨pub, wg, dport, e, S, hpub, hwg, hdport, he, hline⟩ := h.shape
  have htw := twoWords_comment
  have hw := ruleWord_comment
  have hdaddr : apart "comment".toList "ip daddr ".toList = true := by decide
  have hct : apart "comment".toList "ct original proto-dst ".toList = true := by decide
  have hcounter : apart "comment".toList "counter packets ".toList = true := by decide
  have hbytes : apart "comment".toList " bytes ".toList = true := by decide
  rw [hline, search_toPorts htw hw (by decide) hdaddr hpub hwg hdport h.target]
  exact (search_portsPart htw hw hct he).trans ((search_counterPart htw hw hcounter hbytes).trans (search_found (commentRE_commentPart q)))

/-- The public ports of the rule are found. -/
theorem search_publicPorts : ∃ e, PortsListed (fun p => q.portExpr.has p = true) e ∧
    search routeAcceptedPublicPortsRE line.toList = some e.toList := by
  obtain ⟨pub, wg, dport, e, S, hpub, hwg, hdport, he, hline⟩ := h.shape
  have hdaddr : apart "ct".toList "ip daddr ".toList = true := by decide
  refine ⟨e, he, ?_⟩
  rw [hline, search_toPorts twoWords_publicPorts ruleWord_ct (by decide) hdaddr hpub hwg hdport h.target]
  exact search_found (publicPortsRE_portsPart he)

/-- The counter of the rule is found. -/
theorem search_counter : search nftCounterRE line.toList = some ((toString k.packets.toNat).toList, (toString k.bytes.toNat).toList) := by
  obtain ⟨pub, wg, dport, e, S, hpub, hwg, hdport, he, hline⟩ := h.shape
  have htw := twoWords_counter
  have hw := ruleWord_counter
  have hdaddr : apart "counter".toList "ip daddr ".toList = true := by decide
  have hct : apart "counter".toList "ct original proto-dst ".toList = true := by decide
  rw [hline, search_toPorts htw hw (by decide) hdaddr hpub hwg hdport h.target]
  exact (search_portsPart htw hw hct he).trans (search_found (counterRE_counterPart q k))

/-- The target of the rule, and no other word, is found as its address. -/
theorem contains_daddr {target : String} (ht : ' ' ∉ target.toList) :
    contains line ("ip daddr " ++ target ++ " ") = true ↔ target = q.target := by
  obtain ⟨pub, wg, dport, e, S, hpub, hwg, hdport, he, hline⟩ := h.shape
  have hqtarget := h.noBlank
  obtain ⟨rest, hrest⟩ := daddrPart_eq q k dport e
  rw [contains, hline, search_linePart (twoWords_daddr target) ruleWord_ip (startsPlainly_letter (by decide)) hpub hwg,
    search_daddrPart (twoWords_daddr target) hdport he h.target (lit_nil (toList_daddr_ne target)), Option.isSome_iff_exists, hrest]
  constructor
  · rintro ⟨rest', hlit⟩
    have heq := lit_eq_some.mp hlit
    rw [toList_daddr, List.append_assoc, List.append_cancel_left_eq, List.append_assoc, List.singleton_append] at heq
    exact (String.toList_inj.mp (word_inj hqtarget ht heq)).symm
  · rintro rfl
    refine ⟨rest, lit_eq_some.mpr ?_⟩
    rw [toList_daddr, List.append_assoc, List.append_assoc, List.singleton_append]

end found

end EvuProxy
