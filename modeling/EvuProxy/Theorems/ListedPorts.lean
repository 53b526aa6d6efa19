import EvuProxy.Apply.Stats
import EvuProxy.Config.Braces
import EvuProxy.Config.PortMeaning
import EvuProxy.Theorems.PublicPorts

/-!
# Listed ports

The public ports of a rule as `routeAcceptedPortsFit` reads them back: whatever the notation of the listing, they are compared with
those of the route as sets.
-/

namespace EvuProxy

open Go Nft

/-! ## The members of a set -/

/-- A character of a port in decimal digits, or of a range of them. -/
def itemChar (c : Char) : Bool := isDigit c || c == '-'

theorem item_chars (i : PortItem) : ∀ c ∈ i.text.toList, itemChar c = true := by
  have hnumber : ∀ n : Nat, ∀ c ∈ (toString n).toList, itemChar c = true := fun n c hc => by simp [itemChar, isDigit_toString n c hc]
  have hdash : "-".toList = ['-'] := by decide
  unfold PortItem.text
  split
  · exact hnumber _
  · rw [@String.toList_append (toString i.lo ++ "-"), @String.toList_append (toString i.lo), hdash]
    intro c hc
    rcases List.mem_append.mp hc with hc | hc
    · rcases List.mem_append.mp hc with hc | hc
      · exact hnumber _ c hc
      · rw [List.mem_singleton.mp hc]
        decide
    · exact hnumber _ c hc

theorem itemChar_plain {c : Char} (h : itemChar c = true) :
    isSpace c = false ∧ isBlankRE c = false ∧ c ≠ ',' ∧ c ≠ '{' ∧ c ≠ '}' ∧ c ≠ 'x' ∧ c ≠ '\n' := by
  have hrange : c.toNat = 45 ∨ 48 ≤ c.toNat ∧ c.toNat ≤ 57 := by
    have hvalues : '0'.toNat = 48 ∧ '9'.toNat = 57 := by decide
    simp only [itemChar, isDigit, Bool.or_eq_true, Bool.and_eq_true, decide_eq_true_eq, char_le, beq_iff_eq] at h
    rcases h with h | rfl
    · omega
    · decide
  refine ⟨?_, ?_, ?_, ?_, ?_, ?_, ?_⟩
  · cases hs : isSpace c with
    | false => rfl
    | true =>
      simp only [isSpace, Bool.or_eq_true, Bool.and_eq_true, decide_eq_true_eq, beq_iff_eq] at hs
      omega
  · simp only [isBlankRE, Bool.or_eq_false_iff, beq_eq_false_iff_ne]
    refine ⟨⟨⟨⟨?_, ?_⟩, ?_⟩, ?_⟩, ?_⟩ <;> rintro rfl <;> exact absurd h (by decide)
  all_goals
    rintro rfl
    exact absurd h (by decide)

theorem item_ne (i : PortItem) : i.text.toList ≠ [] := by
  unfold PortItem.text
  split
  · exact toString_ne_nil _
  · rw [@String.toList_append (toString i.lo ++ "-")]
    exact List.append_ne_nil_of_right_ne_nil _ (toString_ne_nil _)

theorem item_trimmed (i : PortItem) : Trimmed i.text := trimmed_of_noSpace fun c hc => (itemChar_plain (item_chars i c hc)).1

theorem expandPortToken_range_text {i : PortItem} (hne : i.lo ≠ i.hi) : expandPortToken i.text =
    if (i.lo : Int) < 1 ∨ (i.hi : Int) < 1 ∨ 65535 < (i.lo : Int) ∨ 65535 < (i.hi : Int) ∨ (i.hi : Int) < i.lo then
      errorf ("invalid port range " ++ quote i.text)
    else .ok (List.range' i.lo (i.hi + 1 - i.lo)) := by
  have hbound := i.bound
  have hle := i.le
  have hnil : i.text ≠ "" := fun he => item_ne i (congrArg String.toList he)
  have hdash : "-".toList = ['-'] := by decide
  have htext : i.text.toList = (toString i.lo).toList ++ '-' :: (toString i.hi).toList := by
    rw [PortItem.text, if_neg hne, @String.toList_append (toString i.lo ++ "-"), @String.toList_append (toString i.lo), hdash,
      List.append_assoc, List.singleton_append]
  have hcut := cut_of_toList (not_mem_toString (by decide)) htext
  rw [String.ofList_toList] at hcut
  unfold expandPortToken
  dsimp only
  rw [show trimSpace i.text = i.text from item_trimmed i, if_neg hnil, hcut]
  dsimp only
  rw [show trimSpace (toString i.lo) = toString i.lo from trimmed_toString _,
    show trimSpace (toString i.hi) = toString i.hi from trimmed_toString _, atoi_toString (by omega), atoi_toString (by omega)]
  rfl

/-- A member expands to its ports, if it does not start at zero. -/
theorem expandPortToken_item (i : PortItem) (hlo : 1 ≤ i.lo) : expandPortToken i.text = .ok (List.range' i.lo (i.hi + 1 - i.lo)) := by
  have hbound := i.bound
  have hle := i.le
  by_cases heq : i.lo = i.hi
  · have hone : i.hi + 1 - i.lo = 1 := by omega
    rw [PortItem.text, if_pos heq, expandPortToken_toString hlo (by omega), hone]
    rfl
  · rw [expandPortToken_range_text heq, if_neg (by omega)]

theorem item_positive {i : PortItem} {ps : List Nat} (h : expandPortToken i.text = .ok ps) : 1 ≤ i.lo := by
  by_contra hlo
  have hzero : i.lo = 0 := by omega
  by_cases heq : i.lo = i.hi
  · rw [PortItem.text, if_pos heq, hzero] at h
    have herror : (expandPortToken (toString 0)).toOption = none := by decide +kernel
    rw [h] at herror
    cases herror
  · rw [expandPortToken_range_text heq, if_pos (by omega)] at h
    cases h

theorem item_has {i : PortItem} {ps : List Nat} (h : expandPortToken i.text = .ok ps) (p : Nat) : p ∈ ps ↔ i.Has p := by
  have hle := i.le
  obtain rfl := Except.ok.inj ((expandPortToken_item i (item_positive h)).symm.trans h)
  rw [List.mem_range'_1, PortItem.Has]
  omega

/-- The expansion of the members is that of a route if and only if the ports are the same. -/
theorem expand_items {S : Nat → Prop} {items : List PortItem} {t : String} {ports : List String} {want : List Nat}
    (htoks : portTokens [t] = items.map PortItem.text) (hS : ∀ p, S p ↔ ∃ i ∈ items, i.Has p)
    (hwant : expandRoutePortNumbers ports = .ok want) : expandRoutePortNumbers [t] = .ok want ↔ ∀ p, S p ↔ p ∈ want := by
  obtain ⟨seen, rfl, hseen, -, -⟩ := expandRoutePortNumbers_ok hwant
  have hmem : (∀ tok ∈ portTokens [t], ∃ qs, expandPortToken tok = .ok qs) → ∀ p, S p ↔ InTokens p (portTokens [t]) := by
    intro hall p
    rw [hS, htoks]
    constructor
    · rintro ⟨i, hi, hp⟩
      obtain ⟨qs, hqs⟩ := hall i.text (htoks ▸ List.mem_map_of_mem hi)
      exact ⟨i.text, List.mem_map_of_mem hi, qs, hqs, (item_has hqs p).mpr hp⟩
    · rintro ⟨tok, htok, qs, hqs, hp⟩
      obtain ⟨i, hi, rfl⟩ := List.mem_map.mp htok
      exact ⟨i, hi, (item_has hqs p).mp hp⟩
  constructor
  · intro hlive p
    obtain ⟨seen', heq, -, htokens, hseen'⟩ := expandRoutePortNumbers_ok hlive
    rw [hmem htokens, ← hseen', ← List.mem_insertionSort (· ≤ ·), ← heq]
  · intro hports
    have hall : ∀ tok ∈ portTokens [t], ∃ qs, expandPortToken tok = .ok qs := by
      intro tok htok
      rw [htoks] at htok
      obtain ⟨i, hi, rfl⟩ := List.mem_map.mp htok
      have hlo := (hports i.lo).mp ((hS i.lo).mpr ⟨i, hi, Nat.le_refl _, i.le⟩)
      rw [List.mem_insertionSort] at hlo
      exact ⟨_, expandPortToken_item i (hseen.range i.lo hlo).1⟩
    obtain ⟨live, hlive, hlist⟩ := @expandTokens_total "ports" (fun _ e => e) (portTokens [t]) [] portList_nil hall
    have hok : expandRoutePortNumbers [t] = .ok (live.insertionSort (· ≤ ·)) := by
      rw [expandRoutePortNumbers, hlive]
      rfl
    rw [hok, hlist.sort_eq hseen fun p => ?_]
    rw [expandTokens_mem hlive, or_iff_right List.not_mem_nil, ← hmem hall, hports, List.mem_insertionSort]

/-! ## Sets in braces -/

theorem toList_braced (ts : List String) : (braced ts).toList = '{' :: (' ' :: (join ts ", ").toList ++ [' ']) ++ ['}'] := by
  have hopen : "\x7b ".toList = ['{', ' '] := by decide
  have hclose : " \x7d".toList = [' ', '}'] := by decide
  rw [braced, @String.toList_append ("\x7b " ++ join ts ", "), @String.toList_append "\x7b ", hopen, hclose]
  simp only [List.cons_append, List.nil_append, List.append_assoc]

theorem isBraceList_braced (ts : List String) : trimSpace (braced ts) = braced ts ∧ braced ts ≠ "" ∧ isBraceList (braced ts) = true := by
  have hshape := toList_braced ts
  refine ⟨?_, ?_, ?_⟩
  · have htrim : trimList (braced ts).toList = (braced ts).toList := by
      refine trimList_eq_self (fun hlen => ?_) fun hne => ?_
      · simp only [hshape, List.cons_append, List.getElem_cons_zero]
        decide
      · simp only [hshape, List.getLast_concat]
        decide
    rw [trimSpace, htrim, String.ofList_toList]
  · intro he
    rw [he] at hshape
    cases hshape
  · have hopen : "\x7b".toList = ['{'] := by decide
    have hclose : "\x7d".toList = ['}'] := by decide
    unfold isBraceList hasPrefix hasSuffix
    rw [hshape, hopen, hclose, Bool.and_eq_true]
    exact ⟨List.isPrefixOf_iff_prefix.mpr (List.prefix_append ['{'] _), List.isSuffixOf_iff_suffix.mpr (List.suffix_append _ _)⟩

theorem toList_join_comma (t u : String) (ts : List String) :
    (join (t :: u :: ts) ", ").toList = t.toList ++ (", ".toList ++ (join (u :: ts) ", ").toList) := by
  rw [join, @String.toList_append (t ++ ", "), @String.toList_append t, List.append_assoc]

theorem toList_join_start (t : String) (ts : List String) : ∃ cs, (join (t :: ts) ", ").toList = t.toList ++ cs := by
  cases ts with
  | nil => exact ⟨[], (List.append_nil _).symm⟩
  | cons u ts => exact ⟨_, toList_join_comma t u ts⟩

theorem blank_isSpace : ∀ c ∈ [' '], isSpace c = true := List.forall_mem_singleton.mpr (by decide)

theorem pieces_join {ts : List String} (hne : ts ≠ []) (h : ∀ t ∈ ts, Trimmed t ∧ ',' ∉ t.toList) :
    (splitList (· == ',') (join ts ", ").toList).map trimList = ts.map String.toList := by
  have hspace : ∀ c, isSpace c = true → (c == ',') = false := fun c hc => (not_comma_or_brace (.inl hc)).1
  have hone : ∀ t ∈ ts, (splitList (· == ',') t.toList).map trimList = [t.toList] := by
    intro t ht
    obtain ⟨htrim, hcomma⟩ := h t ht
    have hself : trimList t.toList = t.toList := by
      have := congrArg String.toList htrim
      rwa [trimSpace, String.toList_ofList] at this
    have hnone : ∀ c ∈ t.toList, (c == ',') = false := by
      intro c hc
      refine beq_eq_false_iff_ne.mpr ?_
      rintro rfl
      exact hcomma hc
    rw [splitList_noSep hnone, List.map_singleton, hself]
  induction ts with
  | nil => exact absurd rfl hne
  | cons t ts ih =>
    cases ts with
    | nil => exact hone t List.mem_cons_self
    | cons u ts =>
      have ih := ih (List.cons_ne_nil u ts) (fun v hv => h v (List.mem_cons_of_mem _ hv)) fun v hv => hone v (List.mem_cons_of_mem _ hv)
      have hsep : ", ".toList = [',', ' '] := by decide
      have hshape : (join (t :: u :: ts) ", ").toList = t.toList ++ ',' :: (' ' :: (join (u :: ts) ", ").toList) := by
        rw [toList_join_comma, hsep]
        simp only [List.cons_append, List.nil_append]
      have hblank : (splitList (· == ',') (' ' :: (join (u :: ts) ", ").toList)).map trimList =
          (splitList (· == ',') (join (u :: ts) ", ").toList).map trimList := by
        have := @trimmed_pieces_between (· == ',') hspace [' '] [] blank_isSpace (fun c hc => absurd hc List.not_mem_nil)
          (join (u :: ts) ", ").toList
        rwa [List.append_nil, List.singleton_append] at this
      rw [hshape, splitList_append (by decide), List.map_append, hone t List.mem_cons_self, hblank, ih]
      rfl

/-- The tokens of a set in braces are its members. -/
theorem portTokens_braced {ts : List String} (hne : ts ≠ []) (h : ∀ t ∈ ts, Trimmed t ∧ t ≠ "" ∧ ',' ∉ t.toList) :
    portTokens [braced ts] = ts := by
  obtain ⟨htrim, hnil, hbrace⟩ := isBraceList_braced ts
  have hspace : ∀ c, isSpace c = true → (c == ',') = false := fun c hc => (not_comma_or_brace (.inl hc)).1
  have hpieces : (splitList (· == ',') (' ' :: (join ts ", ").toList ++ [' '])).map trimList = ts.map String.toList := by
    have := @trimmed_pieces_between (· == ',') hspace [' '] [' '] blank_isSpace blank_isSpace (join ts ", ").toList
    rw [List.singleton_append] at this
    rw [this]
    exact pieces_join hne fun t ht => ⟨(h t ht).1, (h t ht).2.2⟩
  rw [portTokens_singleton, htrim, if_neg hnil, hbrace, if_pos rfl, braceTokens_eq (toList_braced ts), hpieces, List.map_map]
  have hself : (String.ofList ∘ String.toList) = id := funext fun t => String.ofList_toList
  rw [hself, List.map_id, List.filter_eq_self]
  exact fun t ht => by simpa using (h t ht).2.1

/-! ## Raw values -/

theorem nftRawPortRE_start {c : Char} {cs : List Char} (h : nftRawPortRE (c :: cs) ≠ none) : cs.head? = some 'x' := by
  have hzerox : "0x".toList = ['0', 'x'] := by decide
  by_contra hx
  refine h ?_
  have hlit : lit "0x" (c :: cs) = none := by
    by_contra hsome
    obtain ⟨rest, hrest⟩ := Option.ne_none_iff_exists'.mp hsome
    have heq := lit_eq_some.mp hrest
    rw [hzerox, List.cons_append, List.cons_append] at heq
    obtain ⟨-, htail⟩ := List.cons.inj heq
    rw [htail] at hx
    exact hx rfl
  rw [nftRawPortRE, hlit]
  rfl

/-- What has no `x` stays. -/
theorem replaceRawPorts_plain {pre rest : List Char} (hx : 'x' ∉ pre) (hrest : rest.head? ≠ some 'x') :
    replaceRawPorts 0 (pre ++ rest) = pre ++ replaceRawPorts 0 rest := by
  induction pre with
  | nil => rfl
  | cons c pre ih =>
    have hx' : 'x' ∉ pre := fun hmem => hx (List.mem_cons_of_mem _ hmem)
    have hnone : nftRawPortRE (c :: (pre ++ rest)) = none := by
      by_contra hsome
      have hhead := nftRawPortRE_start hsome
      cases pre with
      | nil => exact hrest hhead
      | cons d pre => exact hx' (Option.some.inj hhead ▸ List.mem_cons_self)
    rw [List.cons_append, replaceRawPorts, hnone]
    dsimp only
    rw [ih hx', List.cons_append]

theorem replaceRawPorts_skip {pre rest : List Char} : replaceRawPorts pre.length (pre ++ rest) = replaceRawPorts 0 rest := by
  induction pre with
  | nil => rfl
  | cons c pre ih => rw [List.length_cons, List.cons_append, replaceRawPorts, ih]

theorem rawPort_text (q : RawPort) : q.text.toList = '0' :: 'x' :: (q.digits ++ " [invalid type]".toList) := by
  have hzerox : "0x".toList = ['0', 'x'] := by decide
  rw [RawPort.text, @String.toList_append ("0x" ++ String.ofList q.digits), @String.toList_append "0x", @String.toList_ofList q.digits,
    hzerox]
  simp only [List.cons_append, List.nil_append]

/-- A raw value becomes a decimal one. -/
theorem replaceRawPorts_raw (q : RawPort) (rest : List Char) :
    replaceRawPorts 0 (q.text.toList ++ rest) = (toString q.value).toList ++ replaceRawPorts 0 rest := by
  have hspace : " [invalid type]".toList = ' ' :: "[invalid type]".toList := by decide
  have hzerox : "0x".toList = ['0', 'x'] := by decide
  have htake : (q.digits ++ (" [invalid type]".toList ++ rest)).takeWhile isHexDigit = q.digits := by
    rw [List.takeWhile_append_of_pos q.hex, hspace, List.cons_append, List.takeWhile_cons_of_neg (by decide), List.append_nil]
  have hdrop : (q.digits ++ (" [invalid type]".toList ++ rest)).dropWhile isHexDigit = " [invalid type]".toList ++ rest := by
    rw [List.dropWhile_append_of_pos q.hex, hspace, List.cons_append, List.dropWhile_cons_of_neg (by decide)]
  have hlit : lit "0x" ('0' :: 'x' :: (q.digits ++ (" [invalid type]".toList ++ rest))) =
      some (q.digits ++ (" [invalid type]".toList ++ rest)) := lit_eq_some.mpr (by rw [hzerox]; rfl)
  have hraw : nftRawPortRE ('0' :: 'x' :: (q.digits ++ (" [invalid type]".toList ++ rest))) = some (q.digits, rest) := by
    unfold nftRawPortRE
    rw [hlit, Option.bind_eq_bind, Option.bind_some, htake, if_neg q.ne, hdrop, lit_append]
    rfl
  have hlen : ('x' :: (q.digits ++ (" [invalid type]".toList ++ rest))).length - rest.length =
      ('x' :: (q.digits ++ " [invalid type]".toList)).length := by
    simp only [List.length_cons, List.length_append]
    omega
  have hassoc : 'x' :: (q.digits ++ (" [invalid type]".toList ++ rest)) = 'x' :: (q.digits ++ " [invalid type]".toList) ++ rest := by
    rw [List.cons_append, List.append_assoc]
  rw [rawPort_text, List.cons_append, List.cons_append, List.append_assoc, replaceRawPorts, hraw]
  dsimp only
  rw [hlen, hassoc, replaceRawPorts_skip, if_pos q.bound, RawPort.value]

theorem replaceRawPorts_item (i : RawItem) (rest : List Char) :
    replaceRawPorts 0 (i.text.toList ++ rest) = i.item.text.toList ++ replaceRawPorts 0 rest := by
  unfold RawItem.text PortItem.text
  by_cases heq : i.lo.value = i.hi.value
  · rw [if_pos heq, if_pos (show i.item.lo = i.item.hi from heq), replaceRawPorts_raw]
    rfl
  · have hhead : (i.hi.text.toList ++ rest).head? ≠ some 'x' := by
      rw [rawPort_text, List.cons_append, List.head?_cons]
      decide
    have hdash : 'x' ∉ "-".toList := by decide
    rw [if_neg heq, if_neg (show i.item.lo ≠ i.item.hi from heq), @String.toList_append (i.lo.text ++ "-"), @String.toList_append i.lo.text,
      List.append_assoc, List.append_assoc, replaceRawPorts_raw, replaceRawPorts_plain hdash hhead, replaceRawPorts_raw,
      @String.toList_append (toString i.item.lo ++ "-"), @String.toList_append (toString i.item.lo)]
    simp only [List.append_assoc]
    rfl

theorem rawItem_start (i : RawItem) : ∃ cs, i.text.toList = '0' :: cs := by
  unfold RawItem.text
  split
  · exact ⟨_, rawPort_text i.lo⟩
  · rw [@String.toList_append (i.lo.text ++ "-"), @String.toList_append i.lo.text, rawPort_text]
    exact ⟨_, rfl⟩

theorem replaceRawPorts_join (items : List RawItem) (rest : List Char) :
    replaceRawPorts 0 ((join (items.map RawItem.text) ", ").toList ++ rest) =
      (join (items.map fun i => i.item.text) ", ").toList ++ replaceRawPorts 0 rest := by
  induction items with
  | nil => rfl
  | cons i items ih =>
    cases items with
    | nil => exact replaceRawPorts_item i rest
    | cons j items =>
      have hcomma : 'x' ∉ ", ".toList := by decide
      have hhead : ((join ((j :: items).map RawItem.text) ", ").toList ++ rest).head? ≠ some 'x' := by
        obtain ⟨cs, hcs⟩ := rawItem_start j
        obtain ⟨ds, hds⟩ := toList_join_start j.text (items.map RawItem.text)
        rw [List.map_cons, hds, hcs, List.cons_append, List.cons_append, List.head?_cons]
        decide
      rw [List.map_cons] at ih hhead
      rw [List.map_cons] at ih
      simp only [List.map_cons, toList_join_comma, List.append_assoc]
      rw [replaceRawPorts_item, replaceRawPorts_plain hcomma hhead, ih]

theorem replaceRawPorts_braced (items : List RawItem) :
    replaceRawPorts 0 (braced (items.map RawItem.text)).toList = (braced (items.map fun i => i.item.text)).toList := by
  have hopen : 'x' ∉ ['{', ' '] := by decide
  have hclose : 'x' ∉ [' ', '}'] := by decide
  have hend : replaceRawPorts 0 [' ', '}'] = [' ', '}'] := by
    have := @replaceRawPorts_plain _ [] hclose (by decide)
    rwa [List.append_nil] at this
  have hshape : ∀ ts : List String, (braced ts).toList = ['{', ' '] ++ ((join ts ", ").toList ++ [' ', '}']) := fun ts => by
    rw [toList_braced]
    simp only [List.cons_append, List.nil_append, List.append_assoc]
  have hhead : ((join (items.map RawItem.text) ", ").toList ++ [' ', '}']).head? ≠ some 'x' := by
    cases items with
    | nil => decide
    | cons i items =>
      obtain ⟨cs, hcs⟩ := rawItem_start i
      obtain ⟨ds, hds⟩ := toList_join_start i.text (items.map RawItem.text)
      rw [List.map_cons, hds, hcs, List.cons_append, List.cons_append, List.head?_cons]
      decide
  rw [hshape, hshape, replaceRawPorts_plain hopen hhead, replaceRawPorts_join, hend]

/-! ## The expression of the ports -/

theorem rawPort_chars (q : RawPort) : ∀ c ∈ q.text.toList, c ≠ '}' ∧ c ≠ '\n' := by
  have hinvalid : " [invalid type]".toList.all (fun c => c ≠ '}' && c ≠ '\n') = true := by decide
  rw [rawPort_text]
  intro c hc
  rcases List.mem_cons.mp hc with rfl | hc
  · decide
  · rcases List.mem_cons.mp hc with rfl | hc
    · decide
    · rcases List.mem_append.mp hc with hc | hc
      · have hhex := q.hex c hc
        refine ⟨?_, ?_⟩ <;> rintro rfl <;> exact absurd hhex (by decide)
      · simpa using List.all_eq_true.mp hinvalid c hc

theorem rawItem_chars (i : RawItem) : ∀ c ∈ i.text.toList, c ≠ '}' ∧ c ≠ '\n' := by
  have hdash : "-".toList = ['-'] := by decide
  unfold RawItem.text
  split
  · exact rawPort_chars i.lo
  · rw [@String.toList_append (i.lo.text ++ "-"), @String.toList_append i.lo.text, hdash]
    intro c hc
    rcases List.mem_append.mp hc with hc | hc
    · rcases List.mem_append.mp hc with hc | hc
      · exact rawPort_chars i.lo c hc
      · rw [List.mem_singleton.mp hc]
        decide
    · exact rawPort_chars i.hi c hc

theorem not_mem_join {c : Char} {ts : List String} (hc : c ∉ [',', ' ']) (h : ∀ t ∈ ts, c ∉ t.toList) : c ∉ (join ts ", ").toList := by
  have hcomma : ", ".toList = [',', ' '] := by decide
  induction ts with
  | nil => exact List.not_mem_nil
  | cons t ts ih =>
    cases ts with
    | nil => exact h t List.mem_cons_self
    | cons u ts =>
      rw [toList_join_comma, hcomma]
      intro hmem
      rcases List.mem_append.mp hmem with hmem | hmem
      · exact h t List.mem_cons_self hmem
      · rcases List.mem_append.mp hmem with hmem | hmem
        · exact hc hmem
        · exact ih (fun v hv => h v (List.mem_cons_of_mem _ hv)) hmem

theorem not_mem_braced {c : Char} {ts : List String} (hc : c ∉ [',', ' ', '{', '}']) (h : ∀ t ∈ ts, c ∉ t.toList) :
    c ∉ (braced ts).toList := by
  simp only [List.mem_cons, List.not_mem_nil, or_false, not_or] at hc
  have hjoin := not_mem_join (by simp [hc]) h
  rw [toList_braced]
  simp [hc, hjoin]

/-- A list in braces is read up to its brace. -/
theorem portsExpr_braced {ts : List String} (h : ∀ t ∈ ts, '}' ∉ t.toList) (rest : List Char) :
    portsExpr ((braced ts).toList ++ rest) = some (braced ts).toList := by
  have hjoin := not_mem_join (by decide) h
  have hinner : ∀ c ∈ '{' :: (' ' :: (join ts ", ").toList ++ [' ']), decide (c ≠ '}') = true := by
    intro c hc
    refine decide_eq_true ?_
    rintro rfl
    simp [hjoin] at hc
  have hshape : (braced ts).toList ++ rest = '{' :: (' ' :: (join ts ", ").toList ++ [' ']) ++ '}' :: rest := by
    rw [toList_braced, List.append_assoc, List.singleton_append]
  have htake : ((braced ts).toList ++ rest).takeWhile (· ≠ '}') = '{' :: (' ' :: (join ts ", ").toList ++ [' ']) := by
    rw [hshape, List.takeWhile_append_of_pos hinner, List.takeWhile_cons_of_neg (by decide), List.append_nil]
  have hdrop : ((braced ts).toList ++ rest).dropWhile (· ≠ '}') = '}' :: rest := by
    rw [hshape, List.dropWhile_append_of_pos hinner, List.dropWhile_cons_of_neg (by decide)]
  unfold portsExpr
  dsimp only
  rw [htake, hdrop, if_pos ⟨by rw [hshape]; rfl, List.cons_ne_nil _ _⟩, toList_braced]

/-- One member is read up to the blank. -/
theorem portsExpr_item (i : PortItem) (rest : List Char) : portsExpr (i.text.toList ++ ' ' :: rest) = some i.text.toList := by
  have hplain : ∀ c ∈ i.text.toList, (!isBlankRE c) = true := fun c hc => by simp [(itemChar_plain (item_chars i c hc)).2.1]
  have hhead : (i.text.toList ++ ' ' :: rest).head? ≠ some '{' := by
    cases hcs : i.text.toList with
    | nil => exact absurd hcs (item_ne i)
    | cons c cs =>
      have hc := (itemChar_plain (item_chars i c (hcs ▸ List.mem_cons_self))).2.2.2.1
      rw [List.cons_append, List.head?_cons]
      exact fun heq => hc (Option.some.inj heq)
  unfold portsExpr
  dsimp only
  rw [if_neg fun hbrace => hhead hbrace.1, List.takeWhile_append_of_pos hplain, List.takeWhile_cons_of_neg (by decide), List.append_nil,
    if_neg (item_ne i)]

theorem not_mem_item {c : Char} (hc : itemChar c = false) {items : List PortItem} : ∀ t ∈ items.map PortItem.text, c ∉ t.toList := by
  intro t ht hmem
  obtain ⟨i, -, rfl⟩ := List.mem_map.mp ht
  rw [item_chars i c hmem] at hc
  exact Bool.noConfusion hc

section listed

variable {S : Nat → Prop} {e : String} (he : PortsListed S e)

include he

theorem portsExpr_listed (rest : List Char) : portsExpr (e.toList ++ ' ' :: rest) = some e.toList := by
  cases he with
  | item i _ => exact portsExpr_item i rest
  | list items _ _ => exact portsExpr_braced (not_mem_item (by decide)) _
  | raw items _ _ =>
    refine portsExpr_braced (fun t ht hmem => ?_) _
    obtain ⟨i, -, rfl⟩ := List.mem_map.mp ht
    exact (rawItem_chars i _ hmem).1 rfl

theorem listed_oneLine : '\n' ∉ e.toList := by
  cases he with
  | item i _ => exact fun hmem => absurd (item_chars i _ hmem) (by decide)
  | list items _ _ => exact not_mem_braced (by decide) (not_mem_item (by decide))
  | raw items _ _ =>
    refine not_mem_braced (by decide) fun t ht hmem => ?_
    obtain ⟨i, -, rfl⟩ := List.mem_map.mp ht
    exact (rawItem_chars i _ hmem).2 rfl

/-- The listed ports are those of a route if and only if they expand to them. -/
theorem expand_listed {ports : List String} {want : List Nat} (hwant : expandRoutePortNumbers ports = .ok want) :
    expandRoutePortNumbers [String.ofList (replaceRawPorts 0 e.toList)] = .ok want ↔ ∀ p, S p ↔ p ∈ want := by
  have hplain : ∀ cs : List Char, 'x' ∉ cs → replaceRawPorts 0 cs = cs := fun cs hcs => by
    have := @replaceRawPorts_plain cs [] hcs (by decide)
    rwa [List.append_nil, replaceRawPorts, List.append_nil] at this
  have hmember : ∀ {items : List PortItem}, ∀ t ∈ items.map PortItem.text, Trimmed t ∧ t ≠ "" ∧ ',' ∉ t.toList := by
    intro items t ht
    obtain ⟨i, -, rfl⟩ := List.mem_map.mp ht
    exact ⟨item_trimmed i, fun hnil => item_ne i (congrArg String.toList hnil), fun hmem => (itemChar_plain (item_chars i _ hmem)).2.2.1 rfl⟩
  cases he with
  | item i h =>
    have hx : 'x' ∉ i.text.toList := fun hmem => absurd (item_chars i _ hmem) (by decide)
    have hbrace : isBraceList i.text = false := not_braceList fun c hc => .inr (by
      have := item_chars i c hc
      simp only [itemChar, numChar, Bool.or_eq_true] at this ⊢
      tauto)
    have htoks : portTokens [i.text] = [i].map PortItem.text := by
      rw [portTokens_singleton, show trimSpace i.text = i.text from item_trimmed i,
        if_neg fun hnil => item_ne i (congrArg String.toList hnil), hbrace, if_neg Bool.false_ne_true, List.map_singleton]
    rw [hplain _ hx, String.ofList_toList]
    exact expand_items htoks (fun p => by simp [h]) hwant
  | list items hne h =>
    have hx : 'x' ∉ (braced (items.map PortItem.text)).toList := not_mem_braced (by decide) (not_mem_item (by decide))
    rw [hplain _ hx, String.ofList_toList]
    exact expand_items (portTokens_braced (by simpa using hne) hmember) h hwant
  | raw items hne h =>
    rw [replaceRawPorts_braced, String.ofList_toList]
    have hmap : items.map (fun i => i.item.text) = (items.map RawItem.item).map PortItem.text := by
      rw [List.map_map]
      rfl
    rw [hmap]
    exact expand_items (portTokens_braced (by simpa using hne) hmember) (fun p => by simp [h]) hwant

end listed

/-- The check of the ports passes if and only if the listed ports are those of the route. -/
theorem routeAcceptedPortsFit_iff {line : String} {S : Nat → Prop} {e : String} {ports : List String} (he : PortsListed S e)
    (hexpr : search routeAcceptedPublicPortsRE line.toList = some e.toList) :
    routeAcceptedPortsFit line ports = true ↔ ∃ want, expandRoutePortNumbers ports = .ok want ∧ ∀ p, S p ↔ p ∈ want := by
  unfold routeAcceptedPortsFit
  rw [hexpr]
  dsimp only
  constructor
  · intro h
    split at h
    · rename_i live want hlive hwant
      rw [beq_iff_eq.mp h] at hlive
      exact ⟨want, hwant, (expand_listed he hwant).mp hlive⟩
    · cases h
  · rintro ⟨want, hwant, hports⟩
    rw [(expand_listed he hwant).mpr hports, hwant]
    exact beq_self_eq_true want

end EvuProxy
