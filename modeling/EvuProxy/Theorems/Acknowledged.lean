import EvuProxy.Config.Valid
import EvuProxy.Go.Dotted
import EvuProxy.Go.Pieces
import EvuProxy.Web.ApplySystem

/-!
# What an acknowledgement is bound to

The tick is bound to a text, the signature of the risks on the screen. The risks of two checks with one signature are the same, because no
code of the API has a colon and no warning a bar.
-/

namespace EvuProxy.ApplyBar

open Go Fault Prog Review

/-! ## Warnings of the API -/

/-- A warning whose parts can be told apart in a signature. -/
structure Plain (w : LockoutWarning) : Prop where
  code : hasPrefix w.code lockoutCodePrefix = true
  colon : ':' ∉ w.code.toList
  bar : '|' ∉ (w.code ++ ":" ++ w.message).toList

theorem plain_of {code message : String} (hcode : code.toList.all (fun c => c != ':' && c != '|') = true)
    (hlockout : hasPrefix code lockoutCodePrefix = true) (hmessage : '|' ∉ message.toList) : Plain { code := code, message := message } where
  code := hlockout
  colon h := by simpa using List.all_eq_true.mp hcode _ h
  bar h := by
    rw [String.toList_append, String.toList_append, List.mem_append, List.mem_append] at h
    rcases h with (h | h) | h
    · simpa using List.all_eq_true.mp hcode _ h
    · exact absurd h (by decide +kernel)
    · exact hmessage h

theorem noBar_append {s t : String} (hs : '|' ∉ s.toList) (ht : '|' ∉ t.toList) : '|' ∉ (s ++ t).toList := by
  rw [String.toList_append, List.mem_append]
  exact fun h => h.elim hs ht

theorem noBar_of_all {s : String} (h : s.toList.all (fun c => c != '|') = true) : '|' ∉ s.toList := fun hmem => by
  simpa using List.all_eq_true.mp h _ hmem

theorem noBar_toString (n : Nat) : '|' ∉ (toString n).toList := fun h => absurd (isDigit_toString n _ h) (by decide +kernel)

theorem noBar_trimSpace {s : String} (h : '|' ∉ s.toList) : '|' ∉ (trimSpace s).toList := by
  rw [trimSpace, String.toList_ofList]
  exact fun hmem => h (mem_trimList hmem)

theorem noBar_clientIP (trust : String) (conn : Conn) : '|' ∉ (clientOf trust conn).ip.toList := by
  simp only [clientOf]
  rcases detectClientIP_ip trust conn with h | ⟨a, h⟩
  · rw [h]
    decide
  · rw [h]
    exact ipv4String_noChar (by decide +kernel) (by decide +kernel)

/-- The mode of a config that was parsed, once it is normalized again. -/
theorem geoMode_normalize {Γ : Ctx} {b : Γ.Bytes} {c : Config} (hc : parseConfig Γ b = .ok c) (hon : c.normalize.geo.enabled = true) :
    c.normalize.geo.mode = "allow" ∨ c.normalize.geo.mode = "block" := by
  have hgeo : validateGeo c.geo = .ok () := by
    unfold parseConfig at hc
    split at hc
    · cases hc
    · rename_i c₀ _
      cases hv : c₀.normalize.validate with
      | error e => rw [hv] at hc; cases hc
      | ok _ =>
        rw [hv] at hc
        obtain rfl := Except.ok.inj hc
        exact (Config.checked hv).geo
  by_cases hen : c.geo.enabled
  · have hmode : toLower (trimSpace c.geo.mode) = "" ∨ toLower (trimSpace c.geo.mode) = "allow" ∨ toLower (trimSpace c.geo.mode) = "block" := by
      by_contra hne
      simp only [not_or] at hne
      simp only [validateGeo] at hgeo
      rw [if_neg (not_not.mpr hen), if_pos hne] at hgeo
      cases hgeo
    simp only [Config.normalize, if_pos hen]
    rcases hmode with h | h | h <;> simp [h]
  · rw [Config.normalize, if_neg hen] at hon
    exact absurd hon hen

theorem plain_addressWarnings {zones : ZoneFiles} {iso : String → String} {c : Config} {ip : String} (hip : '|' ∉ ip.toList)
    (hmode : c.geo.enabled = true → c.geo.mode = "allow" ∨ c.geo.mode = "block") : ∀ w ∈ addressWarnings zones iso c ip, Plain w := by
  intro w hw
  rcases List.mem_append.mp hw with hw | hw
  · rcases List.mem_append.mp hw with hw | hw
    · split at hw
      · obtain rfl := List.mem_singleton.mp hw
        exact plain_of (by decide +kernel) (by decide +kernel) (noBar_append (noBar_append (noBar_of_all (by decide +kernel)) hip) (noBar_of_all (by decide +kernel)))
      · exact absurd hw List.not_mem_nil
    · obtain ⟨⟨i, r⟩, -, hw⟩ := List.mem_flatMap.mp hw
      have htext : ∀ {middle : String}, middle.toList.all (fun c => c != '|') = true →
          '|' ∉ ("Route " ++ toString i ++ middle ++ ip ++ ").").toList := fun hmiddle =>
        noBar_append (noBar_append (noBar_append (noBar_append (noBar_of_all (by decide +kernel)) (noBar_toString i)) (noBar_of_all hmiddle)) hip)
          (noBar_of_all (by decide +kernel))
      rcases List.mem_append.mp hw with hw | hw
      · split at hw
        · obtain rfl := List.mem_singleton.mp hw
          exact plain_of (by decide +kernel) (by decide +kernel) (htext (by decide +kernel))
        · exact absurd hw List.not_mem_nil
      · split at hw
        · obtain rfl := List.mem_singleton.mp hw
          exact plain_of (by decide +kernel) (by decide +kernel) (htext (by decide +kernel))
        · exact absurd hw List.not_mem_nil
  · rw [geoLockoutWarning] at hw
    split at hw
    · exact absurd hw List.not_mem_nil
    · obtain ⟨p, hp, rfl⟩ := Option.map_eq_some_iff.mp (Option.mem_toList.mp hw)
      have hon : c.geo.enabled = true := by
        by_contra hoff
        have hblocks := List.find?_some hp
        simp [geoBlocksRoute, routeGeoCountries, hoff] at hblocks
      have hword : '|' ∉ (toLower (trimSpace c.geo.mode)).toList := by
        rcases hmode hon with h | h <;> rw [h] <;> decide
      refine plain_of (by decide +kernel) (by decide +kernel) ?_
      exact noBar_append (noBar_append (noBar_append (noBar_append (noBar_append (noBar_append (noBar_of_all (by decide +kernel)) hip)
        (noBar_of_all (by decide +kernel))) (noBar_toString _)) (noBar_of_all (by decide +kernel))) hword) (noBar_of_all (by decide +kernel))

theorem plain_portWarning {connPort : Nat} {t : Nat × String} (ht : t ∈ lockoutTargets connPort) : Plain (portWarning t) := by
  have hlabel : '|' ∉ t.2.toList := by
    have hknown : ∀ t ∈ [(lockoutSSHPort, "SSH"), (lockoutUIPort, "admin UI")], '|' ∉ t.2.toList := by
      simp only [List.forall_mem_cons, List.not_mem_nil, false_implies, implies_true, and_true]
      exact ⟨by decide +kernel, by decide +kernel⟩
    simp only [lockoutTargets] at ht
    split at ht
    · exact hknown t ht
    · rcases List.mem_append.mp ht with ht | ht
      · obtain ⟨t', ht', rfl⟩ := List.mem_map.mp ht
        split
        · exact noBar_append (hknown t' ht') (noBar_of_all (by decide +kernel))
        · exact hknown t' ht'
      · split at ht
        · rw [List.mem_singleton.mp ht]
          exact noBar_of_all (s := "your current connection") (by decide +kernel)
        · exact absurd ht List.not_mem_nil
  exact plain_of (by decide +kernel) (by decide +kernel) (noBar_append (noBar_append (noBar_append (noBar_append (noBar_of_all (by decide +kernel))
    (noBar_toString _)) (noBar_of_all (by decide +kernel))) hlabel) (noBar_of_all (by decide +kernel)))

/-- Every warning of a check of the saved config is plain. -/
theorem plain_warnings {Γ : Ctx} {b : Γ.Bytes} {c : Config} (hc : parseConfig Γ b = .ok c) (env : Surroundings) (applied : Option Config)
    (trust : String) (conn : Conn) :
    ∀ w ∈ (validateConfigWithWarnings env.host env.zones env.countryISOCodeLower c applied (clientOf trust conn) false).warnings, Plain w := by
  intro w hw
  rcases List.mem_append.mp hw with hw | hw
  · rcases List.mem_append.mp hw with hw | hw
    · rcases List.mem_append.mp hw with hw | hw
      · split at hw
        · obtain rfl := List.mem_singleton.mp hw
          exact plain_of (by decide +kernel) (by decide +kernel) (noBar_of_all (by decide +kernel))
        · exact absurd hw List.not_mem_nil
      · split at hw
        · exact absurd hw List.not_mem_nil
        · exact plain_addressWarnings (noBar_trimSpace (noBar_clientIP trust conn)) (geoMode_normalize hc) w hw
    · obtain ⟨t, ht, rfl⟩ := List.mem_map.mp hw
      exact plain_portWarning (List.mem_of_mem_filter ht)
  · split at hw
    · obtain rfl := List.mem_singleton.mp hw
      exact plain_of (by decide +kernel) (by decide +kernel) (noBar_of_all (by decide +kernel))
    · exact absurd hw List.not_mem_nil

/-! ## The fields of a result -/

section fields

variable (res : ValidateResult) (hash : String)

theorem lookup_omitEmpty (name s k : String) : (omitEmpty name s).lookup k = if k = name ∧ s ≠ "" then some (.str s) else none := by
  unfold omitEmpty
  by_cases hs : s = "" <;> by_cases hk : k = name <;> simp [hs, hk]

theorem lookup_omitEmptyList (name k : String) (xs : List Json) :
    (omitEmptyList name xs).lookup k = if k = name ∧ xs ≠ [] then some (.arr xs) else none := by
  unfold omitEmptyList
  by_cases hs : xs = [] <;> by_cases hk : k = name <;> simp [hs, hk]

theorem lookup_one (name k : String) (v : Json) : [(name, v)].lookup k = if k = name then some v else none := by
  by_cases hk : k = name
  · rw [if_pos hk, hk, List.lookup_cons_self]
  · rw [if_neg hk, List.lookup_cons, beq_eq_false_iff_ne.mpr hk, List.lookup_nil]

/-- A field of the JSON of a result. -/
theorem field_toJson (k : String) : field (some (res.toJson hash)) k =
    ((((((((if k = "ok" then some (.bool res.ok) else none).or
      (if k = "errors" ∧ res.errors.map issueJson ≠ [] then some (.arr (res.errors.map issueJson)) else none)).or
      (if k = "warnings" ∧ res.warnings.map LockoutWarning.toJson ≠ [] then some (.arr (res.warnings.map LockoutWarning.toJson)) else none)).or
      (if k = "detected_client_ip" ∧ res.detectedClientIP ≠ "" then some (.str res.detectedClientIP) else none)).or
      (if k = "ip_detection_source" then some (.str res.ipDetectionSource) else none)).or
      (if k = "ip_detection_note" ∧ res.ipDetectionNote ≠ "" then some (.str res.ipDetectionNote) else none)).or
      (if k = "validated_from_draft" ∧ res.validatedFromDraft = true then some (.bool true) else none)).or
      (if k = "config_hash" ∧ hash ≠ "" then some (.str hash) else none)) := by
  have hdraft : (if res.validatedFromDraft then [("validated_from_draft", Json.bool true)] else []).lookup k =
      if k = "validated_from_draft" ∧ res.validatedFromDraft = true then some (.bool true) else none := by
    by_cases hd : res.validatedFromDraft
    · simp only [hd, if_true, and_true, lookup_one]
    · simp only [hd, Bool.false_eq_true, if_false, and_false, List.lookup_nil]
  rw [ValidateResult.toJson, field, ← List.singleton_append]
  simp only [List.lookup_append, lookup_one, lookup_omitEmpty, lookup_omitEmptyList, hdraft]

theorem field_ok : field (some (res.toJson hash)) "ok" = some (.bool res.ok) := by
  simp [field_toJson]

theorem field_warnings : field (some (res.toJson hash)) "warnings" =
    if res.warnings = [] then none else some (.arr (res.warnings.map LockoutWarning.toJson)) := by
  by_cases hw : res.warnings = [] <;> simp [field_toJson, hw]

theorem field_errors : field (some (res.toJson hash)) "errors" =
    if res.errors = [] then none else some (.arr (res.errors.map issueJson)) := by
  by_cases hw : res.errors = [] <;> simp [field_toJson, hw]

theorem field_configHash : field (some (res.toJson hash)) "config_hash" = if hash = "" then none else some (.str hash) := by
  by_cases hw : hash = "" <;> simp [field_toJson, hw]

theorem rowsOf_warnings : rowsOf (field (some (res.toJson hash)) "warnings") = res.warnings.map LockoutWarning.toJson := by
  rw [field_warnings]
  by_cases hw : res.warnings = [] <;> simp [hw, rowsOf]

theorem isValidateShape_toJson : isValidateShape (some (res.toJson hash)) = true := by
  have hok := field_ok res hash
  have hwarnings := field_warnings res hash
  have herrors := field_errors res hash
  have hhash := field_configHash res hash
  simp only [ValidateResult.toJson, field] at hok hwarnings herrors hhash
  simp only [ValidateResult.toJson, isValidateShape, hok, hwarnings, herrors, hhash, Bool.true_and, Bool.and_eq_true]
  refine ⟨⟨?_, ?_⟩, ?_⟩ <;> split <;> rfl

variable {res} in
/-- Every plain warning is a risk. -/
theorem lockoutRisks_toJson (hplain : ∀ w ∈ res.warnings, Plain w) : lockoutRisks (res.toJson hash) = res.warnings.map LockoutWarning.toJson := by
  rw [lockoutRisks, rowsOf_warnings, List.filter_eq_self]
  intro j hj
  obtain ⟨w, hw, rfl⟩ := List.mem_map.mp hj
  exact (hplain w hw).code

end fields

/-! ## Signatures -/

section signatures

variable (numText : ℚ → String)

theorem riskText_toJson (w : LockoutWarning) : riskText numText w.toJson = w.code ++ ":" ++ w.message := by
  have hmessage : field (some w.toJson) "message" = some (.str w.message) := rfl
  have htext : textOr numText (some (.str w.message)) = w.message := by
    by_cases h : w.message = "" <;> simp [textOr, truthy, jsString, h]
  rw [riskText, hmessage, htext]
  rfl

/-- A warning, read back from its text. -/
def readRisk (s : String) : LockoutWarning :=
  match cut s ':' with
  | some (code, message) => { code := code, message := message }
  | none => { code := "", message := "" }

theorem Plain.readRisk {w : LockoutWarning} (h : Plain w) : readRisk (w.code ++ ":" ++ w.message) = w := by
  have htext : (w.code ++ ":" ++ w.message).toList = w.code.toList ++ ':' :: w.message.toList := by
    rw [String.toList_append, String.toList_append, List.append_assoc]
    rfl
  rw [ApplyBar.readRisk, cut_of_toList h.colon htext, String.ofList_toList]

/-- A signature says which texts it was made of. -/
theorem perm_of_intercalate {ss ts : List String} (hss : ∀ s ∈ ss, '|' ∉ s.toList ∧ s ≠ "") (hts : ∀ t ∈ ts, '|' ∉ t.toList ∧ t ≠ "")
    (h : "|".intercalate (ss.insertionSort (· ≤ ·)) = "|".intercalate (ts.insertionSort (· ≤ ·))) : ss.Perm ts := by
  have hss' : ∀ s ∈ ss.insertionSort (· ≤ ·), '|' ∉ s.toList ∧ s ≠ "" := fun s hs => hss s ((List.perm_insertionSort _ ss).mem_iff.mp hs)
  have hts' : ∀ s ∈ ts.insertionSort (· ≤ ·), '|' ∉ s.toList ∧ s ≠ "" := fun s hs => hts s ((List.perm_insertionSort _ ts).mem_iff.mp hs)
  suffices heq : ss.insertionSort (· ≤ ·) = ts.insertionSort (· ≤ ·) from
    (List.perm_insertionSort _ ss).symm.trans (heq ▸ List.perm_insertionSort _ ts)
  generalize ss.insertionSort (· ≤ ·) = as at h hss'
  generalize ts.insertionSort (· ≤ ·) = bs at h hts'
  have hlists : ['|'].intercalate (as.map String.toList) = ['|'].intercalate (bs.map String.toList) := by
    have := congrArg String.toList h
    rwa [String.toList_intercalate, String.toList_intercalate] at this
  have hsplit : ∀ {as : List String}, (∀ s ∈ as, '|' ∉ s.toList ∧ s ≠ "") → as ≠ [] →
      (['|'].intercalate (as.map String.toList)).splitOn '|' = as.map String.toList := fun has hne => by
    refine List.splitOn_intercalate '|' (fun l hl => ?_) (by simpa using hne)
    obtain ⟨s, hs, rfl⟩ := List.mem_map.mp hl
    exact (has s hs).1
  -- the signature of no text at all is empty, and that of any other list is not
  have hempty : ∀ {as : List String}, (∀ s ∈ as, '|' ∉ s.toList ∧ s ≠ "") → as ≠ [] → ['|'].intercalate (as.map String.toList) ≠ [] :=
    fun {as} has hne hnil => by
      have h₁ := hsplit has hne
      rw [hnil] at h₁
      cases as with
      | nil => exact hne rfl
      | cons s as =>
        have hs : [] = s.toList := (List.cons.inj (h₁ : [[]] = s.toList :: as.map String.toList)).1
        exact (has s List.mem_cons_self).2 (String.toList_eq_nil_iff.mp hs.symm)
  have hmap : as.map String.toList = bs.map String.toList := by
    by_cases ha : as = []
    · by_cases hb : bs = []
      · rw [ha, hb]
      · subst ha
        exact absurd hlists.symm (hempty hts' hb)
    · by_cases hb : bs = []
      · subst hb
        exact absurd hlists (hempty hss' ha)
      · rw [← hsplit hss' ha, ← hsplit hts' hb, hlists]
  exact List.map_injective_iff.mpr (fun _ _ h => String.toList_injective h) hmap

/-- The signature of no risk at all is that of nothing else. -/
theorem lockoutSignature_ne {res : ValidateResult} {hash : String} (hplain : ∀ w ∈ res.warnings, Plain w) (hne : res.warnings ≠ []) :
    lockoutSignature numText (lockoutRisks (res.toJson hash)) ≠ "" := by
  intro h
  rw [lockoutRisks_toJson _ hplain, lockoutSignature, List.map_map] at h
  have hnone : "|".intercalate (([] : List String).insertionSort (· ≤ ·)) = "" := rfl
  have hperm := perm_of_intercalate (fun s hs => ?_) (by simp) (h.trans hnone.symm)
  · exact hne (List.map_eq_nil_iff.mp hperm.eq_nil)
  · obtain ⟨w, hw, rfl⟩ := List.mem_map.mp hs
    rw [Function.comp_apply, riskText_toJson]
    refine ⟨(hplain w hw).bar, fun hnil => ?_⟩
    have := congrArg String.toList hnil
    simp at this

/-- Results with one signature have the same warnings. -/
theorem warnings_of_signature {res res' : ValidateResult} {hash hash' : String} (hplain : ∀ w ∈ res.warnings, Plain w)
    (hplain' : ∀ w ∈ res'.warnings, Plain w)
    (h : lockoutSignature numText (lockoutRisks (res.toJson hash)) = lockoutSignature numText (lockoutRisks (res'.toJson hash'))) :
    res.warnings.Perm res'.warnings := by
  have htexts : ∀ {ws : List LockoutWarning}, (ws.map LockoutWarning.toJson).map (riskText numText) =
      ws.map fun w => w.code ++ ":" ++ w.message := fun {ws} => by
    rw [List.map_map]
    exact List.map_congr_left fun w _ => riskText_toJson numText w
  have hproper : ∀ {ws : List LockoutWarning}, (∀ w ∈ ws, Plain w) →
      ∀ s ∈ ws.map fun w => w.code ++ ":" ++ w.message, '|' ∉ s.toList ∧ s ≠ "" := fun hws s hs => by
    obtain ⟨w, hw, rfl⟩ := List.mem_map.mp hs
    refine ⟨(hws w hw).bar, fun hnil => ?_⟩
    have := congrArg String.toList hnil
    simp at this
  have hread : ∀ {ws : List LockoutWarning}, (∀ w ∈ ws, Plain w) → (ws.map fun w => w.code ++ ":" ++ w.message).map readRisk = ws :=
    fun {ws} hws => by
      rw [List.map_map]
      exact (List.map_congr_left fun w hw => (hws w hw).readRisk).trans (List.map_id ws)
  rw [lockoutSignature, lockoutSignature, lockoutRisks_toJson _ hplain, lockoutRisks_toJson _ hplain', htexts, htexts] at h
  have hperm := (perm_of_intercalate (hproper hplain) (hproper hplain') h).map readRisk
  rwa [hread hplain, hread hplain'] at hperm

end signatures

/-! ## What the UI makes of an answer -/

section answers

variable {Γ : Ctx}

/-- The result of a check of the file `b`, by its parts. -/
def CheckOf (b : Γ.Bytes) (res : ValidateResult) : Prop :=
  ∃ (env : Surroundings) (trust : String) (conn : Conn) (c : Config) (applied : Option Config), parseConfig Γ b = .ok c ∧
    res = validateConfigWithWarnings env.host env.zones env.countryISOCodeLower c applied (clientOf trust conn) false

theorem CheckOf.plain {b : Γ.Bytes} {res : ValidateResult} (h : CheckOf b res) : ∀ w ∈ res.warnings, Plain w := by
  obtain ⟨env, trust, conn, c, applied, hc, rfl⟩ := h
  exact plain_warnings hc env applied trust conn

/-- What a check can be answered: that it could not be made, or its result, with the hash of the file where it passed. -/
theorem canAnswer_validate {r : Response} (h : CanAnswer Γ .validate r) :
    r = jsonErr 500 "could not read configuration" ∨ ∃ (b : Γ.Bytes) (res : ValidateResult), CheckOf b res ∧
      r = if res.ok then jsonOK (res.toJson (Γ.sha256 b)) else ⟨400, res.toJson ""⟩ := by
  obtain ⟨env, trust, conn, h⟩ := h
  obtain ⟨x, -, h⟩ := canReturn_bind.mp h
  cases x with
  | error e => exact .inl (canReturn_ret.mp h).symm
  | ok b =>
    simp only at h
    cases hc : parseConfig Γ b with
    | error e =>
      rw [hc] at h
      exact .inl (canReturn_ret.mp h).symm
    | ok c =>
      rw [hc] at h
      obtain ⟨applied, -, h⟩ := canReturn_bind.mp h
      exact .inr ⟨b, _, ⟨env, trust, conn, c, applied.toOption, hc, rfl⟩, (canReturn_ret.mp h).symm⟩

theorem fetchValidateResult_passed (v : Json) :
    fetchValidateResult (api (some (jsonOK v))) = if isValidateShape (some v) then some v else none := rfl

theorem fetchValidateResult_failed (v : Json) :
    fetchValidateResult (api (some ⟨400, v⟩)) = if isValidateShape (some v) then some v else none := rfl

theorem fetchValidateResult_page (status : Nat) (text : String) : fetchValidateResult (api (some (page status text))) = none := by
  rw [api]
  split <;> rfl

/-- A result that the UI goes by is that of a check, and where it passed, its hash is that of the file checked. -/
theorem fetchValidateResult_spec {r : Option Response} (hr : ∀ r', r = some r' → CanAnswer Γ .validate r' ∨ ∃ status text, r' = page status text)
    {v : Json} (hv : fetchValidateResult (api r) = some v) :
    ∃ (b : Γ.Bytes) (res : ValidateResult) (hash : String), CheckOf b res ∧ v = res.toJson hash ∧
      (res.ok = true → hash = Γ.sha256 b ∧ r = some (jsonOK (res.toJson hash))) := by
  cases r with
  | none => cases hv
  | some r =>
    rcases hr r rfl with hr | ⟨status, text, rfl⟩
    · rcases canAnswer_validate hr with rfl | ⟨b, res, hcheck, rfl⟩
      · cases hv
      · by_cases hok : res.ok
        · rw [if_pos hok, fetchValidateResult_passed, if_pos (isValidateShape_toJson res _)] at hv
          exact ⟨b, res, _, hcheck, (Option.some.inj hv).symm, fun _ => ⟨rfl, by rw [if_pos hok]⟩⟩
        · rw [if_neg hok, fetchValidateResult_failed, if_pos (isValidateShape_toJson res _)] at hv
          exact ⟨b, res, _, hcheck, (Option.some.inj hv).symm, fun h => absurd h hok⟩
    · rw [fetchValidateResult_page] at hv
      cases hv

/-! ## The mode -/

/-- The status of the API says how long an Apply waits for its confirmation. -/
theorem canReturn_readConfirmStatus {st : ConfirmStatus} (h : (readConfirmStatus (Γ := Γ)).CanReturn st) : st.confirmTimeoutSeconds ≠ 0 := by
  obtain ⟨setting, hsetting, h⟩ := canReturn_bind.mp h
  have hst : st.confirmTimeoutSeconds = setting.confirmTimeoutSeconds := by
    obtain ⟨s, -, h⟩ := canReturn_bind.mp h
    cases s with
    | none => rw [← canReturn_ret.mp h]
    | some s =>
      obtain ⟨view, -, h⟩ := canReturn_bind.mp h
      rw [← canReturn_ret.mp h]
  rw [hst]
  obtain ⟨x, -, h⟩ := canReturn_bind.mp hsetting
  cases x with
  | error e =>
    rw [← canReturn_ret.mp h]
    decide
  | ok c =>
    rw [← canReturn_ret.mp h]
    simp only [ApplySettings.effectiveConfirmTimeoutSeconds]
    split
    · decide
    · assumption

theorem canAnswer_session {r : Response} (h : CanAnswer Γ .session r) :
    r = jsonErr 500 "could not read apply session" ∨ ∃ st : ConfirmStatus, st.confirmTimeoutSeconds ≠ 0 ∧ r = jsonOK st.toJson := by
  obtain ⟨x, hx, h⟩ := canReturn_bind.mp h
  cases x with
  | error e => exact .inl (canReturn_ret.mp h).symm
  | ok st => exact .inr ⟨st, canReturn_readConfirmStatus (canReturn_attempt_ok.mp hx), (canReturn_ret.mp h).symm⟩

/-- A mode in which an Apply waits for confirmation says for how long. -/
def ApplyMode.Timed (mode : ApplyMode) : Prop := mode.confirm = true → ∃ t : Int, t ≠ 0 ∧ mode.timeoutSeconds = some (.num t)

theorem truthy_num {t : Int} : truthy (some (.num t)) = true ↔ t ≠ 0 := by simp [truthy]

/-- The mode, from a status of the API. -/
theorem readApplyMode_status (st : ConfirmStatus) : readApplyMode (api (some (jsonOK st.toJson))) = some {
    confirm := st.confirmEnabled || truthy (st.session.map ConfirmSessionView.toJson)
    timeoutSeconds :=
      if truthy (st.session.map ConfirmSessionView.toJson) &&
          truthy (field (st.session.map ConfirmSessionView.toJson) "timeout_seconds") then
        field (st.session.map ConfirmSessionView.toJson) "timeout_seconds"
      else some (.num st.confirmTimeoutSeconds)
    failedRevert := truthy (st.session.map ConfirmSessionView.toJson) &&
      field (st.session.map ConfirmSessionView.toJson) "phase" != some (.str "active") } := by
  cases hsession : st.session <;> simp only [ConfirmStatus.toJson, hsession] <;> rfl

theorem readApplyMode_error (e : ApiError) : readApplyMode (.error e) = none ∨
    ∃ timeoutSeconds, readApplyMode (.error e) = some { confirm := false, timeoutSeconds := timeoutSeconds, failedRevert := false } := by
  rw [readApplyMode]
  by_cases h : e.status = some 404 ∨ e.status = some 403
  · exact .inr ⟨_, if_pos h⟩
  · exact .inl (if_neg h)

theorem readApplyMode_page (status : Nat) (text : String) : readApplyMode (api (some (page status text))) = none ∨
    ∃ timeoutSeconds, readApplyMode (api (some (page status text))) =
      some { confirm := false, timeoutSeconds := timeoutSeconds, failedRevert := false } := by
  rw [api]
  split
  · exact .inr ⟨none, rfl⟩
  · exact readApplyMode_error _

theorem readApplyMode_timed {r : Option Response} (hr : ∀ r', r = some r' → CanAnswer Γ .session r' ∨ ∃ status text, r' = page status text)
    {mode : ApplyMode} (hmode : readApplyMode (api r) = some mode) : mode.Timed := by
  cases r with
  | none => cases hmode
  | some r =>
    rcases hr r rfl with hr | ⟨status, text, rfl⟩
    · rcases canAnswer_session hr with rfl | ⟨st, ht, rfl⟩
      · cases hmode
      · rw [readApplyMode_status] at hmode
        obtain rfl := Option.some.inj hmode
        rintro -
        cases st.session with
        | none => exact ⟨_, ht, rfl⟩
        | some view =>
          have hseconds : field (some view.toJson) "timeout_seconds" = some (.num view.timeoutSeconds) := rfl
          simp only [Option.map_some, hseconds]
          by_cases h0 : view.timeoutSeconds = 0
          · exact ⟨_, ht, if_neg (by simp [truthy, h0])⟩
          · exact ⟨_, h0, if_pos (by simp [truthy, ConfirmSessionView.toJson, h0])⟩
    · rcases readApplyMode_page status text with h | ⟨timeoutSeconds, h⟩
      · rw [h] at hmode
        cases hmode
      · rw [h] at hmode
        obtain rfl := Option.some.inj hmode
        exact fun hconfirm => nomatch hconfirm

/-! ## The request -/

/-- The body of a reload, where the check had such a hash. -/
theorem reloadBody_eq {hash : String} {configHash : Option Json} (hhash : configHash = if hash = "" then none else some (.str hash))
    (t : Int) : reloadBody configHash (some (.num t)) =
      match (if hash = "" then [] else [("config_hash", Json.str hash)]) ++ if t = 0 then [] else [("confirm_timeout_seconds", .num t)] with
      | [] => none
      | fields => some (.obj fields) := by
  rw [hhash]
  by_cases h0 : hash = "" <;> by_cases ht : t = 0 <;> simp [reloadBody, truthy, h0, ht]

theorem asInt_num {t t' : Int} (h : Json.asInt (.num t) = some t') : t' = t := by
  simp only [Json.asInt] at h
  split at h
  · exact (Option.some.inj h).symm
  · cases h

/-- What the API reads from the body of a reload: the hash and the timeout, and no force. -/
theorem readReloadRequest_body {hash : String} {configHash : Option Json} (hhash : configHash = if hash = "" then none else some (.str hash))
    {t : Int} {req : ReloadRequest} (h : readReloadRequest (reloadBody configHash (some (.num t))) = .ok req) :
    req = { confirmTimeoutSeconds := t, configHash := hash } ∧ (t ≠ 0 → 0 < t) := by
  have hfold : equalFold "config_hash" "confirm_timeout_seconds" = false := by decide +kernel
  have hfold' : equalFold "confirm_timeout_seconds" "config_hash" = false := by decide +kernel
  have hself : equalFold "config_hash" "config_hash" = true := by decide +kernel
  have hself' : equalFold "confirm_timeout_seconds" "confirm_timeout_seconds" = true := by decide +kernel
  have hforce : equalFold "config_hash" "force" = false := by decide +kernel
  have hforce' : equalFold "confirm_timeout_seconds" "force" = false := by decide +kernel
  -- what is read of the fields that are there
  have hread : ∀ fields : List (String × Json), jsonField fields "confirm_timeout_seconds" = (if t = 0 then none else some (.num t)) →
      jsonField fields "config_hash" = (if hash = "" then none else some (.str hash)) → jsonField fields "force" = none →
        readReloadRequest (some (.obj fields)) = .ok req → req = { confirmTimeoutSeconds := t, configHash := hash } ∧ (t ≠ 0 → 0 < t) := by
    intro fields htime hconfig hno hreq
    have hcfg : plainField "" Json.asString (jsonField fields "config_hash") = some hash := by
      rw [hconfig]
      by_cases h0 : hash = "" <;> simp [h0, plainField, Json.asString]
    have hfrc : plainField false jsonBool (jsonField fields "force") = some false := by rw [hno, plainField]
    simp only [readReloadRequest, hcfg, hfrc] at hreq
    cases hsec : plainField 0 Json.asInt (jsonField fields "confirm_timeout_seconds") with
    | none =>
      rw [hsec] at hreq
      cases hreq
    | some t' =>
      have htimeout : t' = t := by
        rw [htime] at hsec
        by_cases ht : t = 0
        · rw [if_pos ht, plainField] at hsec
          rw [← Option.some.inj hsec, ht]
        · rw [if_neg ht, plainField] at hsec
          exact asInt_num hsec
      rw [hsec, htimeout] at hreq
      simp only [Bool.false_eq_true, false_and, if_false] at hreq
      split at hreq
      · cases hreq
      · rename_i hrange
        refine ⟨(Except.ok.inj hreq).symm, fun ht => ?_⟩
        by_contra hneg
        exact hrange ⟨ht, Or.inl (by simp only [minConfirmTimeoutSeconds]; omega)⟩
  rw [reloadBody_eq hhash] at h
  by_cases h0 : hash = "" <;> by_cases ht : t = 0
  · rw [if_pos h0, if_pos ht] at h
    obtain rfl := Except.ok.inj (h : (Except.ok {} : Except String ReloadRequest) = .ok req)
    exact ⟨by rw [ht, h0], fun hne => absurd ht hne⟩
  · rw [if_pos h0, if_neg ht] at h
    exact hread _ (by simp [jsonField, hself', ht]) (by simp [jsonField, hfold', h0]) (by simp [jsonField, hforce']) h
  · rw [if_neg h0, if_pos ht] at h
    exact hread _ (by simp [jsonField, hfold, ht]) (by simp [jsonField, hself, h0]) (by simp [jsonField, hforce]) h
  · rw [if_neg h0, if_neg ht] at h
    exact hread _ (by simp [jsonField, hself', ht]) (by simp [jsonField, hfold', hself, h0]) (by simp [jsonField, hforce', hforce]) h

end answers

end EvuProxy.ApplyBar
