import EvuProxy.Apply.Sample
import EvuProxy.Theorems.Acknowledged
import EvuProxy.Theorems.CheckedReload

/-!
# The UI applies what was checked and shown

What holds of every state that the UI, the API and the host can come to, whatever happens in between: a one-way reload that the UI asks
for names a file that passed the check of the same Apply, and the risks of that check, if there are any, stood on the screen when the box
was ticked. With `handleReload_applies` no other file is applied.
-/

namespace EvuProxy.ApplyBar

open Go Fault Prog Review

variable {Γ : Ctx} {numText : ℚ → String}

/-! ## What a request rests on -/

/-- A result of a check of the API. -/
def FromCheck (Γ : Ctx) (v : Json) : Prop := ∃ (b : Γ.Bytes) (res : ValidateResult) (hash : String), CheckOf b res ∧ v = res.toJson hash

/-- The result of the check that the Apply of a click made. -/
def CheckedBy (s : Sys Γ) (click : Nat) (v : Json) : Prop :=
  ∃ (n : Nat) (b : Γ.Bytes) (res : ValidateResult) (hash : String), s.sent[n]? = some ⟨some click, .validate⟩ ∧ CheckOf b res ∧
    v = res.toJson hash ∧ (res.ok = true → hash = Γ.sha256 b ∧ (n, jsonOK (res.toJson hash)) ∈ s.answers)

/-- The file `b` passed the check of the Apply of a click, and its warnings are none, or those that stood on the screen, all of them and no
others, when the box was ticked. -/
def Acknowledged (s : Sys Γ) (click : Nat) (b : Γ.Bytes) : Prop :=
  ∃ (n : Nat) (res : ValidateResult), s.sent[n]? = some ⟨some click, .validate⟩ ∧ CheckOf b res ∧ res.ok = true ∧
    (n, jsonOK (res.toJson (Γ.sha256 b))) ∈ s.answers ∧
    (res.warnings = [] ∨ ∃ (res' : ValidateResult) (hash' : String), res'.toJson hash' ∈ s.ticks ∧ res'.warnings.Perm res.warnings)

/-- A request to reload comes from an Apply, is not forced, and where it is one-way has the hash of a file that was acknowledged, if it has
one at all. -/
def Justified (s : Sys Γ) (q : Sent) : Prop :=
  ∀ body, q.request = .reload body → ∃ click, q.click = some click ∧ ∀ req, readReloadRequest body = .ok req → req.force = false ∧
    (req.confirmTimeoutSeconds ≤ 0 → req.configHash ≠ "" → ∃ b, Γ.sha256 b = req.configHash ∧ Acknowledged s click b)

/-- Nothing is forgotten. -/
structure Grows (s s' : Sys Γ) : Prop where
  sent : s.sent <+: s'.sent
  answers : s.answers ⊆ s'.answers
  ticks : s.ticks ⊆ s'.ticks

section grows

variable {s s' : Sys Γ} (hgrows : Grows s s')

include hgrows

theorem Grows.sent_at {n : Nat} {q : Sent} (h : s.sent[n]? = some q) : s'.sent[n]? = some q := by
  obtain ⟨more, hmore⟩ := hgrows.sent
  obtain ⟨hlt, -⟩ := List.getElem?_eq_some_iff.mp h
  rw [← hmore, List.getElem?_append_left hlt, h]

theorem CheckedBy.grows {click : Nat} {v : Json} (h : CheckedBy s click v) : CheckedBy s' click v := by
  obtain ⟨n, b, res, hash, hn, hcheck, hv, hpassed⟩ := h
  exact ⟨n, b, res, hash, hgrows.sent_at hn, hcheck, hv, fun hok => ⟨(hpassed hok).1, hgrows.answers (hpassed hok).2⟩⟩

theorem Acknowledged.grows {click : Nat} {b : Γ.Bytes} (h : Acknowledged s click b) : Acknowledged s' click b := by
  obtain ⟨n, res, hn, hcheck, hok, hanswer, hwarnings⟩ := h
  refine ⟨n, res, hgrows.sent_at hn, hcheck, hok, hgrows.answers hanswer, hwarnings.imp id ?_⟩
  rintro ⟨res', hash', htick, hperm⟩
  exact ⟨res', hash', hgrows.ticks htick, hperm⟩

theorem Justified.grows {q : Sent} (h : Justified s q) : Justified s' q := by
  intro body hbody
  obtain ⟨click, hclick, hreq⟩ := h body hbody
  refine ⟨click, hclick, fun req hr => ⟨(hreq req hr).1, fun hone hne => ?_⟩⟩
  obtain ⟨b, hb, hack⟩ := (hreq req hr).2 hone hne
  exact ⟨b, hb, hack.grows hgrows⟩

end grows

/-! ## The result on the screen -/

/-- The signatures are those of the result on the screen and of one that was there when the box was ticked. -/
structure ResultFits (numText : ℚ → String) (Γ : Ctx) (ticks : List Json) (ui : Ui) : Prop where
  shown : ∀ v, ui.shown = some v → FromCheck Γ v
  signature : ui.pendingValidateSig = (ui.shown.map fun v => lockoutSignature numText (lockoutRisks v)).getD ""
  tick : ui.pendingLockoutAckSig ≠ "" → ∃ v ∈ ticks, ui.pendingLockoutAckSig = lockoutSignature numText (lockoutRisks v)

section results

variable {ticks : List Json} {ui : Ui}

/-- Nothing else of the bar matters. -/
theorem ResultFits.congr {ui' : Ui} (h : ResultFits numText Γ ticks ui) (hshown : ui'.shown = ui.shown)
    (hsignature : ui'.pendingValidateSig = ui.pendingValidateSig) (htick : ui'.pendingLockoutAckSig = ui.pendingLockoutAckSig) :
    ResultFits numText Γ ticks ui' where
  shown := hshown ▸ h.shown
  signature := by rw [hsignature, hshown, h.signature]
  tick := htick ▸ h.tick

theorem resultFits_invalidate (ui : Ui) : ResultFits numText Γ ticks ui.invalidateCheck where
  shown _ h := nomatch h
  signature := rfl
  tick h := absurd rfl h

theorem ResultFits.dropPassedCheck (h : ResultFits numText Γ ticks ui) : ResultFits numText Γ ticks ui.dropPassedCheck := by
  unfold Ui.dropPassedCheck
  split
  · exact resultFits_invalidate ui
  · exact h

theorem ResultFits.noteConfigRevision {revision : String} (h : ResultFits numText Γ ticks ui) :
    ResultFits numText Γ ticks (ui.noteConfigRevision revision) := by
  unfold Ui.noteConfigRevision
  split
  · exact h
  · split
    · exact (resultFits_invalidate ui).congr rfl rfl rfl
    · exact h.congr rfl rfl rfl

theorem ResultFits.finishCheck {res : Option Json} (h : ResultFits numText Γ ticks ui) (hres : ∀ v, res = some v → FromCheck Γ v) :
    ResultFits numText Γ ticks (ui.finishCheck numText res) := by
  cases res with
  | none => exact (resultFits_invalidate ui).congr rfl rfl rfl
  | some v =>
    refine ⟨fun v' hv' => hres v' hv', rfl, fun hne => ?_⟩
    -- a tick that is kept was given for this signature
    have hack : (ui.finishCheck numText (some v)).pendingLockoutAckSig = ui.pendingLockoutAckSig := by
      by_cases hsig : ui.pendingLockoutAckSig ≠ lockoutSignature numText (lockoutRisks v)
      · exact absurd (if_pos hsig) hne
      · exact if_neg hsig
    rw [hack] at hne ⊢
    exact h.tick hne

theorem ResultFits.ackChange {checked : Bool} (h : ResultFits numText Γ ticks ui) (hticked : (Input.ack checked).ticked ui ⊆ ticks) :
    ResultFits numText Γ ticks (ui.ackChange checked) where
  shown := h.shown
  signature := h.signature
  tick hne := by
    cases checked with
    | false => exact absurd rfl hne
    | true =>
      have hsig : (ui.ackChange true).pendingLockoutAckSig = ui.pendingValidateSig := rfl
      rw [hsig, h.signature] at hne ⊢
      cases hshown : ui.shown with
      | none =>
        rw [hshown] at hne
        exact absurd rfl hne
      | some v => exact ⟨v, hticked (by simp [Input.ticked, hshown]), rfl⟩

end results

/-- An Apply that goes on after its check has a request to send that is justified. -/
theorem justified_of_decision {s : Sys Γ} {ui : Ui} {mode : ApplyMode} {click : Nat} {res : Option Json}
    {body : Option Json} {keepWarnings : Bool} (hui : ResultFits numText Γ s.ticks ui) (hticks : ∀ v ∈ s.ticks, FromCheck Γ v)
    (hmode : mode.Timed) (hres : ∀ v, res = some v → CheckedBy s click v)
    (hdecision : decideApply numText ui mode res = .reload body keepWarnings) : Justified s ⟨some click, .reload body⟩ := by
  rintro body' heq
  obtain rfl : body = body' := Request.reload.inj heq
  refine ⟨click, rfl, fun req hreq => ?_⟩
  cases res with
  | none => cases hdecision
  | some v =>
    obtain ⟨n, b₀, res, hash, hn, hcheck, rfl, hpassed⟩ := hres v rfl
    simp only [decideApply, field_ok, truthy] at hdecision
    cases hok : res.ok with
    | false =>
      rw [hok, if_pos rfl] at hdecision
      cases hdecision
    | true =>
      obtain ⟨rfl, hanswer⟩ := hpassed hok
      rw [hok, if_neg (by decide)] at hdecision
      by_cases hconfirm : mode.confirm = true
      · obtain ⟨t, ht, hseconds⟩ := hmode hconfirm
        rw [if_pos hconfirm, hseconds] at hdecision
        obtain ⟨hbody, -⟩ := Decision.reload.inj hdecision
        rw [← hbody] at hreq
        obtain ⟨rfl, hpos⟩ := readReloadRequest_body (field_configHash res _) hreq
        exact ⟨rfl, fun hone => absurd (hpos ht) (not_lt.mpr hone)⟩
      · rw [if_neg hconfirm] at hdecision
        split at hdecision
        · cases hdecision
        · rename_i hack
          obtain ⟨hbody, -⟩ := Decision.reload.inj hdecision
          rw [← hbody] at hreq
          obtain ⟨rfl, -⟩ := readReloadRequest_body (t := 0) (field_configHash res _) (by exact_mod_cast hreq)
          refine ⟨rfl, fun _ _ => ⟨b₀, rfl, n, res, hn, hcheck, hok, hanswer, ?_⟩⟩
          by_cases hnone : res.warnings = []
          · exact .inl hnone
          · have hrisks : lockoutRisks (res.toJson (Γ.sha256 b₀)) ≠ [] := by
              rw [lockoutRisks_toJson _ hcheck.plain]
              simpa using hnone
            simp only [hrisks, ne_eq, not_false_eq_true, true_and, not_or, not_not] at hack
            obtain ⟨v, hv, hsig⟩ := hui.tick (hack.2 ▸ lockoutSignature_ne numText hcheck.plain hnone)
            obtain ⟨b', res', hash', hcheck', rfl⟩ := hticks v hv
            exact .inr ⟨res', hash', hv, warnings_of_signature numText hcheck'.plain hcheck.plain (hsig.symm.trans hack.2)⟩

/-! ## What holds of every state -/

/-- What an Apply has when it waits. -/
def StageFits (s : Sys Γ) (click : Nat) : Stage → Prop
  | .mode n => s.sent[n]? = some ⟨some click, .session⟩
  | .check mode n => mode.Timed ∧ s.sent[n]? = some ⟨some click, .validate⟩
  | .checked mode res => mode.Timed ∧ ∀ v, res = some v → CheckedBy s click v
  | _ => True

theorem StageFits.grows {s s' : Sys Γ} (hgrows : Grows s s') {click : Nat} : ∀ {stage : Stage}, StageFits s click stage → StageFits s' click stage
  | .mode _, h => hgrows.sent_at h
  | .check _ _, h => ⟨h.1, hgrows.sent_at h.2⟩
  | .checked _ _, h => ⟨h.1, fun v hv => (h.2 v hv).grows hgrows⟩
  | .reload _ _, _ => trivial
  | .refresh, _ => trivial

/-- The state of the bar fits what was sent, answered and ticked. -/
structure Fits (numText : ℚ → String) (s : Sys Γ) (ui : Ui) : Prop where
  result : ResultFits numText Γ s.ticks ui
  checks : ∀ n ∈ ui.checks, s.request? n = some .validate
  flow : ∀ f, ui.flow = some f → StageFits s f.click f.stage

/-- What holds of every state. -/
structure Sound (numText : ℚ → String) (s : Sys Γ) : Prop where
  answers : ∀ p ∈ s.answers, ∃ req, s.request? p.1 = some req ∧ (CanAnswer Γ req p.2 ∨ ∃ body, req = .reload body)
  ticks : ∀ v ∈ s.ticks, FromCheck Γ v
  fits : Fits numText s s.ui
  sent : ∀ q ∈ s.sent, Justified s q

/-! ## A turn -/

section turns

variable {s : Sys Γ} {ui : Ui}

theorem Fits.idle (h : Fits numText s ui) {ui' : Ui} (hresult : ResultFits numText Γ s.ticks ui') (hchecks : ui'.checks = ui.checks)
    (hflow : ui'.flow = none ∨ ui'.flow = ui.flow) : Fits numText s ui' where
  result := hresult
  checks := hchecks ▸ h.checks
  flow f hf := by
    rcases hflow with hnone | heq
    · rw [hnone] at hf
      cases hf
    · exact h.flow f (heq ▸ hf)

theorem Fits.goesOn (h : Fits numText s ui) {ui' : Ui} {click : Nat} {stage : Stage} (hresult : ResultFits numText Γ s.ticks ui')
    (hchecks : ui'.checks = ui.checks) (hflow : ui'.flow = some ⟨click, stage⟩) (hstage : StageFits s click stage) : Fits numText s ui' where
  result := hresult
  checks := hchecks ▸ h.checks
  flow f hf := by
    rw [hflow] at hf
    obtain rfl := Option.some.inj hf
    exact hstage

@[simp] theorem finishCheck_flow (res : Option Json) : (ui.finishCheck numText res).flow = ui.flow := by cases res <;> rfl

@[simp] theorem finishCheck_checks (res : Option Json) : (ui.finishCheck numText res).checks = ui.checks := by cases res <;> rfl

/-- An answer to a check or to a request for the status is one that the API can give, or a page. -/
theorem Sys.Offers.canAnswer {n : Nat} {r : Option Response} {req : Request} (hoffers : s.Offers n r)
    (hanswers : ∀ p ∈ s.answers, ∃ req, s.request? p.1 = some req ∧ (CanAnswer Γ req p.2 ∨ ∃ body, req = .reload body))
    (hreq : s.request? n = some req) (hno : ∀ body, req ≠ .reload body) :
    ∀ r', r = some r' → CanAnswer Γ req r' ∨ ∃ status text, r' = page status text := by
  rintro r' rfl
  rcases hoffers with hmem | hpage
  · obtain ⟨req', hreq', hcan⟩ := hanswers _ hmem
    obtain rfl : req' = req := Option.some.inj (hreq'.symm.trans hreq)
    rcases hcan with hcan | ⟨body, hbody⟩
    · exact .inl hcan
    · exact absurd hbody (hno body)
  · exact .inr hpage

theorem request?_of_sent {n : Nat} {q : Sent} (h : s.sent[n]? = some q) : s.request? n = some q.request := by
  rw [Sys.request?, h, Option.map_some]

variable (hanswers : ∀ p ∈ s.answers, ∃ req, s.request? p.1 = some req ∧ (CanAnswer Γ req p.2 ∨ ∃ body, req = .reload body))
  (h : Fits numText s ui)

include h in
theorem gotMode_fits {next click : Nat} {mode : Option ApplyMode} (hmode : ∀ m, mode = some m → m.Timed)
    (hsent : ∀ q, (gotMode next click ui mode).2 = some q → s.sent[next]? = some q) :
    Fits numText s (gotMode next click ui mode).1 ∧ ∀ q, (gotMode next click ui mode).2 = some q → Justified s q := by
  cases mode with
  | none => exact ⟨h.idle (h.result.congr rfl rfl rfl) rfl (.inl rfl), fun q hq => nomatch hq⟩
  | some mode =>
    simp only [gotMode] at hsent ⊢
    split
    · exact ⟨h.idle (h.result.congr rfl rfl rfl) rfl (.inl rfl), fun q hq => nomatch hq⟩
    · rename_i hfailed
      rw [if_neg hfailed] at hsent
      refine ⟨h.goesOn (h.result.congr rfl rfl rfl) rfl rfl ⟨hmode mode rfl, hsent _ rfl⟩, fun q hq => ?_⟩
      obtain rfl := Option.some.inj hq
      exact fun body hbody => nomatch hbody

include h in
theorem gotReload_fits {click : Nat} {keepWarnings : Bool} (r : Except ApiError Json) :
    Fits numText s (gotReload click keepWarnings ui r) := by
  cases r with
  | ok v =>
    cases keepWarnings with
    | false => exact h.idle ((resultFits_invalidate ui).congr rfl rfl rfl) rfl (.inl rfl)
    | true => exact h.idle (h.result.congr rfl rfl rfl) rfl (.inl rfl)
  | error e =>
    simp only [gotReload]
    split
    · exact h.goesOn ((resultFits_invalidate ui).congr rfl rfl rfl) rfl rfl trivial
    · exact h.idle (h.result.congr rfl rfl rfl) rfl (.inl rfl)

include hanswers h in
theorem gotAnswer_fits {next n : Nat} {r : Option Response} (hoffers : s.Offers n r)
    (hsent : ∀ q, (gotAnswer numText next n r ui).2 = some q → s.sent[next]? = some q) :
    Fits numText s (gotAnswer numText next n r ui).1 ∧ ∀ q, (gotAnswer numText next n r ui).2 = some q → Justified s q := by
  have hfrom : s.request? n = some .validate → ∀ v, fetchValidateResult (api r) = some v → FromCheck Γ v := fun hreq v hv => by
    obtain ⟨b, res, hash, hcheck, hres, -⟩ := fetchValidateResult_spec (hoffers.canAnswer hanswers hreq fun _ h => nomatch h) hv
    exact ⟨b, res, hash, hcheck, hres⟩
  have hstay : Fits numText s ui ∧ ∀ q, (none : Option Sent) = some q → Justified s q := ⟨h, fun q hq => nomatch hq⟩
  unfold gotAnswer at hsent ⊢
  by_cases hn : n ∈ ui.checks
  · rw [if_pos hn]
    have hrest : Fits numText s { ui with checks := ui.checks.erase n } :=
      ⟨h.result.congr rfl rfl rfl, fun m hm => h.checks m (List.mem_of_mem_erase hm), h.flow⟩
    exact ⟨hrest.idle (hrest.result.finishCheck (hfrom (h.checks n hn))) (finishCheck_checks _) (.inr (finishCheck_flow _)),
      fun q hq => nomatch hq⟩
  rw [if_neg hn] at hsent ⊢
  cases hflow : ui.flow with
  | none => exact hstay
  | some f =>
    obtain ⟨click, stage⟩ := f
    have hstage := h.flow _ hflow
    rw [hflow] at hsent
    cases stage with
    | mode m =>
      simp only at hsent ⊢
      by_cases heq : n = m
      · rw [if_pos heq] at hsent ⊢
        subst heq
        refine gotMode_fits h (fun mode hmode => ?_) hsent
        exact readApplyMode_timed (hoffers.canAnswer hanswers (request?_of_sent hstage) fun _ h => nomatch h) hmode
      · rw [if_neg heq]
        exact hstay
    | check mode m =>
      simp only
      by_cases heq : n = m
      · rw [if_pos heq]
        subst heq
        have hreq := request?_of_sent hstage.2
        refine ⟨h.goesOn ((h.result.finishCheck (hfrom hreq)).congr rfl rfl rfl) (finishCheck_checks _) rfl ⟨hstage.1, fun v hv => ?_⟩,
          fun q hq => nomatch hq⟩
        obtain ⟨b, res, hash, hcheck, hres, hpassed⟩ := fetchValidateResult_spec (hoffers.canAnswer hanswers hreq fun _ h => nomatch h) hv
        refine ⟨n, b, res, hash, hstage.2, hcheck, hres, fun hok => ⟨(hpassed hok).1, ?_⟩⟩
        obtain ⟨-, rfl⟩ := hpassed hok
        rcases hoffers with hmem | ⟨status, text, hpage⟩
        · exact hmem
        · rw [hpage, fetchValidateResult_page] at hv
          cases hv
      · rw [if_neg heq]
        exact hstay
    | reload m keepWarnings =>
      simp only
      by_cases heq : n = m
      · rw [if_pos heq]
        exact ⟨gotReload_fits h _, fun q hq => nomatch hq⟩
      · rw [if_neg heq]
        exact hstay
    | checked mode res => exact hstay
    | refresh => exact hstay

include h in
theorem resumeApply_fits (hticks : ∀ v ∈ s.ticks, FromCheck Γ v) {next : Nat} :
    Fits numText s (resumeApply numText next ui).1 ∧ ∀ q, (resumeApply numText next ui).2 = some q → Justified s q := by
  have hstay : Fits numText s ui ∧ ∀ q, (none : Option Sent) = some q → Justified s q := ⟨h, fun q hq => nomatch hq⟩
  unfold resumeApply
  cases hflow : ui.flow with
  | none => exact hstay
  | some f =>
    obtain ⟨click, stage⟩ := f
    have hstage := h.flow _ hflow
    cases stage with
    | checked mode res =>
      simp only
      cases hdecision : decideApply numText ui mode res with
      | stop => exact ⟨h.idle (h.result.congr rfl rfl rfl) rfl (.inl rfl), fun q hq => nomatch hq⟩
      | askTick => exact ⟨h.idle (h.result.congr rfl rfl rfl) rfl (.inl rfl), fun q hq => nomatch hq⟩
      | reload body keepWarnings =>
        refine ⟨h.goesOn (h.result.congr rfl rfl rfl) rfl rfl trivial, fun q hq => ?_⟩
        obtain rfl := Option.some.inj hq
        exact justified_of_decision h.result hticks hstage.1 hstage.2 hdecision
    | _ => exact hstay

include hanswers h in
/-- A turn leaves a bar that fits, and sends nothing but what is justified. -/
theorem turn_fits (hticks : ∀ v ∈ s.ticks, FromCheck Γ v) {next click : Nat} {i : Input}
    (hoffers : ∀ n r, i = .answer n r → s.Offers n r) (hticked : i.ticked ui ⊆ s.ticks)
    (hsent : ∀ q, (ui.turn numText next click i).2 = some q → s.sent[next]? = some q) :
    Fits numText s (ui.turn numText next click i).1 ∧ ∀ q, (ui.turn numText next click i).2 = some q → Justified s q := by
  have hnone : ∀ {ui' : Ui}, Fits numText s ui' → Fits numText s ui' ∧ ∀ q, (none : Option Sent) = some q → Justified s q :=
    fun h => ⟨h, fun q hq => nomatch hq⟩
  have hother : ∀ {q : Sent}, (∀ body, q.request ≠ .reload body) → Justified s q := fun hno body hbody => absurd hbody (hno body)
  cases i with
  | applyClick =>
    simp only [Ui.turn] at hsent ⊢
    split
    · exact hnone h
    · rename_i hbusy
      rw [if_neg hbusy] at hsent
      refine ⟨h.goesOn (h.result.congr rfl rfl rfl) rfl rfl (hsent _ rfl), fun q hq => ?_⟩
      obtain rfl := Option.some.inj hq
      exact hother fun _ h => nomatch h
  | checkClick =>
    simp only [Ui.turn] at hsent ⊢
    split
    · exact hnone h
    · rename_i hbusy
      rw [if_neg hbusy] at hsent
      refine ⟨⟨h.result.congr rfl rfl rfl, fun n hn => ?_, h.flow⟩, fun q hq => ?_⟩
      · rcases List.mem_cons.mp hn with rfl | hn
        · exact request?_of_sent (hsent _ rfl)
        · exact h.checks n hn
      · obtain rfl := Option.some.inj hq
        exact hother fun _ h => nomatch h
  | ack checked => exact hnone (h.idle (h.result.ackChange hticked) rfl (.inr rfl))
  | dismiss => exact hnone (h.idle (resultFits_invalidate ui) rfl (.inr rfl))
  | navigate =>
    simp only [Ui.turn]
    refine hnone (h.idle h.result.dropPassedCheck ?_ (.inr ?_)) <;>
    · unfold Ui.dropPassedCheck
      split <;> rfl
  | revision revision =>
    simp only [Ui.turn]
    refine hnone (h.idle h.result.noteConfigRevision ?_ (.inr ?_)) <;>
    · unfold Ui.noteConfigRevision
      split
      · rfl
      · split <;> rfl
  | answer n r => exact gotAnswer_fits hanswers h (hoffers n r rfl) hsent
  | resume => exact resumeApply_fits h hticks
  | refreshed =>
    simp only [Ui.turn]
    split
    · exact hnone (h.idle (h.result.congr rfl rfl rfl) rfl (.inl rfl))
    · exact hnone h

end turns

/-! ## Runs -/

section runs

variable {s s' : Sys Γ}

theorem Fits.grows {ui : Ui} (hgrows : Grows s s') (h : Fits numText s ui) : Fits numText s' ui where
  result := ⟨h.result.shown, h.result.signature, fun hne => (h.result.tick hne).imp fun _ hv => ⟨hgrows.ticks hv.1, hv.2⟩⟩
  checks n hn := by
    obtain ⟨q, hq, hreq⟩ := Option.map_eq_some_iff.mp (h.checks n hn)
    rw [request?_of_sent (hgrows.sent_at hq), hreq]
  flow f hf := (h.flow f hf).grows hgrows

theorem fits_newPage : Fits numText s {} := ⟨⟨nofun, rfl, fun hne => absurd rfl hne⟩, nofun, nofun⟩

theorem Grows.request? (hgrows : Grows s s') {n : Nat} {req : Request} (h : s.request? n = some req) : s'.request? n = some req := by
  obtain ⟨q, hq, hreq⟩ := Option.map_eq_some_iff.mp h
  rw [request?_of_sent (hgrows.sent_at hq), hreq]

/-- Whatever the page does not do itself leaves a sound state, if the answers are those of the API. -/
theorem Sound.outside (h : Sound numText s) (hgrows : Grows s s') (hsent : s'.sent = s.sent) (hticks : s'.ticks = s.ticks)
    (hui : Fits numText s' s'.ui)
    (hanswers : ∀ p ∈ s'.answers, p ∈ s.answers ∨ ∃ req, s.request? p.1 = some req ∧ (CanAnswer Γ req p.2 ∨ ∃ body, req = .reload body)) :
    Sound numText s' where
  answers p hp := by
    obtain ⟨req, hreq, hcan⟩ := (hanswers p hp).elim (h.answers p) id
    exact ⟨req, hgrows.request? hreq, hcan⟩
  ticks := hticks ▸ h.ticks
  fits := hui
  sent q hq := (h.sent q (hsent ▸ hq)).grows hgrows

theorem Sound.input (h : Sound numText s) {i : Input} (hpossible : (Happening.input i : Happening Γ).Possible s) :
    Sound numText (s.input numText i) := by
  have hgrows : Grows s (s.input numText i) :=
    ⟨List.prefix_append _ _, fun _ hp => hp, fun _ hv => List.mem_append_right _ hv⟩
  have hticks : ∀ v ∈ (s.input numText i).ticks, FromCheck Γ v := fun v hv => by
    rcases List.mem_append.mp hv with hv | hv
    · unfold Input.ticked at hv
      split at hv
      · exact h.fits.result.shown v (Option.mem_toList.mp hv)
      · exact absurd hv List.not_mem_nil
    · exact h.ticks v hv
  have hanswers : ∀ p ∈ (s.input numText i).answers, ∃ req, (s.input numText i).request? p.1 = some req ∧
      (CanAnswer Γ req p.2 ∨ ∃ body, req = .reload body) := fun p hp => by
    obtain ⟨req, hreq, hcan⟩ := h.answers p hp
    exact ⟨req, hgrows.request? hreq, hcan⟩
  have hoffers : ∀ n r, i = .answer n r → (s.input numText i).Offers n r := by
    rintro n r rfl
    exact (hpossible : s.Offers n r)
  obtain ⟨hfits, hjustified⟩ := turn_fits hanswers (h.fits.grows hgrows) hticks hoffers (List.subset_append_left _ _) fun q hq => by
    have hsent : (s.input numText i).sent = s.sent ++ (s.ui.turn numText s.sent.length s.clicks i).2.toList := rfl
    rw [hsent, hq, Option.toList_some, List.getElem?_append_right le_rfl, Nat.sub_self]
    rfl
  refine ⟨hanswers, hticks, hfits, fun q hq => ?_⟩
  rcases List.mem_append.mp hq with hq | hq
  · exact (h.sent q hq).grows hgrows
  · exact hjustified q (Option.mem_toList.mp hq)

theorem Sound.after (h : Sound numText s) {e : Happening Γ} (hpossible : e.Possible s) : Sound numText (s.after numText e) := by
  cases e with
  | input i => exact h.input hpossible
  | serve n r =>
    have hgrows : Grows s (s.after numText (.serve n r)) := ⟨List.prefix_rfl, List.subset_cons_self _ _, fun _ hv => hv⟩
    refine h.outside hgrows rfl rfl (h.fits.grows hgrows) fun p hp => ?_
    rcases List.mem_cons.mp hp with rfl | hp
    · obtain ⟨req, hreq, hcan⟩ := hpossible
      exact .inr ⟨req, hreq, .inl hcan⟩
    · exact .inl hp
  | reload n free script =>
    obtain ⟨body, hbody⟩ := hpossible
    simp only [Sys.after, hbody, Sys.serveReload]
    split
    · rename_i r w _
      have hgrows : Grows s { s with world := w, answers := (n, r) :: s.answers } := ⟨List.prefix_rfl, List.subset_cons_self _ _, fun _ hv => hv⟩
      refine h.outside hgrows rfl rfl (h.fits.grows hgrows) fun p hp => ?_
      rcases List.mem_cons.mp hp with rfl | hp
      · exact .inr ⟨_, hbody, .inr ⟨body, rfl⟩⟩
      · exact .inl hp
    all_goals
      rename_i w _
      have hgrows : Grows s { s with world := w } := ⟨List.prefix_rfl, fun _ hp => hp, fun _ hv => hv⟩
      exact h.outside hgrows rfl rfl (h.fits.grows hgrows) fun p hp => .inl hp
  | other e =>
    have hgrows : Grows s (s.after numText (.other e)) := ⟨List.prefix_rfl, fun _ hp => hp, fun _ hv => hv⟩
    exact h.outside hgrows rfl rfl (h.fits.grows hgrows) fun p hp => .inl hp
  | newPage =>
    have hgrows : Grows s (s.after numText .newPage) := ⟨List.prefix_rfl, fun _ hp => hp, fun _ hv => hv⟩
    exact h.outside hgrows rfl rfl fits_newPage fun p hp => .inl hp

theorem Reached.sound (hs : Reached numText s) : Sound numText s := by
  induction hs with
  | start w => exact ⟨nofun, nofun, fits_newPage, nofun⟩
  | next _ hpossible ih => exact ih.after hpossible

end runs

/-! ## One check for one Apply -/

/-- What a turn makes of the Apply that runs, and what it sends. -/
inductive Moves (next click : Nat) (i : Input) : Option Flow → Option Flow → Option Sent → Prop where
  | rests (f : Option Flow) : Moves next click i f f none
  | checks (f : Option Flow) : Moves next click i f f (some ⟨none, .validate⟩)
  | ends (f : Option Flow) : Moves next click i f none none
  | starts (hi : i = .applyClick) : Moves next click i none (some ⟨click, .mode next⟩) (some ⟨some click, .session⟩)
  | asks (k n : Nat) (mode : ApplyMode) : Moves next click i (some ⟨k, .mode n⟩) (some ⟨k, .check mode next⟩) (some ⟨some k, .validate⟩)
  | goesOn (k : Nat) (stage stage' : Stage) (h : ∀ n, stage' ≠ .mode n) : Moves next click i (some ⟨k, stage⟩) (some ⟨k, stage'⟩) none
  | sends (k : Nat) (stage stage' : Stage) (body : Option Json) (h : ∀ n, stage' ≠ .mode n) :
    Moves next click i (some ⟨k, stage⟩) (some ⟨k, stage'⟩) (some ⟨some k, .reload body⟩)

section moves

variable {next click n : Nat} {i : Input} {ui : Ui}

theorem gotReload_moves {k : Nat} {stage : Stage} {keepWarnings : Bool} (r : Except ApiError Json) :
    Moves next click i (some ⟨k, stage⟩) (gotReload k keepWarnings ui r).flow none := by
  cases r with
  | ok v => exact .ends _
  | error e =>
    simp only [gotReload]
    split
    · exact .goesOn _ _ _ nofun
    · exact .ends _

theorem gotAnswer_moves {r : Option Response} :
    Moves next click i ui.flow (gotAnswer numText next n r ui).1.flow (gotAnswer numText next n r ui).2 := by
  unfold gotAnswer
  by_cases hn : n ∈ ui.checks
  · rw [if_pos hn, finishCheck_flow]
    exact .rests _
  rw [if_neg hn]
  cases hflow : ui.flow with
  | none =>
    have hstay : Moves next click i none ui.flow none := hflow ▸ .rests _
    exact hstay
  | some f =>
    obtain ⟨k, stage⟩ := f
    have hstay : Moves next click i (some ⟨k, stage⟩) ui.flow none := hflow ▸ .rests _
    cases stage with
    | mode m =>
      simp only
      split
      · cases readApplyMode (api r) with
        | none => exact .ends _
        | some mode =>
          simp only [gotMode]
          split
          · exact .ends _
          · exact .asks _ _ _
      · exact hstay
    | check mode m =>
      simp only
      split
      · exact .goesOn _ _ _ nofun
      · exact hstay
    | reload m keepWarnings =>
      simp only
      split
      · exact gotReload_moves _
      · exact hstay
    | checked mode res => exact hstay
    | refresh => exact hstay

theorem resumeApply_moves : Moves next click i ui.flow (resumeApply numText next ui).1.flow (resumeApply numText next ui).2 := by
  unfold resumeApply
  cases hflow : ui.flow with
  | none =>
    have hstay : Moves next click i none ui.flow none := hflow ▸ .rests _
    exact hstay
  | some f =>
    obtain ⟨k, stage⟩ := f
    have hstay : Moves next click i (some ⟨k, stage⟩) ui.flow none := hflow ▸ .rests _
    cases stage with
    | checked mode res =>
      simp only
      cases decideApply numText ui mode res with
      | stop => exact .ends _
      | askTick => exact .ends _
      | reload body keepWarnings => exact .sends _ _ _ _ nofun
    | _ => exact hstay

theorem turn_moves : Moves next click i ui.flow (ui.turn numText next click i).1.flow (ui.turn numText next click i).2 := by
  cases i with
  | applyClick =>
    simp only [Ui.turn]
    split
    · exact .rests _
    · rename_i hbusy
      rw [Option.not_isSome_iff_eq_none.mp hbusy]
      exact .starts rfl
  | checkClick =>
    simp only [Ui.turn]
    split
    · exact .rests _
    · exact .checks _
  | ack checked => exact .rests _
  | dismiss => exact .rests _
  | navigate =>
    have hflow : ui.dropPassedCheck.flow = ui.flow := by
      unfold Ui.dropPassedCheck
      split <;> rfl
    simp only [Ui.turn, hflow]
    exact .rests _
  | revision revision =>
    have hflow : (ui.noteConfigRevision revision).flow = ui.flow := by
      unfold Ui.noteConfigRevision
      split
      · rfl
      · split <;> rfl
    simp only [Ui.turn, hflow]
    exact .rests _
  | answer n r => exact gotAnswer_moves
  | resume => exact resumeApply_moves
  | refreshed =>
    simp only [Ui.turn]
    split
    · exact .ends _
    · exact .rests _

end moves

/-- An Apply sends one check. -/
structure Once (s : Sys Γ) : Prop where
  sent : ∀ q ∈ s.sent, ∀ k, q.click = some k → k < s.clicks
  flow : ∀ f, s.ui.flow = some f → f.click < s.clicks
  waiting : ∀ k n : Nat, s.ui.flow = some ⟨k, .mode n⟩ → (⟨some k, .validate⟩ : Sent) ∉ s.sent
  once : ∀ n m k : Nat, s.sent[n]? = some ⟨some k, .validate⟩ → s.sent[m]? = some ⟨some k, .validate⟩ → n = m

/-- What stands at one place of a list with one more element. -/
theorem getElem?_snoc {α : Type} {l : List α} {x y : α} {n : Nat} (h : (l ++ [x])[n]? = some y) :
    l[n]? = some y ∧ n < l.length ∨ n = l.length ∧ y = x := by
  rcases Nat.lt_trichotomy n l.length with hlt | heq | hgt
  · exact .inl ⟨by rwa [List.getElem?_append_left hlt] at h, hlt⟩
  · refine .inr ⟨heq, ?_⟩
    rw [List.getElem?_append_right heq.ge, heq, Nat.sub_self] at h
    exact (Option.some.inj h).symm
  · rw [List.getElem?_eq_none (by simp; omega)] at h
    cases h

/-- One more request, which is no check of an Apply that had one. -/
theorem Once.send {s : Sys Γ} (h : Once s) {q : Sent} (hq : ∀ k, q = ⟨some k, .validate⟩ → q ∉ s.sent) (n m k : Nat)
    (hn : (s.sent ++ [q])[n]? = some ⟨some k, .validate⟩) (hm : (s.sent ++ [q])[m]? = some ⟨some k, .validate⟩) : n = m := by
  rcases getElem?_snoc hn with ⟨hn', -⟩ | ⟨hn', rfl⟩
  · rcases getElem?_snoc hm with ⟨hm', -⟩ | ⟨-, rfl⟩
    · exact h.once n m k hn' hm'
    · exact absurd (List.mem_of_getElem? hn') (hq k rfl)
  · rcases getElem?_snoc hm with ⟨hm', -⟩ | ⟨hm', -⟩
    · exact absurd (List.mem_of_getElem? hm') (hq k rfl)
    · exact hn'.trans hm'.symm

theorem Once.moves {s s' : Sys Γ} {i : Input} {f f' : Option Flow} {q : Option Sent} (h : Once s) (hf : s.ui.flow = f)
    (hf' : s'.ui.flow = f') (hsent : s'.sent = s.sent ++ q.toList) (hclicks : s.clicks ≤ s'.clicks)
    (hstarts : i = .applyClick → s.clicks < s'.clicks) (hmoves : Moves s.sent.length s.clicks i f f' q) : Once s' := by
  -- no Apply that began before has the number of the next one
  have hfresh : ∀ {k}, (⟨some k, .validate⟩ : Sent) ∈ s.sent → k < s.clicks := fun hmem => h.sent _ hmem _ rfl
  have hold : ∀ q ∈ s.sent, ∀ k, q.click = some k → k < s'.clicks := fun q hq k hk => (h.sent q hq k hk).trans_le hclicks
  have hrunning : ∀ {g}, f = some g → g.click < s.clicks := fun hg => h.flow _ (hf.trans hg)
  have hsends : ∀ {q : Sent}, (∀ k, q.click = some k → k < s'.clicks) → ∀ q' ∈ s.sent ++ [q], ∀ k, q'.click = some k → k < s'.clicks :=
    fun hq q' hq' k hk => by
      rcases List.mem_append.mp hq' with hq' | hq'
      · exact hold q' hq' k hk
      · obtain rfl := List.mem_singleton.mp hq'
        exact hq k hk
  have hadd : ∀ {q : Sent}, (∀ k, q = ⟨some k, .validate⟩ → q ∉ s.sent) → ∀ n m k : Nat, (s.sent ++ [q])[n]? = some ⟨some k, .validate⟩ →
      (s.sent ++ [q])[m]? = some ⟨some k, .validate⟩ → n = m := fun hq => h.send hq
  cases hmoves with
  | rests =>
    rw [Option.toList_none, List.append_nil] at hsent
    exact ⟨hsent ▸ hold, fun g hg => (hrunning (hf'.symm.trans hg)).trans_le hclicks,
      fun k n hg => hsent ▸ h.waiting k n (hf.trans (hf'.symm.trans hg)), hsent ▸ h.once⟩
  | checks =>
    rw [Option.toList_some] at hsent
    refine ⟨hsent ▸ hsends (fun k hk => nomatch hk), fun g hg => (hrunning (hf'.symm.trans hg)).trans_le hclicks, fun k n hg => ?_,
      hsent ▸ hadd fun k hk => nomatch congrArg Sent.click hk⟩
    rw [hsent, List.mem_append, List.mem_singleton]
    rintro (hmem | heq)
    · exact h.waiting k n (hf.trans (hf'.symm.trans hg)) hmem
    · exact nomatch congrArg Sent.click heq
  | ends =>
    rw [Option.toList_none, List.append_nil] at hsent
    exact ⟨hsent ▸ hold, fun g hg => (nomatch hf'.symm.trans hg), fun k n hg => (nomatch hf'.symm.trans hg), hsent ▸ h.once⟩
  | starts hi =>
    rw [Option.toList_some] at hsent
    refine ⟨hsent ▸ hsends fun k hk => Option.some.inj hk ▸ hstarts hi, fun g hg => ?_, fun k n hg => ?_,
      hsent ▸ hadd fun k hk => nomatch congrArg Sent.request hk⟩
    · obtain rfl := Option.some.inj (hf'.symm.trans hg)
      exact hstarts hi
    · obtain ⟨rfl, -⟩ := Flow.mk.inj (Option.some.inj (hf'.symm.trans hg))
      rw [hsent, List.mem_append, List.mem_singleton]
      rintro (hmem | heq)
      · exact absurd (hfresh hmem) (lt_irrefl _)
      · exact nomatch congrArg Sent.request heq
  | asks k n mode =>
    rw [Option.toList_some] at hsent
    refine ⟨hsent ▸ hsends fun k' hk => Option.some.inj hk ▸ (hrunning rfl).trans_le hclicks, fun g hg => ?_, fun k' m hg => ?_,
      hsent ▸ hadd fun k' hk => ?_⟩
    · obtain rfl := Option.some.inj (hf'.symm.trans hg)
      exact (hrunning rfl).trans_le hclicks
    · exact nomatch (Flow.mk.inj (Option.some.inj (hf'.symm.trans hg))).2
    · exact h.waiting k n hf
  | goesOn k stage stage' hstage =>
    rw [Option.toList_none, List.append_nil] at hsent
    refine ⟨hsent ▸ hold, fun g hg => ?_, fun k' m hg => ?_, hsent ▸ h.once⟩
    · obtain rfl := Option.some.inj (hf'.symm.trans hg)
      exact (hrunning rfl).trans_le hclicks
    · exact absurd (Flow.mk.inj (Option.some.inj (hf'.symm.trans hg))).2 (hstage m)
  | sends k stage stage' body hstage =>
    rw [Option.toList_some] at hsent
    refine ⟨hsent ▸ hsends fun k' hk => Option.some.inj hk ▸ (hrunning rfl).trans_le hclicks, fun g hg => ?_, fun k' m hg => ?_,
      hsent ▸ hadd fun k' hk => nomatch congrArg Sent.request hk⟩
    · obtain rfl := Option.some.inj (hf'.symm.trans hg)
      exact (hrunning rfl).trans_le hclicks
    · exact absurd (Flow.mk.inj (Option.some.inj (hf'.symm.trans hg))).2 (hstage m)

theorem Reached.once {s : Sys Γ} (hs : Reached numText s) : Once s := by
  induction hs with
  | start w => exact ⟨nofun, nofun, nofun, nofun⟩
  | @next s e _ _ ih =>
    -- only the page sends anything
    have hrests : ∀ {s' : Sys Γ}, s'.ui = s.ui → s'.sent = s.sent → s'.clicks = s.clicks → Once s' := fun hui hsent hclicks =>
      ⟨by rw [hsent, hclicks]; exact ih.sent, by rw [hui, hclicks]; exact ih.flow, by rw [hui, hsent]; exact ih.waiting, by rw [hsent]; exact ih.once⟩
    cases e with
    | input i =>
      refine ih.moves rfl rfl rfl ?_ ?_ turn_moves
      · simp only [Sys.after, Sys.input]
        split
        · exact Nat.le_succ _
        · exact le_rfl
      · rintro rfl
        exact Nat.lt_succ_self _
    | serve n r => exact hrests rfl rfl rfl
    | reload n free script =>
      simp only [Sys.after]
      split
      · unfold Sys.serveReload
        split <;> exact hrests rfl rfl rfl
      · exact ih
    | other e => exact hrests rfl rfl rfl
    | newPage => exact ⟨ih.sent, nofun, nofun, ih.once⟩

/-! ## Applied as shown -/

/-- In this state every request to reload comes from an Apply, which sent one check; and whatever becomes of it when it is served, a one-way
reload applies no file but one with the hash of a file that this check passed, with no warnings or with those that the operator ticked. -/
structure AppliesAsShown (s : Sys Γ) : Prop where
  once : ∀ n m k : Nat, s.sent[n]? = some ⟨some k, .validate⟩ → s.sent[m]? = some ⟨some k, .validate⟩ → n = m
  oneWay : ∀ n q body, s.sent[n]? = some q → q.request = .reload body →
    (∀ req, readReloadRequest body = .ok req → req.confirmTimeoutSeconds ≤ 0) → ∃ k, q.click = some k ∧
      ∀ numText free script, AppliesOnly (fun _ => True) (fun b => ∃ b₀, Γ.sha256 b₀ = Γ.sha256 b ∧ Acknowledged s k b₀) s.world
        (s.after numText (.reload n free script)).world

section sample

/-- What a run returned, if it did. -/
def returned {ε α σ : Type} : Outcome ε α σ → Option α
  | .done (.ok a) _ => some a
  | _ => none

/-- What a program returned in a run, it can return. -/
theorem canReturn_of_run {α : Type} {p : App Γ α} {cs : List (Choice Γ)} {w : World Γ} {a : α}
    (h : returned ((host Γ).run p cs w) = some a) : p.CanReturn a := by
  have hall : Allowed (choiceRules fun _ => True) p cs w := allowed_choiceRules trivial fun _ _ => trivial
  have hwp : wp (choiceRules fun _ => True) p (fun _ _ => True) w := wp_any (fun _ => trivial)
  have hrun := run_sat (wp_canReturn hwp) hall
  cases hout : (host Γ).run p cs w with
  | done r w' =>
    rw [hout] at h hrun
    cases r with
    | error e => cases h
    | ok a' =>
      obtain rfl : a' = a := Option.some.inj h
      exact hrun.2 a' rfl
  | killed w' =>
    rw [hout] at h
    cases h

/-- A host with an edit that turns sessions off. -/
def oneWayHost : World Sample.ctx := (Sample.host 2 none).set .config (some (.yaml (Sample.config 2 false)))

/-- The answer to a request for its status. -/
def idleStatus : Response := jsonOK (ConfirmStatus.toJson {})

/-- Nothing is missing on it. -/
def quietSurroundings : Surroundings where
  host := { order := {}, wireGuardError := fun _ => none, nftError := fun _ => none }
  zones _ _ := none
  countryISOCodeLower _ := ""

/-- The answer to a check of the edit, for a client whose address is not known. It warns of that. -/
def warned : Response :=
  validateResponse quietSurroundings (clientOf "" { remoteAddr := "" }) (Sample.config 2 false) (some (Sample.config 1 true)) "2"

/-- An Apply, to its check. -/
def checkedClick (n : Nat) : List (Happening Sample.ctx) :=
  [.input .applyClick, .serve n idleStatus, .input (.answer n (some idleStatus)), .serve (n + 1) warned,
    .input (.answer (n + 1) (some warned)), .input .resume]

/-- The first Apply asks for the tick, and after it the second one sends the reload. -/
def tickedRun : List (Happening Sample.ctx) := checkedClick 0 ++ .input (.ack true) :: checkedClick 2

def numeratorText (q : ℚ) : String := toString q.num

/-- The state after it. -/
def tickedState : Sys Sample.ctx := Sys.run numeratorText { world := oneWayHost } tickedRun

theorem canAnswer_idleStatus : CanAnswer Sample.ctx .session idleStatus := by
  have hreturned : returned ((host Sample.ctx).run handleApplySession [] oneWayHost) = some idleStatus := by decide +kernel
  exact canReturn_of_run hreturned

theorem canAnswer_warned : CanAnswer Sample.ctx .validate warned := by
  have hreturned : returned ((host Sample.ctx).run (handleValidate quietSurroundings (clientOf "" { remoteAddr := "" })) [] oneWayHost) =
      some warned := by decide +kernel
  exact ⟨quietSurroundings, "", { remoteAddr := "" }, canReturn_of_run hreturned⟩

end sample

end EvuProxy.ApplyBar
