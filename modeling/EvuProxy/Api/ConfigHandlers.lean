import EvuProxy.Go.Path
import EvuProxy.Go.Trim
import EvuProxy.Api.Requests

/-!
# Reading and saving the config

`internal/api/config_handlers.go`. A handler logs and emits events beside what is modelled here, and of its errors a client tells only the
stale revision from the others.
-/

namespace EvuProxy

open Go Fault Fault.Prog

variable {Γ : Ctx}

/-- `strings.Trim`, for a set of one character. -/
def trimChar (s : String) (c : Char) : String := String.ofList (((s.toList.dropWhile (· == c)).reverse.dropWhile (· == c)).reverse)

/-- `strings.TrimPrefix`. -/
def trimPrefix (s p : String) : String := if hasPrefix s p then String.ofList (s.toList.drop p.toList.length) else s

/-- A tag of an `If-Match` header, as a revision. -/
def revisionOfTag (tag : String) : String := trimChar (trimPrefix tag "W/") '"'

/-- The tags of an `If-Match` header, trimmed. -/
def ifMatchTags (values : List String) : List String := values.flatMap fun v => (split v ',').map trimSpace

/-- `parseIfMatch`, on the values of the header. No list stands for an unconditional save. -/
def parseIfMatch (values : List String) : Option (List String) :=
  if values = [] then none
  else if "*" ∈ ifMatchTags values then none
  else some (((ifMatchTags values).map revisionOfTag).filter (· ≠ ""))

/-- The entity tag of a revision. -/
def etagOf (rev : String) : String := "\"" ++ rev ++ "\""

/-- A hash, in hexadecimal. -/
structure IsHex (s : String) : Prop where
  ne : s.toList ≠ []
  digits : ∀ c ∈ s.toList, isDigit c = true ∨ ('a' ≤ c ∧ c ≤ 'f')

theorem IsHex.ne_quote {s : String} (h : IsHex s) : ∀ c ∈ s.toList, c ≠ '"' := by
  rintro c hc rfl
  exact absurd (h.digits _ hc) (by decide)

theorem IsHex.ne_comma {s : String} (h : IsHex s) : ∀ c ∈ s.toList, c ≠ ',' := by
  rintro c hc rfl
  exact absurd (h.digits _ hc) (by decide)

theorem etagOf_toList (rev : String) : (etagOf rev).toList = '"' :: (rev.toList ++ ['"']) := by
  unfold etagOf
  rw [String.toList_append, String.toList_append]
  rfl

theorem trimSpace_etagOf (rev : String) : trimSpace (etagOf rev) = etagOf rev := by
  have hquote : isSpace '"' = false := by decide
  unfold trimSpace
  rw [trimList_eq_self, String.ofList_toList]
  · intro h
    simp [etagOf_toList, hquote]
  · intro h
    simp [etagOf_toList, hquote]

theorem split_etagOf {rev : String} (h : IsHex rev) : split (etagOf rev) ',' = [etagOf rev] := by
  unfold split
  rw [splitList_noSep, List.map_singleton, String.ofList_toList]
  intro c hc
  rw [etagOf_toList, List.mem_cons, List.mem_append, List.mem_singleton] at hc
  rcases hc with rfl | hc | rfl
  · decide
  · exact beq_eq_false_iff_ne.mpr (h.ne_comma c hc)
  · decide

/-- The quotes around a revision are all that is taken from its entity tag. -/
theorem revisionOfTag_etagOf {rev : String} (h : IsHex rev) : revisionOfTag (etagOf rev) = rev := by
  have hweak : trimPrefix (etagOf rev) "W/" = etagOf rev := by
    have hno : hasPrefix (etagOf rev) "W/" = false := by
      have hlist : "W/".toList = ['W', '/'] := by decide
      unfold hasPrefix
      rw [etagOf_toList, hlist]
      rfl
    rw [trimPrefix, hno, if_neg Bool.false_ne_true]
  have hdrop : ∀ (cs : List Char) (d : List Char), (∀ c ∈ cs, c ≠ '"') → cs ≠ [] →
      ('"' :: (cs ++ d)).dropWhile (· == '"') = cs ++ d := by
    intro cs d hcs hne
    obtain ⟨c, cs, rfl⟩ := List.exists_cons_of_ne_nil hne
    have hc : (c == '"') = false := beq_eq_false_iff_ne.mpr (hcs c List.mem_cons_self)
    simp [hc]
  unfold revisionOfTag trimChar
  rw [hweak, etagOf_toList, hdrop _ _ h.ne_quote h.ne, List.reverse_append, List.reverse_singleton, List.singleton_append]
  have hback := hdrop rev.toList.reverse [] (fun c hc => h.ne_quote c (List.mem_reverse.mp hc)) (by simp [h.ne])
  rw [List.append_nil] at hback
  rw [hback, List.reverse_reverse, String.ofList_toList]

/-- The entity tag of a revision asks for that revision. -/
theorem parseIfMatch_etagOf {rev : String} (h : IsHex rev) : parseIfMatch [etagOf rev] = some [rev] := by
  have htags : ifMatchTags [etagOf rev] = [etagOf rev] := by
    unfold ifMatchTags
    rw [List.flatMap_singleton, split_etagOf h, List.map_singleton, trimSpace_etagOf]
  have hstar : "*" ∉ ifMatchTags [etagOf rev] := by
    rw [htags, List.mem_singleton]
    intro he
    have hlist := congrArg String.toList he
    rw [etagOf_toList] at hlist
    exact absurd (List.cons.inj hlist).1 (by decide)
  have hne : rev ≠ "" := fun he => h.ne (by rw [he]; rfl)
  unfold parseIfMatch
  rw [if_neg (List.cons_ne_nil _ _), if_neg hstar, htags, List.map_singleton, revisionOfTag_etagOf h]
  simp [hne]

/-- A save is unconditional where no header was sent, or one of its tags is a star. -/
theorem parseIfMatch_eq_none {values : List String} :
    parseIfMatch values = none ↔ values = [] ∨ ∃ v ∈ values, ∃ tag ∈ split v ',', trimSpace tag = "*" := by
  have hstar : "*" ∈ ifMatchTags values ↔ ∃ v ∈ values, ∃ tag ∈ split v ',', trimSpace tag = "*" := by
    unfold ifMatchTags
    simp only [List.mem_flatMap, List.mem_map]
  rw [← hstar]
  unfold parseIfMatch
  by_cases hnil : values = []
  · simp [hnil]
  · by_cases hmem : "*" ∈ ifMatchTags values
    · simp [hnil, hmem]
    · simp [hnil, hmem]

/-- What a client holds of the config: the config, and the entity tag it came with, empty where it came with none. -/
structure Copy where
  config : Config
  etag : String

/-- `tryMutatingLock`: another operation of the API may be in progress. -/
def tryMutatingLock : Thread Γ Unit := outside "another configuration or apply operation is in progress"

/-- `handleConfigGet`. -/
def handleConfigGet : Thread Γ Copy := do
  note .opens
  onError (fun _ => .sys "could not read configuration") (do
    let rev ← lift (configFileSHA256 (Γ := Γ))
    let c ← lift (loadConfig (Γ := Γ) .config)
    return { config := c, etag := etagOf rev })

/-- How `handleConfigPut` answers an error of the save. -/
def putError : Err → Err
  | .configRevisionMismatch => .configRevisionMismatch
  | .invalid e => .invalid e
  | _ => .sys "could not save configuration"

/-- `handleConfigPut`, for the config in the body. -/
def handleConfigPut (c : Config) (ifMatch : List String) : Thread Γ String := do
  note .opens
  tryMutatingLock
  onError putError (do
    let rev ← request (saveConfigYAMLIfMatch (Γ := Γ) c (parseIfMatch ifMatch))
    return etagOf rev)

/-- `handleConfigDiscard`. -/
def handleConfigDiscard : Thread Γ Unit := do
  note .opens
  tryMutatingLock
  onError (fun _ => .sys "could not discard pending changes") (request (discardPendingConfigYAML (Γ := Γ)))

/-- `handleConfigRestorePreviousApplied`. -/
def handleConfigRestorePreviousApplied : Thread Γ Unit := do
  note .opens
  tryMutatingLock
  onError (fun _ => .sys "could not restore previous applied configuration") (request (restorePreviousAppliedConfigYAML (Γ := Γ)))

end EvuProxy
