import Mathlib.Data.String.Basic
import EvuProxy.Go.Json
import EvuProxy.Web.Pairing
import EvuProxy.Web.Peers

/-!
# The review of what Apply is about to do

`web/static/js/core/config_changes.js`: what differs between the applied config and the saved one, as changes made of steps. A value of
JavaScript is a value of JSON, or `none` where it is `undefined`. A field is looked up among an object's own: the names that every
object inherits are not settings, and the `length` of an empty text or list, which is 0 and shows as little, is `undefined` here. The
texts of the changes are left out.
-/

namespace EvuProxy.Review

open Go

/-! ## Values -/

/-- `isEmptyValue`, for a value that is there. -/
def isEmptyJson : Json → Bool
  | .null => true
  | .bool b => !b
  | .num q => q == 0
  | .str s => s == ""
  | .arr xs => xs.isEmpty
  | .obj fields => fields.isEmpty

/-- `isEmptyValue`. -/
def isEmptyValue : Option Json → Bool
  | none => true
  | some v => isEmptyJson v

/-- `Object.keys(v).sort()`, for the fields that are kept. Which order it is does not matter, as long as it is one. -/
def sortFields (fields : List (String × Json)) : List (String × Json) := fields.insertionSort fun f g => f.1 ≤ g.1

mutual

/-- `stripEmpty`: sorted keys and no empty values. The elements of an array stay, empty or not. -/
def stripEmpty : Json → Json
  | .arr xs => .arr (stripRows xs)
  | .obj fields => .obj (sortFields (stripFields fields))
  | v => v

def stripRows : List Json → List Json
  | [] => []
  | x :: xs => stripEmpty x :: stripRows xs

def stripFields : List (String × Json) → List (String × Json)
  | [] => []
  | (k, v) :: fields => if isEmptyJson (stripEmpty v) then stripFields fields else (k, stripEmpty v) :: stripFields fields

end

/-- `canonical`: the value whose text `canonical` returns. `JSON.stringify` tells any two of these values apart. -/
def canonical : Option Json → Json
  | none => .null
  | some v => if isEmptyJson (stripEmpty v) then .null else stripEmpty v

/-- `same`. -/
def same (a b : Option Json) : Bool := canonical a == canonical b

/-- `o[k]`; `undefined` has no fields, and neither has a value that is not an object. -/
def field : Option Json → String → Option Json
  | some (.obj fields), k => fields.lookup k
  | _, _ => none

/-- `getPath`. -/
def getPath (v : Option Json) (path : List String) : Option Json := path.foldl field v

/-- `listAt`, of the value found at a path. -/
def rowsOf : Option Json → List Json
  | some (.arr xs) => xs
  | _ => []

/-- `listAt`. -/
def listAt (v : Option Json) (path : List String) : List Json := rowsOf (getPath v path)

/-- What a condition makes of a value. -/
def truthy : Option Json → Bool
  | none | some .null => false
  | some (.bool b) => b
  | some (.num q) => q != 0
  | some (.str s) => s != ""
  | some (.arr _) | some (.obj _) => true

/-- `isPlainObject`. -/
def isPlainObject : Option Json → Bool
  | some (.obj _) => true
  | _ => false

/-- An element of a list that `isScalarList` accepts. -/
def isScalar (x : Json) : Bool :=
  match x with
  | .arr _ | .obj _ => false
  | _ => true

/-- `isScalarList`. -/
def isScalarList : Option Json → Bool
  | some (.arr xs) => xs.all isScalar
  | v => isEmptyValue v

/-- `Object.keys(v || {})`. -/
def keysOf : Option Json → List String
  | some (.obj fields) => fields.map Prod.fst
  | _ => []

/-- `{ ...v, [k]: x }`. -/
def withField (v : Json) (k : String) (x : Json) : Json :=
  match v with
  | .obj fields =>
    .obj (if k ∈ fields.map Prod.fst then fields.map fun f => if f.1 = k then (k, x) else f else fields ++ [(k, x)])
  | _ => .obj [(k, x)]

/-! ## Texts of values -/

section

variable (numText : ℚ → String)

mutual

/-- `String(v)`. -/
def jsString : Json → String
  | .null => "null"
  | .bool b => if b then "true" else "false"
  | .num q => numText q
  | .str s => s
  | .arr xs => ",".intercalate (joinTexts xs)
  | .obj _ => "[object Object]"

/-- What `Array.prototype.join` makes of the elements. -/
def joinTexts : List Json → List String
  | [] => []
  | x :: xs => (match x with | .null => "" | _ => jsString x) :: joinTexts xs

end

/-- `String(v || "")`. -/
def textOr (v : Option Json) : String :=
  match v with
  | some x => if truthy v then jsString numText x else ""
  | none => ""

/-- `String(v)` in a concatenation, where the value may be `undefined`. -/
def textOf : Option Json → String
  | none => "undefined"
  | some x => jsString numText x

/-- `joined`. -/
def joined : Option Json → String
  | some (.arr xs) => ", ".intercalate (joinTexts numText xs)
  | none | some .null => ""
  | some x => jsString numText x

variable (toLowerCase toUpperCase : String → String)

/-- `routeProtoPlainText` of `core/net.js`. -/
def routeProtoPlainText (p : Option Json) : String :=
  let raw := jsTrim (textOr numText p)
  if raw = "" then "—"
  else
    let s := toLowerCase raw
    if s = "both" then "tcp, udp"
    else
      let parts := (s.toList.splitOnP fun c => c == ',' || c == '+' || isJsSpace c).map String.ofList
      let tcp := s = "tcp" || parts.contains "tcp"
      let udp := s = "udp" || parts.contains "udp"
      if tcp && udp then "tcp, udp"
      else if tcp then "tcp"
      else if udp then "udp"
      else raw

/-- `replace(", ", "+")`: the first place only. -/
def plusFirst : List Char → List Char
  | ',' :: ' ' :: cs => '+' :: cs
  | c :: cs => c :: plusFirst cs
  | [] => []

/-- `protoLabel`. -/
def protoLabel (proto : Option Json) : String :=
  String.ofList (plusFirst (toUpperCase (routeProtoPlainText numText toLowerCase proto)).toList)

/-- `routeIdentity` of `core/config_save.js`, for a row. Its ports are a list, or nothing. -/
def rowIdentity (r : Option Json) : String :=
  toLowerCase (textOr numText (field r "proto")) ++ "\x00" ++ ",".intercalate (joinTexts numText (rowsOf (field r "ports"))) ++ "\x00" ++
    textOr numText (field r "target_ip")

/-- `tunnelHostOnly`, of a field. -/
def hostOf (tunnelIP : Option Json) : String := tunnelHostOnly (textOr numText tunnelIP)

/-- `routeTargetKey`. -/
def routeTargetKey (r : Option Json) : String := jsTrim (textOr numText (field r "target_ip"))

end

/-! ## The lists that are shown row by row -/

/-- What a row is paired by: a text, or its place. -/
inductive Key where
  | text (s : String)
  | place (i : Nat)
  deriving DecidableEq

/-- A key that is empty pairs nothing. -/
def Key.counts : Key → Option Key
  | .text s => if s = "" then none else some (.text s)
  | .place i => some (.place i)

/-- `rowLists`, without the labels. -/
structure RowList where
  path : List String
  keys : List (Json → Nat → Key)

section

variable (numText : ℚ → String) (toLowerCase toUpperCase : String → String)

def atSameIndex : Json → Nat → Key := fun _ i => .place i

/-- Not by position: a new key with a new name and address is a different peer. -/
def peerRows : RowList where
  path := ["peers"]
  keys := [fun p _ => .text (textOr numText (field (some p) "public_key")),
    fun p _ => .text (jsTrim (textOr numText (field (some p) "name"))),
    fun p _ => .text (hostOf numText (field (some p) "tunnel_ip"))]

def routeRows : RowList where
  path := ["forwarding", "routes"]
  keys := [fun r _ => .text (rowIdentity numText toLowerCase (some r)),
    fun r _ => .text (joined numText (field (some r) "ports")),
    fun r _ => .text (routeTargetKey numText (some r)),
    atSameIndex]

def inboundRows : RowList where
  path := ["input_allows"]
  keys := [fun r _ =>
      .text (protoLabel numText toLowerCase toUpperCase (field (some r) "proto") ++ " " ++ textOf numText (field (some r) "dport")),
    fun r _ => .text (textOr numText (field (some r) "dport")),
    fun r _ => .text (jsTrim (textOr numText (field (some r) "note"))),
    atSameIndex]

end

/-- `rowPaths`: the paths of the row lists, as `path.join(".")` writes them. -/
def rowPaths : List String := ["peers", "forwarding.routes", "input_allows"]

/-! ## Changes -/

/-- A step of a change. A place that is not there is -1 in the source. -/
inductive Step where
  | row (path : List String) (before after : Option Json) (beforeAt afterAt : Option Nat) (beforeRows afterRows : List Json)
  | order (path : List String) (before after : List Json)
  | value (path : List String) (before after : Option Json)
  deriving DecidableEq

def Step.path : Step → List String
  | .row p .. | .order p .. | .value p .. => p

/-- The row of a change of a row list, before and after. -/
structure RowChange where
  before : Option Json
  after : Option Json
  deriving DecidableEq

/-- A change. The order of a list and a setting have no row. -/
structure Change where
  steps : List Step
  row : Option RowChange
  deriving DecidableEq

/-- What `matchRows` returns. -/
structure Matched where
  kept : List (Nat × Nat)
  edited : List (Nat × Nat)
  removed : List Nat
  added : List Nat
  deriving DecidableEq

/-- One pass of `matchRows` over the places that are free. -/
def keyPass (before after : List Json) (key : Json → Nat → Key) : List Nat → List Nat → Pairing.Paired :=
  Pairing.pass (fun b => before[b]?.bind fun row => (key row b).counts) fun a => after[a]?.bind fun row => (key row a).counts

/-- The passes over the keys. -/
def editPasses (before after : List Json) : List (Json → Nat → Key) → List Nat → List Nat → Pairing.Paired
  | [], bs, as => { pairs := [], left := bs, right := as }
  | key :: keys, bs, as =>
    let here := keyPass before after key bs as
    let rest := editPasses before after keys here.left here.right
    { rest with pairs := here.pairs ++ rest.pairs }

/-- The first pass of `matchRows`: the rows that are kept. -/
def keptPass (before after : List Json) : Pairing.Paired :=
  Pairing.pass (fun b => before[b]?.map fun row => canonical (some row)) (fun a => after[a]?.map fun row => canonical (some row))
    (List.range before.length) (List.range after.length)

/-- `matchRows`. -/
def matchRows (before after : List Json) (keys : List (Json → Nat → Key)) : Matched :=
  let first := keptPass before after
  let edits := editPasses before after keys first.left first.right
  { kept := first.pairs, edited := edits.pairs, removed := edits.left, added := edits.right }

/-- `orderChange`. -/
def orderChange (path : List String) (before after : List Json) (kept : List (Nat × Nat)) : Option Change :=
  let inOrder := kept.insertionSort fun x y => x.1 ≤ y.1
  if inOrder.IsChain fun x y => x.2 < y.2 then none
  else
    let byAfter := kept.insertionSort fun x y => x.2 ≤ y.2
    some { steps := [.order path (inOrder.filterMap fun p => before[p.1]?) (byAfter.filterMap fun p => after[p.2]?)], row := none }

/-- `rowStep`, for the places of a row. -/
def rowStep (path : List String) (before after : List Json) (b a : Option Nat) : Step :=
  .row path (b.bind fun i => before[i]?) (a.bind fun i => after[i]?) b a before after

/-- A change of one row of a row list. -/
def rowChange (path : List String) (before after : List Json) (b a : Option Nat) : Change where
  steps := [rowStep path before after b a]
  row := some { before := b.bind fun i => before[i]?, after := a.bind fun i => after[i]? }

/-- `describeRowList`. -/
def describeRowList (list : RowList) (applied saved : Json) : List Change :=
  let before := listAt (some applied) list.path
  let after := listAt (some saved) list.path
  let m := matchRows before after list.keys
  m.removed.map (fun b => rowChange list.path before after (some b) none) ++
    m.edited.map (fun p => rowChange list.path before after (some p.1) (some p.2)) ++
    m.added.map (fun a => rowChange list.path before after none (some a)) ++
    (orderChange list.path before after m.kept).toList

section fold

variable (numText : ℚ → String)

/-- The condition on a peer change: the peer was on, and is off or gone. -/
def turnsOff (change : Change) : Option Json :=
  match change.row with
  | some { before := some before, after := after } =>
    if truthy (field (some before) "disabled") then none
    else
      match after with
      | some after => if truthy (field (some after) "disabled") then some before else none
      | none => some before
  | _ => none

/-- The condition on a route change that goes with a peer at `host`: nothing but the switch of the route has changed. -/
def cascadedFrom (host : String) (change : Change) : Bool :=
  match change.row with
  | some { before := some before, after := some after } =>
    !truthy (field (some before) "disabled") && truthy (field (some after) "disabled") &&
      same (some (withField before "disabled" (.num 0))) (some (withField after "disabled" (.num 0))) &&
      routeTargetKey numText (some before) == host
  | _ => false

/-- `foldCascades`: the peer changes with the steps that they take over, and the route changes that are left. -/
def foldCascades : List Change → List Change → List Change × List Change
  | [], routes => ([], routes)
  | change :: peers, routes =>
    match turnsOff change with
    | none =>
      let rest := foldCascades peers routes
      (change :: rest.1, rest.2)
    | some before =>
      let host := hostOf numText (field (some before) "tunnel_ip")
      let cascaded := if host = "" then [] else routes.filter (cascadedFrom numText host)
      let rest := foldCascades peers (if host = "" then routes else routes.filter fun c => !cascadedFrom numText host c)
      ({ change with steps := change.steps ++ cascaded.flatMap (·.steps) } :: rest.1, rest.2)

end fold

/-! ## Settings -/

/-- `describeScalarList`, of the values found at the path. -/
def describeScalarList (path : List String) (before after : Option Json) : List Change :=
  let before := rowsOf before
  let after := rowsOf after
  let m := matchRows before after []
  m.removed.map (fun b => { steps := [rowStep path before after (some b) none], row := none }) ++
    m.added.map (fun a => { steps := [rowStep path before after none (some a)], row := none }) ++
    (orderChange path before after m.kept).toList

/-- `describeValue`. -/
def describeValue (path : List String) (before after : Option Json) : Change where
  steps := [.value path before after]
  row := none

/-- The condition under which `describeSettings` walks on: both sides are settings of settings, or nothing at all on one side. -/
def isGroup (v : Option Json) : Bool := isPlainObject v || isEmptyValue v

theorem mem_of_lookup {fields : List (String × Json)} {k : String} {v : Json} (h : fields.lookup k = some v) : (k, v) ∈ fields := by
  induction fields with
  | nil => simp at h
  | cons f fields ih =>
    obtain ⟨l, w⟩ := f
    by_cases hl : k = l
    · subst hl
      simp only [List.lookup_cons_self, Option.some.injEq] at h
      simp [h]
    · rw [List.lookup_cons, show (k == l) = false by simpa using hl] at h
      exact List.mem_cons_of_mem _ (ih h)

theorem lookup_isSome {fields : List (String × Json)} {k : String} : (fields.lookup k).isSome ↔ k ∈ fields.map Prod.fst := by
  induction fields with
  | nil => simp
  | cons f fields ih =>
    obtain ⟨l, w⟩ := f
    by_cases hl : k = l
    · simp [hl]
    · rw [List.lookup_cons, show (k == l) = false by simpa using hl]
      simp [ih, hl]

/-- The value of a field is smaller than its object. -/
theorem sizeOf_field_lt {v : Option Json} {k : String} (hk : k ∈ keysOf v) : sizeOf (field v k) < sizeOf v := by
  match v, hk with
  | some (.obj fields), hk =>
    obtain ⟨w, hw⟩ := Option.isSome_iff_exists.1 (lookup_isSome.2 hk)
    have hlt := List.sizeOf_lt_of_mem (mem_of_lookup hw)
    simp only [field, hw]
    simp at hlt ⊢
    omega

theorem sizeOf_field_le (v : Option Json) (k : String) : sizeOf (field v k) ≤ sizeOf v := by
  by_cases hk : k ∈ keysOf v
  · exact (sizeOf_field_lt hk).le
  · have hnone : field v k = none := by
      match v, hk with
      | none, _ => rfl
      | some (.obj fields), hk =>
        exact Option.not_isSome_iff_eq_none.1 fun h => hk (lookup_isSome.1 h)
      | some .null, _ | some (.bool _), _ | some (.num _), _ | some (.str _), _ | some (.arr _), _ => rfl
    rw [hnone]
    cases v <;> simp

/-- `new Set([...])` of the keys of both sides. -/
def eitherKeys (before after : Option Json) : List String := keysOf before ++ (keysOf after).filter (· ∉ keysOf before)

/-- `describeSettings`, of the values found at the path. -/
def describeSettings (path : List String) (before after : Option Json) : List Change :=
  if ".".intercalate path ∈ rowPaths ∨ same before after then []
  else if isGroup before && isGroup after && (isPlainObject before || isPlainObject after) then
    (eitherKeys before after).attach.flatMap fun ⟨k, _⟩ => describeSettings (path ++ [k]) (field before k) (field after k)
  else if isScalarList before && isScalarList after then describeScalarList path before after
  else [describeValue path before after]
termination_by sizeOf before + sizeOf after
decreasing_by
  rename_i hk
  rcases List.mem_append.1 hk with hk | hk
  · have := sizeOf_field_lt hk
    have := sizeOf_field_le after k
    omega
  · have := sizeOf_field_lt (List.mem_filter.1 hk).1
    have := sizeOf_field_le before k
    omega

section

variable (numText : ℚ → String) (toLowerCase toUpperCase : String → String)

/-- `describeConfigChanges`: peers, routes, rules, settings. -/
def describeConfigChanges (applied saved : Json) : List Change :=
  let peers := describeRowList (peerRows numText) applied saved
  let routes := describeRowList (routeRows numText toLowerCase) applied saved
  let inbound := describeRowList (inboundRows numText toLowerCase toUpperCase) applied saved
  let folded := foldCascades numText peers routes
  folded.1 ++ folded.2 ++ inbound ++ describeSettings [] (some applied) (some saved)

end

end EvuProxy.Review
