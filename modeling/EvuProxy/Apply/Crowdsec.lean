import EvuProxy.Apply.Reload
import EvuProxy.Go.Json

/-!
# The CrowdSec ban set

`internal/apply/crowdsec_set.go`: the elements that a reload reads from the JSON listing of the live set, which it adds again after
the tables are replaced.
-/

namespace EvuProxy

open Go

/-- `crowdsecElemVal`: an address, or a prefix object. -/
def crowdsecElemVal (raw : Option Json) : Option String :=
  match raw.bind Json.asString with
  | some s => if trimSpace s = "" then none else some s
  | none =>
    match (raw.bind Json.asFields).map fun fields => pointerField Json.asFields (jsonField fields "prefix") with
    | some (some (some pfx)) =>
      match plainField "" Json.asString (jsonField pfx "addr"), plainField 0 Json.asInt (jsonField pfx "len") with
      | some addr, some len => if addr = "" then none else some (addr ++ "/" ++ toString len)
      | _, _ => none
    | _ => none

/-- `parseCrowdsecElem`. -/
def parseCrowdsecElem (raw : Json) : Option CrowdsecElem :=
  match raw.asString with
  | some s => if trimSpace s = "" then none else some { val := s, timeout := 0 }
  | none => do
    let fields ← raw.asFields
    let elem ← (← pointerField Json.asFields (jsonField fields "elem"))
    let expires ← pointerField Json.asNum (jsonField elem "expires")
    let val ← crowdsecElemVal (jsonField elem "val")
    match expires with
    | none => some { val, timeout := 0 }
    | some q => some { val, timeout := max ⌈q⌉ 1 }

/-- The elements of one item of the document; an item that is no set has none. -/
def crowdsecItemElems (item : Json) : Option (List Json) := do
  let fields ← item.asFields
  match ← pointerField Json.asFields (jsonField fields "set") with
  | none => some []
  | some set => plainField [] Json.asArray (jsonField set "elem")

/-- `parseCrowdsecSetJSON`; none when the document is not of the form that is expected. -/
def parseCrowdsecSetJSON (doc : Json) : Option (List CrowdsecElem) := do
  let fields ← doc.asFields
  let items ← plainField [] Json.asArray (jsonField fields "nftables")
  let elems ← items.mapM crowdsecItemElems
  some (elems.flatten.filterMap parseCrowdsecElem)

/-- What a reload adds to the new set after it has read a listing of the old one. -/
def readdedBans (doc : Json) : List String := crowdsecParts ((parseCrowdsecSetJSON doc).getD [])

end EvuProxy
