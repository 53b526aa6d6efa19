import Mathlib.Data.Rat.Floor
import EvuProxy.Go.Text

/-!
# JSON values

The values of a JSON document, and what `json.Unmarshal` makes of one when it is told the type to expect. A number is exact here; a
`float64` holds every whole number up to 2^53, and never comes out above the next whole number below that.
-/

namespace Go

/-- A JSON value. -/
inductive Json where
  | null
  | bool (b : Bool)
  | num (q : ℚ)
  | str (s : String)
  | arr (xs : List Json)
  | obj (fields : List (String × Json))

section equality

mutual

/-- Equality of values, decided. -/
def Json.beq : Json → Json → Bool
  | .null, .null => true
  | .bool b, .bool c => b == c
  | .num p, .num q => p == q
  | .str s, .str t => s == t
  | .arr xs, .arr ys => beqRows xs ys
  | .obj fs, .obj gs => beqFields fs gs
  | _, _ => false

def beqRows : List Json → List Json → Bool
  | [], [] => true
  | x :: xs, y :: ys => x.beq y && beqRows xs ys
  | _, _ => false

def beqFields : List (String × Json) → List (String × Json) → Bool
  | [], [] => true
  | (k, x) :: fs, (l, y) :: gs => k == l && x.beq y && beqFields fs gs
  | _, _ => false

end

mutual

theorem Json.beq_iff : ∀ a b : Json, a.beq b = true ↔ a = b
  | .null, b => by cases b <;> simp [Json.beq]
  | .bool _, b => by cases b <;> simp [Json.beq]
  | .num _, b => by cases b <;> simp [Json.beq]
  | .str _, b => by cases b <;> simp [Json.beq]
  | .arr xs, b => by
    cases b with
    | arr ys => simp [Json.beq, beqRows_iff xs ys]
    | _ => simp [Json.beq]
  | .obj fs, b => by
    cases b with
    | obj gs => simp [Json.beq, beqFields_iff fs gs]
    | _ => simp [Json.beq]

theorem beqRows_iff : ∀ xs ys : List Json, beqRows xs ys = true ↔ xs = ys
  | [], ys => by cases ys <;> simp [beqRows]
  | x :: xs, ys => by
    cases ys with
    | nil => simp [beqRows]
    | cons y ys => simp [beqRows, Json.beq_iff x y, beqRows_iff xs ys]

theorem beqFields_iff : ∀ fs gs : List (String × Json), beqFields fs gs = true ↔ fs = gs
  | [], gs => by cases gs <;> simp [beqFields]
  | (k, x) :: fs, gs => by
    cases gs with
    | nil => simp [beqFields]
    | cons g gs =>
      obtain ⟨l, y⟩ := g
      simp [beqFields, Json.beq_iff x y, beqFields_iff fs gs]

end

instance : DecidableEq Json := fun a b => decidable_of_iff (a.beq b = true) (Json.beq_iff a b)

end equality

/-- `json.Unmarshal` into a string; `null` leaves it empty. -/
def Json.asString : Json → Option String
  | .null => some ""
  | .str s => some s
  | _ => none

/-- `json.Unmarshal` into a `float64`. -/
def Json.asNum : Json → Option ℚ
  | .null => some 0
  | .num q => some q
  | _ => none

/-- `json.Unmarshal` into an `int`: a number without a fraction, in range. -/
def Json.asInt : Json → Option Int
  | .null => some 0
  | .num q => if q.den = 1 ∧ -2 ^ 63 ≤ q.num ∧ q.num < 2 ^ 63 then some q.num else none
  | _ => none

/-- `json.Unmarshal` into a slice of raw values; `null` leaves it empty. -/
def Json.asArray : Json → Option (List Json)
  | .null => some []
  | .arr xs => some xs
  | _ => none

/-- `json.Unmarshal` into a struct: the fields of an object; `null` sets none of them. -/
def Json.asFields : Json → Option (List (String × Json))
  | .null => some []
  | .obj fields => some fields
  | _ => none

/-- The value for a field of a struct. Names are compared without regard to case, and the last one counts. -/
def jsonField (fields : List (String × Json)) (name : String) : Option Json :=
  (fields.reverse.find? fun f => equalFold f.1 name).map (·.2)

/-- A field of a plain type keeps its zero when it is absent. -/
def plainField {α : Type} (zero : α) (decode : Json → Option α) : Option Json → Option α
  | none => some zero
  | some j => decode j

/-- A field of a pointer type is nil when it is absent or `null`. -/
def pointerField {α : Type} (decode : Json → Option α) : Option Json → Option (Option α)
  | none => some none
  | some .null => some none
  | some j => (decode j).map some

end Go
