import EvuProxy.Apply.System
import EvuProxy.Web.ApplyBar

/-!
# The UI, the API and the host

A page of the UI sends requests, and the API serves them at any time, once, several times or never. An answer may get lost, come late or
come twice, and a gateway may answer in its place with a page that is no JSON. Between any two of these events come operations of others:
other tabs, the API, the command line, the timer. A check and a status take no lock and may read in the middle of an operation, so they
answer whatever their programs can return, whatever they read.
-/

namespace EvuProxy.ApplyBar

open Go Fault

variable {Γ : Ctx}

/-- The system. A request goes by its place among those sent. `answers` are what the API answered, `clicks` counts the clicks on Apply, and
`ticks` are the results that stood on the screen when the box was ticked. -/
structure Sys (Γ : Ctx) where
  world : World Γ
  ui : Ui := {}
  sent : List Sent := []
  answers : List (Nat × Response) := []
  clicks : Nat := 0
  ticks : List Json := []

/-- What can happen. -/
inductive Happening (Γ : Ctx) where
  | input (i : Input)
  | serve (n : Nat) (r : Response)
  | reload (n : Nat) (free : Bool) (script : List (Choice Γ))
  | other (e : Event Γ)
  | newPage

/-- What the API can answer to a check or to a request for the status. -/
def CanAnswer (Γ : Ctx) : Request → Response → Prop
  | .session, r => (handleApplySession (Γ := Γ)).CanReturn r
  | .validate, r => ∃ env trust conn, (handleValidate (Γ := Γ) env (clientOf trust conn)).CanReturn r
  | .reload _, _ => False

/-- The request with a number. -/
def Sys.request? (s : Sys Γ) (n : Nat) : Option Request := (s.sent[n]?).map Sent.request

/-- An answer that the UI can be given: one of the API, or one of a gateway. -/
def Sys.Offers (s : Sys Γ) (n : Nat) : Option Response → Prop
  | none => True
  | some r => (n, r) ∈ s.answers ∨ ∃ status text, r = page status text

/-- What may happen in a state. -/
def Happening.Possible (s : Sys Γ) : Happening Γ → Prop
  | .input (.answer n r) => s.Offers n r
  | .input _ => True
  | .serve n r => ∃ req, s.request? n = some req ∧ CanAnswer Γ req r
  | .reload n _ _ => ∃ body, s.request? n = some (.reload body)
  | .other _ => True
  | .newPage => True

/-- The results on the screen when the box is ticked. -/
def Input.ticked (ui : Ui) : Input → List Json
  | .ack true => ui.shown.toList
  | _ => []

/-- A turn of the page. -/
def Sys.input (numText : ℚ → String) (s : Sys Γ) (i : Input) : Sys Γ :=
  let t := s.ui.turn numText s.sent.length s.clicks i
  { s with
    ui := t.1
    sent := s.sent ++ t.2.toList
    clicks := if i matches .applyClick then s.clicks + 1 else s.clicks
    ticks := i.ticked s.ui ++ s.ticks }

/-- The API serves a reload. A process that is killed answers nothing. -/
def Sys.serveReload (s : Sys Γ) (n : Nat) (free : Bool) (body : Option Json) (script : List (Choice Γ)) : Sys Γ :=
  match (host Γ).run (handleReload free body) script s.world with
  | .done (.ok r) w => { s with world := w, answers := (n, r) :: s.answers }
  | .done (.error _) w => { s with world := w }
  | .killed w => { s with world := w }

/-- The state after something happened. A new page starts afresh, and knows nothing of the requests that are still under way. -/
def Sys.after (numText : ℚ → String) (s : Sys Γ) : Happening Γ → Sys Γ
  | .input i => s.input numText i
  | .serve n r => { s with answers := (n, r) :: s.answers }
  | .reload n free script =>
    match s.request? n with
    | some (.reload body) => s.serveReload n free body script
    | _ => s
  | .other e => { s with world := e.after s.world }
  | .newPage => { s with ui := {} }

/-- The states that the system can be in. -/
inductive Reached (numText : ℚ → String) : Sys Γ → Prop where
  | start (w : World Γ) : Reached numText { world := w }
  | next {s : Sys Γ} {h : Happening Γ} (hs : Reached numText s) (hpossible : h.Possible s) : Reached numText (s.after numText h)

/-- One thing after the other. -/
def Sys.run (numText : ℚ → String) (s : Sys Γ) (es : List (Happening Γ)) : Sys Γ := es.foldl (Sys.after numText) s

/-- Everything in a run can happen where it does. -/
def AllPossible (numText : ℚ → String) : List (Happening Γ) → Sys Γ → Prop
  | [], _ => True
  | e :: es, s => e.Possible s ∧ AllPossible numText es (s.after numText e)

theorem Reached.run {numText : ℚ → String} {es : List (Happening Γ)} {s : Sys Γ} (hs : Reached numText s) (hes : AllPossible numText es s) :
    Reached numText (s.run numText es) := by
  induction es generalizing s with
  | nil => exact hs
  | cons e es ih => exact ih (.next hs hes.1) hes.2

end EvuProxy.ApplyBar
