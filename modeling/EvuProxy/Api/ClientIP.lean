import EvuProxy.Apply.Lockout

/-!
# The address of a client

`internal/api/clientip.go`: which IPv4 address and which port the lockout warnings are about.
-/

namespace EvuProxy

open Go

/-- What `net.SplitHostPort` takes apart, at the last colon of a text. -/
def cutLast (c : Char) (cs : List Char) : Option (List Char × List Char) :=
  match cs.reverse.dropWhile (· ≠ c) with
  | [] => none
  | _ :: before => some (before.reverse, (cs.reverse.takeWhile (· ≠ c)).reverse)

/-- `net.SplitHostPort`. -/
def splitHostPort (s : String) : Option (String × String) := do
  let (before, port) ← cutLast ':' s.toList
  match before with
  | '[' :: rest =>
    if rest.dropWhile (· ≠ ']') = [']'] ∧ '[' ∉ rest ++ port ∧ ']' ∉ port then
      some (String.ofList (rest.takeWhile (· ≠ ']')), String.ofList port)
    else none
  | _ =>
    if ':' ∉ before ∧ '[' ∉ before ++ port ∧ ']' ∉ before ++ port then some (String.ofList before, String.ofList port) else none

/-- `net.IP.IsLoopback`. -/
def isLoopback (a : Addr) : Bool :=
  match a.to4 with
  | some b => b / 2 ^ 24 == 127
  | none => a matches .v6 1

/-- What the handlers read of a request: the addresses of its socket, and the headers that proxies add. -/
structure Conn where
  remoteAddr : String
  forwardedFor : String := ""
  forwardedPort : String := ""
  localAddr : Option (Addr × Nat) := none

/-- `TrustXFF`, on the value of `EVUPROXY_TRUST_XFF`. -/
def trustXFF (env : String) : Bool :=
  let v := toLower (trimSpace env)
  v == "1" || v == "true" || v == "yes"

/-- `parseIPv4Literal`. -/
def parseIPv4Literal (s : String) : String :=
  match (parseIP (trimSpace s)).bind Addr.to4 with
  | none => ""
  | some a => ipv4String a

/-- The first hop of `X-Forwarded-For`, where it is trusted. -/
def forwardedIP (env : String) (r : Conn) : String :=
  let xff := trimSpace r.forwardedFor
  if trustXFF env ∧ xff ≠ "" then parseIPv4Literal (trimSpace ((split xff ',').headD "")) else ""

/-- The host of the socket a request came from. -/
def remoteHost (r : Conn) : String :=
  match splitHostPort r.remoteAddr with
  | some (h, _) => trimSpace h
  | none => trimSpace r.remoteAddr

/-- `DetectClientIP`. -/
def detectClientIP (env : String) (r : Conn) : ClientIPInfo :=
  if forwardedIP env r ≠ "" then
    { ip := forwardedIP env r, source := "xff", note := "first hop from X-Forwarded-For (EVUPROXY_TRUST_XFF enabled)" }
  else if parseIPv4Literal (remoteHost r) ≠ "" then
    { ip := parseIPv4Literal (remoteHost r)
      source := "direct"
      note :=
        if ¬trustXFF env ∧ trimSpace r.forwardedFor ≠ "" then
          "X-Forwarded-For present but ignored; set EVUPROXY_TRUST_XFF=1 only behind a trusted reverse proxy"
        else "" }
  else { source := "unavailable", note := "could not determine IPv4 client address" }

/-- The port of the socket that a request came in on, unless that is a loopback socket. -/
def socketPort (r : Conn) : Nat :=
  match r.localAddr with
  | none => 0
  | some (a, port) => if isLoopback a then 0 else port

/-- `detectConnPort`. -/
def detectConnPort (r : Conn) : Nat :=
  match atoi (trimSpace r.forwardedPort) with
  | some p => if 1 ≤ p ∧ p ≤ 65535 then p.toNat else socketPort r
  | none => socketPort r

/-- The client of a request, as `handleValidate` puts it together. -/
def clientOf (env : String) (r : Conn) : ClientIPInfo := { detectClientIP env r with connPort := detectConnPort r }

theorem parseIPv4Literal_eq (s : String) : parseIPv4Literal s = "" ∨ ∃ a, parseIPv4Literal s = ipv4String a := by
  unfold parseIPv4Literal
  split
  · exact .inl rfl
  · exact .inr ⟨_, rfl⟩

/-- An address that was detected is written as four numbers. -/
theorem detectClientIP_ip (env : String) (r : Conn) :
    (detectClientIP env r).ip = "" ∨ ∃ a, (detectClientIP env r).ip = ipv4String a := by
  have hforwarded : forwardedIP env r = "" ∨ ∃ a, forwardedIP env r = ipv4String a := by
    simp only [forwardedIP]
    split
    · exact parseIPv4Literal_eq _
    · exact .inl rfl
  unfold detectClientIP
  generalize forwardedIP env r = forwarded at hforwarded
  by_cases hne : forwarded ≠ ""
  · rw [if_pos hne]
    exact hforwarded
  · rw [if_neg hne]
    have hremote := parseIPv4Literal_eq (remoteHost r)
    generalize parseIPv4Literal (remoteHost r) = remote at hremote
    by_cases hr : remote ≠ ""
    · rw [if_pos hr]
      exact hremote
    · rw [if_neg hr]
      exact .inl rfl

example : (detectClientIP "" { remoteAddr := "[::ffff:203.0.113.7]:4242", forwardedFor := "10.0.0.1" }).ip = "203.0.113.7" := by decide +kernel

end EvuProxy
