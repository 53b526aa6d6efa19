import EvuProxy.Config.Validate
import EvuProxy.Sql.Table

/-!
# The metrics database

`PeersPing` of `internal/apply` and `WriteResults` of `internal/metrics`. What the pings of a tick meet, and the clock, are parameters; a
time is in nanoseconds since the epoch.
-/

namespace EvuProxy.Metrics

open Go

/-! ## Pings -/

/-- `PeerPingResult`. -/
structure PeerPingResult where
  name : String
  tunnelIP : String
  latencyMS : Int := 0
  ok : Bool := false
  error : String := ""
  deriving DecidableEq

/-- What the pings of a tick meet. -/
structure Pings where
  /-- The error of the context, where it ends before the job has a slot. -/
  cancelled : Nat → Option String
  /-- `exec.LookPath` finds `ping`. -/
  found : Bool
  /-- `pingOnce`. -/
  pingOnce : Nat → String → Except String Int

/-- The job `k` of `PeersPing`, for the peer `p`. -/
def Pings.result (e : Pings) (k : Nat) (p : Peer) : PeerPingResult :=
  let ip := peerTunnelIPv4 p.tunnelIP
  let r : PeerPingResult := { name := p.name, tunnelIP := ip }
  match e.cancelled k with
  | some err => { r with error := err }
  | none =>
    if ip = "" then { r with error := "invalid tunnel_ip" }
    else if ¬e.found then { r with error := "ping executable not found in PATH" }
    else
      match e.pingOnce k ip with
      | .error err => { r with error := err }
      | .ok ms => { r with ok := true, latencyMS := ms }

/-- `PeersPing`. Every job writes the result in its own place, so the order in which they run does not show. -/
def peersPing (e : Pings) (c : Config) : List PeerPingResult := (c.peers.filter fun p => !p.disabled).mapIdx e.result

/-! ## Times -/

/-- `Time.UnixMilli`. -/
def unixMilli (t : Int) : Int := t / 1000000

/-- A number in at least `width` digits. -/
def padded (width n : Nat) : String := String.ofList (List.replicate (width - (toString n).length) '0') ++ toString n

/-- The year, the month and the day of the day `days` after 1970-01-01. Years are counted from March on, and in eras of 400 of them. -/
def civil (days : Int) : Int × Nat × Nat :=
  let z := days + 719468
  let era := z / 146097
  let doe := (z % 146097).toNat
  let yoe := (doe - doe / 1460 + doe / 36524 - doe / 146096) / 365
  let doy := doe - (365 * yoe + yoe / 4 - yoe / 100)
  let mp := (5 * doy + 2) / 153
  let month := if mp < 10 then mp + 3 else mp - 9
  (era * 400 + yoe + (if month ≤ 2 then 1 else 0), month, doy - (153 * mp + 2) / 5 + 1)

/-- `Time.Format(time.RFC3339)` in UTC. -/
def rfc3339 (t : Int) : String :=
  let secs := t / 1000000000
  let (year, month, day) := civil (secs / 86400)
  let s := (secs % 86400).toNat
  (if year < 0 then "-" else "") ++ padded 4 year.natAbs ++ "-" ++ padded 2 month ++ "-" ++ padded 2 day ++ "T" ++
    padded 2 (s / 3600) ++ ":" ++ padded 2 (s / 60 % 60) ++ ":" ++ padded 2 (s % 60) ++ "Z"

example : rfc3339 1700000000000000000 = "2023-11-14T22:13:20Z" := by decide

/-! ## The tables -/

/-- A row of `peer_latest`. -/
structure LatestRow where
  tunnelIP : String
  name : String
  ok : Bool
  latencyMS : Option Int
  errText : Option String
  tsUTC : String
  deriving DecidableEq

/-- A row of `peer_sample`. -/
structure SampleRow where
  tsMS : Int
  tunnelIP : String
  latencyMS : Int
  deriving DecidableEq

/-- The primary key of `peer_sample`. -/
def SampleRow.key (row : SampleRow) : Int × String := (row.tsMS, row.tunnelIP)

/-- The database. -/
structure Db where
  peerLatest : Sql.Table LatestRow LatestRow.tunnelIP
  peerSample : Sql.Table SampleRow SampleRow.key

/-- The database as `migrate` makes it. -/
def migrate : Db := { peerLatest := .empty, peerSample := .empty }

/-- `nullIfEmpty`. -/
def nullIfEmpty (s : String) : Option String := if trimSpace s = "" then none else some s

/-- What `peer_latest` says of a result. -/
def latestRow (tickUTC : Int) (r : PeerPingResult) : LatestRow where
  tunnelIP := trimSpace r.tunnelIP
  name := r.name
  ok := r.ok
  latencyMS := if r.ok then some r.latencyMS else none
  errText := nullIfEmpty r.error
  tsUTC := rfc3339 tickUTC

/-- What `peer_sample` says of a result. -/
def sampleRow (tickUTC : Int) (r : PeerPingResult) : SampleRow where
  tsMS := unixMilli tickUTC
  tunnelIP := trimSpace r.tunnelIP
  latencyMS := r.latencyMS

/-- The samples of a tick that are older than this, in milliseconds, are deleted. -/
def cutoffMS (tickUTC : Int) : Int := unixMilli (tickUTC - 15 * 60 * 1000000000)

/-- What `WriteResults` does for one result. -/
def writeResult (tickUTC : Int) (db : Db) (r : PeerPingResult) : Except (Sql.UniqueViolation LatestRow) Db :=
  if trimSpace r.tunnelIP = "" then .ok db
  else do
    let latest ← db.peerLatest.insert (latestRow tickUTC r)
    let db := { db with peerLatest := latest }
    if r.ok then return { db with peerSample := db.peerSample.replace (sampleRow tickUTC r) }
    return db

/-- The statements of `WriteResults`. -/
def writeStatements (results : List PeerPingResult) (tickUTC : Int) (db : Db) : Except (Sql.UniqueViolation LatestRow) Db := do
  let db ← results.foldlM (writeResult tickUTC) { db with peerLatest := db.peerLatest.clear }
  return { db with peerSample := db.peerSample.deleteWhere fun row => row.tsMS < cutoffMS tickUTC }

/-- `WriteResults`. -/
def writeResults (results : List PeerPingResult) (tickUTC : Int) : Db → Db × Except (Sql.UniqueViolation LatestRow) Unit :=
  Sql.transaction (writeStatements results tickUTC)

end EvuProxy.Metrics
