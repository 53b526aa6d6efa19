import EvuProxy.Api.Requests
import EvuProxy.Apply.NextTunnel

/-!
# The peer commands

`peer-add`, `peer-remove` and `peer-set` of `cmd/evuproxy/main.go`, with `internal/apply/peers_cli.go`. The keys that
`peer-add` generates and the subnet in the UI preferences come from outside; the reload of `--apply` is left out.
-/

namespace EvuProxy

open Go Fault Fault.Prog

variable {Γ : Ctx}

/-- The flags of `peer-add`. `generated` is the public key of the pair it makes, `keyOut` whether it may hand out the private one. -/
structure PeerAdd where
  name : String
  publicKey : String := ""
  tunnelIP : String := ""
  keyOut : Bool := false
  generated : String := ""
  subnet : String := "10.100.0.0/24"

/-- The key of the peer that is added. -/
def PeerAdd.key (a : PeerAdd) : Except ValidationError String :=
  if trimSpace a.publicKey ≠ "" then .ok (trimSpace a.publicKey)
  else if ¬a.keyOut then
    errorf "when omitting --public-key, set --private-key-out or --print-generated-key (avoid --print-generated-key in production logs; see evuproxy peer-add --help)"
  else .ok a.generated

/-- What `peer-add` does to the config. -/
def addPeer (a : PeerAdd) (c : Config) : Except ValidationError Config := do
  if c.peers.any fun p => !p.disabled && equalFold (trimSpace p.name) (trimSpace a.name) then
    errorf ("peer named " ++ quote a.name ++ " already exists")
  else do
    let key ← a.key
    let tun ← if trimSpace a.tunnelIP = "" then nextFreeTunnelIP a.subnet c else .ok (trimSpace a.tunnelIP)
    return { c with peers := c.peers ++ [{ name := trimSpace a.name, publicKey := key, tunnelIP := tun }] }

/-- Whether `peer-remove` means a peer. -/
def removesPeer (name publicKey : String) (p : Peer) : Bool :=
  let nameMatch := name ≠ "" && equalFold (trimSpace p.name) name
  let keyMatch := publicKey ≠ "" && trimSpace p.publicKey == publicKey
  if name ≠ "" && publicKey ≠ "" then nameMatch && keyMatch else nameMatch || keyMatch

/-- `RemovePeerByNameOrKey`. It removes every peer that matches. -/
def removePeerByNameOrKey (name publicKey : String) (c : Config) : Except ValidationError Config :=
  if trimSpace name = "" ∧ trimSpace publicKey = "" then errorf "at least one of --name or --public-key is required"
  else if ¬c.peers.any (removesPeer (trimSpace name) (trimSpace publicKey)) then
    errorf ("no peer matched name " ++ quote (trimSpace name) ++ " / public-key")
  else
    let kept := { c with peers := c.peers.filter fun p => !removesPeer (trimSpace name) (trimSpace publicKey) p }
    kept.validate.map fun _ => kept

/-- `PeerSetUpdates`. -/
structure PeerSetUpdates where
  newName : String := ""
  tunnelIP : String := ""
  publicKey : String := ""
  disabled : Option Bool := none

/-- A peer with the fields that are given. -/
def PeerSetUpdates.on (upd : PeerSetUpdates) (p : Peer) : Peer where
  name := if trimSpace upd.newName = "" then p.name else trimSpace upd.newName
  tunnelIP := if trimSpace upd.tunnelIP = "" then p.tunnelIP else trimSpace upd.tunnelIP
  publicKey := if trimSpace upd.publicKey = "" then p.publicKey else trimSpace upd.publicKey
  disabled := upd.disabled.getD p.disabled

/-- Whether another peer than the one at place `i` has the new name. -/
def nameTaken (peers : List Peer) (i : Nat) (newName : String) : Bool :=
  peers.zipIdx.any fun (p, j) => j != i && !p.disabled && equalFold (trimSpace p.name) newName

/-- `UpdatePeerByName`. -/
def updatePeerByName (name : String) (upd : PeerSetUpdates) (c : Config) : Except ValidationError Config :=
  if trimSpace name = "" then errorf "--name is required"
  else match c.peers.findIdx? fun p => equalFold (trimSpace p.name) (trimSpace name) with
    | none => errorf ("peer " ++ quote (trimSpace name) ++ " not found")
    | some i =>
      if trimSpace upd.newName ≠ "" ∧ nameTaken c.peers i (trimSpace upd.newName) then
        errorf ("peer named " ++ quote (trimSpace upd.newName) ++ " already exists")
      else
        let set := { c with peers := c.peers.modify i upd.on }
        set.validate.map fun _ => set

/-- `RemovePeerByNameOrKey`, with the config that is left in memory. Its check comes last, so that a config that does not pass it has lost
its peers already. -/
def removePeerInMemory (name publicKey : String) (c : Config) : Config × Except ValidationError Unit :=
  if trimSpace name = "" ∧ trimSpace publicKey = "" then (c, errorf "at least one of --name or --public-key is required")
  else if ¬c.peers.any (removesPeer (trimSpace name) (trimSpace publicKey)) then
    (c, errorf ("no peer matched name " ++ quote (trimSpace name) ++ " / public-key"))
  else
    let kept := { c with peers := c.peers.filter fun p => !removesPeer (trimSpace name) (trimSpace publicKey) p }
    (kept, kept.validate)

/-- `UpdatePeerByName`, with the config that is left in memory. -/
def updatePeerInMemory (name : String) (upd : PeerSetUpdates) (c : Config) : Config × Except ValidationError Unit :=
  if trimSpace name = "" then (c, errorf "--name is required")
  else match c.peers.findIdx? fun p => equalFold (trimSpace p.name) (trimSpace name) with
    | none => (c, errorf ("peer " ++ quote (trimSpace name) ++ " not found"))
    | some i =>
      if trimSpace upd.newName ≠ "" ∧ nameTaken c.peers i (trimSpace upd.newName) then
        (c, errorf ("peer named " ++ quote (trimSpace upd.newName) ++ " already exists"))
      else
        let set := { c with peers := c.peers.modify i upd.on }
        (set, set.validate)

theorem removePeerByNameOrKey_eq (name publicKey : String) (c : Config) :
    removePeerByNameOrKey name publicKey c =
      (removePeerInMemory name publicKey c).2.map fun _ => (removePeerInMemory name publicKey c).1 := by
  unfold removePeerByNameOrKey removePeerInMemory
  split
  · rfl
  · split
    · rfl
    · rfl

theorem updatePeerByName_eq (name : String) (upd : PeerSetUpdates) (c : Config) :
    updatePeerByName name upd c = (updatePeerInMemory name upd c).2.map fun _ => (updatePeerInMemory name upd c).1 := by
  unfold updatePeerByName updatePeerInMemory
  split
  · rfl
  · split
    · rfl
    · split
      · rfl
      · rfl

/-- The flag `--disabled` of `peer-set`. -/
def disabledFlag (disabled : String) : Except ValidationError (Option Bool) :=
  if disabled = "" then .ok none
  else if toLower (trimSpace disabled) ∈ ["true", "1", "yes"] then .ok (some true)
  else if toLower (trimSpace disabled) ∈ ["false", "0", "no"] then .ok (some false)
  else errorf "--disabled must be true or false"

/-- A peer command, by its flags. -/
inductive PeerCommand where
  | add (a : PeerAdd)
  | remove (name publicKey : String)
  | set (name newName tunnelIP publicKey disabled : String)

/-- What a command checks before it reads the config. -/
def PeerCommand.flags : PeerCommand → Except ValidationError Unit
  | .add a => if trimSpace a.name = "" then errorf "--name is required" else .ok ()
  | .remove _ _ => .ok ()
  | .set name _ _ _ _ => if trimSpace name = "" then errorf "--name is required" else .ok ()

/-- What a command makes of the config. -/
def PeerCommand.change : PeerCommand → Config → Except ValidationError Config
  | .add a, c => addPeer a c
  | .remove name publicKey, c => removePeerByNameOrKey name publicKey c
  | .set name newName tunnelIP publicKey disabled, c => do
    let disabled ← disabledFlag disabled
    updatePeerByName name { newName := newName, tunnelIP := tunnelIP, publicKey := publicKey, disabled := disabled } c

/-- The edit of a command. -/
def PeerCommand.edit (p : PeerCommand) : Edit := fun c => ((p.change c).mapError Err.invalid).map some

/-- `cmdPeerAdd`, `cmdPeerRemove` and `cmdPeerSet`. -/
def PeerCommand.prog (p : PeerCommand) : Thread Γ Unit := do
  note .opens
  settled (p.flags.mapError Err.invalid)
  note .began
  let base ← lift (loadConfig (Γ := Γ) .config)
  -- `peer-add` makes a key pair, writes the private key, and reads the preferences.
  outside "peer key or preferences"
  let draft ← settled ((p.change base).mapError Err.invalid)
  let _ ← request (saveConfigYAMLIfMatch (Γ := Γ) draft none)
  note (.saved p.edit base draft)

end EvuProxy
