import EvuProxy.Go.Text
import EvuProxy.Go.Net
import EvuProxy.Go.Duration
import EvuProxy.Go.Trim
import EvuProxy.Go.Numeral
import EvuProxy.Go.Lexical
import EvuProxy.Go.Path
import EvuProxy.Go.Pieces
import EvuProxy.Go.Dotted
import EvuProxy.Go.Search
import EvuProxy.Go.Json
import EvuProxy.Go.Yaml
import EvuProxy.Fault.Prog
import EvuProxy.Fault.Machine
import EvuProxy.Fault.Stops
import EvuProxy.Nft.Syntax
import EvuProxy.Nft.Text
import EvuProxy.Nft.Words
import EvuProxy.Nft.Elements
import EvuProxy.Nft.Packet
import EvuProxy.Nft.Listing
import EvuProxy.Wg.Syntax
import EvuProxy.Wg.AllowedIPs
import EvuProxy.Wg.Routing
import EvuProxy.Config.Types
import EvuProxy.Config.Ports
import EvuProxy.Config.Validate
import EvuProxy.Config.Valid
import EvuProxy.Config.Words
import EvuProxy.Config.Claims
import EvuProxy.Config.PortMeaning
import EvuProxy.Gen.Policy
import EvuProxy.Gen.Ruleset
import EvuProxy.Gen.Rendered
import EvuProxy.Gen.Sets
import EvuProxy.Gen.Lines
import EvuProxy.Gen.Prerouting
import EvuProxy.Gen.Words
import EvuProxy.Apply.World
import EvuProxy.Apply.State
import EvuProxy.Apply.Generate
import EvuProxy.Apply.Reload
import EvuProxy.Apply.Crowdsec
import EvuProxy.Apply.Confirm
import EvuProxy.Apply.Update
import EvuProxy.Apply.Pending
import EvuProxy.Apply.Archive
import EvuProxy.Apply.Rules
import EvuProxy.Apply.Footprint
import EvuProxy.Apply.Live
import EvuProxy.Apply.Zones
import EvuProxy.Apply.Reloading
import EvuProxy.Apply.Rollback
import EvuProxy.Apply.Session
import EvuProxy.Apply.Operations
import EvuProxy.Apply.System
import EvuProxy.Apply.Sample
import EvuProxy.Wg.Interface
import EvuProxy.Apply.Tunnel
import EvuProxy.AutoPause.Hysteresis
import EvuProxy.AutoPause.Loop
import EvuProxy.AutoPause.Keys
import EvuProxy.EventLog.Append
import EvuProxy.Theorems.Revert
import EvuProxy.Theorems.Timers
import EvuProxy.Theorems.History
import EvuProxy.Theorems.Rendering
import EvuProxy.Theorems.Sets
import EvuProxy.Theorems.Embedding
import EvuProxy.Theorems.Confinement
import EvuProxy.Theorems.Saves
import EvuProxy.Theorems.PeerCommands
import EvuProxy.Theorems.GeoSets
import EvuProxy.Theorems.AutoPause
import EvuProxy.Theorems.PauseEvents
import EvuProxy.Theorems.Bans
import EvuProxy.Theorems.Events
import EvuProxy.Theorems.TunnelConf
import EvuProxy.Theorems.Carriers
import EvuProxy.Theorems.TunnelReload
import EvuProxy.Theorems.PortMaps
import EvuProxy.Theorems.Counters
import EvuProxy.Theorems.PublicPorts
import EvuProxy.Theorems.RoutePorts
import EvuProxy.Theorems.RateLimits
import EvuProxy.Theorems.GeoEqual
import EvuProxy.Apply.NextTunnel
import EvuProxy.Theorems.TunnelAddresses
import EvuProxy.Apply.ConfigChanges
import EvuProxy.Theorems.ChangeCount
import EvuProxy.Theorems.PeerUndo
import EvuProxy.Theorems.PortText
import EvuProxy.Theorems.HeldSets
import EvuProxy.Theorems.IpCheck
import EvuProxy.Theorems.Lockout
import EvuProxy.Theorems.LogText
import EvuProxy.Theorems.Limit
import EvuProxy.Theorems.PeerEdits
import EvuProxy.Theorems.EventTail
import EvuProxy.Apply.Loader
import EvuProxy.Theorems.Metrics
import EvuProxy.Apply.Stats
import EvuProxy.Theorems.ListedPorts
import EvuProxy.Theorems.AcceptedLines
import EvuProxy.Theorems.RouteAccepted
import EvuProxy.Theorems.Review
import EvuProxy.Theorems.PausedMarkers
import EvuProxy.Theorems.Enforcement
import EvuProxy.Theorems.HostRecord
import EvuProxy.Theorems.AppliedAsShown
