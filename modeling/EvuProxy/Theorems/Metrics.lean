import EvuProxy.Config.Words
import EvuProxy.Metrics.Store
import EvuProxy.Theorems.TunnelConf

/-!
# The ticks of the metrics

`peer_latest` is emptied and filled with plain inserts under the tunnel address, which the peers of a valid config may share. A tick
whose peers share one is rolled back whole, and so is every tick after it while the config stays.
-/

namespace EvuProxy.Metrics

open Go

/-! ## The results of a tick -/

/-- A tick. -/
structure Tick where
  config : Config
  pings : Pings
  time : Int

/-- The results of a tick. -/
def Tick.results (t : Tick) : List PeerPingResult := peersPing t.pings t.config

/-- The peer `p` is on, and the job `k` pings it. -/
def Tick.Pinged (t : Tick) (k : Nat) (p : Peer) : Prop := (enabledPeers t.config)[k]? = some p

@[simp]
theorem result_name (e : Pings) (k : Nat) (p : Peer) : (e.result k p).name = p.name := by
  unfold Pings.result
  dsimp only
  repeat' split
  all_goals rfl

@[simp]
theorem result_tunnelIP (e : Pings) (k : Nat) (p : Peer) : (e.result k p).tunnelIP = peerTunnelIPv4 p.tunnelIP := by
  unfold Pings.result
  generalize peerTunnelIPv4 p.tunnelIP = ip
  dsimp only
  repeat' split
  all_goals rfl

/-- Only an address is pinged. -/
theorem addressed_of_ok {e : Pings} {k : Nat} {p : Peer} (h : (e.result k p).ok = true) : peerTunnelIPv4 p.tunnelIP ≠ "" := by
  intro hempty
  rw [Pings.result, hempty] at h
  dsimp only at h
  split at h
  · exact Bool.noConfusion h
  · rw [if_pos rfl] at h
    exact Bool.noConfusion h

theorem mem_results {t : Tick} {r : PeerPingResult} : r ∈ t.results ↔ ∃ k p, t.Pinged k p ∧ r = t.pings.result k p := by
  unfold Tick.results peersPing Tick.Pinged
  rw [List.mem_mapIdx]
  constructor
  · rintro ⟨k, hk, rfl⟩
    exact ⟨k, _, List.getElem?_eq_getElem hk, rfl⟩
  · rintro ⟨k, p, hp, rfl⟩
    obtain ⟨hk, rfl⟩ := List.getElem?_eq_some_iff.mp hp
    exact ⟨k, hk, rfl⟩

theorem trimSpace_peerTunnelIPv4 (s : String) : trimSpace (peerTunnelIPv4 s) = peerTunnelIPv4 s := by
  unfold peerTunnelIPv4
  dsimp only
  split
  · exact trimSpace_ipv4String _
  · rfl

theorem results_addresses (t : Tick) : t.results.map (fun r => trimSpace r.tunnelIP) = (enabledPeers t.config).map fun p => peerTunnelIPv4 p.tunnelIP := by
  refine List.ext_getElem (by simp [Tick.results, peersPing, enabledPeers]) fun k hk hk' => ?_
  simp [Tick.results, peersPing, enabledPeers, trimSpace_peerTunnelIPv4]

/-! ## One tick -/

/-- The results with an address. -/
def addressed (results : List PeerPingResult) : List PeerPingResult := results.filter fun r => trimSpace r.tunnelIP ≠ ""

/-- The results with an address and an answer. -/
def answered (results : List PeerPingResult) : List PeerPingResult := (addressed results).filter (·.ok)

/-- The loop of `WriteResults` fills one table after the other. -/
theorem foldlM_writeResult (time : Int) (results : List PeerPingResult) : ∀ db : Db, results.foldlM (writeResult time) db =
    (do let latest ← db.peerLatest.insertAll ((addressed results).map (latestRow time))
        return { peerLatest := latest, peerSample := db.peerSample.replaceAll ((answered results).map (sampleRow time)) }) := by
  induction results with
  | nil =>
    intro db
    rfl
  | cons r results ih =>
    intro db
    rw [List.foldlM_cons]
    by_cases hempty : trimSpace r.tunnelIP = ""
    · have haddr : addressed (r :: results) = addressed results := List.filter_cons_of_neg (by simp [hempty])
      rw [writeResult, if_pos hempty]
      unfold answered
      rw [haddr]
      exact ih db
    · have haddr : addressed (r :: results) = r :: addressed results := List.filter_cons_of_pos (by simp [hempty])
      rw [writeResult, if_neg hempty]
      unfold answered
      rw [haddr, List.map_cons, Sql.Table.insertAll, List.foldlM_cons]
      cases hins : db.peerLatest.insert (latestRow time r) with
      | error e => rfl
      | ok latest =>
        cases hok : r.ok with
        | false =>
          rw [List.filter_cons_of_neg (by simp [hok])]
          exact ih _
        | true =>
          rw [List.filter_cons_of_pos (by simp [hok])]
          exact ih _

/-- The addresses under which the results of a tick are written. -/
theorem latest_keys (t : Tick) : ((addressed t.results).map (latestRow t.time)).map LatestRow.tunnelIP = allowedTargets t.config := by
  have hfilter : (t.results.map fun r => trimSpace r.tunnelIP).filter (· ≠ "") = allowedTargets t.config := by
    rw [results_addresses]
    rfl
  rw [← hfilter, List.filter_map, List.map_map]
  rfl

/-- The rows that a tick writes into `peer_sample`. -/
def Tick.samples (t : Tick) : List SampleRow := (answered t.results).map (sampleRow t.time)

theorem samples_nodup {t : Tick} (h : (allowedTargets t.config).Nodup) : (t.samples.map SampleRow.key).Nodup := by
  rw [← latest_keys, List.map_map] at h
  have hkeys : t.samples.map SampleRow.key = ((answered t.results).map fun r => trimSpace r.tunnelIP).map fun ip => (unixMilli t.time, ip) := by
    rw [Tick.samples, List.map_map, List.map_map]
    rfl
  rw [hkeys]
  exact List.Nodup.map (fun _ _ heq => (Prod.mk.inj heq).2) (h.sublist (List.filter_sublist.map _))

/-- A tick commits exactly where no two of its peers share an address. -/
theorem commits_iff (t : Tick) (db : Db) : (writeResults t.results t.time db).2 = .ok () ↔ (allowedTargets t.config).Nodup := by
  unfold writeResults
  rw [Sql.transaction_commits_iff, ← latest_keys]
  unfold writeStatements
  rw [foldlM_writeResult]
  dsimp only
  constructor
  · rintro ⟨db', h⟩
    cases hall : db.peerLatest.clear.insertAll ((addressed t.results).map (latestRow t.time)) with
    | error e =>
      rw [hall] at h
      cases h
    | ok latest =>
      have hnodup := (Sql.Table.insertAll_ok hall).1
      rwa [Sql.Table.rows_clear] at hnodup
  · intro h
    have hfree : (db.peerLatest.clear.rows.map LatestRow.tunnelIP ++
        ((addressed t.results).map (latestRow t.time)).map LatestRow.tunnelIP).Nodup := by
      rwa [Sql.Table.rows_clear]
    obtain ⟨latest, hall⟩ := Sql.Table.insertAll_free hfree
    rw [hall]
    exact ⟨_, rfl⟩

/-- What a tick leaves in the tables when it commits. -/
theorem tables_after {t : Tick} {db : Db} (h : (writeResults t.results t.time db).2 = .ok ()) :
    (writeResults t.results t.time db).1.peerLatest.rows = (addressed t.results).map (latestRow t.time) ∧
    (writeResults t.results t.time db).1.peerSample =
      (db.peerSample.replaceAll t.samples).deleteWhere fun row => row.tsMS < cutoffMS t.time := by
  obtain ⟨db', hdone⟩ := Sql.transaction_commits_iff.mp h
  rw [writeResults, Sql.transaction_ok hdone]
  unfold writeStatements at hdone
  rw [foldlM_writeResult] at hdone
  dsimp only at hdone
  cases hall : db.peerLatest.clear.insertAll ((addressed t.results).map (latestRow t.time)) with
  | error e =>
    rw [hall] at hdone
    cases hdone
  | ok latest =>
    rw [hall] at hdone
    cases hdone
    have hrows := (Sql.Table.insertAll_ok hall).2
    rw [Sql.Table.rows_clear] at hrows
    exact ⟨hrows, rfl⟩

/-! ## Tick after tick -/

/-- The database after ticks, from the one that `migrate` makes on. -/
def runTicks (ticks : List Tick) : Db := ticks.foldl (fun db t => (writeResults t.results t.time db).1) migrate

theorem runTicks_append (ticks : List Tick) (t : Tick) : runTicks (ticks ++ [t]) = (writeResults t.results t.time (runTicks ticks)).1 := by
  rw [runTicks, List.foldl_append, List.foldl_cons, List.foldl_nil, runTicks]

theorem cutoffMS_eq (time : Int) : cutoffMS time = unixMilli time - 900000 := by
  unfold cutoffMS unixMilli
  omega

/-- In ticks whose times differ, none is later than the last. -/
theorem time_le_last {ticks : List Tick} {t v : Tick} (hclock : (ticks ++ [t]).Pairwise fun u v => unixMilli u.time < unixMilli v.time)
    (hv : v ∈ ticks ++ [t]) : unixMilli v.time ≤ unixMilli t.time := by
  rcases List.mem_append.mp hv with hv | hv
  · exact ((List.pairwise_append.mp hclock).2.2 v hv t List.mem_cons_self).le
  · rw [List.mem_singleton.mp hv]

theorem tsMS_of_mem_samples {t : Tick} {row : SampleRow} (h : row ∈ t.samples) : row.tsMS = unixMilli t.time := by
  obtain ⟨r, -, rfl⟩ := List.mem_map.mp h
  rfl

/-- The samples after ticks that commit and whose times differ: those that no tick has found too old. -/
theorem mem_samples_runTicks {ticks : List Tick} (hnodup : ∀ t ∈ ticks, (allowedTargets t.config).Nodup)
    (hclock : ticks.Pairwise fun u v => unixMilli u.time < unixMilli v.time) (row : SampleRow) :
    row ∈ (runTicks ticks).peerSample.rows ↔ ∃ u ∈ ticks, (∀ v ∈ ticks, cutoffMS v.time ≤ unixMilli u.time) ∧ row ∈ u.samples := by
  induction ticks using List.reverseRecOn with
  | nil => simp [runTicks, migrate, Sql.Table.empty]
  | append_singleton ticks t ih =>
    have ht := hnodup t (List.mem_append_right _ List.mem_cons_self)
    obtain ⟨hold, -, hnew⟩ := List.pairwise_append.mp hclock
    have hsamples := (tables_after ((commits_iff t (runTicks ticks)).mpr ht)).2
    have hih := ih (fun u hu => hnodup u (List.mem_append_left _ hu)) hold
    rw [runTicks_append, hsamples, Sql.Table.mem_deleteWhere, Sql.Table.mem_replaceAll (samples_nodup ht), hih,
      decide_eq_false_iff_not, Int.not_lt]
    constructor
    · rintro ⟨⟨⟨u, hu, hkept, hrow⟩, -⟩ | hrow, hcut⟩
      · refine ⟨u, List.mem_append_left _ hu, fun v hv => ?_, hrow⟩
        rcases List.mem_append.mp hv with hv | hv
        · exact hkept v hv
        · rwa [List.mem_singleton.mp hv, ← tsMS_of_mem_samples hrow]
      · refine ⟨t, List.mem_append_right _ List.mem_cons_self, fun v hv => ?_, hrow⟩
        have hlast := time_le_last hclock hv
        rw [cutoffMS_eq]
        omega
    · rintro ⟨u, hu, hkept, hrow⟩
      have hcut := hkept t (List.mem_append_right _ List.mem_cons_self)
      rw [← tsMS_of_mem_samples hrow] at hcut
      refine ⟨?_, hcut⟩
      rcases List.mem_append.mp hu with hu | hu
      · refine .inl ⟨⟨u, hu, fun v hv => hkept v (List.mem_append_left _ hv), hrow⟩, fun hmem => ?_⟩
        obtain ⟨row', hrow', hkey⟩ := List.mem_map.mp hmem
        have hts : row'.tsMS = row.tsMS := (Prod.mk.inj hkey).1
        rw [tsMS_of_mem_samples hrow', tsMS_of_mem_samples hrow] at hts
        exact absurd (hnew u hu t List.mem_cons_self) (by omega)
      · rw [List.mem_singleton.mp hu] at hrow
        exact .inr hrow

/-! ## What a tick is to leave behind -/

/-- What `peer_latest` is to hold of a peer. -/
def Tick.latest (t : Tick) (k : Nat) (p : Peer) : LatestRow where
  tunnelIP := peerTunnelIPv4 p.tunnelIP
  name := p.name
  ok := (t.pings.result k p).ok
  latencyMS := if (t.pings.result k p).ok then some (t.pings.result k p).latencyMS else none
  errText := nullIfEmpty (t.pings.result k p).error
  tsUTC := rfc3339 t.time

/-- What `peer_sample` is to hold of a peer that has answered. -/
def Tick.sample (t : Tick) (k : Nat) (p : Peer) : SampleRow where
  tsMS := unixMilli t.time
  tunnelIP := peerTunnelIPv4 p.tunnelIP
  latencyMS := (t.pings.result k p).latencyMS

/-- The tick `t`, after those of `before`, is stored: it commits, `peer_latest` holds the peers that are on and have an IPv4 tunnel
address, and `peer_sample` the answers of the ticks of the last 15 minutes. -/
structure Stored (before : List Tick) (t : Tick) : Prop where
  commits : (writeResults t.results t.time (runTicks before)).2 = .ok ()
  latest : ∀ row, row ∈ (runTicks (before ++ [t])).peerLatest.rows ↔
    ∃ k p, t.Pinged k p ∧ peerTunnelIPv4 p.tunnelIP ≠ "" ∧ row = t.latest k p
  samples : ∀ row, row ∈ (runTicks (before ++ [t])).peerSample.rows ↔
    ∃ u ∈ before ++ [t], unixMilli t.time - 15 * 60 * 1000 ≤ unixMilli u.time ∧
      ∃ k p, u.Pinged k p ∧ (u.pings.result k p).ok = true ∧ row = u.sample k p

theorem latestRow_result (t : Tick) (k : Nat) (p : Peer) : latestRow t.time (t.pings.result k p) = t.latest k p := by
  rw [latestRow, Tick.latest, result_tunnelIP, result_name, trimSpace_peerTunnelIPv4]

theorem sampleRow_result (t : Tick) (k : Nat) (p : Peer) : sampleRow t.time (t.pings.result k p) = t.sample k p := by
  rw [sampleRow, Tick.sample, result_tunnelIP, trimSpace_peerTunnelIPv4]

theorem mem_addressed {t : Tick} {r : PeerPingResult} :
    r ∈ addressed t.results ↔ ∃ k p, t.Pinged k p ∧ peerTunnelIPv4 p.tunnelIP ≠ "" ∧ r = t.pings.result k p := by
  rw [addressed, List.mem_filter, mem_results, decide_eq_true_eq]
  constructor
  · rintro ⟨⟨k, p, hp, rfl⟩, hne⟩
    rw [result_tunnelIP, trimSpace_peerTunnelIPv4] at hne
    exact ⟨k, p, hp, hne, rfl⟩
  · rintro ⟨k, p, hp, hne, rfl⟩
    rw [result_tunnelIP, trimSpace_peerTunnelIPv4]
    exact ⟨⟨k, p, hp, rfl⟩, hne⟩

theorem mem_latest {t : Tick} {row : LatestRow} : row ∈ (addressed t.results).map (latestRow t.time) ↔
    ∃ k p, t.Pinged k p ∧ peerTunnelIPv4 p.tunnelIP ≠ "" ∧ row = t.latest k p := by
  rw [List.mem_map]
  constructor
  · rintro ⟨r, hr, rfl⟩
    obtain ⟨k, p, hp, hne, rfl⟩ := mem_addressed.mp hr
    exact ⟨k, p, hp, hne, latestRow_result t k p⟩
  · rintro ⟨k, p, hp, hne, rfl⟩
    exact ⟨_, mem_addressed.mpr ⟨k, p, hp, hne, rfl⟩, latestRow_result t k p⟩

theorem mem_samples {t : Tick} {row : SampleRow} :
    row ∈ t.samples ↔ ∃ k p, t.Pinged k p ∧ (t.pings.result k p).ok = true ∧ row = t.sample k p := by
  rw [Tick.samples, List.mem_map]
  constructor
  · rintro ⟨r, hr, rfl⟩
    obtain ⟨hr, hok⟩ := List.mem_filter.mp hr
    obtain ⟨k, p, hp, -, rfl⟩ := mem_addressed.mp hr
    exact ⟨k, p, hp, hok, sampleRow_result t k p⟩
  · rintro ⟨k, p, hp, hok, rfl⟩
    exact ⟨_, List.mem_filter.mpr ⟨mem_addressed.mpr ⟨k, p, hp, addressed_of_ok hok, rfl⟩, hok⟩, sampleRow_result t k p⟩

/-- After ticks whose peers never share an address, at times that differ, the next such tick is stored. -/
theorem stored_of_apart {before : List Tick} {t : Tick} (hnodup : ∀ u ∈ before ++ [t], (allowedTargets u.config).Nodup)
    (hclock : (before ++ [t]).Pairwise fun u v => unixMilli u.time < unixMilli v.time) : Stored before t where
  commits := (commits_iff t _).mpr (hnodup t (List.mem_append_right _ List.mem_cons_self))
  latest row := by
    have hcommits := (commits_iff t (runTicks before)).mpr (hnodup t (List.mem_append_right _ List.mem_cons_self))
    rw [runTicks_append, (tables_after hcommits).1]
    exact mem_latest
  samples row := by
    rw [mem_samples_runTicks hnodup hclock]
    refine exists_congr fun u => and_congr_right fun hu => and_congr ?_ mem_samples
    constructor
    · intro hkept
      have hcut := hkept t (List.mem_append_right _ List.mem_cons_self)
      rw [cutoffMS_eq] at hcut
      omega
    · intro hrecent v hv
      have hlast := time_le_last hclock hv
      rw [cutoffMS_eq]
      omega

/-- In a run whose ticks never find two peers at one address, and whose clock moves on, every tick is stored. A tick that finds two is
never stored. -/
theorem ticks_stored (run : List Tick) :
    ((∀ t ∈ run, (allowedTargets t.config).Nodup) ∧ run.Pairwise (fun u v => unixMilli u.time < unixMilli v.time) →
      ∀ before t after, run = before ++ t :: after → Stored before t) ∧
    ∀ before t after, run = before ++ t :: after → Stored before t → (allowedTargets t.config).Nodup := by
  constructor
  · rintro ⟨hnodup, hclock⟩ before t after rfl
    rw [← List.singleton_append, ← List.append_assoc] at hnodup hclock
    exact stored_of_apart (fun u hu => hnodup u (List.mem_append_left _ hu)) (List.pairwise_append.mp hclock).1
  · intro before t after _ hstored
    exact (commits_iff t _).mp hstored.commits

/-- A tick that finds two peers at one address leaves the database as it was. -/
theorem rolled_back {t : Tick} (h : ¬(allowedTargets t.config).Nodup) (before : List Tick) : runTicks (before ++ [t]) = runTicks before := by
  rw [runTicks_append]
  rw [← commits_iff t (runTicks before)] at h
  exact Sql.transaction_rolled_back h

/-- A config of two peers that share a tunnel address. -/
def sharedConfig : Config :=
  { tunnelConfig "10.0.0.2/32" with peers := [tunnelPeer "10.0.0.2/32", { tunnelPeer "10.0.0.2" with name := "b" }] }

/-- A tick in which both of them answer. -/
def sharedTick : Tick where
  config := sharedConfig.normalize
  pings := { cancelled := fun _ => none, found := true, pingOnce := fun _ _ => .ok 12 }
  time := 1700000000000000000

theorem shared_address_not_stored : sharedTick.config.validate = .ok () ∧ ¬Stored [] sharedTick := by
  refine ⟨by decide +kernel, fun hstored => ?_⟩
  exact absurd ((commits_iff sharedTick _).mp hstored.commits) (by decide +kernel)

end EvuProxy.Metrics
