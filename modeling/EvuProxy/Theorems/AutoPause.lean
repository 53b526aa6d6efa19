import EvuProxy.AutoPause.Loop

/-!
# The law of the hysteresis

Which routes are published as paused after a run of rounds, said of the rounds alone.
-/

namespace EvuProxy.AutoPause

/-! ## What a tick does -/

theorem mem_foldl_update {ps : List Peer} {key : String} : ∀ {out : String → Option Peer},
    (ps.foldl (fun (out : String → Option Peer) p => Function.update out p.publicKey (some p)) out key).isSome ↔
      (out key).isSome ∨ ∃ p ∈ ps, p.publicKey = key := by
  induction ps with
  | nil => simp
  | cons p ps ih =>
    intro out
    rw [List.foldl_cons, ih]
    by_cases hk : key = p.publicKey
    · simp [hk]
    · simp [Function.update_of_ne hk, Ne.symm hk]

/-- The keys watched are those of the peers of the routes that the loop looks at. -/
theorem watched_iff {c : Config} {key : String} : (watchedPeers c key).isSome ↔ ∃ p ∈ targetPeers c, p.publicKey = key := by
  rw [watchedPeers, mem_foldl_update]
  simp

theorem mem_targetPeers {c : Config} {p : Peer} :
    p ∈ targetPeers c ↔ ∃ r ∈ c.forwarding.routes, flagged r = true ∧ peerForRoute c r = some p := by
  simp [targetPeers, and_assoc]

/-- The counters after a tick. -/
theorem tick_peers (l : Loop) (r : Round) (key : String) : (tick l r).loop.peers key =
    match r.load with
    | none => l.peers key
    | some c =>
      match watchedPeers c key with
      | none => none
      | some p =>
        match r.handshakes c.wireGuard.interface with
        | none => l.peers key
        | some hs =>
          if r.cancel = .probing then l.peers key
          else
            some (((l.peers key).getD {}).observe (signals r c hs key p) c.autoPause.effectiveFailuresToPause
              c.autoPause.effectiveSuccessesToResume) := by
  have hpeers : (tick l r).loop.peers key =
      match r.load with
      | none => l.peers key
      | some c =>
        let kept : Loop := { l with peers := fun key => if (watchedPeers c key).isSome then l.peers key else none }
        (if targetPeers c = [] then kept else probe kept r c).peers key := by
    unfold tick
    cases r.load with
    | none => rfl
    | some c =>
      dsimp only
      split <;> rfl
  rw [hpeers]
  cases r.load with
  | none => rfl
  | some c =>
    dsimp only
    cases hw : watchedPeers c key with
    | none =>
      by_cases hnone : targetPeers c = []
      · simp [hnone, hw]
      · unfold probe
        cases r.handshakes c.wireGuard.interface with
        | none => simp [hnone, hw]
        | some hs => by_cases hc : r.cancel = .probing <;> simp [hnone, hc, hw]
    | some p =>
      have hsome : ¬targetPeers c = [] := by
        obtain ⟨q, hq, -⟩ := watched_iff.mp (Option.isSome_of_mem hw)
        exact List.ne_nil_of_mem hq
      unfold probe
      cases r.handshakes c.wireGuard.interface with
      | none => simp [hsome, hw]
      | some hs => by_cases hc : r.cancel = .probing <;> simp [hsome, hc, hw]

/-- A round that completes publishes what the counters say. -/
theorem tick_completes {r : Round} {c : Config} (l : Loop) (h : r.Completes c) :
    (tick l r).loop.paused = derivePaused (tick l r).loop c := by
  obtain ⟨hload, hcancel⟩ := h
  unfold tick
  rw [hload]
  simp [hcancel, publish, derivePaused]

/-- A round that does not complete publishes nothing. -/
theorem tick_incomplete {l : Loop} {r : Round} (h : ∀ c, ¬r.Completes c) : (tick l r).loop.paused = l.paused := by
  unfold tick
  cases hload : r.load with
  | none => rfl
  | some c =>
    have hcancel : r.cancel ≠ .never := fun hc => h c ⟨hload, hc⟩
    dsimp only
    rw [if_pos hcancel]
    split
    · rfl
    · unfold probe
      split
      · rfl
      · split <;> rfl

theorem mem_derivePaused {l : Loop} {c : Config} {q : PausedRoute} :
    q ∈ derivePaused l c ↔ ∃ r p, c.forwarding.routes[q.index]? = some r ∧ flagged r = true ∧ peerForRoute c r = some p ∧
      ((l.peers p.publicKey).getD {}).paused = true ∧ q = pausedRoute q.index r p := by
  unfold derivePaused
  rw [List.mem_filterMap]
  constructor
  · rintro ⟨⟨r, i⟩, hr, hq⟩
    rw [List.mem_zipIdx_iff_getElem?] at hr
    by_cases hf : flagged r = true
    · cases hp : peerForRoute c r with
      | none => simp [hf, hp] at hq
      | some p =>
        by_cases hpaused : ((l.peers p.publicKey).getD {}).paused = true
        · simp only [hf, hp, hpaused] at hq
          obtain rfl := Option.some.inj hq
          exact ⟨r, p, hr, hf, hp, hpaused, rfl⟩
        · simp [hf, hp, hpaused] at hq
    · simp [hf] at hq
  · rintro ⟨r, p, hr, hf, hp, hpaused, hq⟩
    refine ⟨(r, q.index), List.mem_zipIdx_iff_getElem?.mpr hr, ?_⟩
    simp only [hf, hp, hpaused]
    exact congrArg some hq.symm

/-! ## The law -/

/-- What a round counts for a watched peer. -/
def Round.count (r : Round) (c : Config) (hs : String → Int) (key : String) (p : Peer) : Count where
  online := signals r c hs key p
  failuresToPause := c.autoPause.effectiveFailuresToPause
  successesToResume := c.autoPause.effectiveSuccessesToResume
  failures_pos := c.autoPause.effectiveFailuresToPause_pos
  successes_pos := c.autoPause.effectiveSuccessesToResume_pos

/-- The rounds that count for a key since it last came under watch, and one more round. A round counts when the handshakes can
be read and its answers are in before it is cancelled; one whose config does not watch the key ends the watch. -/
def countsAfter (key : String) (cs : List Count) (r : Round) : List Count :=
  match r.load with
  | none => cs
  | some c =>
    match watchedPeers c key with
    | none => []
    | some p =>
      match r.handshakes c.wireGuard.interface with
      | none => cs
      | some hs =>
        if r.cancel = .probing then cs else cs ++ [r.count c hs key p]

/-- The rounds of a run that count for a key since it last came under watch. -/
def counts (key : String) (rounds : List Round) : List Count := rounds.foldl (countsAfter key) []

@[simp] theorem counts_snoc (key : String) (rounds : List Round) (r : Round) :
    counts key (rounds ++ [r]) = countsAfter key (counts key rounds) r := by
  simp [counts]

/-- One tick keeps the counters of a key in agreement with its rounds. -/
theorem reads_tick {l : Loop} {key : String} {cs : List Count} (h : ((l.peers key).getD {}).Reads cs) (r : Round) :
    (((tick l r).loop.peers key).getD {}).Reads (countsAfter key cs r) := by
  rw [tick_peers, countsAfter]
  cases r.load with
  | none => exact h
  | some c =>
    dsimp only
    cases watchedPeers c key with
    | none => exact Hysteresis.reads_nil
    | some p =>
      dsimp only
      cases r.handshakes c.wireGuard.interface with
      | none => exact h
      | some hs =>
        dsimp only
        by_cases hc : r.cancel = .probing
        · rw [if_pos hc, if_pos hc]
          exact h
        · rw [if_neg hc, if_neg hc]
          exact h.observe (r.count c hs key p)

/-- The counters of every key agree with its rounds, after every run. -/
theorem reads_run (key : String) (rounds : List Round) : (((run rounds).peers key).getD {}).Reads (counts key rounds) := by
  induction rounds using List.reverseRecOn with
  | nil => exact Hysteresis.reads_nil
  | append_singleton rounds r ih =>
    rw [run_snoc, counts_snoc]
    exact reads_tick ih r

/-- A round that says nothing about the peers: no config, no handshakes, or cancelled before the answers are in. -/
def Round.Silent (r : Round) : Prop :=
  r.load = none ∨ (∀ c, r.load = some c → r.handshakes c.wireGuard.interface = none) ∨ r.cancel = .probing

/-- A round that loads a config which does not watch the key. -/
def Round.Unwatches (r : Round) (key : String) : Prop := ∃ c, r.load = some c ∧ watchedPeers c key = none

theorem tick_silent {r : Round} {key : String} (l : Loop) (h : r.Silent) (hw : ¬r.Unwatches key) :
    (tick l r).loop.peers key = l.peers key := by
  rw [tick_peers]
  cases hload : r.load with
  | none => rfl
  | some c =>
    dsimp only
    cases hkey : watchedPeers c key with
    | none => exact absurd ⟨c, hload, hkey⟩ hw
    | some p =>
      rcases h with h | h | h
      · rw [hload] at h
        cases h
      · rw [h c hload]
      · cases r.handshakes c.wireGuard.interface with
        | none => rfl
        | some hs => simp [h]

/-- After each round that completes, a route that the loop looks at is published if and only if the rounds of its peer since it
came under watch hold it paused, and nothing else is published; a round that does not complete leaves what is published, and a
silent one the counters of every peer that stays under watch. -/
theorem hysteresis_law (rounds : List Round) (r : Round) :
    (∀ c, r.Completes c →
      (∀ i route p, c.forwarding.routes[i]? = some route → flagged route = true → peerForRoute c route = some p →
        (pausedRoute i route p ∈ (run (rounds ++ [r])).paused ↔ HeldPaused (counts p.publicKey (rounds ++ [r])))) ∧
      ∀ q ∈ (run (rounds ++ [r])).paused, ∃ route p, c.forwarding.routes[q.index]? = some route ∧ route.disabled = false ∧
        route.pauseWhenPeerOffline = true ∧ p ∈ c.peers ∧ p.disabled = false ∧ peerForRoute c route = some p ∧
        q = pausedRoute q.index route p) ∧
    ((∀ c, ¬r.Completes c) → (run (rounds ++ [r])).paused = (run rounds).paused) ∧
    ∀ key, r.Silent → ¬r.Unwatches key → (run (rounds ++ [r])).peers key = (run rounds).peers key := by
  refine ⟨fun c hc => ⟨fun i route p hi hf hp => ?_, fun q hq => ?_⟩, fun h => ?_, fun key hs hw => ?_⟩
  · rw [← (reads_run p.publicKey (rounds ++ [r])).paused, run_snoc, tick_completes _ hc, mem_derivePaused]
    constructor
    · rintro ⟨route', p', hi', -, hp', hpaused, -⟩
      obtain rfl : route = route' := Option.some.inj (hi.symm.trans hi')
      obtain rfl : p = p' := Option.some.inj (hp.symm.trans hp')
      exact hpaused
    · exact fun hpaused => ⟨route, p, hi, hf, hp, hpaused, rfl⟩
  · rw [run_snoc, tick_completes _ hc, mem_derivePaused] at hq
    obtain ⟨route, p, hi, hf, hp, -, hq⟩ := hq
    have hpeer := List.find?_some hp
    simp only [flagged, Bool.and_eq_true, Bool.not_eq_true'] at hf hpeer
    exact ⟨route, p, hi, hf.2, hf.1, List.mem_of_find?_eq_some hp, hpeer.1, hp, hq⟩
  · rw [run_snoc, tick_incomplete h]
  · rw [run_snoc, tick_silent _ hs hw]

/-- A config with one peer, a route to it that is paused while it is offline, and a threshold of one failure. -/
def sampleConfig : Config where
  forwarding := { routes := [{ proto := "tcp", ports := ["80"], targetIP := "10.0.0.2", pauseWhenPeerOffline := true }] }
  autoPause := { failuresToPause := 1 }
  peers := [{ name := "a", publicKey := "k", tunnelIP := "10.0.0.2" }]

/-- A round that reads the handshakes and finds none, and is cancelled when its answer is in. -/
def cancelledRound : Round where
  load := some sampleConfig
  handshakes _ := some fun _ => 0
  cancel := .probed

/-- A round that is cancelled changes the counters of a peer that it watches. -/
theorem cancelled_round_counts :
    cancelledRound.cancel ≠ .never ∧ (watchedPeers sampleConfig "k").isSome = true ∧
      (run []).peers "k" = none ∧ (run [cancelledRound]).peers "k" = some { paused := true, failures := 1 } := by
  decide

end EvuProxy.AutoPause
