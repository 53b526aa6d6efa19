import Mathlib.Data.Finset.Basic
import EvuProxy.AutoPause.Keys
import EvuProxy.Gen.Rendered
import EvuProxy.Theorems.AutoPause

/-!
# Pause events

The events of the loop, replayed, give the keys it publishes. Two routes of one key are told apart nowhere, so the config has to
rule them out; its check of overlapping ports does, except for routes that claim no port.
-/

namespace EvuProxy.AutoPause

/-! ## Events and keys -/

/-- The events of a run that starts with the loop `l`, in order. -/
def eventsFrom : Loop → List Round → List PauseEvent
  | _, [] => []
  | l, r :: rs => (tick l r).events ++ eventsFrom (tick l r).loop rs

/-- The events of a run. -/
def events (rounds : List Round) : List PauseEvent := eventsFrom {} rounds

theorem eventsFrom_snoc (rounds : List Round) (r : Round) : ∀ l : Loop,
    eventsFrom l (rounds ++ [r]) = eventsFrom l rounds ++ (tick (rounds.foldl (fun l r => (tick l r).loop) l) r).events := by
  induction rounds with
  | nil => simp [eventsFrom]
  | cons r' rs ih =>
    intro l
    rw [List.cons_append, eventsFrom, eventsFrom, ih, List.append_assoc, List.foldl_cons]

@[simp] theorem events_snoc (rounds : List Round) (r : Round) :
    events (rounds ++ [r]) = events rounds ++ (tick (run rounds) r).events := eventsFrom_snoc rounds r {}

/-- The keys published as paused. -/
def publishedKeys (l : Loop) : Finset String := (l.paused.map PausedRoute.key).toFinset

theorem mem_publishedKeys {l : Loop} {key : String} : key ∈ publishedKeys l ↔ key ∈ l.paused.map PausedRoute.key :=
  List.mem_toFinset

/-- What one event does to a set of keys. -/
def PauseEvent.apply (s : Finset String) : PauseEvent → Finset String
  | .paused r => insert r.key s
  | .resumed r => s.erase r.key

/-- The keys that events leave paused, from the empty set. -/
def replay (es : List PauseEvent) : Finset String := es.foldl PauseEvent.apply ∅

/-- The events about one key: true for a pause. -/
def marks (key : String) (es : List PauseEvent) : List Bool :=
  es.filterMap fun
    | .paused r => if r.key = key then some true else none
    | .resumed r => if r.key = key then some false else none

@[simp] theorem marks_append (key : String) (es fs : List PauseEvent) : marks key (es ++ fs) = marks key es ++ marks key fs :=
  List.filterMap_append

/-- Pauses and resumes in turn, the first of them as given. -/
def Alternates : Bool → List Bool → Prop
  | _, [] => True
  | first, m :: ms => m = first ∧ Alternates (!first) ms

/-- The next mark of an alternating list. -/
def nextMark : Bool → List Bool → Bool
  | first, [] => first
  | first, _ :: ms => nextMark (!first) ms

theorem alternates_snoc {ms : List Bool} {m : Bool} : ∀ {first : Bool},
    Alternates first (ms ++ [m]) ↔ Alternates first ms ∧ m = nextMark first ms := by
  induction ms with
  | nil => simp [Alternates, nextMark]
  | cons x ms ih => simp [Alternates, nextMark, ih, and_assoc]

theorem nextMark_snoc {ms : List Bool} {m : Bool} : ∀ {first : Bool}, nextMark first (ms ++ [m]) = !nextMark first ms := by
  induction ms with
  | nil => simp [nextMark]
  | cons x ms ih => simp [nextMark, ih]

/-! ## What a tick emits -/

/-- The marks that `publish` leaves about a key, when no two routes have one key. -/
theorem marks_publish {l : Loop} {next : List PausedRoute} (hprev : (l.paused.map PausedRoute.key).Nodup)
    (hnext : (next.map PausedRoute.key).Nodup) (key : String) :
    marks key (publish l next).events =
      if key ∈ l.paused.map PausedRoute.key then if key ∈ next.map PausedRoute.key then [] else [false]
      else if key ∈ next.map PausedRoute.key then [true] else [] := by
  have hone : ∀ {b : Bool} {qs : List PausedRoute}, (qs.map PausedRoute.key).Nodup →
      (qs.filterMap fun q => if q.key = key then some b else none) = if key ∈ qs.map PausedRoute.key then [b] else [] := by
    intro b qs hqs
    induction qs with
    | nil => rfl
    | cons q qs ih =>
      obtain ⟨hq, hqs⟩ := List.nodup_cons.mp hqs
      rw [List.filterMap_cons, List.map_cons, ih hqs]
      by_cases hk : q.key = key
      · subst hk
        simp [hq]
      · simp [hk, Ne.symm hk]
  have hsub : ∀ {p : PausedRoute → Bool} {qs : List PausedRoute}, (qs.map PausedRoute.key).Nodup →
      ((qs.filter p).map PausedRoute.key).Nodup := fun h => h.sublist (List.filter_sublist.map _)
  have hmem : ∀ {qs rs : List PausedRoute}, key ∈ (qs.filter fun q => q.key ∉ rs.map PausedRoute.key).map PausedRoute.key ↔
      key ∈ qs.map PausedRoute.key ∧ key ∉ rs.map PausedRoute.key := by
    intro qs rs
    simp only [List.mem_map, List.mem_filter, decide_eq_true_eq]
    constructor
    · rintro ⟨q, ⟨hq, hno⟩, rfl⟩
      exact ⟨⟨q, hq, rfl⟩, hno⟩
    · rintro ⟨⟨q, hq, rfl⟩, hno⟩
      exact ⟨q, ⟨hq, hno⟩, rfl⟩
  have hpaused := @hone true _ (hsub (p := fun q => q.key ∉ l.paused.map PausedRoute.key) hnext)
  have hresumed := @hone false _ (hsub (p := fun q => q.key ∉ next.map PausedRoute.key) hprev)
  simp only [hmem] at hpaused hresumed
  have hmarks : marks key (publish l next).events =
      ((next.filter fun q => q.key ∉ l.paused.map PausedRoute.key).filterMap fun q => if q.key = key then some true else none) ++
        (l.paused.filter fun q => q.key ∉ next.map PausedRoute.key).filterMap fun q => if q.key = key then some false else none := by
    unfold publish marks
    rw [List.filterMap_append, List.filterMap_map, List.filterMap_map]
    rfl
  rw [hmarks, hpaused, hresumed]
  by_cases h₁ : key ∈ l.paused.map PausedRoute.key <;> by_cases h₂ : key ∈ next.map PausedRoute.key <;> simp [h₁, h₂]

/-- Replaying what `publish` emits on the keys before it gives the keys after it. -/
theorem apply_publish (l : Loop) (next : List PausedRoute) :
    (publish l next).events.foldl PauseEvent.apply (publishedKeys l) = (next.map PausedRoute.key).toFinset := by
  have hpause : ∀ (qs : List PausedRoute) (s : Finset String),
      (qs.map PauseEvent.paused).foldl PauseEvent.apply s = s ∪ (qs.map PausedRoute.key).toFinset := by
    intro qs
    induction qs with
    | nil => simp
    | cons q qs ih =>
      intro s
      rw [List.map_cons, List.foldl_cons, ih]
      rw [PauseEvent.apply, List.map_cons, List.toFinset_cons]
      ext k
      simp only [Finset.mem_union, Finset.mem_insert, List.mem_toFinset]
      tauto
  have hresume : ∀ (qs : List PausedRoute) (s : Finset String),
      (qs.map PauseEvent.resumed).foldl PauseEvent.apply s = s \ (qs.map PausedRoute.key).toFinset := by
    intro qs
    induction qs with
    | nil => simp
    | cons q qs ih =>
      intro s
      rw [List.map_cons, List.foldl_cons, ih]
      rw [PauseEvent.apply, List.map_cons, List.toFinset_cons]
      ext k
      simp only [Finset.mem_sdiff, Finset.mem_erase, Finset.mem_insert, List.mem_toFinset]
      tauto
  unfold publish
  rw [List.foldl_append, hpause, hresume]
  ext k
  simp only [publishedKeys, Finset.mem_sdiff, Finset.mem_union, List.mem_toFinset, List.mem_map, List.mem_filter, decide_eq_true_eq]
  grind

/-- `publish` calls back when it has something to say. -/
theorem onChange_publish (l : Loop) (next : List PausedRoute) :
    (publish l next).onChange.isSome ↔ (next.map PausedRoute.key).toFinset ≠ publishedKeys l := by
  have hevents : (publish l next).onChange.isSome ↔ (publish l next).events ≠ [] := by
    unfold publish
    dsimp only
    split
    · rename_i hnil
      exact iff_of_false (by simp) (not_not.mpr hnil)
    · rename_i hne
      exact iff_of_true rfl hne
  rw [hevents]
  refine not_congr ?_
  unfold publish publishedKeys
  simp only [List.append_eq_nil_iff, List.map_eq_nil_iff, List.filter_eq_nil_iff, decide_eq_true_eq, not_not, Finset.ext_iff,
    List.mem_toFinset]
  constructor
  · rintro ⟨h₁, h₂⟩ k
    constructor <;> intro hk <;> obtain ⟨q, hq, rfl⟩ := List.mem_map.mp hk
    · exact h₁ q hq
    · exact h₂ q hq
  · intro h
    exact ⟨fun q hq => (h _).mp (List.mem_map_of_mem hq), fun q hq => (h _).mpr (List.mem_map_of_mem hq)⟩

/-- A round that does not complete emits nothing and calls nobody back. -/
theorem tick_incomplete_events {l : Loop} {r : Round} (h : ∀ c, ¬r.Completes c) :
    (tick l r).events = [] ∧ (tick l r).onChange = none := by
  unfold tick
  cases hload : r.load with
  | none => exact ⟨rfl, rfl⟩
  | some c =>
    have hcancel : r.cancel ≠ .never := fun hc => h c ⟨hload, hc⟩
    dsimp only
    rw [if_pos hcancel]
    exact ⟨rfl, rfl⟩

/-- A round that completes publishes what it derives over what was published before. -/
theorem tick_completes_events {l : Loop} {r : Round} {c : Config} (h : r.Completes c) :
    ∃ l' : Loop, l'.paused = l.paused ∧ (tick l r).events = (publish l' (tick l r).loop.paused).events ∧
      (tick l r).onChange = (publish l' (tick l r).loop.paused).onChange := by
  obtain ⟨hload, hcancel⟩ := h
  unfold tick
  rw [hload]
  dsimp only
  rw [if_neg (not_not.mpr hcancel)]
  refine ⟨_, ?_, rfl, rfl⟩
  split
  · rfl
  · unfold probe
    split
    · rfl
    · split <;> rfl

/-! ## Keys of one config -/

/-- No two of the routes that the loop looks at and that claim no port have one key. -/
def PortlessApart (c : Config) : Prop :=
  ∀ (i j : Nat) (r r' : ForwardRoute), c.forwarding.routes[i]? = some r → c.forwarding.routes[j]? = some r' → i ≠ j → flagged r = true → flagged r' = true →
    expandRoutePublicPortNumbers r = .ok [] → expandRoutePublicPortNumbers r' = .ok [] → routeKey r ≠ routeKey r'

/-- The routes that the loop looks at have keys of their own. -/
theorem keys_apart {c : Config} (hc : Checked c) (hp : PortlessApart c) {i j : Nat} {r r' : ForwardRoute}
    (hi : c.forwarding.routes[i]? = some r) (hj : c.forwarding.routes[j]? = some r') (hne : i ≠ j) (hf : flagged r = true)
    (hf' : flagged r' = true) : routeKey r ≠ routeKey r' := by
  intro hkey
  have hd : r.disabled = false := by
    simp only [flagged, Bool.and_eq_true, Bool.not_eq_true'] at hf
    exact hf.2
  have hd' : r'.disabled = false := by
    simp only [flagged, Bool.and_eq_true, Bool.not_eq_true'] at hf'
    exact hf'.2
  obtain ⟨ps, hps⟩ := hc.ports_expand hi hd
  obtain ⟨ps', hps'⟩ := hc.ports_expand hj hd'
  have hr := hc.routes i r hi hd
  have hr' := hc.routes j r' hj hd'
  -- a route that claims a port claims it also under the other index, which the check of overlaps refuses
  have hnone : ∀ {r r' : ForwardRoute} {i j : Nat} {ps ps' : List Nat}, c.forwarding.routes[i]? = some r →
      c.forwarding.routes[j]? = some r' → i ≠ j → r.disabled = false → r'.disabled = false →
      expandRoutePublicPortNumbers r = .ok ps → expandRoutePublicPortNumbers r' = .ok ps' → routeKey r = routeKey r' → ps = [] := by
    intro r r' i j ps ps' hi hj hne hd hd' hps hps' hkey
    have hr := hc.routes i r hi hd
    obtain ⟨protos, hprotos⟩ := hr.protos
    obtain ⟨proto, hproto⟩ := List.exists_mem_of_ne_nil _ (parseRouteProtocols_ok hprotos).1
    by_contra hport
    obtain ⟨port, hport⟩ := List.exists_mem_of_ne_nil _ hport
    have hk : Claims r (proto, port) := ⟨protos, ps, hprotos, hps, hproto, hport⟩
    exact hc.claims_apart hi hj hne hd hd' hk (claims_of_key hr (hc.routes j r' hj hd') hps hps' hkey hk)
  obtain rfl := hnone hi hj hne hd hd' hps hps' hkey
  obtain rfl := hnone hj hi (Ne.symm hne) hd' hd hps' hps hkey.symm
  exact hp i j r r' hi hj hne hf hf' hps hps' hkey

/-- Rows that are kept apart by what `S` says of them. -/
theorem pairwise_filterMap_of {α β : Type} {F : α → Option β} {S : α → β → Prop} {R : β → β → Prop} {xs : List α}
    (hF : ∀ x q, F x = some q → S x q) (h : xs.Pairwise fun x y => ∀ q q', S x q → S y q' → R q q') : (xs.filterMap F).Pairwise R :=
  List.pairwise_filterMap.mpr (h.imp fun hS q hq q' hq' => hS q q' (hF _ q hq) (hF _ q' hq'))

theorem nodup_derivePaused {c : Config} (hc : Checked c) (hp : PortlessApart c) (l : Loop) :
    ((derivePaused l c).map PausedRoute.key).Nodup := by
  unfold List.Nodup derivePaused
  rw [List.pairwise_map]
  refine @pairwise_filterMap_of _ _ _ (fun x q => flagged x.1 = true ∧ q.key = routeKey x.1) _ _ ?_ ?_
  · rintro ⟨r, n⟩ q hq
    dsimp only at hq ⊢
    cases hf : flagged r with
    | false => simp [hf] at hq
    | true =>
      cases hpeer : peerForRoute c r with
      | none => simp [hf, hpeer] at hq
      | some p =>
        simp only [hf, hpeer, Bool.not_true, Bool.false_eq_true, if_false, Option.ite_none_right_eq_some, Option.some.injEq] at hq
        rw [← hq.2]
        exact ⟨rfl, key_pausedRoute n r p⟩
  · rw [List.pairwise_iff_getElem]
    rintro i j hi hj hlt q q' ⟨hf, hk⟩ ⟨hf', hk'⟩
    rw [List.getElem_zipIdx] at hf hk hf' hk'
    rw [List.length_zipIdx] at hi hj
    rw [hk, hk']
    exact keys_apart hc hp (List.getElem?_eq_getElem hi) (List.getElem?_eq_getElem hj) hlt.ne hf hf'

/-! ## Runs -/

/-- What the events so far say of a key: pauses and resumes in turn, the last a pause if and only if the key is published. -/
theorem marks_run {rounds : List Round} (h : ∀ r ∈ rounds, ∀ c, r.Completes c → c.validate = .ok () ∧ PortlessApart c) :
    ((run rounds).paused.map PausedRoute.key).Nodup ∧ ∀ key, Alternates true (marks key (events rounds)) ∧
      (nextMark true (marks key (events rounds)) = true ↔ key ∉ (run rounds).paused.map PausedRoute.key) := by
  induction rounds using List.reverseRecOn with
  | nil => exact ⟨List.nodup_nil, fun key => ⟨trivial, iff_of_true rfl List.not_mem_nil⟩⟩
  | append_singleton rounds r ih =>
    obtain ⟨hnodup, hmarks⟩ := ih fun r' hr' => h r' (List.mem_append_left _ hr')
    by_cases hc : ∃ c, r.Completes c
    · obtain ⟨c, hc⟩ := hc
      obtain ⟨hvalid, hapart⟩ := h r (List.mem_append_right _ (List.mem_singleton_self r)) c hc
      have hnext : ((run (rounds ++ [r])).paused.map PausedRoute.key).Nodup := by
        rw [run_snoc, tick_completes _ hc]
        exact nodup_derivePaused (Config.checked hvalid) hapart _
      refine ⟨hnext, fun key => ?_⟩
      obtain ⟨l', hl', hevents, -⟩ := tick_completes_events (l := run rounds) hc
      obtain ⟨halt, hlast⟩ := hmarks key
      rw [events_snoc, hevents, marks_append, ← run_snoc, marks_publish (hl'.symm ▸ hnodup) hnext, hl']
      by_cases h₁ : key ∈ (run rounds).paused.map PausedRoute.key <;>
        by_cases h₂ : key ∈ (run (rounds ++ [r])).paused.map PausedRoute.key
      · rw [if_pos h₁, if_pos h₂, List.append_nil]
        exact ⟨halt, hlast.trans (iff_of_false (not_not.mpr h₁) (not_not.mpr h₂))⟩
      · have hresume : nextMark true (marks key (events rounds)) = false := Bool.eq_false_iff.mpr fun ht => hlast.mp ht h₁
        rw [if_pos h₁, if_neg h₂, alternates_snoc, nextMark_snoc, hresume]
        exact ⟨⟨halt, rfl⟩, iff_of_true rfl h₂⟩
      · have hpause := hlast.mpr h₁
        rw [if_neg h₁, if_pos h₂, alternates_snoc, nextMark_snoc, hpause]
        exact ⟨⟨halt, rfl⟩, iff_of_false (by decide) (not_not.mpr h₂)⟩
      · rw [if_neg h₁, if_neg h₂, List.append_nil]
        exact ⟨halt, hlast.trans (iff_of_true h₁ h₂)⟩
    · have hsame := not_exists.mp hc
      rw [run_snoc, tick_incomplete hsame, events_snoc, (tick_incomplete_events hsame).1, List.append_nil]
      exact ⟨hnodup, hmarks⟩

theorem replay_run (rounds : List Round) : replay (events rounds) = publishedKeys (run rounds) := by
  induction rounds using List.reverseRecOn with
  | nil => rfl
  | append_singleton rounds r ih =>
    rw [events_snoc, replay, List.foldl_append, ← replay, ih, run_snoc]
    by_cases hc : ∃ c, r.Completes c
    · obtain ⟨c, hc⟩ := hc
      obtain ⟨l', hl', hevents, -⟩ := tick_completes_events (l := run rounds) hc
      rw [hevents, show publishedKeys (run rounds) = publishedKeys l' by rw [publishedKeys, publishedKeys, hl'], apply_publish]
      rfl
    · have hsame := not_exists.mp hc
      rw [(tick_incomplete_events hsame).1, publishedKeys, publishedKeys, tick_incomplete hsame]
      rfl

theorem onChange_tick (l : Loop) (r : Round) : (tick l r).onChange.isSome ↔ publishedKeys (tick l r).loop ≠ publishedKeys l := by
  by_cases hc : ∃ c, r.Completes c
  · obtain ⟨c, hc⟩ := hc
    obtain ⟨l', hl', -, honChange⟩ := tick_completes_events (l := l) hc
    rw [honChange, onChange_publish, show publishedKeys l' = publishedKeys l by rw [publishedKeys, publishedKeys, hl']]
    rfl
  · have hsame := not_exists.mp hc
    rw [(tick_incomplete_events hsame).2, publishedKeys, publishedKeys, tick_incomplete hsame]
    simp

/-- In every run over accepted configs in which no two routes that claim no port share a key, the events of each key alternate and
start with a pause, their replay is what is published, and the callback comes with each change of it. -/
theorem pause_events_replay (rounds : List Round)
    (h : ∀ r ∈ rounds, ∀ c, r.Completes c → c.validate = .ok () ∧ PortlessApart c) :
    (∀ key, Alternates true (marks key (events rounds))) ∧ replay (events rounds) = publishedKeys (run rounds) ∧
      ∀ past r rest, rounds = past ++ r :: rest →
        ((tick (run past) r).onChange.isSome ↔ publishedKeys (run (past ++ [r])) ≠ publishedKeys (run past)) := by
  refine ⟨fun key => ((marks_run h).2 key).1, replay_run rounds, fun past r rest _ => ?_⟩
  rw [run_snoc]
  exact onChange_tick _ _

/-- A config with routes to one peer, the given entries of `ports`, and a threshold of one failure. -/
def portsConfig (ports : List (List String)) : Config where
  wireGuard := { interface := "wg0", listenPort := 51820, privateKeyFile := "/k", address := "10.0.0.1/24" }
  network := { publicInterface := "eth0" }
  forwarding := { routes := ports.map fun ps => { proto := "tcp", ports := ps, targetIP := "10.0.0.2", pauseWhenPeerOffline := true } }
  autoPause := { failuresToPause := 1 }
  peers := [{ name := "a", publicKey := "AAAAAAAAAAAAAAAAAAAAAAAAAAAAAAAAAAAAAAAAAAA=", tunnelIP := "10.0.0.2" }]

/-- A round in which no peer is online. -/
def offlineRound (c : Config) : Round where
  load := some c
  handshakes _ := some fun _ => 0

theorem pause_events_replay_sample :
    (∀ key, Alternates true (marks key (events [offlineRound (portsConfig [["80"], ["443"]])]))) ∧
      (events [offlineRound (portsConfig [["80"], ["443"]])]).length = 2 := by
  refine ⟨(pause_events_replay [offlineRound (portsConfig [["80"], ["443"]])] fun r hr c hc => ?_).1, by decide +kernel⟩
  rw [List.mem_singleton] at hr
  subst hr
  obtain rfl : portsConfig [["80"], ["443"]] = c := Option.some.inj hc.1
  refine ⟨by decide +kernel, fun i j r r' hi _ _ _ _ hports _ => ?_⟩
  have hmem := List.mem_of_getElem? hi
  simp only [portsConfig, List.map_cons, List.map_nil, List.mem_cons, List.not_mem_nil, or_false] at hmem
  rcases hmem with rfl | rfl <;> exact absurd hports (by decide +kernel)

/-- Two routes that claim no port are accepted under one key, and pause with two events in a row. -/
theorem portless_routes_pause_twice : (portsConfig [["\x7b\x7d"], ["\x7b\x7d"]]).validate = .ok () ∧
    ∃ key, ¬Alternates true (marks key (events [offlineRound (portsConfig [["\x7b\x7d"], ["\x7b\x7d"]])])) := by
  refine ⟨by decide +kernel, "tcp\x00\x7b\x7d\x0010.0.0.2", ?_⟩
  have hmarks : marks "tcp\x00\x7b\x7d\x0010.0.0.2" (events [offlineRound (portsConfig [["\x7b\x7d"], ["\x7b\x7d"]])]) = [true, true] := by
    decide +kernel
  rw [hmarks]
  rintro ⟨-, h, -⟩
  cases h

end EvuProxy.AutoPause
