import Mathlib.Data.List.InsertIdx
import EvuProxy.Web.Peers
import EvuProxy.Theorems.PortMaps

/-!
# Undo of a peer change

Undo finds the peer by its key and the routes by what they forward, each first at its old place. Run on the config that the action
left, it gives back the config from before; after other saves it touches the rows that stand where it looks.
-/

namespace EvuProxy

/-! ## Rows -/

section rows

variable {α : Type} {list list' : List α} {openIndex j : Nat} {identity : String} {identityOf : α → String}

/-- The row that an identity is taken for: the one at the old place, else the only one. -/
def Stands (list : List α) (openIndex : Nat) (identity : String) (identityOf : α → String) (j : Nat) : Prop :=
  list[j]?.map identityOf = some identity ∧
    (j = openIndex ∨
      list[openIndex]?.map identityOf ≠ some identity ∧ ∀ l, list[l]?.map identityOf = some identity → l = j)

theorem mem_matches {i : Nat} :
    i ∈ (List.range list.length).filter (fun i => list[i]?.map identityOf = some identity) ↔ list[i]?.map identityOf = some identity := by
  rw [List.mem_filter, List.mem_range, decide_eq_true_eq]
  refine and_iff_right_of_imp fun h => ?_
  by_contra hlt
  rw [List.getElem?_eq_none (Nat.le_of_not_lt hlt)] at h
  cases h

theorem resolveListIndex_eq_ok : resolveListIndex list openIndex identity identityOf = .ok j ↔ Stands list openIndex identity identityOf j := by
  by_cases hopen : list[openIndex]?.map identityOf = some identity
  · rw [resolveListIndex, if_pos hopen]
    constructor
    · intro h
      cases h
      exact ⟨hopen, .inl rfl⟩
    · rintro ⟨-, rfl | ⟨hnot, -⟩⟩
      · rfl
      · exact absurd hopen hnot
  · rw [resolveListIndex, if_neg hopen]
    have hnodup : ((List.range list.length).filter fun i => list[i]?.map identityOf = some identity).Nodup := List.nodup_range.filter _
    have hmem := @mem_matches _ list identity identityOf
    rcases hm : (List.range list.length).filter fun i => list[i]?.map identityOf = some identity with _ | ⟨i, _ | ⟨i', rest⟩⟩
    · rw [hm] at hmem
      refine iff_of_false (fun h => nomatch h) fun h => ?_
      exact List.not_mem_nil (hmem.mpr h.1)
    · rw [hm] at hmem
      have honly : ∀ l, list[l]?.map identityOf = some identity → l = i := fun l hl => List.mem_singleton.mp (hmem.mpr hl)
      constructor
      · intro h
        cases h
        exact ⟨hmem.mp (List.mem_singleton_self _), .inr ⟨hopen, honly⟩⟩
      · rintro ⟨hj, -⟩
        rw [honly j hj]
    · rw [hm] at hmem hnodup
      refine iff_of_false (fun h => nomatch h) ?_
      rintro ⟨hj, rfl | ⟨-, honly⟩⟩
      · exact hopen hj
      · have hi : i = j := honly i (hmem.mp (by simp))
        have hi' : i' = j := honly i' (hmem.mp (by simp))
        rw [hi, hi'] at hnodup
        exact (List.nodup_cons.mp hnodup).1 List.mem_cons_self

/-- What is found depends on the identities alone. -/
theorem resolveListIndex_congr (h : list.map identityOf = list'.map identityOf) :
    resolveListIndex list openIndex identity identityOf = resolveListIndex list' openIndex identity identityOf := by
  have hlen : list.length = list'.length := by simpa using congrArg List.length h
  simp only [resolveListIndex, ← List.getElem?_map, h, hlen]

/-- A row that is where it was is found there. -/
theorem stands_self_iff (h : list[openIndex]?.map identityOf = some identity) : Stands list openIndex identity identityOf j ↔ j = openIndex := by
  constructor
  · rintro ⟨-, hj | ⟨hnot, -⟩⟩
    · exact hj
    · exact absurd h hnot
  · rintro rfl
    exact ⟨h, .inl rfl⟩

theorem findConfigRow_eq_ok {what : String} :
    findConfigRow list openIndex identity identityOf what = .ok j ↔ Stands list openIndex identity identityOf j := by
  rw [← resolveListIndex_eq_ok, findConfigRow]
  rcases resolveListIndex list openIndex identity identityOf with (_ | _) | i <;> simp

theorem map_modify {f : α → α} (hf : ∀ x, identityOf (f x) = identityOf x) (k : Nat) : (list.modify k f).map identityOf = list.map identityOf := by
  refine List.ext_getElem? fun i => ?_
  rw [List.getElem?_map, List.getElem?_map, List.getElem?_modify]
  rcases list[i]? with _ | x
  · rfl
  · by_cases hk : k = i <;> simp [hk, hf]

/-- A change that is made at several places of a list, and that changes nothing the second time. -/
theorem getElem?_modifyAll {f : α → α} (hf : ∀ x, f (f x) = f x) (ks : List Nat) (list : List α) (i : Nat) :
    (ks.foldl (fun l k => l.modify k f) list)[i]? = if i ∈ ks then list[i]?.map f else list[i]? := by
  induction ks generalizing list with
  | nil => simp
  | cons k ks ih =>
    rw [List.foldl_cons, ih, List.getElem?_modify]
    rcases list[i]? with _ | x
    · simp
    · by_cases hk : k = i
      · by_cases hi : i ∈ ks <;> simp [hk, hi, hf]
      · simp [hk, Ne.symm hk]

end rows

@[simp]
theorem ForwardRoute.setDisabled_setDisabled (b b' : Bool) (r : ForwardRoute) : (r.setDisabled b).setDisabled b' = r.setDisabled b' := rfl

@[simp]
theorem Peer.setDisabled_setDisabled (b b' : Bool) (p : Peer) : (p.setDisabled b).setDisabled b' = p.setDisabled b' := rfl

theorem ForwardRoute.setDisabled_eq_self {b : Bool} {r : ForwardRoute} : r.setDisabled b = r ↔ r.disabled = b := by
  constructor
  · intro h
    rw [← h]
    rfl
  · rintro rfl
    rfl

theorem Peer.setDisabled_eq_self {b : Bool} {p : Peer} : p.setDisabled b = p ↔ p.disabled = b := by
  constructor
  · intro h
    rw [← h]
    rfl
  · rintro rfl
    rfl

@[simp]
theorem routeIdentity_setDisabled (lower : String → String) (b : Bool) (r : ForwardRoute) :
    routeIdentity lower (r.setDisabled b) = routeIdentity lower r := rfl

@[simp]
theorem peerIdentity_setDisabled (b : Bool) (p : Peer) : peerIdentity (p.setDisabled b) = peerIdentity p := rfl

/-! ## The cascade -/

section cascade

variable {lower : String → String} {c : Config} {peer : Peer} {routes : List ForwardRoute} {j : Nat}

/-- A route that goes where the peer is, and is on. -/
theorem mem_dependentRoutes {e : ForwardRoute × Nat} : e ∈ dependentRoutesForPeer c peer ↔
    tunnelHostOnly peer.tunnelIP ≠ "" ∧ c.forwarding.routes[e.2]? = some e.1 ∧ e.1.disabled = false ∧
      jsTrim e.1.targetIP = tunnelHostOnly peer.tunnelIP := by
  rw [dependentRoutesForPeer]
  by_cases htip : tunnelHostOnly peer.tunnelIP = ""
  · simp [htip]
  · simp [htip, List.mem_zipIdx_iff_getElem?]

/-- The place of a route that the cascade disables. -/
def Depends (c : Config) (peer : Peer) (j : Nat) : Prop := j ∈ (dependentRoutesForPeer c peer).map Prod.snd

instance (c : Config) (peer : Peer) (j : Nat) : Decidable (Depends c peer j) := inferInstanceAs (Decidable (j ∈ _))

theorem Depends.enabled {r : ForwardRoute} (h : Depends c peer j) (hr : c.forwarding.routes[j]? = some r) : r.disabled = false := by
  obtain ⟨e, he, rfl⟩ := List.mem_map.mp h
  obtain ⟨-, hget, hon, -⟩ := mem_dependentRoutes.mp he
  cases hr.symm.trans hget
  exact hon

theorem getElem?_disableDependentRoutes (j : Nat) : (disableDependentRoutes lower c peer).1.forwarding.routes[j]? =
    if Depends c peer j then c.forwarding.routes[j]?.map (.setDisabled true) else c.forwarding.routes[j]? := by
  have hfold : (disableDependentRoutes lower c peer).1.forwarding.routes =
      ((dependentRoutesForPeer c peer).map Prod.snd).foldl (fun l k => l.modify k (.setDisabled true)) c.forwarding.routes := by
    rw [List.foldl_map]
    simp only [disableDependentRoutes, Config.withRoutes]
  rw [hfold, getElem?_modifyAll (ForwardRoute.setDisabled_setDisabled true true)]
  by_cases hj : Depends c peer j
  · exact (if_pos hj).trans (if_pos hj).symm
  · exact (if_neg hj).trans (if_neg hj).symm

theorem disableDependentRoutes_peers : (disableDependentRoutes lower c peer).1.peers = c.peers := by
  simp only [disableDependentRoutes, Config.withRoutes]

theorem disableDependentRoutes_routes : (disableDependentRoutes lower c peer).1.forwarding.routes.map (routeIdentity lower) =
    c.forwarding.routes.map (routeIdentity lower) := by
  refine List.ext_getElem? fun i => ?_
  rw [List.getElem?_map, getElem?_disableDependentRoutes, List.getElem?_map]
  split
  · rw [Option.map_map]
    rfl
  · rfl

/-- What is kept of a route that the cascade disables. -/
theorem mem_cascaded {e : Cascaded} : e ∈ (disableDependentRoutes lower c peer).2 ↔
    ∃ r, (r, e.index) ∈ dependentRoutesForPeer c peer ∧ e.identity = routeIdentity lower r := by
  rw [disableDependentRoutes, List.mem_map]
  constructor
  · rintro ⟨f, hf, rfl⟩
    exact ⟨f.1, hf, rfl⟩
  · rintro ⟨r, hr, hid⟩
    exact ⟨(r, e.index), hr, by rw [← hid]⟩

/-- The rows that routes of a list of kept ones are taken for. -/
def Found (lower : String → String) (cascaded : List Cascaded) (routes : List ForwardRoute) (j : Nat) : Prop :=
  ∃ e ∈ cascaded, Stands routes e.index e.identity (routeIdentity lower) j

theorem found_cons {e : Cascaded} {rest : List Cascaded} :
    Found lower (e :: rest) routes j ↔ Stands routes e.index e.identity (routeIdentity lower) j ∨ Found lower rest routes j := by
  simp only [Found, List.exists_mem_cons_iff]

theorem found_congr {routes' : List ForwardRoute} {cascaded : List Cascaded}
    (h : routes'.map (routeIdentity lower) = routes.map (routeIdentity lower)) : Found lower cascaded routes' j ↔ Found lower cascaded routes j := by
  simp only [Found, ← resolveListIndex_eq_ok, resolveListIndex_congr h]

theorem length_reenable {cascaded : List Cascaded} {n : Nat} : (reenable lower cascaded (routes, n)).1.length = routes.length := by
  induction cascaded generalizing routes n with
  | nil => rfl
  | cons e rest ih =>
    rw [reenable]
    split
    · rw [ih, List.length_modify]
    · exact ih

/-- Undo enables the rows that are found and no others. -/
theorem getElem?_reenable {cascaded : List Cascaded} {n : Nat} (j : Nat) :
    (Found lower cascaded routes j → (reenable lower cascaded (routes, n)).1[j]? = routes[j]?.map (.setDisabled false)) ∧
    (¬Found lower cascaded routes j → (reenable lower cascaded (routes, n)).1[j]? = routes[j]?) := by
  induction cascaded generalizing routes n with
  | nil =>
    refine ⟨?_, fun _ => rfl⟩
    rintro ⟨e, he, -⟩
    exact absurd he List.not_mem_nil
  | cons e rest ih =>
    rw [found_cons, reenable]
    rcases hres : resolveListIndex routes e.index e.identity (routeIdentity lower) with no | i
    · have hnone : ¬Stands routes e.index e.identity (routeIdentity lower) j := by
        rw [← resolveListIndex_eq_ok, hres]
        nofun
      simp only [hnone, false_or]
      exact ih
    · have hrow : Stands routes e.index e.identity (routeIdentity lower) j ↔ i = j := by
        rw [← resolveListIndex_eq_ok, hres, Except.ok.injEq]
      have hsame : (routes.modify i (.setDisabled false)).map (routeIdentity lower) = routes.map (routeIdentity lower) :=
        map_modify (routeIdentity_setDisabled lower false) i
      have hnow := @ih (routes.modify i (.setDisabled false)) n
      rw [found_congr hsame, List.getElem?_modify] at hnow
      rw [hrow]
      dsimp only
      by_cases hi : i = j
      · refine ⟨fun _ => ?_, fun h => absurd (.inl hi) h⟩
        by_cases hfound : Found lower rest routes j
        · rw [hnow.1 hfound]
          rcases routes[j]? with _ | r <;> simp [hi]
        · rw [hnow.2 hfound]
          rcases routes[j]? with _ | r <;> simp [hi]
      · simp only [hi, false_or]
        rcases hr : routes[j]? with _ | r <;> simp [hi, hr] at hnow ⊢ <;> exact hnow

end cascade

/-! ## Actions and their Undo -/

theorem getD_self {c : Config} {i : Fin c.peers.length} : c.peers.getD i {} = c.peers[i] := by simp

/-- The actions of the page on the row of a peer. -/
inductive PeerAction where
  | disable
  | enable
  | remove
  deriving DecidableEq

/-- An action on a row of the config that the page shows: the config that is saved, and the edit that Undo runs. -/
def PeerAction.run (lower : String → String) (c : Config) (i : Fin c.peers.length) :
    PeerAction → Except Err (Config × (Config → Except Err Config))
  | .disable => do
    let (saved, cascaded) ← setPeerDisabled lower i (peerIdentity c.peers[i]) c true
    return (saved, undoPeerDisabled lower i (peerIdentity c.peers[i]) true cascaded)
  | .enable => do
    let (saved, cascaded) ← setPeerDisabled lower i (peerIdentity c.peers[i]) c false
    return (saved, undoPeerDisabled lower i (peerIdentity c.peers[i]) false cascaded)
  | .remove => do
    let (saved, removed) ← removePeer lower i (peerIdentity c.peers[i]) c
    return (saved, undoRemovePeer lower (peerIdentity c.peers[i]) removed)

/-- Undo of an action, with no other save in between, gives back the config from before. -/
def UndoneExactly (lower : String → String) (a : PeerAction) (c : Config) (i : Fin c.peers.length) : Prop :=
  ∃ saved undo, a.run lower c i = .ok (saved, undo) ∧ undo saved = .ok c

/-- The config that other saves left, where each row is a row of the config that the action left, edited or not, or a new one. -/
structure Later where
  config : Config
  peerWas : Nat → Option Nat
  routeWas : Nat → Option Nat

/-- Undo changed only the row of the peer and rows of routes that the action disabled. -/
structure ChangedOnly (a : PeerAction) (c : Config) (i : Fin c.peers.length) (later : Later) (c' : Config) : Prop where
  rest : c' = (later.config.withRoutes c'.forwarding.routes).withPeers c'.peers
  peers : match a with
    | .remove => ∃ k ≤ later.config.peers.length, c'.peers = later.config.peers.insertIdx k c.peers[i]
    | _ => c'.peers.length = later.config.peers.length ∧ ∀ j : Nat, c'.peers[j]? ≠ later.config.peers[j]? → later.peerWas j = some i.val
  routesLength : c'.forwarding.routes.length = later.config.forwarding.routes.length
  routes : ∀ j : Nat, c'.forwarding.routes[j]? ≠ later.config.forwarding.routes[j]? →
    ∃ k, Depends c c.peers[i] k ∧ later.routeWas j = some k

/-- Undo of an action, on a config that other saves left, fails or changes nothing else. -/
def UndoneWithin (lower : String → String) (a : PeerAction) (c : Config) (i : Fin c.peers.length) (later : Later) : Prop :=
  ∀ saved undo c', a.run lower c i = .ok (saved, undo) → undo later.config = .ok c' → ChangedOnly a c i later c'

/-! ### The condition -/

/-- What makes an action one that can be undone: the switch stood the other way, and no route that is on goes to a peer that is off;
no other peer has the key of the one that goes. -/
def PeerAction.Reversible (c : Config) (i : Fin c.peers.length) : PeerAction → Prop
  | .disable => c.peers[i].disabled = false
  | .enable => c.peers[i].disabled = true ∧ ∀ j, ¬Depends c c.peers[i] j
  | .remove => ∀ j : Fin c.peers.length, j ≠ i → peerIdentity c.peers[j] ≠ peerIdentity c.peers[i]

/-- Each row that is off, and that one of the disabled routes is taken for, is one of these routes. -/
def RoutesTold (lower : String → String) (c : Config) (i : Fin c.peers.length) (later : Later) : Prop :=
  ∀ k r, c.forwarding.routes[k]? = some r → Depends c c.peers[i] k →
    ∀ j r', Stands later.config.forwarding.routes k (routeIdentity lower r) (routeIdentity lower) j →
      later.config.forwarding.routes[j]? = some r' → r'.disabled = true → ∃ k', Depends c c.peers[i] k' ∧ later.routeWas j = some k'

/-- The rows that Undo takes for the peer and its routes are theirs, as far as it would change them. A peer that is not found, and one
that is back, stop it. -/
def PeerAction.Told (lower : String → String) (c : Config) (i : Fin c.peers.length) (later : Later) : PeerAction → Prop
  | .remove => (∀ p ∈ later.config.peers, peerIdentity p ≠ peerIdentity c.peers[i]) → RoutesTold lower c i later
  | _ => ∀ j p, Stands later.config.peers i (peerIdentity c.peers[i]) peerIdentity j → later.config.peers[j]? = some p →
    (p.disabled = true → later.peerWas j = some i.val) ∧ RoutesTold lower c i later

/-! ### The runs -/

section runs

variable {lower : String → String} {c : Config} {i : Fin c.peers.length}

theorem withRoutes_withPeers_self (c : Config) : (c.withRoutes c.forwarding.routes).withPeers c.peers = c := rfl

/-- The config that disabling a peer saves. -/
def disabledConfig (lower : String → String) (c : Config) (i : Fin c.peers.length) (peers : List Peer) : Config :=
  (disableDependentRoutes lower c c.peers[i]).1.withPeers peers

theorem findConfigRow_self : findConfigRow c.peers i (peerIdentity c.peers[i]) peerIdentity "peer" = .ok i.val := by
  rw [findConfigRow_eq_ok, stands_self_iff]
  simp

/-- The row of a peer whose switch was set is found again. -/
theorem findConfigRow_modify (b : Bool) :
    findConfigRow (c.peers.modify i (.setDisabled b)) i (peerIdentity c.peers[i]) peerIdentity "peer" = .ok i.val := by
  rw [findConfigRow_eq_ok, stands_self_iff]
  simp

theorem run_disable : PeerAction.run lower c i .disable =
    .ok (disabledConfig lower c i (c.peers.modify i (.setDisabled true)),
      undoPeerDisabled lower i (peerIdentity c.peers[i]) true (disableDependentRoutes lower c c.peers[i]).2) := by
  simp only [PeerAction.run, setPeerDisabled, findConfigRow_self, bind, Except.bind, pure, Except.pure, if_pos, getD_self,
    disableDependentRoutes_peers, disabledConfig]

theorem run_enable : PeerAction.run lower c i .enable =
    .ok (c.withPeers (c.peers.modify i (.setDisabled false)), undoPeerDisabled lower i (peerIdentity c.peers[i]) false []) := by
  simp only [PeerAction.run, setPeerDisabled, findConfigRow_self, bind, Except.bind, pure, Except.pure, Bool.false_eq_true, if_false]

theorem run_remove : PeerAction.run lower c i .remove =
    .ok (disabledConfig lower c i (c.peers.eraseIdx i),
      undoRemovePeer lower (peerIdentity c.peers[i])
        { row := c.peers[i], index := i, cascaded := (disableDependentRoutes lower c c.peers[i]).2 }) := by
  simp only [PeerAction.run, removePeer, findConfigRow_self, bind, Except.bind, pure, Except.pure, getD_self,
    disableDependentRoutes_peers, disabledConfig]

/-- On the config that the action left, the routes that the cascade disabled are found where they are. -/
theorem found_disabled {peer : Peer} {j : Nat} : Found lower (disableDependentRoutes lower c peer).2
    (disableDependentRoutes lower c peer).1.forwarding.routes j ↔ Depends c peer j := by
  rw [found_congr disableDependentRoutes_routes, Depends, List.mem_map]
  have hstands : ∀ r k, (r, k) ∈ dependentRoutesForPeer c peer →
      (Stands c.forwarding.routes k (routeIdentity lower r) (routeIdentity lower) j ↔ j = k) := by
    intro r k he
    refine stands_self_iff ?_
    rw [(mem_dependentRoutes.mp he).2.1]
    rfl
  constructor
  · rintro ⟨e, he, hstand⟩
    obtain ⟨r, hr, hid⟩ := mem_cascaded.mp he
    rw [hid, hstands r e.index hr] at hstand
    exact ⟨(r, e.index), hr, hstand.symm⟩
  · rintro ⟨⟨r, k⟩, he, rfl⟩
    exact ⟨⟨k, routeIdentity lower r⟩, mem_cascaded.mpr ⟨r, he, rfl⟩, (hstands r k he).mpr rfl⟩

/-- The routes are back when Undo has run on the config that the action left. -/
theorem reenable_disabled {peer : Peer} {n : Nat} : (reenable lower (disableDependentRoutes lower c peer).2
    ((disableDependentRoutes lower c peer).1.forwarding.routes, n)).1 = c.forwarding.routes := by
  refine List.ext_getElem? fun j => ?_
  by_cases hj : Depends c peer j
  · rw [(getElem?_reenable j).1 (found_disabled.mpr hj), getElem?_disableDependentRoutes, if_pos hj]
    rcases hr : c.forwarding.routes[j]? with _ | r
    · rfl
    · rw [Option.map_some, Option.map_some, ForwardRoute.setDisabled_setDisabled, ForwardRoute.setDisabled_eq_self.mpr (hj.enabled hr)]
  · rw [(getElem?_reenable j).2 (mt found_disabled.mp hj), getElem?_disableDependentRoutes, if_neg hj]

/-- A row set and set back is as it was just when it stood the other way. -/
theorem modify_eq_self_iff {b : Bool} : c.peers.modify i (.setDisabled b) = c.peers ↔ c.peers[i].disabled = b := by
  rw [← Peer.setDisabled_eq_self]
  constructor
  · intro h
    have hi := congrArg (·[i.val]?) h
    simpa using hi
  · intro h
    refine List.ext_getElem? fun j => ?_
    rw [List.getElem?_modify]
    by_cases hj : i.val = j
    · subst hj
      simpa using h
    · simp [hj]

/-- A config is the one it was made from just when both of its lists are the same. -/
theorem replaced_eq_self_iff {routes : List ForwardRoute} {peers : List Peer} :
    (c.withRoutes routes).withPeers peers = c ↔ routes = c.forwarding.routes ∧ peers = c.peers := by
  constructor
  · intro h
    exact ⟨congrArg (·.forwarding.routes) h, congrArg Config.peers h⟩
  · rintro ⟨rfl, rfl⟩
    rfl

theorem undo_disable : undoPeerDisabled lower i (peerIdentity c.peers[i]) true (disableDependentRoutes lower c c.peers[i]).2
    (disabledConfig lower c i (c.peers.modify i (.setDisabled true))) = .ok (c.withPeers (c.peers.modify i (.setDisabled false))) := by
  have hroutes := @reenable_disabled lower c c.peers[i] 0
  have hpeers : (c.peers.modify i (.setDisabled true)).modify i (.setDisabled false) = c.peers.modify i (.setDisabled false) := by
    rw [List.modify_modify_eq]
    rfl
  simp only [undoPeerDisabled, setPeerDisabled, disabledConfig, Config.withPeers, findConfigRow_modify, bind, Except.bind, pure, Except.pure,
    Bool.not_true, Bool.false_eq_true, if_false, reenableRoutes, hroutes, hpeers]
  simp only [disableDependentRoutes, Config.withRoutes]

theorem undoneExactly_disable : UndoneExactly lower .disable c i ↔ c.peers[i].disabled = false := by
  rw [UndoneExactly, run_disable, ← modify_eq_self_iff]
  constructor
  · rintro ⟨saved, undo, hrun, hundo⟩
    cases hrun
    rw [undo_disable] at hundo
    exact congrArg Config.peers (Except.ok.inj hundo)
  · intro h
    refine ⟨_, _, rfl, ?_⟩
    rw [undo_disable, h]
    rfl

/-- A peer that was enabled is disabled again with every route that goes to it. -/
theorem undo_enable : undoPeerDisabled lower i (peerIdentity c.peers[i]) false [] (c.withPeers (c.peers.modify i (.setDisabled false))) =
    .ok (disabledConfig lower c i (c.peers.modify i (.setDisabled true))) := by
  have hget : (c.peers.modify i (.setDisabled false)).getD i {} = c.peers[i].setDisabled false := by simp
  have hpeers : (c.peers.modify i (.setDisabled false)).modify i (.setDisabled true) = c.peers.modify i (.setDisabled true) := by
    rw [List.modify_modify_eq]
    rfl
  simp only [undoPeerDisabled, setPeerDisabled, Config.withPeers, findConfigRow_modify, bind, Except.bind, pure, Except.pure,
    Bool.not_false, if_true, hget, reenableRoutes, reenable]
  simp only [disabledConfig, Config.withPeers, Config.withRoutes, disableDependentRoutes, hpeers]
  rfl

theorem undoneExactly_enable : UndoneExactly lower .enable c i ↔ c.peers[i].disabled = true ∧ ∀ j, ¬Depends c c.peers[i] j := by
  have hroutes : (disableDependentRoutes lower c c.peers[i]).1.forwarding.routes = c.forwarding.routes ↔ ∀ j, ¬Depends c c.peers[i] j := by
    constructor
    · intro h j hj
      have hrow := @getElem?_disableDependentRoutes lower c c.peers[i] j
      obtain ⟨e, he, rfl⟩ := List.mem_map.mp hj
      obtain ⟨-, hget, hon, -⟩ := mem_dependentRoutes.mp he
      rw [h, if_pos hj, hget, Option.map_some, Option.some.injEq, eq_comm, ForwardRoute.setDisabled_eq_self, hon] at hrow
      cases hrow
    · intro h
      refine List.ext_getElem? fun j => ?_
      rw [getElem?_disableDependentRoutes, if_neg (h j)]
  rw [UndoneExactly, run_enable, ← modify_eq_self_iff, ← hroutes, and_comm]
  constructor
  · rintro ⟨saved, undo, hrun, hundo⟩
    cases hrun
    rw [undo_enable] at hundo
    have heq := Except.ok.inj hundo
    refine ⟨?_, congrArg Config.peers heq⟩
    rw [disabledConfig] at heq
    exact congrArg (·.forwarding.routes) heq
  · rintro ⟨hr, hp⟩
    refine ⟨_, _, rfl, ?_⟩
    rw [undo_enable, hp, disabledConfig]
    have hsaved : (disableDependentRoutes lower c c.peers[i]).1 =
        c.withRoutes (disableDependentRoutes lower c c.peers[i]).1.forwarding.routes := by
      simp only [disableDependentRoutes, Config.withRoutes]
    rw [hsaved, hr]
    rfl

theorem undo_remove : undoRemovePeer lower (peerIdentity c.peers[i])
    { row := c.peers[i], index := i, cascaded := (disableDependentRoutes lower c c.peers[i]).2 } (disabledConfig lower c i (c.peers.eraseIdx i)) =
    if (c.peers.eraseIdx i).any (fun p => peerIdentity p = peerIdentity c.peers[i]) then
      .error (configMergeError (c.peers[i].label ++ " is already back in the config, so nothing was restored."))
    else .ok c := by
  have hroutes := @reenable_disabled lower c c.peers[i] 0
  have hlen : min i.val (c.peers.eraseIdx i).length = i := by
    rw [List.length_eraseIdx_of_lt i.isLt]
    omega
  have hpeers : (c.peers.eraseIdx i).insertIdx i c.peers[i] = c.peers := List.insertIdx_eraseIdx_getElem i.isLt
  rw [undoRemovePeer]
  by_cases hback : (c.peers.eraseIdx i).any (fun p => peerIdentity p = peerIdentity c.peers[i])
  · simp only [disabledConfig, Config.withPeers, hback, if_true]
    rfl
  · simp only [disabledConfig, Config.withPeers, hback, hlen, hpeers, reenableRoutes, hroutes]
    simp only [disableDependentRoutes, Config.withRoutes]
    rfl

/-- A row that is not the one that goes. -/
theorem any_eraseIdx_iff : (c.peers.eraseIdx i).any (fun p => peerIdentity p = peerIdentity c.peers[i]) = true ↔
    ∃ j : Fin c.peers.length, j ≠ i ∧ peerIdentity c.peers[j] = peerIdentity c.peers[i] := by
  rw [List.any_eq_true]
  constructor
  · rintro ⟨p, hp, hkey⟩
    obtain ⟨j, hj, hne, rfl⟩ := List.mem_eraseIdx_iff_getElem.mp hp
    exact ⟨⟨j, hj⟩, fun h => hne (congrArg Fin.val h), of_decide_eq_true hkey⟩
  · rintro ⟨j, hne, hkey⟩
    exact ⟨c.peers[j], List.mem_eraseIdx_iff_getElem.mpr ⟨j, j.isLt, fun h => hne (Fin.ext h), rfl⟩, decide_eq_true hkey⟩

theorem undoneExactly_remove : UndoneExactly lower .remove c i ↔
    ∀ j : Fin c.peers.length, j ≠ i → peerIdentity c.peers[j] ≠ peerIdentity c.peers[i] := by
  have hno : (∀ j : Fin c.peers.length, j ≠ i → peerIdentity c.peers[j] ≠ peerIdentity c.peers[i]) ↔
      ¬(c.peers.eraseIdx i).any (fun p => peerIdentity p = peerIdentity c.peers[i]) = true := by
    rw [any_eraseIdx_iff, not_exists]
    exact forall_congr' fun j => not_and.symm
  rw [UndoneExactly, run_remove, hno]
  constructor
  · rintro ⟨saved, undo, hrun, hundo⟩ hback
    cases hrun
    rw [undo_remove, if_pos hback] at hundo
    cases hundo
  · intro h
    refine ⟨_, _, rfl, ?_⟩
    rw [undo_remove, if_neg h]

/-- Undo gives back the config just when the action can be undone. -/
theorem undoneExactly_iff {a : PeerAction} : UndoneExactly lower a c i ↔ a.Reversible c i := by
  cases a with
  | disable => exact undoneExactly_disable
  | enable => exact undoneExactly_enable
  | remove => exact undoneExactly_remove

/-! ### After other saves -/

variable {later : Later}

/-- The rows that Undo changes are those it finds that are off. -/
theorem reenable_changed_iff {cascaded : List Cascaded} {routes : List ForwardRoute} {n j : Nat} :
    (reenable lower cascaded (routes, n)).1[j]? ≠ routes[j]? ↔ Found lower cascaded routes j ∧ ∃ r, routes[j]? = some r ∧ r.disabled = true := by
  by_cases hfound : Found lower cascaded routes j
  · rw [(getElem?_reenable j).1 hfound, and_iff_right hfound]
    rcases routes[j]? with _ | r
    · simp
    · simp [ForwardRoute.setDisabled_eq_self]
  · rw [(getElem?_reenable j).2 hfound]
    exact iff_of_false (fun h => h rfl) fun h => hfound h.1

/-- What the routes of the config that Undo finds have to be. -/
theorem routesTold_iff {n : Nat} : RoutesTold lower c i later ↔
    ∀ j, (reenable lower (disableDependentRoutes lower c c.peers[i]).2 (later.config.forwarding.routes, n)).1[j]? ≠
      later.config.forwarding.routes[j]? → ∃ k, Depends c c.peers[i] k ∧ later.routeWas j = some k := by
  simp only [reenable_changed_iff]
  constructor
  · rintro h j ⟨⟨e, he, hstand⟩, r', hr', hoff⟩
    obtain ⟨r, hr, hid⟩ := mem_cascaded.mp he
    rw [hid] at hstand
    exact h e.index r (mem_dependentRoutes.mp hr).2.1 (List.mem_map.mpr ⟨_, hr, rfl⟩) j r' hstand hr' hoff
  · intro h k r hr hk j r' hstand hr' hoff
    obtain ⟨e, he, rfl⟩ := List.mem_map.mp hk
    have hsame : e.1 = r := Option.some.inj ((mem_dependentRoutes.mp he).2.1.symm.trans hr)
    refine h j ⟨⟨⟨e.2, routeIdentity lower r⟩, mem_cascaded.mpr ⟨r, ?_, rfl⟩, hstand⟩, r', hr', hoff⟩
    rw [← hsame]
    exact he

/-- The config that Undo of a disable saves. -/
theorem undoPeerDisabled_eq_ok {c' : Config} {cascaded : List Cascaded} {index : Nat} {identity : String} {d : Config} :
    undoPeerDisabled lower index identity true cascaded d = .ok c' ↔ ∃ j, Stands d.peers index identity peerIdentity j ∧
      c' = (d.withRoutes (reenable lower cascaded (d.forwarding.routes, 0)).1).withPeers (d.peers.modify j (.setDisabled false)) := by
  rcases hfind : findConfigRow d.peers index identity peerIdentity "peer" with e | j
  · have hnone : ∀ j, ¬Stands d.peers index identity peerIdentity j := by
      intro j hj
      rw [← findConfigRow_eq_ok, hfind] at hj
      cases hj
    simp [undoPeerDisabled, setPeerDisabled, hfind, bind, Except.bind, hnone]
  · have honly : ∀ k, Stands d.peers index identity peerIdentity k ↔ j = k := by
      intro k
      rw [← findConfigRow_eq_ok, hfind, Except.ok.injEq]
    simp only [honly, exists_eq_left', undoPeerDisabled, setPeerDisabled, hfind, bind, Except.bind, pure, Except.pure, Bool.not_true,
      Bool.false_eq_true, if_false, reenableRoutes, Config.withRoutes, Config.withPeers, Except.ok.injEq, eq_comm]

/-- The config that Undo of a removal saves. -/
theorem undoRemovePeer_eq_ok {c' : Config} {removed : Removed} {identity : String} {d : Config} :
    undoRemovePeer lower identity removed d = .ok c' ↔ (∀ p ∈ d.peers, peerIdentity p ≠ identity) ∧
      c' = (d.withRoutes (reenable lower removed.cascaded (d.forwarding.routes, 0)).1).withPeers
        (d.peers.insertIdx (min removed.index d.peers.length) removed.row) := by
  have hany : (∀ p ∈ d.peers, peerIdentity p ≠ identity) ↔ ¬d.peers.any (fun p => peerIdentity p = identity) = true := by simp
  rw [hany, undoRemovePeer]
  by_cases hback : d.peers.any (fun p => peerIdentity p = identity) = true
  · rw [if_pos hback]
    exact iff_of_false (fun h => nomatch h) fun h => h.1 hback
  · rw [if_neg hback, and_iff_right hback]
    exact ⟨fun h => (Except.ok.inj h).symm, fun h => congrArg Except.ok h.symm⟩

/-- What Undo of a disable may change, on the two lists. -/
theorem changedOnly_disable_iff {routes : List ForwardRoute} {peers : List Peer} :
    ChangedOnly .disable c i later ((later.config.withRoutes routes).withPeers peers) ↔
      (peers.length = later.config.peers.length ∧ ∀ j : Nat, peers[j]? ≠ later.config.peers[j]? → later.peerWas j = some i.val) ∧
      routes.length = later.config.forwarding.routes.length ∧
        ∀ j : Nat, routes[j]? ≠ later.config.forwarding.routes[j]? → ∃ k, Depends c c.peers[i] k ∧ later.routeWas j = some k :=
  ⟨fun h => ⟨h.peers, h.routesLength, h.routes⟩, fun h => ⟨rfl, h.1, h.2.1, h.2.2⟩⟩

/-- What Undo of a removal may change, on the two lists. -/
theorem changedOnly_remove_iff {routes : List ForwardRoute} {peers : List Peer} :
    ChangedOnly .remove c i later ((later.config.withRoutes routes).withPeers peers) ↔
      (∃ k ≤ later.config.peers.length, peers = later.config.peers.insertIdx k c.peers[i]) ∧
      routes.length = later.config.forwarding.routes.length ∧
        ∀ j : Nat, routes[j]? ≠ later.config.forwarding.routes[j]? → ∃ k, Depends c c.peers[i] k ∧ later.routeWas j = some k :=
  ⟨fun h => ⟨h.peers, h.routesLength, h.routes⟩, fun h => ⟨rfl, h.1, h.2.1, h.2.2⟩⟩

/-- The row of a peer that Undo switches on changes when it is off. -/
theorem modify_changed_iff {peers : List Peer} {j k : Nat} :
    (peers.modify j (.setDisabled false))[k]? ≠ peers[k]? ↔ j = k ∧ ∃ p, peers[j]? = some p ∧ p.disabled = true := by
  rw [List.getElem?_modify]
  by_cases hk : j = k
  · subst hk
    rcases peers[j]? with _ | p
    · simp
    · simp [Peer.setDisabled_eq_self]
  · simp [hk]

theorem undoneWithin_disable : UndoneWithin lower .disable c i later ↔ PeerAction.Told lower c i later .disable := by
  have hundo : UndoneWithin lower .disable c i later ↔ ∀ c', undoPeerDisabled lower i (peerIdentity c.peers[i]) true
      (disableDependentRoutes lower c c.peers[i]).2 later.config = .ok c' → ChangedOnly .disable c i later c' := by
    rw [UndoneWithin, run_disable]
    exact ⟨fun h c' hc' => h _ _ c' rfl hc', fun h saved undo c' hrun hc' => by cases hrun; exact h c' hc'⟩
  rw [hundo, PeerAction.Told]
  · simp only [undoPeerDisabled_eq_ok]
    constructor
    · intro h j p hstand hp
      obtain ⟨⟨-, hpeers⟩, -, hroutes⟩ := changedOnly_disable_iff.mp (h _ ⟨j, hstand, rfl⟩)
      exact ⟨fun hoff => hpeers j (modify_changed_iff.mpr ⟨rfl, p, hp, hoff⟩), routesTold_iff.mpr hroutes⟩
    · rintro h c' ⟨j, hstand, rfl⟩
      obtain ⟨p, hp, -⟩ := Option.map_eq_some_iff.mp hstand.1
      obtain ⟨hpeer, hroutes⟩ := h j p hstand hp
      refine changedOnly_disable_iff.mpr ⟨⟨List.length_modify .., fun k hk => ?_⟩, length_reenable, routesTold_iff.mp hroutes⟩
      obtain ⟨rfl, p', hp', hoff⟩ := modify_changed_iff.mp hk
      cases hp.symm.trans hp'
      exact hpeer hoff
  · nofun

theorem undoneWithin_remove : UndoneWithin lower .remove c i later ↔ PeerAction.Told lower c i later .remove := by
  have hundo : UndoneWithin lower .remove c i later ↔ ∀ c', undoRemovePeer lower (peerIdentity c.peers[i])
      { row := c.peers[i], index := i, cascaded := (disableDependentRoutes lower c c.peers[i]).2 } later.config = .ok c' →
        ChangedOnly .remove c i later c' := by
    rw [UndoneWithin, run_remove]
    exact ⟨fun h c' hc' => h _ _ c' rfl hc', fun h saved undo c' hrun hc' => by cases hrun; exact h c' hc'⟩
  rw [hundo, PeerAction.Told]
  simp only [undoRemovePeer_eq_ok]
  constructor
  · intro h hgone
    obtain ⟨-, -, hroutes⟩ := changedOnly_remove_iff.mp (h _ ⟨hgone, rfl⟩)
    exact routesTold_iff.mpr hroutes
  · rintro h c' ⟨hgone, rfl⟩
    exact changedOnly_remove_iff.mpr ⟨⟨_, Nat.min_le_right _ _, rfl⟩, length_reenable, routesTold_iff.mp (h hgone)⟩

end runs

/-- Undo with no other save in between gives back the config just for the actions that can be undone, and after other saves Undo of a
disable or of a removal keeps to the rows of the action just where the rows it finds are theirs. -/
theorem undo_iff {lower : String → String} {c : Config} {i : Fin c.peers.length} {a : PeerAction} {later : Later} :
    (UndoneExactly lower a c i ↔ a.Reversible c i) ∧ (a ≠ .enable → (UndoneWithin lower a c i later ↔ a.Told lower c i later)) := by
  refine ⟨undoneExactly_iff, fun hne => ?_⟩
  cases a with
  | disable => exact undoneWithin_disable
  | enable => exact absurd rfl hne
  | remove => exact undoneWithin_remove

/-- A config with two rows of one key, and two routes to the address of both. -/
def namesakeConfig : Config where
  wireGuard := { interface := "wg0", listenPort := 51820, privateKeyFile := "/k", address := "10.0.0.1/24" }
  network := { publicInterface := "eth0" }
  forwarding := { routes := [{ proto := "tcp", ports := ["80"], targetIP := "10.0.0.2" },
    { proto := "tcp", ports := ["80"], targetIP := "10.0.0.2", disabled := true }] }
  peers := [{ name := "a", publicKey := "AAAAAAAAAAAAAAAAAAAAAAAAAAAAAAAAAAAAAAAAAAA=", tunnelIP := "10.0.0.2/32" },
    { name := "old", publicKey := "AAAAAAAAAAAAAAAAAAAAAAAAAAAAAAAAAAAAAAAAAAA=", tunnelIP := "10.0.0.2/32", disabled := true }]

def firstTwin : Fin namesakeConfig.peers.length := ⟨0, by decide⟩

def secondTwin : Fin namesakeConfig.peers.length := ⟨1, by decide⟩

/-- What another save leaves of that config when the first peer and its route are off and that route is deleted. -/
def routeDeleted : Later where
  config := (namesakeConfig.withPeers (namesakeConfig.peers.modify 0 (.setDisabled true))).withRoutes (namesakeConfig.forwarding.routes.drop 1)
  peerWas := some
  routeWas := fun j => some (j + 1)

theorem undo_iff_sample : (UndoneExactly id .disable namesakeConfig firstTwin ↔ PeerAction.disable.Reversible namesakeConfig firstTwin) ∧
    (PeerAction.disable ≠ .enable → (UndoneWithin id .disable namesakeConfig firstTwin routeDeleted ↔ PeerAction.disable.Told id namesakeConfig firstTwin routeDeleted)) ∧
    PeerAction.disable ≠ .enable := by
  have h := @undo_iff id namesakeConfig firstTwin .disable routeDeleted
  exact ⟨h.1, h.2, by decide⟩

/-- The key of a removed peer is still in the config where another row has it, and nothing is restored; a peer that was enabled takes
the route of the other peer with it when it is disabled again; and a route that was off before is taken for one that the action disabled
and that is gone. -/
theorem undo_misses : namesakeConfig.validate = .ok () ∧ ¬UndoneExactly id .remove namesakeConfig firstTwin ∧ ¬UndoneExactly id .enable namesakeConfig secondTwin ∧
    ¬UndoneWithin id .disable namesakeConfig firstTwin routeDeleted := by
  have hfirst : dependentRoutesForPeer namesakeConfig namesakeConfig.peers[firstTwin] =
      [({ proto := "tcp", ports := ["80"], targetIP := "10.0.0.2" }, 0)] := by decide +kernel
  have hsecond : dependentRoutesForPeer namesakeConfig namesakeConfig.peers[secondTwin] =
      [({ proto := "tcp", ports := ["80"], targetIP := "10.0.0.2" }, 0)] := by decide +kernel
  refine ⟨by decide +kernel, fun h => ?_, fun h => ?_, fun h => ?_⟩
  · exact undoneExactly_remove.mp h secondTwin (by decide) rfl
  · refine (undoneExactly_enable.mp h).2 0 ?_
    rw [Depends, hsecond]
    exact List.mem_singleton_self _
  · have hpeer : Stands routeDeleted.config.peers 0 (peerIdentity namesakeConfig.peers[firstTwin]) peerIdentity 0 := ⟨rfl, .inl rfl⟩
    obtain ⟨-, hroutes⟩ := undoneWithin_disable.mp h 0 _ hpeer rfl
    have hzero : Depends namesakeConfig namesakeConfig.peers[firstTwin] 0 := by
      rw [Depends, hfirst]
      exact List.mem_singleton_self _
    obtain ⟨k, hk, hwas⟩ := hroutes 0 _ rfl hzero 0 _ ⟨rfl, .inl rfl⟩ rfl rfl
    rw [Depends, hfirst, ← Option.some.inj hwas] at hk
    cases List.mem_singleton.mp hk

end EvuProxy
