import EvuProxy.Cmd.Peers
import Mathlib.Data.Nat.Find

/-!
# Which peers the peer commands change

Removing a peer by its name or its key, and setting fields of a peer, on a config in memory. A name or a key that several peers have
removes them all.
-/

namespace EvuProxy

open Go

/-- A name and a key mean a peer that has both of them, or the one that is given. -/
def MeansPeer (name publicKey : String) (p : Peer) : Prop :=
  (trimSpace name ≠ "" ∨ trimSpace publicKey ≠ "") ∧
    (trimSpace name ≠ "" → equalFold (trimSpace p.name) (trimSpace name) = true) ∧
    (trimSpace publicKey ≠ "" → trimSpace p.publicKey = trimSpace publicKey)

/-- A name means a peer that has it. -/
def HasName (name : String) (p : Peer) : Prop := equalFold (trimSpace p.name) (trimSpace name) = true

/-- `p` is the first of some peers that has a property, at place `i`. -/
def FirstAt (peers : List Peer) (P : Peer → Prop) (i : Nat) (p : Peer) : Prop :=
  peers[i]? = some p ∧ P p ∧ ∀ j < i, ∀ q, peers[j]? = some q → ¬P q

/-- The first peer meant is removed and nothing else is changed; an error where no peer is meant. -/
structure RemovesFirst (name publicKey : String) (c : Config) (left : Config × Except ValidationError Unit) : Prop where
  found : ∀ i p, FirstAt c.peers (MeansPeer name publicKey) i p → left.1 = { c with peers := c.peers.eraseIdx i }
  missing : (∀ p ∈ c.peers, ¬MeansPeer name publicKey p) → left.1 = c ∧ ∃ e, left.2 = .error e

/-- A peer `q` is `p` with the fields that are asked for. -/
structure SetAsAsked (upd : PeerSetUpdates) (p q : Peer) : Prop where
  name : trimSpace upd.newName = "" ∧ q.name = p.name ∨ trimSpace upd.newName ≠ "" ∧ q.name = trimSpace upd.newName
  tunnelIP : trimSpace upd.tunnelIP = "" ∧ q.tunnelIP = p.tunnelIP ∨ trimSpace upd.tunnelIP ≠ "" ∧ q.tunnelIP = trimSpace upd.tunnelIP
  publicKey : trimSpace upd.publicKey = "" ∧ q.publicKey = p.publicKey ∨ trimSpace upd.publicKey ≠ "" ∧ q.publicKey = trimSpace upd.publicKey
  disabled : upd.disabled = none ∧ q.disabled = p.disabled ∨ upd.disabled = some q.disabled

/-- The first peer of a name is set and nothing else is changed, or nothing is changed and there is an error. No peer is given the name
of another peer that is on. -/
structure UpdatesFirst (name : String) (upd : PeerSetUpdates) (c : Config) (left : Config × Except ValidationError Unit) : Prop where
  found : ∀ i p, trimSpace name ≠ "" → FirstAt c.peers (HasName name) i p →
    (left.1 = c ∧ ∃ e, left.2 = .error e) ∨ ∃ q, SetAsAsked upd p q ∧ left.1 = { c with peers := c.peers.set i q }
  missing : (trimSpace name = "" ∨ ∀ p ∈ c.peers, ¬HasName name p) → left.1 = c ∧ ∃ e, left.2 = .error e
  renamed : ∀ (i : Nat) (p q : Peer), c.peers[i]? = some p → left.1.peers[i]? = some q → q.name ≠ p.name →
    ∀ (j : Nat) (other : Peer), j ≠ i → c.peers[j]? = some other → other.disabled = false → equalFold (trimSpace other.name) q.name = false

/-! ## Removing -/

theorem removesPeer_iff (name publicKey : String) (p : Peer) :
    removesPeer (trimSpace name) (trimSpace publicKey) p = true ↔ MeansPeer name publicKey p := by
  unfold removesPeer MeansPeer
  by_cases hname : trimSpace name = ""
  · by_cases hkey : trimSpace publicKey = ""
    · simp [hname, hkey]
    · simp [hname, hkey]
  · by_cases hkey : trimSpace publicKey = ""
    · simp [hname, hkey]
    · simp [hname, hkey]

/-- Leaving out what one place alone has is erasing that place. -/
theorem filter_eq_eraseIdx {α : Type} {P : α → Bool} {l : List α} {i : Nat} {x : α} (hi : l[i]? = some x) (hx : P x = true)
    (hone : ∀ j y, l[j]? = some y → P y = true → j = i) : (l.filter fun y => !P y) = l.eraseIdx i := by
  induction l generalizing i with
  | nil => simp at hi
  | cons a l ih =>
    cases i with
    | zero =>
      obtain rfl : a = x := by simpa using hi
      rw [List.filter_cons_of_neg (by simpa using hx), List.eraseIdx_zero, List.tail_cons, List.filter_eq_self.2]
      intro y hy
      obtain ⟨j, hj⟩ := List.mem_iff_getElem?.1 hy
      have hne : P y ≠ true := fun hy' => by
        have := hone (j + 1) y (by simpa using hj) hy'
        omega
      simpa using hne
    | succ i =>
      have ha : P a ≠ true := fun ha => by
        have := hone 0 a rfl ha
        omega
      rw [List.filter_cons_of_pos (by simpa using ha), List.eraseIdx_cons_succ]
      congr 1
      refine ih (by simpa using hi) fun j y hj hy => ?_
      have := hone (j + 1) y (by simpa using hj) hy
      omega

theorem any_removesPeer (name publicKey : String) (peers : List Peer) :
    peers.any (removesPeer (trimSpace name) (trimSpace publicKey)) = true ↔ ∃ p ∈ peers, MeansPeer name publicKey p := by
  rw [List.any_eq_true]
  exact exists_congr fun p => and_congr_right fun _ => removesPeer_iff name publicKey p

/-- Where a peer is meant, all that are meant are removed. -/
theorem removePeerInMemory_found {name publicKey : String} {c : Config} (h : ∃ p ∈ c.peers, MeansPeer name publicKey p) :
    (removePeerInMemory name publicKey c).1 =
      { c with peers := c.peers.filter fun p => !removesPeer (trimSpace name) (trimSpace publicKey) p } := by
  have hgiven : ¬(trimSpace name = "" ∧ trimSpace publicKey = "") := by
    obtain ⟨p, -, hmeans⟩ := h
    rcases hmeans.1 with hname | hkey
    · exact fun hblank => hname hblank.1
    · exact fun hblank => hkey hblank.2
  rw [removePeerInMemory, if_neg hgiven, if_neg (not_not.2 ((any_removesPeer name publicKey c.peers).2 h))]

theorem removePeerInMemory_missing {name publicKey : String} {c : Config} (h : ∀ p ∈ c.peers, ¬MeansPeer name publicKey p) :
    (removePeerInMemory name publicKey c).1 = c ∧ ∃ e, (removePeerInMemory name publicKey c).2 = .error e := by
  have hany : ¬c.peers.any (removesPeer (trimSpace name) (trimSpace publicKey)) = true := fun hany => by
    obtain ⟨p, hp, hmeans⟩ := (any_removesPeer name publicKey c.peers).1 hany
    exact h p hp hmeans
  rw [removePeerInMemory, if_pos hany]
  split
  · exact ⟨rfl, _, rfl⟩
  · exact ⟨rfl, _, rfl⟩

/-- Where no two peers are meant, the first peer meant is removed and nothing else is changed. -/
theorem removesFirst_of {name publicKey : String} {c : Config}
    (hone : ∀ (i j : Nat) (p q : Peer), c.peers[i]? = some p → c.peers[j]? = some q →
      MeansPeer name publicKey p → MeansPeer name publicKey q → i = j) :
    RemovesFirst name publicKey c (removePeerInMemory name publicKey c) where
  found i p hfirst := by
    obtain ⟨hp, hmeans, -⟩ := hfirst
    rw [removePeerInMemory_found ⟨p, List.mem_of_getElem? hp, hmeans⟩]
    congr 1
    exact filter_eq_eraseIdx hp ((removesPeer_iff ..).2 hmeans) fun j q hq hremoves =>
      hone j i q p hq hp ((removesPeer_iff ..).1 hremoves) hmeans
  missing := removePeerInMemory_missing

theorem exists_firstAt {peers : List Peer} {P : Peer → Prop} {i : Nat} {p : Peer} (hp : peers[i]? = some p) (hP : P p) :
    ∃ k q, FirstAt peers P k q := by
  classical
  have hex : ∃ k, ∃ q, peers[k]? = some q ∧ P q := ⟨i, p, hp, hP⟩
  obtain ⟨q, hq, hPq⟩ := Nat.find_spec hex
  exact ⟨Nat.find hex, q, hq, hPq, fun j hj r hr hPr => Nat.find_min hex hj ⟨r, hr, hPr⟩⟩

/-- Where only the first peer meant is removed, no two peers are meant. -/
theorem one_of_removesFirst {name publicKey : String} {c : Config}
    (h : RemovesFirst name publicKey c (removePeerInMemory name publicKey c)) {i j : Nat} {p q : Peer} (hp : c.peers[i]? = some p)
    (hq : c.peers[j]? = some q) (hmeansP : MeansPeer name publicKey p) (hmeansQ : MeansPeer name publicKey q) : i = j := by
  obtain ⟨k, r, hfirst⟩ := exists_firstAt hp hmeansP
  have hleft := h.found k r hfirst
  rw [removePeerInMemory_found ⟨p, List.mem_of_getElem? hp, hmeansP⟩] at hleft
  have hpeers : (c.peers.filter fun p => !removesPeer (trimSpace name) (trimSpace publicKey) p) = c.peers.eraseIdx k :=
    congrArg Config.peers hleft
  -- A peer that is meant and stands elsewhere would be left.
  have hat : ∀ m s, c.peers[m]? = some s → MeansPeer name publicKey s → m = k := by
    intro m s hs hmeans
    by_contra hne
    have hin : s ∈ c.peers.eraseIdx k := List.mem_eraseIdx_iff_getElem?.2 ⟨m, hne, hs⟩
    rw [← hpeers, List.mem_filter, (removesPeer_iff ..).2 hmeans] at hin
    exact absurd hin.2 (by decide)
  rw [hat i p hp hmeansP, hat j q hq hmeansQ]

/-! ## Setting -/

theorem asked_or_kept (asked old : String) :
    trimSpace asked = "" ∧ (if trimSpace asked = "" then old else trimSpace asked) = old ∨
      trimSpace asked ≠ "" ∧ (if trimSpace asked = "" then old else trimSpace asked) = trimSpace asked := by
  by_cases h : trimSpace asked = ""
  · exact .inl ⟨h, if_pos h⟩
  · exact .inr ⟨h, if_neg h⟩

theorem setAsAsked_on (upd : PeerSetUpdates) (p : Peer) : SetAsAsked upd p (upd.on p) where
  name := asked_or_kept upd.newName p.name
  tunnelIP := asked_or_kept upd.tunnelIP p.tunnelIP
  publicKey := asked_or_kept upd.publicKey p.publicKey
  disabled := by
    rw [PeerSetUpdates.on]
    cases hdisabled : upd.disabled with
    | none => exact .inl ⟨rfl, rfl⟩
    | some b => exact .inr rfl

/-- The place that `UpdatePeerByName` finds is that of the first peer of the name. -/
theorem findIdx?_hasName {peers : List Peer} {name : String} {i : Nat} :
    (peers.findIdx? fun p => equalFold (trimSpace p.name) (trimSpace name)) = some i ↔ ∃ p, FirstAt peers (HasName name) i p := by
  rw [List.findIdx?_eq_some_iff_getElem]
  constructor
  · rintro ⟨hi, hname, hbefore⟩
    refine ⟨peers[i], List.getElem?_eq_getElem hi, hname, fun j hj q hq => ?_⟩
    obtain ⟨hlen, rfl⟩ := List.getElem?_eq_some_iff.1 hq
    exact hbefore j hj
  · rintro ⟨p, hp, hname, hbefore⟩
    obtain ⟨hi, rfl⟩ := List.getElem?_eq_some_iff.1 hp
    exact ⟨hi, hname, fun j hj => hbefore j hj peers[j] (List.getElem?_eq_getElem (by omega))⟩

/-- What `UpdatePeerByName` leaves, given the first peer of the name. -/
theorem updatePeerInMemory_found {name : String} (upd : PeerSetUpdates) {c : Config} {i : Nat} {p : Peer} (hname : trimSpace name ≠ "")
    (hfirst : FirstAt c.peers (HasName name) i p) :
    (∃ e, updatePeerInMemory name upd c = (c, .error e)) ∨
      ((trimSpace upd.newName ≠ "" → nameTaken c.peers i (trimSpace upd.newName) = false) ∧
        (updatePeerInMemory name upd c).1 = { c with peers := c.peers.set i (upd.on p) }) := by
  rw [updatePeerInMemory, if_neg hname, findIdx?_hasName.2 ⟨p, hfirst⟩]
  by_cases htaken : trimSpace upd.newName ≠ "" ∧ nameTaken c.peers i (trimSpace upd.newName) = true
  · exact .inl ⟨_, if_pos htaken⟩
  · refine .inr ⟨fun hnew => Bool.eq_false_iff.2 fun h => htaken ⟨hnew, h⟩, ?_⟩
    simp only [if_neg htaken]
    congr 1
    rw [List.modify_eq_set_getElem?, hfirst.1]
    rfl

theorem updatePeerInMemory_missing {name : String} {upd : PeerSetUpdates} {c : Config}
    (h : trimSpace name = "" ∨ ∀ p ∈ c.peers, ¬HasName name p) :
    (updatePeerInMemory name upd c).1 = c ∧ ∃ e, (updatePeerInMemory name upd c).2 = .error e := by
  rw [updatePeerInMemory]
  split
  · exact ⟨rfl, _, rfl⟩
  · rename_i hname
    have hnone : (c.peers.findIdx? fun p => equalFold (trimSpace p.name) (trimSpace name)) = none :=
      List.findIdx?_eq_none_iff.2 fun p hp => Bool.eq_false_iff.2 (h.resolve_left hname p hp)
    rw [hnone]
    exact ⟨rfl, _, rfl⟩

/-- A name that is not taken is the name of no other peer that is on. -/
theorem not_equalFold_of_free {peers : List Peer} {i j : Nat} {newName : String} {other : Peer} (h : nameTaken peers i newName = false)
    (hj : j ≠ i) (hother : peers[j]? = some other) (hon : other.disabled = false) : equalFold (trimSpace other.name) newName = false := by
  by_contra heq
  have htaken : nameTaken peers i newName = true := by
    refine List.any_eq_true.2 ⟨(other, j), List.mem_zipIdx_iff_getElem?.2 hother, ?_⟩
    simpa [hj, hon] using heq
  rw [h] at htaken
  cases htaken

theorem updatesFirst (name : String) (upd : PeerSetUpdates) (c : Config) : UpdatesFirst name upd c (updatePeerInMemory name upd c) where
  found i p hname hfirst := by
    rcases updatePeerInMemory_found upd hname hfirst with ⟨e, he⟩ | ⟨-, hset⟩
    · exact .inl ⟨by rw [he], e, by rw [he]⟩
    · exact .inr ⟨upd.on p, setAsAsked_on upd p, hset⟩
  missing := updatePeerInMemory_missing
  renamed i p q hp hq hne j other hj hother hon := by
    by_cases hmissing : trimSpace name = "" ∨ ∀ p ∈ c.peers, ¬HasName name p
    · rw [(updatePeerInMemory_missing hmissing).1, hp] at hq
      exact absurd (congrArg Peer.name (Option.some.inj hq).symm) hne
    obtain ⟨hname, hsome⟩ := not_or.1 hmissing
    obtain ⟨r, hr, hnamed⟩ : ∃ r ∈ c.peers, HasName name r := by simpa using hsome
    obtain ⟨m, hm⟩ := List.mem_iff_getElem?.1 hr
    obtain ⟨k, s, hfirst⟩ := exists_firstAt hm hnamed
    rcases updatePeerInMemory_found upd hname hfirst with ⟨e, he⟩ | ⟨hfree, hset⟩
    · rw [he, hp] at hq
      exact absurd (congrArg Peer.name (Option.some.inj hq).symm) hne
    · rw [hset, List.getElem?_set] at hq
      split at hq
      · -- The peer renamed is the first of the name, and its new name is free.
        rename_i hki
        subst hki
        rw [hfirst.1] at hp
        cases hp
        have hq : q = upd.on p := by
          split at hq
          · exact (Option.some.inj hq).symm
          · cases hq
        subst hq
        rcases (setAsAsked_on upd p).name with ⟨-, hkept⟩ | ⟨hnew, hgiven⟩
        · exact absurd hkept hne
        · rw [hgiven]
          exact not_equalFold_of_free (hfree hnew) hj hother hon
      · rw [hp] at hq
        exact absurd (congrArg Peer.name (Option.some.inj hq).symm) hne

end EvuProxy
