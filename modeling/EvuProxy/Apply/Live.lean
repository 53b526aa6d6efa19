import EvuProxy.Apply.Footprint

/-!
# What is live on the host

`RendersRuleset c b` and `RendersTunnel c b` say that `b` is something the program can render from the config `c`, for some order of the
maps, some zone files and some private key. A state is live from a config when what the kernel loaded last is rendered from it.
`applyToHost_spec` is what an Apply to the host does, at every point where it may stop.
-/

namespace EvuProxy

open Go Fault Fault.Prog

variable {Γ : Ctx}

/-- A file for `nft -f` with the full ruleset of a config. -/
def RendersRuleset (c : Config) (b : Γ.Bytes) : Prop :=
  ∃ n src, (genNFTables c : App Γ String).CanReturn n ∧ (genApplySrc c n : App Γ String).CanReturn src ∧ b = Γ.text src

/-- A file for `nft -f` with the geo sets of a config. -/
def RendersGeoSets (c : Config) (b : Γ.Bytes) : Prop := ∃ s, (genGeoLoader c : App Γ String).CanReturn s ∧ b = Γ.text s

/-- What WireGuard is given for a config. -/
def RendersTunnel (c : Config) (b : Γ.Bytes) : Prop :=
  ∃ s, (genWireGuardConf c : App Γ String).CanReturn s ∧ b = Γ.wgStrip (Γ.text s)

/-- What is loaded into WireGuard belongs to a config. -/
def RendersWG (c : Config) : WGLoad Γ → Prop
  | .conf i b => i = c.wireGuard.interface ∧ RendersTunnel c b
  | .addr a i => a = trimSpace c.wireGuard.address ∧ i = c.wireGuard.interface

/-- What was loaded between two states is rendered from configs that satisfy `P`. -/
structure Loads (P : Config → Prop) (w w' : World Γ) : Prop where
  nft : ∃ l, w'.nft = l ++ w.nft ∧ ∀ b ∈ l, ∃ c, P c ∧ (RendersRuleset c b ∨ RendersGeoSets c b)
  wg : ∃ l, w'.wg = l ++ w.wg ∧ ∀ x ∈ l, ∃ c, P c ∧ RendersWG c x

theorem Loads.of_eq {P : Config → Prop} {w w' : World Γ} (hn : w'.nft = w.nft) (hw : w'.wg = w.wg) : Loads P w w' :=
  ⟨⟨[], hn, by simp⟩, ⟨[], hw, by simp⟩⟩

theorem Loads.refl {P : Config → Prop} (w : World Γ) : Loads P w w := .of_eq rfl rfl

theorem Loads.trans {P : Config → Prop} {a b c : World Γ} (h : Loads P a b) (h' : Loads P b c) : Loads P a c := by
  obtain ⟨⟨l, hl, hlP⟩, ⟨k, hk, hkP⟩⟩ := h
  obtain ⟨⟨l', hl', hlP'⟩, ⟨k', hk', hkP'⟩⟩ := h'
  refine ⟨⟨l' ++ l, by rw [hl', hl, List.append_assoc], fun x hx => ?_⟩,
    ⟨k' ++ k, by rw [hk', hk, List.append_assoc], fun x hx => ?_⟩⟩
  · rcases List.mem_append.mp hx with hx | hx
    · exact hlP' x hx
    · exact hlP x hx
  · rcases List.mem_append.mp hx with hx | hx
    · exact hkP' x hx
    · exact hkP x hx

theorem Loads.mono {P P' : Config → Prop} {w w' : World Γ} (hP : ∀ c, P c → P' c) (h : Loads P w w') : Loads P' w w' := by
  obtain ⟨⟨l, hl, hlP⟩, ⟨k, hk, hkP⟩⟩ := h
  refine ⟨⟨l, hl, fun x hx => ?_⟩, ⟨k, hk, fun x hx => ?_⟩⟩
  · obtain ⟨c, hc, hr⟩ := hlP x hx
    exact ⟨c, hP c hc, hr⟩
  · obtain ⟨c, hc, hr⟩ := hkP x hx
    exact ⟨c, hP c hc, hr⟩

/-- A state that only read or wrote files loaded nothing. -/
theorem Effects.Within.loads {E : Effects} {P : Config → Prop} {w w' : World Γ} (hE : ¬E.host) (h : E.Within w w') : Loads P w w' :=
  .of_eq (h.nft hE) (h.wg hE)

/-- One effect allows less than another. -/
theorem Effects.Within.mono {E E' : Effects} {w w' : World Γ} (hle : E.LE E') (h : E.Within w w') : E'.Within w w' where
  files f hf := h.files f fun hE => hf (hle.files f hE)
  nft hn := h.nft fun hE => hn (hle.host hE)
  wg hn := h.wg fun hE => hn (hle.host hE)
  timers hn := h.timers fun hE => hn (hle.timers hE)
  issued hn := h.issued fun hE => hn (hle.timers hE)
  begun hn := h.begun fun hE => hn (hle.timers hE)
  boot := h.boot

/-- The config that WireGuard was given last for an interface. -/
def World.tunnel (w : World Γ) (iface : String) : Option Γ.Bytes :=
  w.wg.findSome? fun
    | .conf i b => if i = iface then some b else none
    | .addr _ _ => none

/-- The ruleset loaded last is the full ruleset of a config. -/
def LiveRuleset (w : World Γ) (c : Config) : Prop := ∃ b l, w.nft = b :: l ∧ RendersRuleset c b

/-- The config that WireGuard was given last for the interface of a config is rendered from it. -/
def LiveTunnel (w : World Γ) (c : Config) : Prop := ∃ b, w.tunnel c.wireGuard.interface = some b ∧ RendersTunnel c b

/-- The host runs a config. -/
def Live (w : World Γ) (c : Config) : Prop := LiveRuleset w c ∧ LiveTunnel w c

/-! ## Preparing -/

/-- The files of an Apply are written, and nothing is loaded yet. -/
structure Prepared (c : Config) (w : World Γ) : Prop where
  ruleset : ∃ n src, (genNFTables c : App Γ String).CanReturn n ∧ (genApplySrc c n : App Γ String).CanReturn src ∧
    w.files .nftables = some (Γ.text n) ∧ w.files .applyNft = some (Γ.text src)
  tunnel : ∃ s, (genWireGuardConf c : App Γ String).CanReturn s ∧ w.files (.wgConf c.wireGuard.interface) = some (Γ.text s)

/-- The file with the ruleset is the old one or rendered from a config. -/
def RulesetFile (c : Config) (w w' : World Γ) : Prop :=
  w'.files .nftables = w.files .nftables ∨
    ∃ n, (genNFTables c : App Γ String).CanReturn n ∧ w'.files .nftables = some (Γ.text n)

/-- Where an Apply to the host may stop before it touches the firewall. -/
structure Preparing (c : Config) (w w' : World Γ) : Prop where
  within : generatesE.Within w w'
  ruleset : RulesetFile c w w'

variable {R : Rules (host Γ)} {w : World Γ}

theorem prepareApply_spec (c : Config) :
    wp (R.withCrash (Preparing c w)) (prepareApply c)
      (fun r w' => Preparing c w w' ∧ (r = .ok () → Prepared c w')) w := by
  have hreads : ∀ w', readsE.Within w w' → Preparing c w w' := fun w' h =>
    ⟨h.mono readsE_le, Or.inl (h.files _ id)⟩
  refine wp_bind.2 (wp_call (uses_mkdirAll (E := readsE) _) hreads fun r w₁ h₁ _ => ?_)
  cases r with
  | error e => exact ⟨hreads _ h₁, nofun⟩
  | ok _ =>
  refine wp_bind.2 (wp_call (uses_genNFTables (E := readsE) c) (fun w' h => hreads _ (h₁.trans h)) fun r w₂ h₂ hn => ?_)
  have h₂ := h₁.trans h₂
  cases r with
  | error e => exact ⟨hreads _ h₂, nofun⟩
  | ok n =>
  have hn := hn n rfl
  refine wp_bind.2 (wp_mapErr.2 (wp_writeFile (fun _ => hreads _ h₂) (fun _ e => ⟨hreads _ h₂, nofun⟩) ?_))
  -- From here on the ruleset file holds `n`, whatever happens.
  have hfile : ∀ {w'}, generatesE.Within w w' → w'.files .nftables = some (Γ.text n) → Preparing c w w' := fun hw hf =>
    ⟨hw, Or.inr ⟨n, hn, hf⟩⟩
  have hset : generatesE.Within w (w₂.set .nftables (some (Γ.text n))) := (h₂.mono readsE_le).trans (within_set rfl)
  generalize hw₃ : w₂.set .nftables (some (Γ.text n)) = w₃ at hset
  have hn₃ : w₃.files .nftables = some (Γ.text n) := by rw [← hw₃]; simp
  refine wp_bind.2 (wp_call (uses_genWireGuardConf (E := readsE) c)
    (fun w' h => hfile (hset.trans (h.mono readsE_le)) ((h.files _ id).trans hn₃)) fun r w₄ h₄ hs => ?_)
  have hw₄ := hset.trans (h₄.mono readsE_le)
  have hn₄ := (h₄.files _ id).trans hn₃
  cases r with
  | error e => exact ⟨hfile hw₄ hn₄, nofun⟩
  | ok s =>
  have hs := hs s rfl
  refine wp_bind.2 (wp_mapErr.2 (wp_call (uses_mkdirAll (E := readsE) _)
    (fun w' h => hfile (hw₄.trans (h.mono readsE_le)) ((h.files _ id).trans hn₄)) fun r w₅ h₅ _ => ?_))
  have hw₅ := hw₄.trans (h₅.mono readsE_le)
  have hn₅ := (h₅.files _ id).trans hn₄
  cases r with
  | error e => exact ⟨hfile hw₅ hn₅, nofun⟩
  | ok _ =>
  refine wp_bind.2 (wp_mapErr.2 (wp_writeFile (fun _ => hfile hw₅ hn₅) (fun _ e => ⟨hfile hw₅ hn₅, nofun⟩) ?_))
  have hw₆ : generatesE.Within w (w₅.set (.wgConf c.wireGuard.interface) (some (Γ.text s))) := hw₅.trans (within_set rfl)
  generalize hw : w₅.set (.wgConf c.wireGuard.interface) (some (Γ.text s)) = w₆ at hw₆
  have hn₆ : w₆.files .nftables = some (Γ.text n) := by rw [← hw]; simpa using hn₅
  have hc₆ : w₆.files (.wgConf c.wireGuard.interface) = some (Γ.text s) := by rw [← hw]; simp
  refine wp_bind.2 (wp_call (uses_genApplySrc c n)
    (fun w' h => hfile (hw₆.trans (h.mono zonesE_le)) ((h.files _ (by simp [zonesE])).trans hn₆)) fun r w₇ h₇ hsrc => ?_)
  have hw₇ := hw₆.trans (h₇.mono zonesE_le)
  have hn₇ := (h₇.files .nftables (by simp [zonesE])).trans hn₆
  have hc₇ := (h₇.files (.wgConf c.wireGuard.interface) (by simp [zonesE])).trans hc₆
  cases r with
  | error e => exact ⟨hfile hw₇ hn₇, nofun⟩
  | ok src =>
  refine wp_mapErr.2 (wp_writeFile (fun _ => hfile hw₇ hn₇) (fun _ e => ⟨hfile hw₇ hn₇, nofun⟩) ?_)
  exact ⟨hfile (hw₇.trans (within_set rfl)) (by simpa using hn₇),
    fun _ => ⟨⟨n, src, hn, hsrc src rfl, by simpa using hn₇, by simp⟩, ⟨s, hs, by simpa using hc₇⟩⟩⟩

/-! ## Loading the firewall -/

/-- A program that loads the firewall and notes when. -/
def loadsE : Effects := { files := fun f => f = .geoLastSuccess, host := True }

/-- Where an Apply to the host may stop while it loads the firewall. -/
structure Loading (w w' : World Γ) : Prop where
  within : loadsE.Within w w'
  wg : w'.wg = w.wg
  nft : w'.nft = w.nft ∨ ∃ b, w.files .applyNft = some b ∧ w'.nft = b :: w.nft

theorem readsE_loading {w w' : World Γ} (h : readsE.Within w w') : Loading w w' :=
  ⟨h.mono readsE_le, h.wg id, Or.inl (h.nft id)⟩

/-- A program that writes nothing but the time of the last geo update. -/
def geoLastE : Effects := { files := fun f => f = .geoLastSuccess }

theorem geoLastE_le : geoLastE.LE loadsE := ⟨fun _ h => h, fun _ => trivial, fun h => h⟩

theorem uses_writeGeoLastSuccess' (s : String) : (writeGeoLastSuccess s : App Γ Unit).Uses (Cmd.within geoLastE) :=
  uses_bind (uses_quiet (fun _ => id) id id) fun _ => uses_writeFile rfl

theorem loadFirewall_spec (c : Config) (hp : Prepared c w) :
    wp (R.withCrash (Loading w)) (loadFirewall c)
      (fun r w' => Loading w w' ∧ (r = .ok () → ∃ b, w.files .applyNft = some b ∧ w'.nft = b :: w.nft)) w := by
  obtain ⟨n, src, hn, hsrc, -, hb⟩ := hp.ruleset
  refine wp_bind.2 (wp_call (uses_savedBans (E := readsE) c) (fun w' => readsE_loading) fun r w₁ h₁ _ => ?_)
  cases r with
  | error e => exact ⟨readsE_loading h₁, nofun⟩
  | ok saved =>
  refine wp_bind.2 (wp_mapErr.2 (wp_call (uses_quiet (E := readsE) (fun _ => id) id id)
    (fun w' h => readsE_loading (h₁.trans h)) fun r w₂ h₂ _ => ?_))
  have h₂ := h₁.trans h₂
  cases r with
  | error e => exact ⟨readsE_loading h₂, nofun⟩
  | ok _ =>
  have hb₂ : w₂.files .applyNft = some (Γ.text src) := (h₂.files _ id).trans hb
  have hload : Loading w { w₂ with nft := Γ.text src :: w₂.nft } :=
    ⟨(h₂.mono readsE_le).trans (within_of_host trivial rfl rfl rfl rfl rfl), h₂.wg id,
      Or.inr ⟨_, hb, by rw [h₂.nft id]⟩⟩
  refine wp_bind.2 (wp_mapErr.2 (wp_nftLoad hb₂ (fun _ => readsE_loading h₂) (fun _ e => ⟨readsE_loading h₂, nofun⟩)
    (fun _ e => ⟨hload, nofun⟩) ?_))
  -- The firewall is loaded: what follows is best effort and changes neither the kernel nor the outcome.
  have hlive : ({ w₂ with nft := Γ.text src :: w₂.nft } : World Γ).nft = Γ.text src :: w.nft := by simp [h₂.nft id]
  generalize { w₂ with nft := Γ.text src :: w₂.nft } = w₃ at hload hlive
  have hafter : ∀ {w'}, geoLastE.Within w₃ w' → Loading w w' ∧ ∃ b, w.files .applyNft = some b ∧ w'.nft = b :: w.nft :=
    fun h => ⟨⟨hload.within.trans (h.mono geoLastE_le), (h.wg id).trans hload.wg,
      Or.inr ⟨_, hb, (h.nft id).trans hlive⟩⟩, _, hb, (h.nft id).trans hlive⟩
  refine wp_bind.2 (wp_call (uses_restoreCrowdsecBlockSet (E := geoLastE) saved) (fun w' h => (hafter h).1) fun r w₄ h₄ _ => ?_)
  cases r with
  | error e => exact ⟨(hafter h₄).1, nofun⟩
  | ok _ =>
  refine wp_call (uses_ite (uses_ignore (uses_writeGeoLastSuccess' _)) (uses_ret _)) (fun w' h => (hafter (h₄.trans h)).1)
    fun r w₅ h₅ _ => ⟨(hafter (h₄.trans h₅)).1, fun _ => (hafter (h₄.trans h₅)).2⟩

/-! ## Loading the tunnel -/

/-- A program that loads a WireGuard config through a file of its own. -/
def tunnelsE : Effects := { files := fun f => f = .wgSync, host := True }

/-- Where an Apply to the host may stop while it loads the tunnel. -/
structure Tunnelling (c : Config) (w w' : World Γ) : Prop where
  within : tunnelsE.Within w w'
  nft : w'.nft = w.nft
  wg : ∃ l, w'.wg = l ++ w.wg ∧ ∀ x ∈ l, RendersWG c x

theorem readsE_tunnelling {c : Config} {w w' : World Γ} (h : readsE.Within w w') : Tunnelling c w w' :=
  ⟨h.mono readsE_le, h.nft id, [], h.wg id, by simp⟩

theorem Tunnelling.set {c : Config} {w w' : World Γ} (h : Tunnelling c w w') (b : Option Γ.Bytes) :
    Tunnelling c w (w'.set .wgSync b) :=
  ⟨h.within.trans (within_set rfl), h.nft, h.wg⟩

theorem Tunnelling.load {c : Config} {w w' : World Γ} {x : WGLoad Γ} (h : Tunnelling c w w') (hx : RendersWG c x) :
    Tunnelling c w { w' with wg := x :: w'.wg } := by
  obtain ⟨l, hl, hlx⟩ := h.wg
  refine ⟨h.within.trans (within_of_host trivial rfl rfl rfl rfl rfl), h.nft, x :: l, by simp [hl], fun y hy => ?_⟩
  rcases List.mem_cons.mp hy with rfl | hy
  · exact hx
  · exact hlx y hy

theorem liveTunnel_conf {c : Config} {w : World Γ} {b : Γ.Bytes} (hb : RendersTunnel c b) :
    LiveTunnel { w with wg := .conf c.wireGuard.interface b :: w.wg } c :=
  ⟨b, by simp [World.tunnel], hb⟩

theorem LiveTunnel.congr {c : Config} {w w' : World Γ} (hw : w'.wg = w.wg) (h : LiveTunnel w c) : LiveTunnel w' c := by
  obtain ⟨b, hb, hr⟩ := h
  exact ⟨b, by rw [← hb, World.tunnel, World.tunnel, hw], hr⟩

theorem LiveTunnel.addr {c : Config} {w : World Γ} {a i : String} (h : LiveTunnel w c) :
    LiveTunnel { w with wg := .addr a i :: w.wg } c := by
  obtain ⟨b, hb, hr⟩ := h
  refine ⟨b, ?_, hr⟩
  rw [← hb]
  simp [World.tunnel]

/-- A program that failed has not returned. -/
theorem of_error_ok {e : Err} {p : Prop} (h : (.error e : Except Err Unit) = .ok ()) : p := by
  cases h

theorem syncWireGuard_spec (c : Config) {s : String} (hs : (genWireGuardConf c : App Γ String).CanReturn s)
    (hc : w.files (.wgConf c.wireGuard.interface) = some (Γ.text s)) :
    wp (R.withCrash (Tunnelling c w)) (syncWireGuard c.wireGuard.interface (trimSpace c.wireGuard.address))
      (fun r w' => Tunnelling c w w' ∧ (r = .ok () → LiveTunnel w' c)) w := by
  have h₀ : Tunnelling c w w := readsE_tunnelling (.refl w)
  have hren : RendersTunnel c (Γ.wgStrip (Γ.text s)) := ⟨s, hs, rfl⟩
  -- The file given to `wg syncconf` is removed at the end, whether or not loading it worked.
  have hend : ∀ (synced : Except Err Unit) (w₁ : World Γ), Tunnelling c w w₁ → (synced = .ok () → LiveTunnel w₁ c) →
      wp (R.withCrash (Tunnelling c w)) ((ignore (removeIfExists .wgSync)).bind fun _ => ofExcept (S := sig Γ) synced)
        (fun r w' => Tunnelling c w w' ∧ (r = .ok () → LiveTunnel w' c)) w₁ := by
    intro synced w₁ h₁ hl
    have hl' : synced = .ok () → LiveTunnel (w₁.set .wgSync none) c := fun he => (hl he).congr rfl
    refine wp_bind.2 (wp_ignore (wp_removeIfExists (fun _ => h₁) (fun _ _ => ?_) ?_))
    · rw [andThen_ok, wp_ofExcept]; exact ⟨h₁, hl⟩
    · rw [andThen_ok, wp_ofExcept]; exact ⟨h₁.set none, hl'⟩
  refine wp_bind.2 (wp_mapErr.2 (wp_run (fun _ _ _ => h₀) (fun ch _ _ => ?_) fun ch _ => ?_))
  · rw [if_neg (by simp [Cmd.mayTake])]; exact ⟨h₀, of_error_ok⟩
  simp only [respond, effect, hc]
  refine wp_bind.2 (wp_attempt.2 (wp_bind.2 (wp_writeFile (fun _ => h₀) (fun _ e => hend _ _ h₀ of_error_ok) ?_)))
  have h₁ := h₀.set (some (Γ.wgStrip (Γ.text s)))
  have hx : w.set .wgSync (some (Γ.wgStrip (Γ.text s))) = w.set .wgSync (some (Γ.wgStrip (Γ.text s))) := rfl
  generalize hw₁ : w.set .wgSync (some (Γ.wgStrip (Γ.text s))) = w₁ at h₁
  have hf₁ : w₁.files .wgSync = some (Γ.wgStrip (Γ.text s)) := by rw [← hw₁]; simp
  have h₂ : Tunnelling c w { w₁ with wg := .conf c.wireGuard.interface (Γ.wgStrip (Γ.text s)) :: w₁.wg } := h₁.load ⟨rfl, hren⟩
  have hl₂ := liveTunnel_conf (w := w₁) hren
  refine wp_bind.2 (wp_mapErr.2 (wp_loadWG (x := .conf c.wireGuard.interface (Γ.wgStrip (Γ.text s)))
    (fun ch => by simp only [effect, hf₁]) (fun _ => rfl) h₁ (fun e => hend _ _ h₁ of_error_ok) (fun e => hend _ _ h₂ of_error_ok) fun ch => ?_))
  simp only [respond, hf₁, Option.isSome_some, if_true]
  generalize ({ w₁ with wg := .conf c.wireGuard.interface (Γ.wgStrip (Γ.text s)) :: w₁.wg } : World Γ) = w₂ at h₂ hl₂
  refine wp_ite (fun _ => ?_) fun _ => ?_
  · refine wp_mapErr.2 (wp_loadWG (x := .addr (trimSpace c.wireGuard.address) c.wireGuard.interface) (fun _ => rfl) (fun _ => rfl) h₂
      (fun e => hend _ _ h₂ of_error_ok) (fun e => hend _ _ (h₂.load ⟨rfl, rfl⟩) of_error_ok) fun _ => hend _ _ (h₂.load ⟨rfl, rfl⟩) fun _ => hl₂.addr)
  · exact wp_of_ret (hend _ _ h₂ fun _ => hl₂)

theorem reloadWireGuard_spec (c : Config) (hp : ∃ s, (genWireGuardConf c : App Γ String).CanReturn s ∧
    w.files (.wgConf c.wireGuard.interface) = some (Γ.text s)) :
    wp (R.withCrash (Tunnelling c w)) (reloadWireGuard c.wireGuard.interface (trimSpace c.wireGuard.address))
      (fun r w' => Tunnelling c w w' ∧ (r = .ok () → LiveTunnel w' c)) w := by
  obtain ⟨s, hs, hc⟩ := hp
  have h₀ : Tunnelling c w w := readsE_tunnelling (.refl w)
  have hren : RendersTunnel c (Γ.wgStrip (Γ.text s)) := ⟨s, hs, rfl⟩
  refine wp_bind.2 (wp_run (fun _ _ _ => h₀) (fun ch _ _ => ?_) fun ch _ => ?_)
  · rw [if_neg (by simp [Cmd.mayTake])]; exact ⟨h₀, of_error_ok⟩
  refine wp_ite (fun _ => ?_) fun _ => ?_
  · exact syncWireGuard_spec c hs hc
  · have h₁ : Tunnelling c w { w with wg := .conf c.wireGuard.interface (Γ.wgStrip (Γ.text s)) :: w.wg } := h₀.load ⟨rfl, hren⟩
    refine wp_mapErr.2 (wp_loadWG (x := .conf c.wireGuard.interface (Γ.wgStrip (Γ.text s))) (fun ch => by simp only [effect, hc])
      (fun _ => rfl) h₀ (fun e => ⟨h₀, of_error_ok⟩) (fun e => ⟨h₁, of_error_ok⟩) fun ch => ?_)
    exact ⟨h₁, fun _ => liveTunnel_conf hren⟩

/-! ## Applying -/

/-- An Apply of a config has loaded the firewall, from the file that `nftables.nft` goes with, and perhaps the tunnel. -/
structure Applied (c : Config) (w w' : World Γ) : Prop where
  ruleset : ∃ n src, (genNFTables c : App Γ String).CanReturn n ∧ (genApplySrc c n : App Γ String).CanReturn src ∧
    w'.files .nftables = some (Γ.text n) ∧ w'.nft = Γ.text src :: w.nft
  wg : ∃ l, w'.wg = l ++ w.wg ∧ ∀ x ∈ l, RendersWG c x

/-- Where an Apply to the host may stop: before the firewall is loaded, or after. -/
structure Applying (c : Config) (w w' : World Γ) : Prop where
  within : appliesE.Within w w'
  ruleset : RulesetFile c w w'
  host : w'.nft = w.nft ∧ w'.wg = w.wg ∨ Applied c w w'

theorem Preparing.applying {c : Config} {w w' : World Γ} (h : Preparing c w w') : Applying c w w' :=
  ⟨h.within.mono generatesE_le_appliesE, h.ruleset, Or.inl ⟨h.within.nft id, h.within.wg id⟩⟩

theorem loadsE_le : loadsE.LE appliesE := ⟨by rintro f rfl; rfl, fun h => h, fun h => h.elim⟩

theorem tunnelsE_le : tunnelsE.LE appliesE := ⟨by rintro f rfl; rfl, fun h => h, fun h => h.elim⟩

theorem Applied.renders {c : Config} {w w' : World Γ} (h : Applied c w w') : LiveRuleset w' c := by
  obtain ⟨n, src, hn, hsrc, -, hl⟩ := h.ruleset
  exact ⟨_, _, hl, n, src, hn, hsrc, rfl⟩

theorem Applied.loads {c : Config} {w w' : World Γ} (h : Applied c w w') : Loads (· = c) w w' := by
  obtain ⟨n, src, hn, hsrc, -, hl⟩ := h.ruleset
  obtain ⟨l, hlw, hlx⟩ := h.wg
  refine ⟨⟨[Γ.text src], hl, fun b hb => ⟨c, rfl, Or.inl ?_⟩⟩, l, hlw, fun x hx => ⟨c, rfl, hlx x hx⟩⟩
  rw [List.mem_singleton.mp hb]
  exact ⟨n, src, hn, hsrc, rfl⟩

/-- The firewall is loaded after the files of an Apply were written. -/
theorem Loading.applying {c : Config} {w w₁ w₂ : World Γ} (h₁ : Preparing c w w₁) (hp : Prepared c w₁) (h₂ : Loading w₁ w₂) :
    Applying c w w₂ := by
  obtain ⟨n, src, hn, hsrc, hnf, hb⟩ := hp.ruleset
  have hf : w₂.files .nftables = some (Γ.text n) := (h₂.within.files _ (by simp [loadsE])).trans hnf
  have hw : w₂.wg = w.wg := h₂.wg.trans (h₁.within.wg id)
  refine ⟨(h₁.within.mono generatesE_le_appliesE).trans (h₂.within.mono loadsE_le), Or.inr ⟨n, hn, hf⟩, ?_⟩
  rcases h₂.nft with hl | ⟨b, hb', hl⟩
  · exact Or.inl ⟨hl.trans (h₁.within.nft id), hw⟩
  · obtain rfl : Γ.text src = b := Option.some.inj (hb.symm.trans hb')
    exact Or.inr ⟨⟨n, src, hn, hsrc, hf, by rw [hl, h₁.within.nft id]⟩, [], hw, by simp⟩

/-- The tunnel is loaded after the firewall. -/
theorem Tunnelling.applied {c : Config} {w w₂ w₃ : World Γ} (ha : Applied c w w₂) (h : Tunnelling c w₂ w₃) : Applied c w w₃ := by
  obtain ⟨n, src, hn, hsrc, hf, hl⟩ := ha.ruleset
  obtain ⟨l, hw, hx⟩ := ha.wg
  obtain ⟨k, hk, hy⟩ := h.wg
  refine ⟨⟨n, src, hn, hsrc, (h.within.files _ (by simp [tunnelsE])).trans hf, h.nft.trans hl⟩, k ++ l,
    by rw [hk, hw, List.append_assoc], fun x hx' => ?_⟩
  rcases List.mem_append.mp hx' with hx' | hx'
  · exact hy x hx'
  · exact hx x hx'

theorem applyToHost_spec (c : Config) :
    Stops R (Applying c w) (applyToHost c) (fun _ w' => Applied c w w' ∧ LiveTunnel w' c) w := by
  refine .of_wp <| wp_bind.2 (wp_mono (R := R.withCrash (Preparing c w)) (fun _ _ _ h => h) (fun _ => Preparing.applying) ?_
    (prepareApply_spec c))
  rintro (e | ⟨⟩) w₁ ⟨h₁, hp⟩
  · exact ⟨h₁.applying, nofun⟩
  have hp := hp rfl
  have hloading : ∀ w', Loading w₁ w' → Applying c w w' := fun w' => Loading.applying h₁ hp
  refine wp_bind.2 (wp_mono (R := R.withCrash (Loading w₁)) (fun _ _ _ h => h) hloading ?_ (loadFirewall_spec c hp))
  rintro (e | ⟨⟩) w₂ ⟨h₂, hl⟩
  · exact ⟨hloading _ h₂, nofun⟩
  -- The firewall is loaded, so from here on the Apply is under way.
  obtain ⟨n, src, hn, hsrc, hnf, hb⟩ := hp.ruleset
  obtain ⟨b, hb', hl⟩ := hl rfl
  obtain rfl : Γ.text src = b := Option.some.inj (hb.symm.trans hb')
  have hf₂ : w₂.files .nftables = some (Γ.text n) := (h₂.within.files _ (by simp [loadsE])).trans hnf
  have ha₂ : Applied c w w₂ :=
    ⟨⟨n, src, hn, hsrc, hf₂, by rw [hl, h₁.within.nft id]⟩, [], h₂.wg.trans (h₁.within.wg id), by simp⟩
  have hp₂ : ∃ s, (genWireGuardConf c : App Γ String).CanReturn s ∧
      w₂.files (.wgConf c.wireGuard.interface) = some (Γ.text s) := by
    obtain ⟨s, hs, hc⟩ := hp.tunnel
    exact ⟨s, hs, (h₂.within.files _ (by simp [loadsE])).trans hc⟩
  have htunnel : ∀ w', Tunnelling c w₂ w' → Applying c w w' := fun w' h =>
    ⟨(hloading _ h₂).within.trans (h.within.mono tunnelsE_le),
      Or.inr ⟨n, hn, (h.within.files _ (by simp [tunnelsE])).trans hf₂⟩, Or.inr (h.applied ha₂)⟩
  refine wp_mono (R := R.withCrash (Tunnelling c w₂)) (fun _ _ _ h => h) htunnel ?_ (reloadWireGuard_spec c hp₂)
  rintro r w₃ ⟨h₃, hlive⟩
  exact ⟨htunnel _ h₃, fun _ hr => ⟨h₃.applied ha₂, hlive hr⟩⟩

end EvuProxy
