import Chinet.Stratum.MinerAddress
import Mathlib.Data.BitVec
import Mathlib.Algebra.BigOperators.Group.List.Basic

/-!
# Shares and difficulties

The work of the template at hand, the difficulty that the workers are credited and the bounds of
their difficulties.  A pair of a work and a nonce counts once, when it first meets the difficulty
of its worker; the code also credits shares of the previous work without a look at their hash, and
a share again each time that it is sent.
-/

namespace Chinet.Stratum

/-! ## What holds of a worker -/

/-- The hash of the work with the nonce of a share meets the difficulty of the share. -/
def MetShare.Met (prims : StratumPrimitives) (works : List Block) (share : MetShare) : Prop :=
  ∃ b ∈ works, getBlockHeaderMiningHash prims b = share.ethash ∧
    checkHash (prims.getBlockLonghash (getBlockHeight b) share.ethash share.nonce)
      share.difficulty = true

/-- The worker is credited the difficulties of its different shares that met them, all of them in
`m_hashes_calculated` and those of the share period in `m_valid_shares_count`; its difficulty is
between the bounds. -/
structure WorkerExact (prims : StratumPrimitives) (works : List Block) (vd : VdiffParams)
    (c : ConnectionContext) : Prop where
  vdParams : c.vdParams = vd
  hashes : c.hashesCalculated = (c.metShares.map MetShare.difficulty).sum
  valid : c.validSharesCount = UInt64.ofNat (c.metShares.length - c.periodStart)
  period : c.periodStart ≤ c.metShares.length
  different : (c.metShares.map fun share => (share.ethash, share.nonce)).Nodup
  met : ∀ share ∈ c.metShares, share.Met prims works
  minimum : vd.targetMin.toNat ≤ c.workerDifficulty.toNat
  maximum : c.workerDifficulty.toNat ≤ vd.targetMax.toNat

section

variable {prims : StratumPrimitives} {works : List Block} {vd : VdiffParams}
  {c : ConnectionContext}

theorem toNat_wide (n : UInt64) : (ConnectionContext.wide n).toNat = n.toNat := by
  have hlt := n.toNat_lt
  rw [ConnectionContext.wide, BitVec.toNat_ofNat, Nat.mod_eq_of_lt (by omega)]

theorem MetShare.Met.mono {share : MetShare} (h : share.Met prims works) (b : Block) :
    share.Met prims (b :: works) := by
  obtain ⟨b', hmem, hmet⟩ := h
  exact ⟨b', List.mem_cons_of_mem b hmem, hmet⟩

theorem WorkerExact.cons (h : WorkerExact prims works vd c) (b : Block) :
    WorkerExact prims (b :: works) vd c :=
  { h with met := fun share hshare => (h.met share hshare).mono b }

/-- A difficulty between the bounds may be set. -/
theorem WorkerExact.setWorkerDifficulty (h : WorkerExact prims works vd c) {d : WideDifficulty}
    (hmin : vd.targetMin.toNat ≤ d.toNat) (hmax : d.toNat ≤ vd.targetMax.toNat) (now : UInt64) :
    WorkerExact prims works vd (c.setWorkerDifficulty d now) :=
  { h with minimum := hmin, maximum := hmax }

theorem WorkerExact.resetAverageSharePeriodMs (h : WorkerExact prims works vd c) (now : UInt64) :
    WorkerExact prims works vd (c.resetAverageSharePeriodMs now) :=
  { h with
    valid := by simp [ConnectionContext.resetAverageSharePeriodMs]
    period := le_rfl }

theorem workerExact_initAndStartTimers (hbounds : vd.targetMin ≤ vd.targetMax) (now : UInt64) :
    WorkerExact prims works vd (ConnectionContext.initAndStartTimers vd now) where
  vdParams := rfl
  hashes := rfl
  valid := rfl
  period := le_rfl
  different := List.nodup_nil
  met _ hshare := absurd hshare List.not_mem_nil
  minimum := (toNat_wide vd.targetMin).ge
  maximum := (toNat_wide vd.targetMin).le.trans (UInt64.le_iff_toNat_le.mp hbounds)

/-- The wanted difficulty is brought between the bounds. -/
theorem clamp_between (hvd : c.vdParams = vd) (hbounds : vd.targetMin.toNat ≤ vd.targetMax.toNat)
    (d : WideDifficulty) :
    vd.targetMin.toNat ≤ (c.clamp d).toNat ∧ (c.clamp d).toNat ≤ vd.targetMax.toNat := by
  have hmin := toNat_wide vd.targetMin
  have hmax := toNat_wide vd.targetMax
  -- the minimum comes first, and the maximum is not below it
  have hupper : ∀ d : WideDifficulty, vd.targetMin.toNat ≤ d.toNat →
      let d := if d > ConnectionContext.wide vd.targetMax then
        ConnectionContext.wide vd.targetMax else d
      vd.targetMin.toNat ≤ d.toNat ∧ d.toNat ≤ vd.targetMax.toNat := by
    intro d hd
    by_cases habove : d > ConnectionContext.wide vd.targetMax
    · simp [habove, hmax, hbounds]
    · have hle : d.toNat ≤ vd.targetMax.toNat := by
        rw [gt_iff_lt, BitVec.lt_def, hmax, not_lt] at habove
        exact habove
      simp [habove, hd, hle]
  rw [ConnectionContext.clamp, hvd]
  apply hupper
  split
  · exact hmin.ge
  · rename_i hnot
    rw [BitVec.lt_def, hmin, not_lt] at hnot
    exact hnot

theorem WorkerExact.adjust (h : WorkerExact prims works vd c) (now : UInt64) :
    WorkerExact prims works vd (c.adjustWorkerDifficultyIfNeeded now) := by
  rw [ConnectionContext.adjustWorkerDifficultyIfNeeded]
  dsimp only
  split
  · split
    · split
      · obtain ⟨hmin, hmax⟩ := clamp_between h.vdParams (h.minimum.trans h.maximum)
          (c.wantedDifficulty now)
        apply WorkerExact.resetAverageSharePeriodMs
        exact h.setWorkerDifficulty hmin hmax now
      · exact h
    · exact h
  · exact h

/-- A share that met the difficulty and was not noted before. -/
def NewShare (c : ConnectionContext) (ethash : Hash) (nonce : UInt64) : Prop :=
  ∀ share ∈ c.metShares, ¬ (share.ethash = ethash ∧ share.nonce = nonce)

theorem noteShare_of_new {ethash : Hash} {nonce : UInt64} (hnew : NewShare c ethash nonce) :
    c.noteShare true ethash nonce =
      { c with metShares := c.metShares ++ [⟨ethash, nonce, c.workerDifficulty⟩] } := by
  rw [ConnectionContext.noteShare, if_pos ⟨rfl, hnew⟩]

theorem noteShare_of_not_met {ethash : Hash} {nonce : UInt64} :
    c.noteShare false ethash nonce = c := by
  simp [ConnectionContext.noteShare]

theorem noteShare_of_not_new {met : Bool} {ethash : Hash} {nonce : UInt64}
    (hold : ¬ NewShare c ethash nonce) : c.noteShare met ethash nonce = c := by
  rw [ConnectionContext.noteShare, if_neg fun h => hold h.2]

/-- A new share that met the difficulty is credited. -/
theorem WorkerExact.credit (h : WorkerExact prims works vd c) {ethash : Hash} {nonce : UInt64}
    (hnew : NewShare c ethash nonce)
    (hmet : MetShare.Met prims works ⟨ethash, nonce, c.workerDifficulty⟩) :
    WorkerExact prims works vd (c.noteShare true ethash nonce).incrementNormalSharesCount := by
  rw [noteShare_of_new hnew]
  have hlength : c.metShares.length + 1 - c.periodStart =
      c.metShares.length - c.periodStart + 1 := by
    have hperiod := h.period
    omega
  refine { h with hashes := ?_, valid := ?_, period := ?_, different := ?_, met := ?_ }
  · simp [ConnectionContext.incrementNormalSharesCount, h.hashes]
  · simp only [ConnectionContext.incrementNormalSharesCount, List.length_append,
      List.length_singleton, hlength, h.valid, UInt64.ofNat_add]
    rfl
  · simp only [ConnectionContext.incrementNormalSharesCount, List.length_append]
    exact h.period.trans (Nat.le_add_right _ _)
  · -- the new pair is not among the old ones
    simp only [ConnectionContext.incrementNormalSharesCount, List.map_append, List.map_cons,
      List.map_nil]
    rw [← List.concat_eq_append]
    refine h.different.concat fun hmem => ?_
    obtain ⟨share, hshare, hpair⟩ := List.mem_map.mp hmem
    rw [Prod.mk.injEq] at hpair
    exact hnew share hshare hpair
  · intro share hshare
    rcases List.mem_append.mp hshare with hold | hlast
    · exact h.met share hold
    · rw [List.mem_singleton.mp hlast]
      exact hmet

end

/-! ## What holds of the server -/

namespace Server

variable {κ : Type} (prims : StratumPrimitives)

/-- The hash of the work is that of the template at hand, and all workers are credited exactly. -/
structure SharesExact (s : Server κ) : Prop where
  template : s.works ≠ [] → s.blockTemplateEthash = getBlockHeaderMiningHash prims s.blockTemplate
  workers : ∀ ph ∈ s.protocolHandlers, WorkerExact prims s.works s.vdiffParams ph.context

/-- Besides, the template at hand is the one that the last work was made of, up to the nonce, and
no two handlers are of one connection. -/
structure Exact (s : Server κ) : Prop extends SharesExact prims s where
  atHand : ∀ b, s.works.head? = some b → ∃ nonce, s.blockTemplate = { b with nonce }
  unique : ∀ ph ∈ s.protocolHandlers, ∀ other ∈ s.protocolHandlers,
    ph.connectionId = other.connectionId → ph = other

/-- A block goes to the core only with the template whose work was solved. -/
def BlocksSolved (s : Server κ) (messages : List (Message κ)) : Prop :=
  ∀ block ethash, .blockFound block ethash ∈ messages →
    ∃ b nonce, s.workOf prims ethash = some b ∧ block = { b with nonce } ∧
      checkHash (prims.getBlockLonghash (getBlockHeight b) ethash nonce) s.networkDifficulty = true

variable {prims} {s : Server κ}

/-! ## Updates of the template -/

/-- A new template is made if one is due. -/
def MakesTemplate (prims : StratumPrimitives) (s : Server κ) (v : CoreView) : Prop :=
  s.keepsTemplate v = false → (createBlockTemplate prims s.minerAddr v.template).1 = true

theorem not_blockFound_setWorkForAllWorkers (v : CoreView) (block : Block) (ethash : Hash) :
    Message.blockFound block ethash ∉ (s.setWorkForAllWorkers prims v).2 := by
  intro h
  obtain ⟨ph, -, hph⟩ := List.mem_filterMap.mp h
  cases hcached : ph.cachedWorkJson <;> simp [hcached] at hph

theorem unique_map {handlers : List (ProtocolHandler κ)}
    {f : ProtocolHandler κ → ProtocolHandler κ}
    (h : ∀ ph ∈ handlers, ∀ other ∈ handlers, ph.connectionId = other.connectionId → ph = other)
    (hid : ∀ ph, (f ph).connectionId = ph.connectionId) :
    ∀ ph ∈ handlers.map f, ∀ other ∈ handlers.map f,
      ph.connectionId = other.connectionId → ph = other := by
  intro ph hph other hother hsame
  obtain ⟨ph₀, hph₀, rfl⟩ := List.mem_map.mp hph
  obtain ⟨other₀, hother₀, rfl⟩ := List.mem_map.mp hother
  rw [hid, hid] at hsame
  rw [h ph₀ hph₀ other₀ hother₀ hsame]

/-- The new work is that of the new template, and the workers' difficulties are adjusted. -/
theorem Exact.made (h : Exact prims s) (v : CoreView) :
    Exact prims ((withTemplate prims s v).setWorkForAllWorkers prims v).1 where
  template _ := rfl
  workers ph hph := by
    obtain ⟨ph₀, hph₀, rfl⟩ := List.mem_map.mp hph
    exact ((h.workers ph₀ hph₀).cons _).adjust v.now
  atHand b hb := by
    cases hb
    exact ⟨_, rfl⟩
  unique := unique_map h.unique fun _ => rfl

/-- What an update keeps if the template can be made. -/
structure Updated (prims : StratumPrimitives) (s : Server κ)
    (o : Bool × Server κ × List (Message κ)) : Prop where
  exact : Exact prims o.2.1
  noBlock : ∀ block ethash, .blockFound block ethash ∉ o.2.2

theorem Exact.updateBlockTemplate (h : Exact prims s) {v : CoreView}
    (hmakes : s.MakesTemplate prims v) : Updated prims s (s.updateBlockTemplate prims v) := by
  cases hkeeps : s.keepsTemplate v with
  | true =>
      rw [updateBlockTemplate_kept_template hkeeps]
      exact ⟨h, by simp⟩
  | false =>
      rw [updateBlockTemplate_made hkeeps (hmakes hkeeps)]
      exact ⟨h.made v, fun block ethash => not_blockFound_setWorkForAllWorkers v block ethash⟩

theorem Exact.updateIfSyncronized (h : Exact prims s) {v : CoreView}
    (hmakes : s.isCoreSyncronized v = true → s.MakesTemplate prims v) :
    Updated prims s (s.updateIfSyncronized prims v) := by
  rw [Server.updateIfSyncronized]
  by_cases hsync : s.isCoreSyncronized v = true
  · rw [if_pos hsync]
    exact h.updateBlockTemplate (hmakes hsync)
  · rw [if_neg hsync]
    exact ⟨h, by simp⟩

theorem Exact.setMinerAddress (h : Exact prims s) (addr : AccountPublicAddress) :
    Exact prims (s.setMinerAddress addr) :=
  { h with }

/-- A noted share met the difficulty of its worker. -/
theorem met_of_meetsDifficulty {c : ConnectionContext} {nonce : UInt64} {ethash : Hash}
    (h : s.meetsDifficulty prims c nonce ethash = true) :
    MetShare.Met prims s.works ⟨ethash, nonce, c.workerDifficulty⟩ := by
  rw [meetsDifficulty] at h
  cases hwork : s.workOf prims ethash with
  | none => simp [hwork] at h
  | some b =>
      rw [hwork] at h
      have hhash := List.find?_some hwork
      exact ⟨b, List.mem_of_find?_eq_some hwork, of_decide_eq_true hhash, h⟩

/-- A share of the work at hand is checked with the template at hand. -/
theorem Exact.work_at_hand (h : Exact prims s) (hworks : s.works ≠ []) :
    ∃ b nonce, s.workOf prims s.blockTemplateEthash = some b ∧
      s.blockTemplate = { b with nonce } := by
  obtain ⟨b, rest, hlist⟩ := List.exists_cons_of_ne_nil hworks
  obtain ⟨nonce, hnonce⟩ := h.atHand b (by rw [hlist]; rfl)
  have hhash : getBlockHeaderMiningHash prims b = s.blockTemplateEthash := by
    rw [h.template hworks, hnonce]
    rfl
  refine ⟨b, nonce, ?_, hnonce⟩
  rw [workOf, hlist, List.find?_cons_of_pos (by simpa using hhash)]

theorem Exact.meetsDifficulty_at_hand (h : Exact prims s) (hworks : s.works ≠ [])
    (c : ConnectionContext) (nonce : UInt64) :
    s.meetsDifficulty prims c nonce s.blockTemplateEthash =
      checkHash (prims.getBlockLonghash (getBlockHeight s.blockTemplate) s.blockTemplateEthash
        nonce) c.workerDifficulty := by
  obtain ⟨b, nonce', hwork, htemplate⟩ := h.work_at_hand hworks
  rw [meetsDifficulty, hwork, htemplate]
  rfl

/-- What is asked of one step. -/
structure StepExact (prims : StratumPrimitives) (s : Server κ)
    (o : Server κ × List (Message κ)) : Prop where
  exact : Exact prims o.1
  solved : BlocksSolved prims s o.2

theorem Exact.stepExact {o : Server κ × List (Message κ)} (h : Exact prims o.1)
    (hnone : ∀ block ethash, .blockFound block ethash ∉ o.2) : StepExact prims s o :=
  ⟨h, fun block ethash hblock => absurd hblock (hnone block ethash)⟩

theorem exact_init (minerAddr : AccountPublicAddress) (vdiffParams : VdiffParams)
    (period : UInt64) (isCoreAlwaysOnline : Bool) (prevBlockTemplateEthash : Hash) :
    Exact (κ := κ) prims
      (init minerAddr vdiffParams period isCoreAlwaysOnline prevBlockTemplateEthash) where
  template hworks := absurd rfl hworks
  workers ph hph := absurd hph List.not_mem_nil
  atHand b hb := by cases hb
  unique ph hph := absurd hph List.not_mem_nil

section

variable [DecidableEq κ]

/-- A handler that is changed in place keeps what is exact about its worker. -/
theorem Exact.modifyHandler (h : Exact prims s) {client : κ}
    {f : ProtocolHandler κ → ProtocolHandler κ}
    (hid : ∀ ph, (f ph).connectionId = ph.connectionId)
    (hf : ∀ ph ∈ s.protocolHandlers, ph.connectionId = client →
      WorkerExact prims s.works s.vdiffParams (f ph).context) :
    Exact prims (s.modifyHandler client f) :=
  { h with
    unique := unique_map h.unique fun ph => by split <;> simp [hid]
    workers := fun ph hph => by
      obtain ⟨ph₀, hph₀, rfl⟩ := List.mem_map.mp hph
      split
      · rename_i hclient
        exact hf ph₀ hph₀ hclient
      · exact h.workers ph₀ hph₀ }

theorem Exact.setWork (h : Exact prims s) (client : κ) (json : WorkJson) :
    Exact prims (s.setWork client json) :=
  h.modifyHandler (fun _ => rfl) fun ph hph _ => h.workers ph hph

theorem Exact.setPhase (h : Exact prims s) (client : κ) (phase : GetWorkPhase) :
    Exact prims (s.setPhase client phase) :=
  h.modifyHandler (fun _ => rfl) fun ph hph _ => h.workers ph hph

theorem Exact.updateWork (h : Exact prims s) (client : κ) {v : CoreView}
    (hmakes : s.isCoreSyncronized v = true → s.MakesTemplate prims v) :
    Exact prims (s.updateWork prims client v).1 ∧
      ∀ block ethash, .blockFound block ethash ∉ (s.updateWork prims client v).2 := by
  have hupdate := h.updateIfSyncronized hmakes
  rw [Server.updateWork]
  rcases hmade : s.updateIfSyncronized prims v with ⟨updated, s₁, messages⟩
  rw [hmade] at hupdate
  cases updated with
  | true => exact ⟨hupdate.exact, hupdate.noBlock⟩
  | false => exact ⟨hupdate.exact.setWork client _, hupdate.noBlock⟩

/-! ## Logins -/

/-- The address after a login that is not answered with an error. -/
def acceptedLogin? (prims : StratumPrimitives) (s : Server κ) (userStr : ByteString) :
    Option AccountPublicAddress :=
  if userStr = workerAllowedUsername then
    if s.minerAddr = nullPubAddr then none else some s.minerAddr
  else
    match getAccountAddressFromStr prims.toAddressPrimitives userStr with
    | .parsed addr => if s.minerAddr = nullPubAddr ∨ addr = s.minerAddr then some addr else none
    | _ => none

/-- A login that is accepted sets a difficulty between the bounds, if any. -/
def LoginRegular (prims : StratumPrimitives) (s : Server κ) (userStr : ByteString)
    (startDifficulty : UInt64) (v : CoreView) : Prop :=
  ∀ addr, s.acceptedLogin? prims userStr = some addr →
    (startDifficulty ≠ 0 → s.vdiffParams.targetMin ≤ startDifficulty ∧
      startDifficulty ≤ s.vdiffParams.targetMax) ∧
    (s.isCoreSyncronized v = true → (s.setMinerAddress addr).MakesTemplate prims v)

theorem Exact.loggedIn (h : Exact prims s) (client : κ) (workerStr : ByteString)
    {startDifficulty : UInt64} (v : CoreView)
    (hbounds : startDifficulty ≠ 0 → s.vdiffParams.targetMin ≤ startDifficulty ∧
      startDifficulty ≤ s.vdiffParams.targetMax) :
    Exact prims (s.loggedIn client workerStr startDifficulty v) := by
  refine h.modifyHandler (fun _ => rfl) fun ph hph _ => ?_
  have hworker := h.workers ph hph
  have hnamed : WorkerExact prims s.works s.vdiffParams
      { ph.context with workerName := workerStr } := { hworker with }
  dsimp only
  split
  · rename_i hset
    obtain ⟨hmin, hmax⟩ := hbounds hset
    have hd := toNat_wide startDifficulty
    apply hnamed.setWorkerDifficulty
    · exact (UInt64.le_iff_toNat_le.mp hmin).trans hd.ge
    · exact hd.le.trans (UInt64.le_iff_toNat_le.mp hmax)
  · exact hnamed

theorem Exact.finishLogin (h : Exact prims s) (client : κ) (workerStr : ByteString)
    {startDifficulty : UInt64} {errors : List String} {v : CoreView}
    (hregular : errors = [] → (startDifficulty ≠ 0 →
        s.vdiffParams.targetMin ≤ startDifficulty ∧ startDifficulty ≤ s.vdiffParams.targetMax) ∧
      (s.isCoreSyncronized v = true → s.MakesTemplate prims v)) :
    let o := s.finishLogin prims client workerStr startDifficulty errors v
    Exact prims o.1 ∧ ∀ block ethash, .blockFound block ethash ∉ o.2 := by
  by_cases herrors : errors = []
  · obtain ⟨hbounds, hmakes⟩ := hregular herrors
    rw [herrors, finishLogin_of_no_errors]
    obtain ⟨hexact, hnone⟩ := (h.loggedIn client workerStr v hbounds).updateWork client hmakes
    exact ⟨hexact, by simpa using hnone⟩
  · rw [Server.finishLogin, if_pos herrors]
    exact ⟨h, by simp⟩

theorem Exact.handleLogin (h : Exact prims s) (client : κ) {userStr : ByteString}
    (workerStr : ByteString) {startDifficulty : UInt64} {v : CoreView}
    (hregular : s.LoginRegular prims userStr startDifficulty v) :
    let o := s.handleLogin prims client userStr workerStr startDifficulty v
    Exact prims o.1 ∧ ∀ block ethash, .blockFound block ethash ∉ o.2 := by
  unfold LoginRegular acceptedLogin? at hregular
  rw [Server.handleLogin]
  by_cases huser : userStr = workerAllowedUsername
  · rw [if_pos huser] at hregular ⊢
    refine h.finishLogin client workerStr fun herrors => ?_
    have hset : s.minerAddr ≠ nullPubAddr := by simpa using herrors
    exact hregular s.minerAddr (if_neg hset)
  rw [if_neg huser] at hregular ⊢
  cases hparse : getAccountAddressFromStr prims.toAddressPrimitives userStr with
  | thrown => exact ⟨h, by simp⟩
  | refused addr =>
      refine (h.setMinerAddress addr).finishLogin client workerStr fun herrors => ?_
      simp [addressErrors] at herrors
  | parsed addr =>
      refine (h.setMinerAddress addr).finishLogin client workerStr fun herrors => ?_
      rw [hparse] at hregular
      -- without errors the address is the one that is set, or none is set
      have hfits : s.minerAddr = nullPubAddr ∨ addr = s.minerAddr := by
        by_contra hother
        rw [not_or] at hother
        simp [addressErrors, hother] at herrors
      exact hregular addr (if_pos hfits)

/-! ## Shares -/

/-- A share that the server hears is for a work that was made, is not sent twice and, if its work is
the previous one, meets the difficulty all the same; a share that meets the difficulty is heard. -/
structure ShareRegular (prims : StratumPrimitives) (s : Server κ) (c : ConnectionContext)
    (nonce : UInt64) (ethash : Hash) (v : CoreView) : Prop where
  hasWork : s.isCoreSyncronized v = true → ethash = s.blockTemplateEthash → s.works ≠ []
  notRepeated : s.isCoreSyncronized v = true →
    ethash = s.blockTemplateEthash ∨ ethash = s.prevBlockTemplateEthash →
      s.meetsDifficulty prims c nonce ethash = true → NewShare c ethash nonce
  staleMeets : s.isCoreSyncronized v = true → ethash ≠ s.blockTemplateEthash →
    ethash = s.prevBlockTemplateEthash → s.meetsDifficulty prims c nonce ethash = true
  heard : s.meetsDifficulty prims c nonce ethash = true → NewShare c ethash nonce →
    s.isCoreSyncronized v = true ∧
      (ethash = s.blockTemplateEthash ∨ ethash = s.prevBlockTemplateEthash)

/-- The state in which a share was noted. -/
def noted (prims : StratumPrimitives) (s : Server κ) (client : κ) (nonce : UInt64)
    (ethash : Hash) : Server κ :=
  s.modifyContext client fun c =>
    c.noteShare (s.meetsDifficulty prims c nonce ethash) ethash nonce

theorem Exact.of_handler (h : Exact prims s) {client : κ} {ph₀ ph : ProtocolHandler κ}
    (hhandler : s.handler? client = some ph₀) (hph : ph ∈ s.protocolHandlers)
    (hclient : ph.connectionId = client) : ph = ph₀ := by
  obtain ⟨hph₀, hid⟩ := of_handler?_eq_some hhandler
  exact h.unique ph hph ph₀ hph₀ (hclient.trans hid.symm)

/-- A share that is not credited is not noted. -/
theorem Exact.noted_of_not_met (h : Exact prims s) {client : κ} {ph : ProtocolHandler κ}
    (hhandler : s.handler? client = some ph) {nonce : UInt64} {ethash : Hash}
    (hnot : s.meetsDifficulty prims ph.context nonce ethash = true →
      ¬ NewShare ph.context ethash nonce) : Exact prims (s.noted prims client nonce ethash) := by
  refine h.modifyHandler (fun _ => rfl) fun ph' hph' hclient => ?_
  rw [h.of_handler hhandler hph' hclient]
  have hworker := h.workers ph (of_handler?_eq_some hhandler).1
  dsimp only
  cases hmet : s.meetsDifficulty prims ph.context nonce ethash with
  | false =>
      rw [noteShare_of_not_met]
      exact hworker
  | true =>
      rw [noteShare_of_not_new (hnot hmet)]
      exact hworker

theorem modifyContext_modifyContext (client : κ) (f g : ConnectionContext → ConnectionContext) :
    (s.modifyContext client f).modifyContext client g =
      s.modifyContext client fun c => g (f c) := by
  have hmap : (s.modifyContext client f).protocolHandlers.map (fun ph =>
        if ph.connectionId = client then { ph with context := g ph.context } else ph) =
      s.protocolHandlers.map fun ph =>
        if ph.connectionId = client then { ph with context := g (f ph.context) } else ph := by
    rw [modifyContext, modifyHandler, List.map_map]
    refine List.map_congr_left fun ph _ => ?_
    by_cases hclient : ph.connectionId = client <;> simp [hclient]
  exact congrArg (fun handlers => { s with protocolHandlers := handlers }) hmap

/-- A share that is credited is a new one. -/
theorem Exact.credited (h : Exact prims s) {client : κ} {ph : ProtocolHandler κ}
    (hhandler : s.handler? client = some ph) {nonce : UInt64} {ethash : Hash}
    (hmet : s.meetsDifficulty prims ph.context nonce ethash = true)
    (hnew : NewShare ph.context ethash nonce) :
    Exact prims ((s.noted prims client nonce ethash).modifyContext client
      ConnectionContext.incrementNormalSharesCount) := by
  have htwice : (s.noted prims client nonce ethash).modifyContext client
      ConnectionContext.incrementNormalSharesCount = s.modifyContext client fun c =>
        (c.noteShare (s.meetsDifficulty prims c nonce ethash) ethash
          nonce).incrementNormalSharesCount :=
    modifyContext_modifyContext client _ _
  rw [htwice]
  refine h.modifyHandler (fun _ => rfl) fun ph' hph' hclient => ?_
  rw [h.of_handler hhandler hph' hclient]
  dsimp only
  rw [hmet]
  exact (h.workers ph (of_handler?_eq_some hhandler).1).credit hnew
    (met_of_meetsDifficulty hmet)

/-- The core has taken the block. -/
def BlockFoundResult.added (found : BlockFoundResult) : Bool :=
  found.handled && !found.verificationFailed && !found.addedToAltchain &&
    found.addedToMainChain && !found.alreadyExists && !found.markedAsOrphaned

theorem Exact.submitBlock (h : Exact prims s) (client : κ) (nonce : UInt64) (ethash : Hash)
    {found : BlockFoundResult}
    (hmakes : BlockFoundResult.added found = true → s.MakesTemplate prims found.after) :
    let o := s.submitBlock prims client nonce ethash found
    Exact prims o.1 ∧ ∀ block ethash', .blockFound block ethash' ∈ o.2 →
      block = { s.blockTemplate with nonce } ∧ ethash' = ethash := by
  have hnonce : Exact prims { s with blockTemplate := { s.blockTemplate with nonce } } :=
    { h with
      atHand := fun b hb => by
        obtain ⟨nonce', htemplate⟩ := h.atHand b hb
        exact ⟨nonce, by rw [htemplate]⟩ }
  rw [Server.submitBlock]
  split
  · rename_i hadded
    have hupdate := hnonce.updateBlockTemplate (v := found.after)
      (hmakes (by simpa [BlockFoundResult.added, and_assoc] using hadded))
    refine ⟨?_, fun block ethash' hblock => ?_⟩
    · have hcounted : Exact prims (Server.modifyHandler _ client fun ph =>
          { ph with context := ph.context.incrementBlocksCount }) :=
        hupdate.exact.modifyHandler (fun _ => rfl)
          fun ph hph _ => { hupdate.exact.workers ph hph with }
      exact { hcounted with }
    · rcases List.mem_cons.mp hblock with hblock | hblock
      · cases hblock
        exact ⟨rfl, rfl⟩
      · exact absurd hblock (hupdate.noBlock block ethash')
  · refine ⟨hnonce, fun block ethash' hblock => ?_⟩
    rw [List.mem_singleton] at hblock
    cases hblock
    exact ⟨rfl, rfl⟩

/-- The worker of the client is the one whose handler is heard. -/
theorem workerDifficultyOf_noted {client : κ} {ph : ProtocolHandler κ}
    (hhandler : s.handler? client = some ph) (nonce : UInt64) (ethash : Hash) :
    (s.noted prims client nonce ethash).workerDifficultyOf client =
      ph.context.workerDifficulty := by
  have hfound : (s.noted prims client nonce ethash).handler? client =
      some { ph with
        context := ph.context.noteShare (s.meetsDifficulty prims ph.context nonce ethash) ethash
          nonce } := by
    rw [handler?] at hhandler ⊢
    simp only [noted, modifyContext, modifyHandler, List.find?_map]
    have hsame : ((fun ph : ProtocolHandler κ => decide (ph.connectionId = client)) ∘ fun ph =>
        if ph.connectionId = client then
          { ph with
            context := ph.context.noteShare (s.meetsDifficulty prims ph.context nonce ethash) ethash
              nonce }
        else ph) =
        fun ph => decide (ph.connectionId = client) := by
      funext ph
      by_cases hclient : ph.connectionId = client <;> simp [hclient]
    rw [hsame, hhandler, Option.map_some, if_pos (of_handler?_eq_some hhandler).2]
  rw [workerDifficultyOf, hfound]
  simp only [Option.map_some, Option.getD_some, ConnectionContext.noteShare]
  split <;> rfl

/-- A regular share is credited exactly if it is noted, and a block is made of the template whose
work it solves. -/
theorem Exact.handleMethodEthSubmitWork (h : Exact prims s) {client : κ} {ph : ProtocolHandler κ}
    (hhandler : s.handler? client = some ph) {nonce : UInt64} {ethash : Hash} {v : CoreView}
    {found : BlockFoundResult} (hshare : ShareRegular prims s ph.context nonce ethash v)
    (hmakes : BlockFoundResult.added found = true → s.MakesTemplate prims found.after) :
    StepExact prims s (s.handleMethodEthSubmitWork prims client nonce ethash v found) := by
  have hnoted : s.handleMethodEthSubmitWork prims client nonce ethash v found =
      (s.noted prims client nonce ethash).handleWork prims client nonce ethash v found := rfl
  rw [hnoted, Server.handleWork]
  dsimp only
  by_cases hsync : s.isCoreSyncronized v = true
  swap
  · -- the core is not synchronized: nothing is credited
    have hsync' : (s.noted prims client nonce ethash).isCoreSyncronized v = false :=
      Bool.eq_false_iff.mpr hsync
    rw [hsync']
    refine Exact.stepExact (h.noted_of_not_met hhandler fun hmet hnew => ?_) (by simp)
    exact hsync (hshare.heard hmet hnew).1
  have hsync' : (s.noted prims client nonce ethash).isCoreSyncronized v = true := hsync
  rw [hsync', if_neg (by decide)]
  by_cases hother : ethash ≠ s.blockTemplateEthash
  · have hother' : ethash ≠ (s.noted prims client nonce ethash).blockTemplateEthash := hother
    rw [if_pos hother']
    by_cases hstale : ethash = s.prevBlockTemplateEthash
    · have hstale' : ethash = (s.noted prims client nonce ethash).prevBlockTemplateEthash := hstale
      rw [if_pos hstale']
      have hmet := hshare.staleMeets hsync hother hstale
      have hnew := hshare.notRepeated hsync (Or.inr hstale) hmet
      exact Exact.stepExact (h.credited hhandler hmet hnew) (by simp)
    · have hstale' : ethash ≠ (s.noted prims client nonce ethash).prevBlockTemplateEthash := hstale
      rw [if_neg hstale']
      refine Exact.stepExact (h.noted_of_not_met hhandler fun hmet hnew => ?_) (by simp)
      rcases (hshare.heard hmet hnew).2 with hcurrent | hprevious
      · exact hother hcurrent
      · exact hstale hprevious
  rw [ne_eq, not_not] at hother
  have hworks := hshare.hasWork hsync hother
  rw [if_neg (show ¬ ethash ≠ (s.noted prims client nonce ethash).blockTemplateEthash from
    not_not.mpr hother)]
  -- the check is that of the noted share
  have hcheck : checkHash (prims.getBlockLonghash (getBlockHeight s.blockTemplate)
      s.blockTemplateEthash nonce) ph.context.workerDifficulty =
        s.meetsDifficulty prims ph.context nonce ethash := by
    rw [hother]
    exact (h.meetsDifficulty_at_hand hworks ph.context nonce).symm
  rw [workerDifficultyOf_noted hhandler, show (s.noted prims client nonce ethash).blockTemplate =
    s.blockTemplate from rfl, show (s.noted prims client nonce ethash).blockTemplateEthash =
      s.blockTemplateEthash from rfl, hcheck]
  cases hmet : s.meetsDifficulty prims ph.context nonce ethash with
  | false =>
      refine Exact.stepExact (h.noted_of_not_met hhandler fun hmet' => ?_) (by simp)
      rw [hmet] at hmet'
      cases hmet'
  | true =>
      have hcredited := h.credited hhandler hmet (hshare.notRepeated hsync (Or.inl hother) hmet)
      rw [if_neg (by decide)]
      split
      · exact Exact.stepExact hcredited (by simp)
      · rename_i hnetwork
        obtain ⟨hexact, hblocks⟩ := hcredited.submitBlock client nonce ethash hmakes
        refine ⟨hexact, fun block ethash' hblock => ?_⟩
        have hblock' := (List.mem_cons.mp hblock).resolve_left (by simp)
        obtain ⟨rfl, rfl⟩ := hblocks block ethash' hblock'
        obtain ⟨b, nonce', hwork, htemplate⟩ := h.work_at_hand hworks
        have hnetwork' : checkHash (prims.getBlockLonghash (getBlockHeight s.blockTemplate)
            s.blockTemplateEthash nonce) s.networkDifficulty = true := by
          rw [Bool.not_eq_true', Bool.not_eq_false] at hnetwork
          exact hnetwork
        rw [← hother] at hwork hnetwork'
        rw [htemplate] at hnetwork'
        refine ⟨b, nonce, hwork, ?_, hnetwork'⟩
        show ({ s.blockTemplate with nonce } : Block) = _
        rw [htemplate]

/-! ## Runs -/

/-- Every template that is due is made, logins and options keep to the bounds, and shares are
regular. -/
def Regular (prims : StratumPrimitives) (s : Server κ) : Event κ → Prop
  | .afterInitConnection _ _ => s.vdiffParams.targetMin ≤ s.vdiffParams.targetMax
  | .blockTemplateUpdateThread v => s.isCoreSyncronized v = true → s.MakesTemplate prims v
  | .onBlockchainUpdate v => s.isCoreSyncronized v = true → s.MakesTemplate prims v
  | .getWork _ v => s.isCoreSyncronized v = true → s.MakesTemplate prims v
  | .submitLogin _ userStr _ v => ∀ user startDifficulty,
      splitUsername userStr = some (user, startDifficulty) →
        s.LoginRegular prims user startDifficulty v
  | .submitWork client nonce headerHash v found => ∀ ph, s.handler? client = some ph →
      ShareRegular prims s ph.context nonce headerHash v ∧
        (BlockFoundResult.added found = true → s.MakesTemplate prims found.after)
  | _ => True

theorem Exact.submitLogin (h : Exact prims s) {client : κ} {userStr workerStr : ByteString}
    {v : CoreView} (hregular : s.Regular prims (.submitLogin client userStr workerStr v)) :
    StepExact prims s (s.step prims (.submitLogin client userStr workerStr v)) := by
  have hcounted : Exact prims { s with namelessWorkerId := s.namelessWorkerId + 1 } := { h with }
  rw [Server.step]
  cases s.handler? client with
  | none => exact Exact.stepExact h (by simp)
  | some ph =>
      dsimp only
      rw [handleMethodEthSubmitLogin]
      cases hsplit : splitUsername userStr with
      | none =>
          by_cases hnameless : workerStr = []
          · simp only [hnameless, if_true]
            exact Exact.stepExact hcounted (by simp)
          · simp only [hnameless, if_false]
            exact Exact.stepExact h (by simp)
      | some parts =>
          obtain ⟨user, startDifficulty⟩ := parts
          have hlogin := hregular user startDifficulty hsplit
          by_cases hnameless : workerStr = []
          · simp only [hnameless, if_true]
            obtain ⟨hexact, hnone⟩ :=
              hcounted.handleLogin client (toDecimal s.namelessWorkerId) hlogin
            exact Exact.stepExact hexact hnone
          · simp only [hnameless, if_false]
            obtain ⟨hexact, hnone⟩ := h.handleLogin client workerStr hlogin
            exact Exact.stepExact hexact hnone

theorem Exact.getWork (h : Exact prims s) (client : κ) {v : CoreView}
    (hmakes : s.isCoreSyncronized v = true → s.MakesTemplate prims v) :
    StepExact prims s (s.step prims (.getWork client v)) := by
  rw [Server.step]
  cases s.handler? client with
  | none => exact Exact.stepExact h (by simp)
  | some ph =>
      dsimp only
      have hupdate := h.updateIfSyncronized hmakes
      rcases hmade : s.updateIfSyncronized prims v with ⟨updated, s₁, messages⟩
      rw [hmade] at hupdate
      exact Exact.stepExact (hupdate.exact.setPhase client _) hupdate.noBlock

theorem Exact.afterInitConnection (h : Exact prims s) (client : κ) (now : UInt64)
    (hbounds : s.vdiffParams.targetMin ≤ s.vdiffParams.targetMax) :
    Exact prims (s.afterInitConnection client now) :=
  { h with
    workers := fun ph hph => by
      rcases List.mem_cons.mp hph with rfl | hold
      · exact workerExact_initAndStartTimers hbounds now
      · exact h.workers ph (List.mem_filter.mp hold).1
    unique := fun ph hph other hother hsame => by
      rcases List.mem_cons.mp hph with rfl | hold <;>
        rcases List.mem_cons.mp hother with rfl | hold'
      · rfl
      · exact absurd hsame.symm (by simpa using (List.mem_filter.mp hold').2)
      · exact absurd hsame (by simpa using (List.mem_filter.mp hold).2)
      · exact h.unique ph (List.mem_filter.mp hold).1 other (List.mem_filter.mp hold').1 hsame }

theorem Exact.removeProtocolHandler (h : Exact prims s) (client : κ) :
    Exact prims (s.removeProtocolHandler client) :=
  { h with
    workers := fun ph hph => h.workers ph (List.mem_filter.mp hph).1
    unique := fun ph hph other hother =>
      h.unique ph (List.mem_filter.mp hph).1 other (List.mem_filter.mp hother).1 }

/-- A regular step keeps the accounting exact. -/
theorem Exact.step (h : Exact prims s) {e : Event κ} (hregular : s.Regular prims e) :
    StepExact prims s (s.step prims e) := by
  cases e with
  | afterInitConnection client now =>
      exact Exact.stepExact (h.afterInitConnection client now hregular) (by simp [Server.step])
  | removeProtocolHandler client =>
      exact Exact.stepExact (h.removeProtocolHandler client) (by simp [Server.step])
  | blockTemplateUpdateThread v =>
      rw [Server.step]
      split
      · rename_i hdue
        have hupdate := h.updateBlockTemplate (hregular hdue.1)
        exact Exact.stepExact hupdate.exact hupdate.noBlock
      · exact Exact.stepExact h (by simp)
  | onBlockchainUpdate v =>
      have hupdate := h.updateIfSyncronized hregular
      exact Exact.stepExact hupdate.exact hupdate.noBlock
  | submitLogin client userStr workerStr v => exact h.submitLogin hregular
  | submitWork client nonce headerHash v found =>
      rw [Server.step]
      cases hhandler : s.handler? client with
      | none => exact Exact.stepExact h (by simp)
      | some ph =>
          obtain ⟨hshare, hmakes⟩ := hregular ph hhandler
          exact h.handleMethodEthSubmitWork hhandler hshare hmakes
  | submitHashrate client rate =>
      refine Exact.stepExact (o := s.step prims (.submitHashrate client rate)) ?_
        (by simp [Server.step])
      exact h.modifyHandler (fun _ => rfl) fun ph hph _ => h.workers ph hph
  | getWork client v => exact h.getWork client hregular
  | getWorkJson client v =>
      rw [Server.step]
      split
      · exact Exact.stepExact (h.setPhase client _) (by simp)
      · exact Exact.stepExact h (by simp)
  | setWork client =>
      rw [Server.step]
      split
      · exact Exact.stepExact ((h.setWork client _).setPhase client _) (by simp)
      · exact Exact.stepExact h (by simp)
  | sendWork client =>
      rw [Server.step]
      split
      · rename_i cached _ _
        refine Exact.stepExact (h.setPhase client _) fun block ethash hblock => ?_
        cases cached <;> simp at hblock
      · exact Exact.stepExact h (by simp)

/-- In every run of regular steps the work is that of the template at hand, blocks are handed to
the core with the template whose work was solved, and the workers are credited exactly. -/
theorem shares_exact_of_regular (prims : StratumPrimitives) (minerAddr : AccountPublicAddress)
    (vdiffParams : VdiffParams) (period : UInt64) (isCoreAlwaysOnline : Bool)
    (prevBlockTemplateEthash : Hash) (events : List (Event κ))
    (h : ∀ done e rest, events = done ++ e :: rest →
      Regular prims ((init minerAddr vdiffParams period isCoreAlwaysOnline
        prevBlockTemplateEthash).run prims done) e) :
    let first : Server κ :=
      init minerAddr vdiffParams period isCoreAlwaysOnline prevBlockTemplateEthash
    (∀ done rest, events = done ++ rest → SharesExact prims (first.run prims done)) ∧
    ∀ done e rest, events = done ++ e :: rest →
      BlocksSolved prims (first.run prims done) ((first.run prims done).step prims e).2 := by
  intro first
  have hexact : ∀ done rest, events = done ++ rest → Exact prims (first.run prims done) :=
    RunInvariant.forall_states (Q := Regular prims) (exact_init ..)
      (fun s e hs he => (hs.step he).exact) h
  refine ⟨fun done rest hrun => (hexact done rest hrun).toSharesExact, fun done e rest hrun => ?_⟩
  exact ((hexact done (e :: rest) hrun).step (h done e rest hrun)).solved

end

/-! ## A worker's shares -/

/-- A view in which the pool gives no transactions for a template. -/
def failingView (timestamp : Nat) : CoreView :=
  { sampleView timestamp with
    template := { (sampleView timestamp).template with fillBlockTemplate := none } }

/-- The core takes the block. -/
def sampleFound (timestamp : Nat) : BlockFoundResult :=
  ⟨true, false, false, true, false, false, sampleView timestamp⟩

def sampleTemplate (timestamp : Nat) : Block :=
  (createBlockTemplate samplePrimitives sampleAddress (sampleView timestamp).template).2.1

/-- The hash of the work that is made of the template of a view. -/
def sampleWork (timestamp : Nat) : Hash :=
  getBlockHeaderMiningHash samplePrimitives (sampleTemplate timestamp)

/-- The server after some events that follow a connection and the first template. -/
def sampleRun (events : List (Event Nat)) : Server Nat :=
  (sampleServer sampleAddress).run samplePrimitives
    (.afterInitConnection 1 0 :: .onBlockchainUpdate (sampleView 5) :: events)

def sampleShare (nonce : UInt64) : Event Nat :=
  .submitWork 1 nonce (sampleWork 5) (sampleView 6) (sampleFound 65)

/-- What a worker is credited and its difficulty. -/
def account (s : Server Nat) : List (UInt64 × WideDifficulty × WideDifficulty) :=
  s.protocolHandlers.map fun ph =>
    (ph.context.validSharesCount, ph.context.hashesCalculated, ph.context.workerDifficulty)

theorem meets_sampleShare :
    ((sampleRun []).handler? 1).map (fun ph =>
      ((sampleRun []).meetsDifficulty samplePrimitives ph.context 7 (sampleWork 5),
        ph.context.metShares)) = some (true, []) := by
  decide +kernel

/-- A share that also solves the block. -/
theorem shares_exact_of_regular_sample :
    SharesExact samplePrimitives (sampleRun [sampleShare 7]) ∧
      account (sampleRun [sampleShare 7]) = [(1, 100, 100)] := by
  refine ⟨(shares_exact_of_regular samplePrimitives sampleAddress sampleVdiffParams 30000 false 0
    [.afterInitConnection 1 0, .onBlockchainUpdate (sampleView 5), sampleShare 7] ?_).1 _ [] rfl,
    by decide +kernel⟩
  have hbounds : sampleVdiffParams.targetMin ≤ sampleVdiffParams.targetMax := by decide
  refine RunInvariant.forall_steps_cons hbounds (RunInvariant.forall_steps_cons
    (fun _ _ => by decide +kernel) (RunInvariant.forall_steps_cons ?_
      RunInvariant.forall_steps_nil))
  intro ph hhandler
  have hshare := meets_sampleShare
  rw [show (sampleRun []).handler? 1 = some ph from hhandler, Option.map_some,
    Option.some.injEq, Prod.mk.injEq] at hshare
  obtain ⟨hmet, hnone⟩ := hshare
  have hhash : (sampleRun []).blockTemplateEthash = sampleWork 5 := by decide +kernel
  have hsync : (sampleRun []).isCoreSyncronized (sampleView 6) = true := by decide +kernel
  refine ⟨⟨fun _ _ => ?_, fun _ _ _ => ?_, fun _ hother _ => absurd hhash.symm hother,
    fun _ _ => ⟨hsync, Or.inl hhash.symm⟩⟩, fun _ _ => by decide +kernel⟩
  · show (sampleRun []).works ≠ []
    decide +kernel
  · intro share hmem
    rw [hnone] at hmem
    cases hmem

/-- A failed update leaves the hash of a work whose template is gone, and the core gets another
block for it.  A share that is sent twice counts twice, one for the previous work counts without
meeting the difficulty, and a login sets a difficulty below the minimum. -/
theorem shares_not_exact :
    let s := sampleRun [.onBlockchainUpdate (failingView 65)]
    (s.blockTemplateEthash ≠ getBlockHeaderMiningHash samplePrimitives s.blockTemplate ∧
        .blockFound { s.blockTemplate with nonce := 7 } (sampleWork 5) ∈
          (s.step samplePrimitives (sampleShare 7)).2 ∧
        getBlockHeaderMiningHash samplePrimitives { s.blockTemplate with nonce := 7 } ≠
          sampleWork 5) ∧
    account (sampleRun [sampleShare 500, sampleShare 500]) = [(2, 200, 100)] ∧
    account (sampleRun [.onBlockchainUpdate (sampleView 65), sampleShare 5000]) =
      [(1, 100, 100)] ∧
    account (sampleRun [.submitLogin 1 [109, 105, 110, 101, 114, 45, 49] [119] (sampleView 6)]) =
      [(0, 0, 1)] := by
  intro s
  refine ⟨⟨?_, ?_, ?_⟩, ?_, ?_, ?_⟩
  · decide +kernel
  · decide +kernel
  · decide +kernel
  · decide +kernel
  · decide +kernel
  · decide +kernel

end Server

end Chinet.Stratum
