import Chinet.Lib.RunInvariant
import Chinet.Stratum.Server

/-!
# The address of the miners

All workers of a stratum server mine to one address.  A login with another address is answered
with an error after the address was set, and the work at hand is not renewed for an address that
is set for the first time.
-/

namespace Chinet.Stratum

/-! ## What a template pays -/

/-- The key of the miner transaction is the public key of a secret key, and every output is one
that `construct_tx_out` makes for the address with that secret key. -/
def PaysTo (prims : StratumPrimitives) (b : Block) (addr : AccountPublicAddress) : Prop :=
  ∃ txSec, getTxPubKeyFromExtra b.minerTx.toTransactionPrefix = prims.secretKeyToPublicKey txSec ∧
    ∀ (no : Nat) out, b.minerTx.vout[no]? = some out →
      ∃ key hint?, outEphPublicKey prims txSec no addr = some (key, hint?) ∧
        out.target = keyTarget addr key

section

variable {prims : StratumPrimitives} {addr : AccountPublicAddress}

theorem constructTxOuts_pays {txSec : SecretKey} (amounts : List UInt64) :
    ∀ {no : Nat} {derivCache : List UInt16} {tx tx' : Transaction},
      constructTxOuts prims txSec addr no derivCache tx amounts = (true, tx') →
      tx.vout.length = no →
      (∀ (i : Nat) out, tx.vout[i]? = some out → ∃ key hint?,
        outEphPublicKey prims txSec i addr = some (key, hint?) ∧
          out.target = keyTarget addr key) →
      ∀ (i : Nat) out, tx'.vout[i]? = some out → ∃ key hint?,
        outEphPublicKey prims txSec i addr = some (key, hint?) ∧ out.target = keyTarget addr key := by
  induction amounts with
  | nil =>
      intro no derivCache tx tx' h _ hpaid
      cases h
      exact hpaid
  | cons amount amounts ih =>
      intro no derivCache tx tx' h hlength hpaid
      rw [constructTxOuts] at h
      cases hkey : outEphPublicKey prims txSec no addr with
      | none => simp [hkey] at h
      | some derived =>
          obtain ⟨key, hint?⟩ := derived
          rw [hkey] at h
          refine ih h (by simp [hlength]) fun i out hout => ?_
          rcases Nat.lt_or_ge i tx.vout.length with hlt | hge
          · rw [List.getElem?_append_left hlt] at hout
            exact hpaid i out hout
          · -- the new output is the one with this number
            rw [List.getElem?_append_right hge, List.getElem?_singleton] at hout
            split at hout
            · cases hout
              have hi : i = no := by omega
              exact ⟨key, hint?, hi ▸ hkey, rfl⟩
            · cases hout

/-- The outputs only add hints to the extra. -/
theorem constructTxOuts_extra {txSec : SecretKey} (amounts : List UInt64) :
    ∀ {no : Nat} {derivCache : List UInt16} {tx : Transaction},
      ∃ added, (constructTxOuts prims txSec addr no derivCache tx amounts).2.extra =
        tx.extra ++ added := by
  induction amounts with
  | nil => exact fun {no derivCache tx} => ⟨[], (List.append_nil _).symm⟩
  | cons amount amounts ih =>
      intro no derivCache tx
      rw [constructTxOuts]
      rcases outEphPublicKey prims txSec no addr with _ | ⟨key, _ | hint⟩
      · exact ⟨[], (List.append_nil _).symm⟩
      · exact ih
      · dsimp only
        split
        · exact ih
        · obtain ⟨added, hextra⟩ := ih
          refine ⟨txDerivationHint hint :: added, hextra.trans ?_⟩
          rw [List.append_assoc, List.singleton_append]

theorem constructMinerTx_pays {height : Nat} {outAmounts : List UInt64}
    {txKey : PublicKey × SecretKey} {tx tx' : Transaction}
    (h : constructMinerTx prims height addr outAmounts txKey tx = (true, tx')) :
    getTxPubKeyFromExtra tx'.toTransactionPrefix = txKey.1 ∧
      ∀ (no : Nat) out, tx'.vout[no]? = some out → ∃ key hint?,
        outEphPublicKey prims txKey.2 no addr = some (key, hint?) ∧
          out.target = keyTarget addr key := by
  rw [constructMinerTx] at h
  split at h
  · cases h
  dsimp only at h
  obtain ⟨added, hextra⟩ := @constructTxOuts_extra prims addr txKey.2 outAmounts 0 [] { tx with
      vin := [.gen height], vout := [], extra := [.publicKey txKey.1, .padding []] }
  rcases hout : constructTxOuts prims txKey.2 addr 0 [] { tx with
      vin := [.gen height], vout := [], extra := [.publicKey txKey.1, .padding []] }
      outAmounts with ⟨r, tx₁⟩
  rw [hout] at h hextra
  cases r with
  | false => cases h
  | true =>
      have hpaid := constructTxOuts_pays outAmounts hout rfl fun i out hnone => by
        simp at hnone
      cases h
      refine ⟨?_, hpaid⟩
      -- the key of the transaction is the first item of its extra
      rw [getTxPubKeyFromExtra]
      dsimp only at hextra ⊢
      rw [hextra]
      rfl

/-- A template that the core gives for an address pays it. -/
theorem createBlockTemplate_pays {src : TemplateSource}
    (h : (createBlockTemplate prims addr src).1 = true) :
    PaysTo prims (createBlockTemplate prims addr src).2.1 addr := by
  rw [createBlockTemplate] at h ⊢
  dsimp only at h ⊢
  split at h
  · cases h
  rename_i hdiffic
  rw [if_neg hdiffic]
  cases hfill : src.fillBlockTemplate with
  | none => simp [hfill] at h
  | some txHashes =>
      cases hamounts : src.outAmounts with
      | none => simp [hfill, hamounts] at h
      | some outAmounts =>
          simp only [hfill, hamounts, Bool.and_eq_true] at h ⊢
          exact ⟨src.txSec, constructMinerTx_pays (Prod.ext h.1 rfl)⟩

end

/-! ## The works that wait to be handed out -/

/-- The template that a work was made of. -/
def WorkJson.template? : WorkJson → Option Block
  | .noWork => none
  | .work _ _ _ _ template => template

/-- A client is sent a work. -/
def HandedOut {κ : Type} (messages : List (Message κ)) (json : WorkJson) : Prop :=
  ∃ client, .notification client json ∈ messages ∨ .workResponse client json ∈ messages

namespace Server

variable {κ : Type}

/-- A work that a handler holds. -/
def Carries (s : Server κ) (json : WorkJson) : Prop :=
  ∃ ph ∈ s.protocolHandlers, ph.cachedWorkJson = some json ∨ ph.phase = .needsSet json

variable (prims : StratumPrimitives)

/-- The last template pays the miner address, and so do those of the works that are held; without
a template there is no work. -/
structure WorkPays (s : Server κ) : Prop where
  last : ∀ b, s.works.head? = some b → PaysTo prims b s.minerAddr
  carried : ∀ json, s.Carries json → ∀ b, json.template? = some b →
    s.works ≠ [] ∧ PaysTo prims b s.minerAddr

/-- A step that keeps the address and hands out works that pay it. -/
structure Kept (s : Server κ) (o : Server κ × List (Message κ)) : Prop where
  minerAddr : o.1.minerAddr = s.minerAddr
  workPays : WorkPays prims o.1
  handed : ∀ json, HandedOut o.2 json → ∀ b, json.template? = some b → PaysTo prims b o.1.minerAddr

variable {prims} {s t : Server κ}

theorem not_handedOut_nil (json : WorkJson) : ¬ HandedOut ([] : List (Message κ)) json := by
  rintro ⟨client, h | h⟩ <;> cases h

/-- Nothing is handed out, and every handler holds what some handler held before. -/
theorem WorkPays.quiet (h : WorkPays prims s) (haddr : t.minerAddr = s.minerAddr)
    (hworks : t.works = s.works) (hcarried : ∀ json, t.Carries json → s.Carries json)
    {messages : List (Message κ)} (hmessages : ∀ json, ¬ HandedOut messages json) :
    Kept prims s (t, messages) where
  minerAddr := haddr
  workPays :=
    { last := by rw [haddr, hworks]; exact h.last
      carried := by
        rw [haddr, hworks]
        exact fun json hjson => h.carried json (hcarried json hjson) }
  handed json hjson := absurd hjson (hmessages json)

theorem WorkPays.same (h : WorkPays prims s) : Kept prims s (s, []) :=
  h.quiet rfl rfl (fun _ hjson => hjson) not_handedOut_nil

section

variable [DecidableEq κ]

theorem carries_modifyHandler {client : κ} (f : ProtocolHandler κ → ProtocolHandler κ)
    (hcached : ∀ ph, (f ph).cachedWorkJson = ph.cachedWorkJson)
    (hphase : ∀ ph, (f ph).phase = ph.phase) {json : WorkJson}
    (h : (s.modifyHandler client f).Carries json) : s.Carries json := by
  obtain ⟨ph, hmem, hjson⟩ := h
  obtain ⟨ph₀, hmem₀, rfl⟩ := List.mem_map.mp hmem
  refine ⟨ph₀, hmem₀, ?_⟩
  split at hjson
  · rwa [hcached, hphase] at hjson
  · exact hjson

theorem carries_modifyContext {client : κ} {f : ConnectionContext → ConnectionContext}
    {json : WorkJson} (h : (s.modifyContext client f).Carries json) : s.Carries json :=
  carries_modifyHandler (fun ph => { ph with context := f ph.context }) (fun _ => rfl)
    (fun _ => rfl) h

theorem carries_setPhase {client : κ} {phase : GetWorkPhase} {json : WorkJson}
    (h : (s.setPhase client phase).Carries json) : s.Carries json ∨ phase = .needsSet json := by
  obtain ⟨ph, hmem, hjson⟩ := h
  obtain ⟨ph₀, hmem₀, rfl⟩ := List.mem_map.mp hmem
  split at hjson
  · rcases hjson with hjson | hjson
    · exact Or.inl ⟨ph₀, hmem₀, Or.inl hjson⟩
    · exact Or.inr hjson
  · exact Or.inl ⟨ph₀, hmem₀, hjson⟩

theorem carries_setWork {client : κ} {json json' : WorkJson}
    (h : (s.setWork client json').Carries json) : s.Carries json ∨ json = json' := by
  obtain ⟨ph, hmem, hjson⟩ := h
  obtain ⟨ph₀, hmem₀, rfl⟩ := List.mem_map.mp hmem
  split at hjson
  · rcases hjson with hjson | hjson
    · exact Or.inr (Option.some.inj hjson).symm
    · exact Or.inl ⟨ph₀, hmem₀, Or.inr hjson⟩
  · exact Or.inl ⟨ph₀, hmem₀, hjson⟩

end

theorem carries_of_mem {handlers : List (ProtocolHandler κ)} {json : WorkJson}
    (hsub : ∀ ph ∈ handlers, ph ∈ s.protocolHandlers ∨
      ph.cachedWorkJson = none ∧ ph.phase = .idle)
    (h : ({ s with protocolHandlers := handlers } : Server κ).Carries json) : s.Carries json := by
  obtain ⟨ph, hmem, hjson⟩ := h
  rcases hsub ph hmem with hold | ⟨hcached, hphase⟩
  · exact ⟨ph, hold, hjson⟩
  · rw [hcached, hphase] at hjson
    rcases hjson with hjson | hjson <;> cases hjson

theorem workPays_init (minerAddr : AccountPublicAddress) (vdiffParams : VdiffParams)
    (period : UInt64) (isCoreAlwaysOnline : Bool) (prevBlockTemplateEthash : Hash) :
    WorkPays (κ := κ) prims
      (init minerAddr vdiffParams period isCoreAlwaysOnline prevBlockTemplateEthash) where
  last b hb := by cases hb
  carried json hjson := by
    obtain ⟨ph, hph, -⟩ := hjson
    cases hph

/-- A work is made of the last template. -/
theorem template_getWorkJson {v : CoreView} {d : WideDifficulty} {b : Block}
    (h : (s.getWorkJson prims v d).template? = some b) : s.works.head? = some b := by
  rw [getWorkJson] at h
  split at h
  · cases h
  · exact h

theorem WorkPays.getWorkJson (h : WorkPays prims s) {v : CoreView} {d : WideDifficulty} {b : Block}
    (hb : (s.getWorkJson prims v d).template? = some b) :
    s.works ≠ [] ∧ PaysTo prims b s.minerAddr := by
  have hhead := template_getWorkJson hb
  refine ⟨fun hnil => ?_, h.last b hhead⟩
  rw [hnil] at hhead
  cases hhead

/-! ## Updates of the template -/

/-- Whatever the works before, after an update all handlers but those that are about to set
another work hold the new one. -/
theorem kept_setWorkForAllWorkers {v : CoreView}
    (hlast : ∀ b, s.works.head? = some b → PaysTo prims b s.minerAddr)
    (hpending : ∀ ph ∈ s.protocolHandlers, ∀ json, ph.phase = .needsSet json →
      ∀ b, json.template? = some b → s.works ≠ [] ∧ PaysTo prims b s.minerAddr) :
    Kept prims s (s.setWorkForAllWorkers prims v) := by
  have hnew : ∀ d b, (s.getWorkJson prims v d).template? = some b →
      s.works ≠ [] ∧ PaysTo prims b s.minerAddr := by
    intro d b hb
    have hhead := template_getWorkJson hb
    refine ⟨fun hnil => ?_, hlast b hhead⟩
    rw [hnil] at hhead
    cases hhead
  refine ⟨rfl, ⟨hlast, ?_⟩, ?_⟩
  · rintro json ⟨ph, hmem, hjson⟩
    obtain ⟨ph₀, hmem₀, rfl⟩ := List.mem_map.mp hmem
    rcases hjson with hjson | hjson
    · cases hjson
      exact hnew _
    · exact hpending ph₀ hmem₀ json hjson
  · rintro json ⟨client, hjson | hjson⟩ b hb
    · obtain ⟨ph, hmem, hph⟩ := List.mem_filterMap.mp hjson
      obtain ⟨ph₀, hmem₀, rfl⟩ := List.mem_map.mp hmem
      cases hph
      exact (hnew _ b hb).2
    · obtain ⟨ph, hmem, hph⟩ := List.mem_filterMap.mp hjson
      obtain ⟨ph₀, hmem₀, rfl⟩ := List.mem_map.mp hmem
      cases hph

theorem kept_made {v : CoreView} (hmade : (createBlockTemplate prims s.minerAddr v.template).1 = true)
    (hpending : ∀ ph ∈ s.protocolHandlers, ∀ json, ph.phase = .needsSet json →
      ∀ b, json.template? = some b → PaysTo prims b s.minerAddr) :
    Kept prims s ((withTemplate prims s v).setWorkForAllWorkers prims v) := by
  have hkept : Kept prims (withTemplate prims s v)
      ((withTemplate prims s v).setWorkForAllWorkers prims v) := by
    refine kept_setWorkForAllWorkers (fun b hb => ?_) fun ph hph json hjson b hb =>
      ⟨List.cons_ne_nil _ _, hpending ph hph json hjson b hb⟩
    cases hb
    exact createBlockTemplate_pays hmade
  exact ⟨hkept.minerAddr, hkept.workPays, hkept.handed⟩

theorem WorkPays.updateBlockTemplate (h : WorkPays prims s) (v : CoreView) :
    Kept prims s (s.updateBlockTemplate prims v).2 := by
  cases hkeeps : s.keepsTemplate v with
  | true =>
      rw [updateBlockTemplate_kept_template hkeeps]
      exact h.same
  | false =>
      cases hmade : (createBlockTemplate prims s.minerAddr v.template).1 with
      | true =>
          rw [updateBlockTemplate_made hkeeps hmade]
          exact kept_made hmade fun ph hph json hjson b hb =>
            (h.carried json ⟨ph, hph, Or.inr hjson⟩ b hb).2
      | false =>
          rw [updateBlockTemplate_failed hkeeps hmade]
          exact ⟨rfl, ⟨h.last, h.carried⟩, fun json hjson => absurd hjson (not_handedOut_nil json)⟩

theorem WorkPays.updateIfSyncronized (h : WorkPays prims s) (v : CoreView) :
    Kept prims s (s.updateIfSyncronized prims v).2 := by
  rw [Server.updateIfSyncronized]
  split
  · exact h.updateBlockTemplate v
  · exact h.same

theorem not_responseError_setWorkForAllWorkers (v : CoreView) (client : κ) (code : Int)
    (text : String) :
    Message.responseError client code text ∉ (s.setWorkForAllWorkers prims v).2 := by
  intro h
  obtain ⟨ph, -, hph⟩ := List.mem_filterMap.mp h
  cases hcached : ph.cachedWorkJson <;> simp [hcached] at hph

/-- The address is set for the first time, before any work was made. -/
theorem WorkPays.setMinerAddress_of_works_eq_nil (h : WorkPays prims s) (hworks : s.works = [])
    (addr : AccountPublicAddress) : WorkPays prims (s.setMinerAddress addr) where
  last b hb := by
    have hb' : s.works.head? = some b := hb
    simp [hworks] at hb'
  carried json hjson b hb := absurd hworks (h.carried json hjson b hb).1

theorem setMinerAddress_eq_self {addr : AccountPublicAddress} (h : addr = s.minerAddr) :
    s.setMinerAddress addr = s := by
  rw [setMinerAddress, h]

/-- A step that first does what the works do not depend on. -/
theorem Kept.trans {s₁ : Server κ} {o : Server κ × List (Message κ)} (h : Kept prims s₁ o)
    (haddr : s₁.minerAddr = s.minerAddr) : Kept prims s o :=
  ⟨h.minerAddr.trans haddr, h.workPays, h.handed⟩

/-- A message that is no work does not matter. -/
theorem Kept.cons {o : Server κ × List (Message κ)} {message : Message κ} (h : Kept prims s o)
    (hmessage : ∀ json, ¬ HandedOut [message] json) : Kept prims s (o.1, message :: o.2) where
  minerAddr := h.minerAddr
  workPays := h.workPays
  handed json hjson := by
    refine h.handed json ?_
    obtain ⟨client, hjson⟩ := hjson
    have hne := fun hmem => hmessage json ⟨client, hmem⟩
    simp only [List.mem_cons, List.not_mem_nil, or_false] at hjson hne
    exact ⟨client, by tauto⟩

variable [DecidableEq κ]

/-- A handler that takes the last work keeps that the works pay. -/
theorem WorkPays.setWork (h : WorkPays prims s) (client : κ) {json : WorkJson}
    (hjson : ∀ b, json.template? = some b → s.works ≠ [] ∧ PaysTo prims b s.minerAddr) :
    WorkPays prims (s.setWork client json) where
  last := h.last
  carried json' hcarried := by
    rcases carries_setWork hcarried with hold | rfl
    · exact h.carried json' hold
    · exact hjson

theorem Kept.updateWork {client : κ} {v : CoreView}
    (h : Kept prims s (s.updateIfSyncronized prims v).2) :
    Kept prims s (s.updateWork prims client v) := by
  rw [Server.updateWork]
  rcases hupdate : s.updateIfSyncronized prims v with ⟨updated, s₁, messages⟩
  rw [hupdate] at h
  cases updated with
  | true => exact h
  | false => exact ⟨h.minerAddr, h.workPays.setWork client fun b => h.workPays.getWorkJson, h.handed⟩

/-! ## Logins -/

theorem not_responseError_updateWork (v : CoreView) (client client' : κ) (code : Int)
    (text : String) : Message.responseError client' code text ∉ (s.updateWork prims client v).2 := by
  have hupdate : Message.responseError client' code text ∉
      (s.updateIfSyncronized prims v).2.2 := by
    rw [Server.updateIfSyncronized]
    split
    · cases hkeeps : s.keepsTemplate v with
      | true => simp [updateBlockTemplate_kept_template hkeeps]
      | false =>
          cases hmade : (createBlockTemplate prims s.minerAddr v.template).1 with
          | true =>
              rw [updateBlockTemplate_made hkeeps hmade]
              exact not_responseError_setWorkForAllWorkers v client' code text
          | false => simp [updateBlockTemplate_failed hkeeps hmade]
    · simp
  rw [Server.updateWork]
  rcases h : s.updateIfSyncronized prims v with ⟨updated, s₁, messages⟩
  rw [h] at hupdate
  cases updated <;> exact hupdate

/-- A new template is made for the address as soon as it is set. -/
def RenewsAtOnce (prims : StratumPrimitives) (s : Server κ) (v : CoreView)
    (addr : AccountPublicAddress) : Prop :=
  s.isCoreSyncronized v = true ∧ s.keepsTemplate v = false ∧
    (createBlockTemplate prims addr v.template).1 = true

/-- No handler is about to set a work that was made before. -/
def NoPendingWork (s : Server κ) : Prop :=
  ∀ ph ∈ s.protocolHandlers, ∀ json, ph.phase = .needsSet json → json.template? = none

/-- What must hold of the address that is read from a username. -/
def AddressFits (prims : StratumPrimitives) (s : Server κ) (v : CoreView) :
    AddressParse → Prop
  | .thrown => True
  | .refused addr => addr = s.minerAddr
  | .parsed addr => addr = s.minerAddr ∨ (s.minerAddr = nullPubAddr ∧
      (s.works = [] ∨ (s.RenewsAtOnce prims v addr ∧ s.NoPendingWork)))

/-- A username that is a wallet address is the address that is set already, or none is set, and no
work for the null address is left. -/
def KeepsAddress (prims : StratumPrimitives) (s : Server κ) : Event κ → Prop
  | .submitLogin client userStr _ v =>
      s.handler? client ≠ none → ∀ user startDifficulty,
        splitUsername userStr = some (user, startDifficulty) → user ≠ workerAllowedUsername →
          s.AddressFits prims v (getAccountAddressFromStr prims.toAddressPrimitives user)
  | _ => True

/-- What a login does to the works, whatever the address was before. -/
structure LoginKept (prims : StratumPrimitives) (s : Server κ)
    (o : Server κ × List (Message κ)) : Prop where
  minerAddr : s.minerAddr ≠ nullPubAddr → o.1.minerAddr = s.minerAddr
  onError : (∃ client code text, .responseError client code text ∈ o.2) →
    o.1.minerAddr = s.minerAddr ∧ o.1.protocolHandlers = s.protocolHandlers
  workPays : WorkPays prims o.1
  handed : ∀ json, HandedOut o.2 json → ∀ b, json.template? = some b →
    PaysTo prims b o.1.minerAddr

theorem loginKept_of_errors {client : κ} {workerStr : ByteString} {startDifficulty : UInt64}
    {errors : List String} {v : CoreView} (h : WorkPays prims s) (herrors : errors ≠ []) :
    LoginKept prims s (s.finishLogin prims client workerStr startDifficulty errors v) := by
  rw [finishLogin, if_pos herrors]
  refine ⟨fun _ => rfl, fun _ => ⟨rfl, rfl⟩, h, fun json hjson => ?_⟩
  obtain ⟨client', hjson | hjson⟩ := hjson <;> simp at hjson

/-- A login without errors ends like `update_work`. -/
theorem loginKept_of_updateWork {s₁ : Server κ} {client : κ} {v : CoreView}
    (h : Kept prims s₁ (s₁.updateWork prims client v))
    (haddr : s.minerAddr ≠ nullPubAddr → s₁.minerAddr = s.minerAddr) :
    LoginKept prims s
      ((s₁.updateWork prims client v).1,
        .responseDefault client :: (s₁.updateWork prims client v).2) where
  minerAddr hset := h.minerAddr.trans (haddr hset)
  onError := by
    rintro ⟨client', code, text, htext⟩
    rcases List.mem_cons.mp htext with htext | htext
    · cases htext
    · exact absurd htext (not_responseError_updateWork v client client' code text)
  workPays := h.workPays
  handed json hjson := by
    refine h.handed json ?_
    obtain ⟨client', hjson | hjson⟩ := hjson
    · exact ⟨client', Or.inl (by simpa using hjson)⟩
    · exact ⟨client', Or.inr (by simpa using hjson)⟩

/-- The handler of a client that has logged in. -/
def loggedIn (s : Server κ) (client : κ) (workerStr : ByteString) (startDifficulty : UInt64)
    (v : CoreView) : Server κ :=
  s.modifyContext client fun c =>
    let c := { c with workerName := workerStr }
    if startDifficulty ≠ 0 then
      c.setWorkerDifficulty (BitVec.ofNat 128 startDifficulty.toNat) v.now
    else c

theorem finishLogin_of_no_errors {client : κ} {workerStr : ByteString} {startDifficulty : UInt64}
    {v : CoreView} :
    s.finishLogin prims client workerStr startDifficulty [] v =
      (((s.loggedIn client workerStr startDifficulty v).updateWork prims client v).1,
        .responseDefault client ::
          ((s.loggedIn client workerStr startDifficulty v).updateWork prims client v).2) := by
  simp [finishLogin, loggedIn]

theorem WorkPays.loggedIn (h : WorkPays prims s) (client : κ) (workerStr : ByteString)
    (startDifficulty : UInt64) (v : CoreView) :
    WorkPays prims (s.loggedIn client workerStr startDifficulty v) where
  last := h.last
  carried json hjson := h.carried json (carries_modifyContext hjson)

theorem WorkPays.finishLogin (h : WorkPays prims s) (client : κ) (workerStr : ByteString)
    (startDifficulty : UInt64) (errors : List String) (v : CoreView) :
    LoginKept prims s (s.finishLogin prims client workerStr startDifficulty errors v) := by
  by_cases herrors : errors ≠ []
  · exact loginKept_of_errors h herrors
  · rw [not_not.mp herrors, finishLogin_of_no_errors]
    have hlogged := h.loggedIn client workerStr startDifficulty v
    exact loginKept_of_updateWork (hlogged.updateIfSyncronized v).updateWork fun _ => rfl

/-- The address is set for the first time, and the work that is handed out is new. -/
theorem kept_updateIfSyncronized_of_renews {client : κ} {workerStr : ByteString}
    {startDifficulty : UInt64} {v : CoreView} {addr : AccountPublicAddress}
    (hrenews : s.RenewsAtOnce prims v addr) (hpending : s.NoPendingWork) :
    let s₁ := (s.setMinerAddress addr).loggedIn client workerStr startDifficulty v
    Kept prims s₁ (s₁.updateIfSyncronized prims v).2 := by
  intro s₁
  obtain ⟨hsync, hkeeps, hmade⟩ := hrenews
  have hsync₁ : s₁.isCoreSyncronized v = true := hsync
  have hkeeps₁ : s₁.keepsTemplate v = false := hkeeps
  have hmade₁ : (createBlockTemplate prims s₁.minerAddr v.template).1 = true := hmade
  rw [Server.updateIfSyncronized, if_pos hsync₁, updateBlockTemplate_made hkeeps₁ hmade₁]
  refine kept_made hmade₁ fun ph hph json hjson b hb => ?_
  -- the login itself does not put a handler into this phase
  obtain ⟨ph₀, hph₀, rfl⟩ := List.mem_map.mp hph
  have hphase : ph₀.phase = .needsSet json := by
    split at hjson <;> exact hjson
  rw [hpending ph₀ hph₀ json hphase] at hb
  cases hb

theorem WorkPays.handleLogin (h : WorkPays prims s) {client : κ} {userStr workerStr : ByteString}
    {startDifficulty : UInt64} {v : CoreView}
    (hfits : userStr ≠ workerAllowedUsername →
      s.AddressFits prims v (getAccountAddressFromStr prims.toAddressPrimitives userStr)) :
    LoginKept prims s (s.handleLogin prims client userStr workerStr startDifficulty v) := by
  rw [Server.handleLogin]
  by_cases huser : userStr = workerAllowedUsername
  · rw [if_pos huser]
    exact h.finishLogin client workerStr startDifficulty _ v
  rw [if_neg huser]
  specialize hfits huser
  cases hparse : getAccountAddressFromStr prims.toAddressPrimitives userStr with
  | thrown =>
      have hsame := h.same
      exact ⟨fun _ => rfl, fun _ => ⟨rfl, rfl⟩, hsame.workPays, hsame.handed⟩
  | refused addr =>
      rw [hparse] at hfits
      dsimp only
      rw [setMinerAddress_eq_self hfits]
      exact h.finishLogin client workerStr startDifficulty _ v
  | parsed addr =>
      rw [hparse] at hfits
      dsimp only
      rcases hfits with hsame | ⟨hnull, hfresh⟩
      · rw [setMinerAddress_eq_self hsame]
        exact h.finishLogin client workerStr startDifficulty _ v
      · have hnone : s.addressErrors userStr true addr = [] := by simp [addressErrors, hnull]
        rw [hnone, finishLogin_of_no_errors]
        refine loginKept_of_updateWork (Kept.updateWork ?_) fun hset => absurd hnull hset
        rcases hfresh with hworks | ⟨hrenews, hpending⟩
        · have hset := h.setMinerAddress_of_works_eq_nil hworks addr
          exact (hset.loggedIn client workerStr startDifficulty v).updateIfSyncronized v
        · exact kept_updateIfSyncronized_of_renews hrenews hpending

/-! ## Shares -/

theorem WorkPays.modifyContext (h : WorkPays prims s) (client : κ)
    (f : ConnectionContext → ConnectionContext) : WorkPays prims (s.modifyContext client f) where
  last := h.last
  carried json hjson := h.carried json (carries_modifyContext hjson)

theorem WorkPays.submitBlock (h : WorkPays prims s) (client : κ) (nonce : UInt64)
    (blockEthash : Hash) (found : BlockFoundResult) :
    Kept prims s (s.submitBlock prims client nonce blockEthash found) := by
  have hblock : ∀ b : Block, ∀ json : WorkJson,
      ¬ HandedOut [(.blockFound b blockEthash : Message κ)] json := by
    rintro b json ⟨client', h | h⟩ <;> simp at h
  have hnonce : WorkPays prims
      { s with blockTemplate := { s.blockTemplate with nonce } } := ⟨h.last, h.carried⟩
  rw [Server.submitBlock]
  split
  · have hupdate := hnonce.updateBlockTemplate found.after
    have hkept := hupdate.workPays.modifyContext client ConnectionContext.incrementBlocksCount
    exact Kept.cons (o := ({ Server.modifyContext _ client _ with totalBlocksFound := _ }, _))
      ⟨hupdate.minerAddr, ⟨hkept.last, hkept.carried⟩, hupdate.handed⟩ (hblock _)
  · exact ⟨rfl, hnonce, fun json hjson => absurd hjson (hblock _ json)⟩

theorem WorkPays.handleWork (h : WorkPays prims s) (client : κ) (nonce : UInt64)
    (blockEthash : Hash) (v : CoreView) (found : BlockFoundResult) :
    Kept prims s (s.handleWork prims client nonce blockEthash v found) := by
  have hdefault : ∀ json : WorkJson,
      ¬ HandedOut [(.responseDefault client : Message κ)] json := by
    rintro json ⟨client', h | h⟩ <;> simp at h
  have herror : ∀ (text : String) (json : WorkJson), ¬ HandedOut
      [(.responseError client jsonrpcErrorCodeDefault text : Message κ)] json := by
    rintro text json ⟨client', h | h⟩ <;> simp at h
  have hcredited : ∀ f, Kept prims s (s.modifyContext client f, [.responseDefault client]) :=
    fun f => ⟨rfl, h.modifyContext client f, fun json hjson => absurd hjson (hdefault json)⟩
  rw [Server.handleWork]
  dsimp only
  split
  · exact h.quiet rfl rfl (fun _ hjson => hjson) hdefault
  split
  · split
    · exact hcredited _
    · exact h.quiet rfl rfl (fun _ hjson => hjson) (herror _)
  split
  · exact h.quiet rfl rfl (fun _ hjson => hjson) (herror _)
  split
  · exact hcredited _
  · exact (((h.modifyContext client _).submitBlock client nonce blockEthash found).cons hdefault).trans rfl

/-! ## Runs -/

/-- What is asked of one step. -/
structure AddressStable (prims : StratumPrimitives) (s : Server κ) (e : Event κ) : Prop where
  kept : s.minerAddr ≠ nullPubAddr → (s.step prims e).1.minerAddr = s.minerAddr
  onError : ∀ client userStr workerStr v, e = .submitLogin client userStr workerStr v →
    (∃ client' code text, .responseError client' code text ∈ (s.step prims e).2) →
      (s.step prims e).1.minerAddr = s.minerAddr ∧
        (s.step prims e).1.protocolHandlers = s.protocolHandlers
  handed : ∀ json, HandedOut (s.step prims e).2 json → ∀ b, json.template? = some b →
    PaysTo prims b (s.step prims e).1.minerAddr

theorem WorkPays.getWork (h : WorkPays prims s) (client : κ) (v : CoreView) :
    Kept prims s (s.step prims (.getWork client v)) := by
  rw [Server.step]
  cases s.handler? client with
  | none => exact h.same
  | some ph =>
      dsimp only
      have hupdate := h.updateIfSyncronized v
      rcases hmade : s.updateIfSyncronized prims v with ⟨updated, s₁, messages⟩
      rw [hmade] at hupdate
      refine ⟨hupdate.minerAddr, ⟨hupdate.workPays.last, fun json hjson => ?_⟩, hupdate.handed⟩
      rcases carries_setPhase hjson with hold | hphase
      · exact hupdate.workPays.carried json hold
      · cases updated <;> cases hphase

theorem WorkPays.getWorkJsonStep (h : WorkPays prims s) (client : κ) (v : CoreView) :
    Kept prims s (s.step prims (.getWorkJson client v)) := by
  rw [Server.step]
  split
  · refine ⟨rfl, ⟨h.last, fun json hjson => ?_⟩, fun json hjson => absurd hjson
      (not_handedOut_nil json)⟩
    rcases carries_setPhase hjson with hold | hphase
    · exact h.carried json hold
    · cases hphase
      exact fun b => h.getWorkJson
  · exact h.same

theorem carries_of_handler? {client : κ} {ph : ProtocolHandler κ}
    (h : s.handler? client = some ph) {json : WorkJson}
    (hjson : ph.cachedWorkJson = some json ∨ ph.phase = .needsSet json) : s.Carries json :=
  ⟨ph, (of_handler?_eq_some h).1, hjson⟩

theorem WorkPays.setWorkStep (h : WorkPays prims s) (client : κ) :
    Kept prims s (s.step prims (.setWork client)) := by
  rw [Server.step]
  split
  · rename_i json hhandler
    have hset := h.setWork client (h.carried json (carries_of_handler? hhandler (Or.inr rfl)))
    refine ⟨rfl, ⟨hset.last, fun json' hjson => ?_⟩, fun json' hjson => absurd hjson
      (not_handedOut_nil json')⟩
    rcases carries_setPhase hjson with hold | hphase
    · exact hset.carried json' hold
    · cases hphase
  · exact h.same

theorem WorkPays.sendWork (h : WorkPays prims s) (client : κ) :
    Kept prims s (s.step prims (.sendWork client)) := by
  rw [Server.step]
  split
  · rename_i cached _ hhandler
    refine ⟨rfl, ⟨h.last, fun json hjson => ?_⟩, fun json hjson b hb => ?_⟩
    · rcases carries_setPhase hjson with hold | hphase
      · exact h.carried json hold
      · cases hphase
    · -- the work that is sent is the cached one
      have hcached : cached = some json := by
        obtain ⟨client', hmem | hmem⟩ := hjson
        · cases cached <;> simp at hmem
        · cases cached with
          | none => simp at hmem
          | some json' =>
              simp only [Option.map_some, Option.toList_some, List.mem_singleton,
                Message.workResponse.injEq] at hmem
              rw [hmem.2]
      exact (h.carried json (carries_of_handler? hhandler (Or.inl hcached)) b hb).2
  · exact h.same

theorem WorkPays.submitLogin (h : WorkPays prims s) {client : κ} {userStr workerStr : ByteString}
    {v : CoreView} (hkeeps : s.KeepsAddress prims (.submitLogin client userStr workerStr v)) :
    LoginKept prims s (s.step prims (.submitLogin client userStr workerStr v)) := by
  have hsame : LoginKept prims s (s, []) :=
    ⟨fun _ => rfl, fun _ => ⟨rfl, rfl⟩, h, h.same.handed⟩
  rw [Server.step]
  cases hhandler : s.handler? client with
  | none => exact hsame
  | some ph =>
      dsimp only
      rw [handleMethodEthSubmitLogin]
      have hfits := hkeeps (by rw [hhandler]; exact Option.some_ne_none ph)
      cases hsplit : splitUsername userStr with
      | none =>
          -- the difficulty in the username could not be read: no answer at all
          by_cases hnameless : workerStr = []
          · simp only [hnameless, if_true]
            exact ⟨fun _ => rfl, fun _ => ⟨rfl, rfl⟩, ⟨h.last, h.carried⟩, h.same.handed⟩
          · simp only [hnameless, if_false]
            exact hsame
      | some parts =>
          obtain ⟨user, startDifficulty⟩ := parts
          by_cases hnameless : workerStr = []
          · simp only [hnameless, if_true]
            have hcounted : WorkPays prims
                { s with namelessWorkerId := s.namelessWorkerId + 1 } := ⟨h.last, h.carried⟩
            have hkept : LoginKept prims _ (Server.handleLogin prims _ client user
                (toDecimal s.namelessWorkerId) startDifficulty v) :=
              hcounted.handleLogin (hfits user startDifficulty hsplit)
            exact ⟨hkept.minerAddr, hkept.onError, hkept.workPays, hkept.handed⟩
          · simp only [hnameless, if_false]
            exact h.handleLogin (hfits user startDifficulty hsplit)

theorem Kept.stable {e : Event κ} (h : Kept prims s (s.step prims e))
    (hlogin : ∀ client userStr workerStr v, e ≠ .submitLogin client userStr workerStr v) :
    AddressStable prims s e ∧ WorkPays prims (s.step prims e).1 :=
  ⟨⟨fun _ => h.minerAddr, fun client userStr workerStr v he =>
    absurd he (hlogin client userStr workerStr v), h.handed⟩, h.workPays⟩

/-- One step keeps the address if no login changes it. -/
theorem WorkPays.step (h : WorkPays prims s) {e : Event κ} (hkeeps : s.KeepsAddress prims e) :
    AddressStable prims s e ∧ WorkPays prims (s.step prims e).1 := by
  cases e with
  | submitLogin client userStr workerStr v =>
      have hlogin := h.submitLogin hkeeps
      exact ⟨⟨hlogin.minerAddr, fun _ _ _ _ _ => hlogin.onError, hlogin.handed⟩, hlogin.workPays⟩
  | afterInitConnection client now =>
      refine Kept.stable ?_ (by simp)
      refine WorkPays.quiet (t := s.afterInitConnection client now) h rfl rfl
        (fun json hjson => carries_of_mem (fun ph hph => ?_) hjson) not_handedOut_nil
      rcases List.mem_cons.mp hph with rfl | hph
      · exact Or.inr ⟨rfl, rfl⟩
      · exact Or.inl (List.mem_filter.mp hph).1
  | removeProtocolHandler client =>
      refine Kept.stable ?_ (by simp)
      exact WorkPays.quiet (t := s.removeProtocolHandler client) h rfl rfl
        (fun json hjson => carries_of_mem (fun ph hph => Or.inl (List.mem_filter.mp hph).1) hjson)
        not_handedOut_nil
  | blockTemplateUpdateThread v =>
      refine Kept.stable ?_ (by simp)
      rw [Server.step]
      split
      · exact h.updateBlockTemplate v
      · exact h.same
  | onBlockchainUpdate v => exact Kept.stable (h.updateIfSyncronized v) (by simp)
  | submitWork client nonce headerHash v found =>
      refine Kept.stable ?_ (by simp)
      rw [Server.step]
      cases s.handler? client with
      | none => exact h.same
      | some ph =>
          exact ((h.modifyContext client _).handleWork client nonce headerHash v found).trans rfl
  | submitHashrate client rate =>
      refine Kept.stable ?_ (by simp)
      exact WorkPays.quiet
        (t := s.modifyHandler client fun ph => { ph with lastReportedHashrate := rate }) h rfl rfl
        (fun json hjson => carries_modifyHandler (fun ph => { ph with lastReportedHashrate := rate })
          (fun _ => rfl) (fun _ => rfl) hjson) not_handedOut_nil
  | getWork client v => exact (h.getWork client v).stable (by simp)
  | getWorkJson client v => exact (h.getWorkJsonStep client v).stable (by simp)
  | setWork client => exact (h.setWorkStep client).stable (by simp)
  | sendWork client => exact (h.sendWork client).stable (by simp)

theorem run_append (s : Server κ) (done mid : List (Event κ)) :
    s.run prims (done ++ mid) = (s.run prims done).run prims mid :=
  List.foldl_append

/-- In every run in which each wallet address used as a username is the one that is set, or is set
before a work for the null address is left over, the address is set once, a failed login changes
nothing, and every work that is handed out pays it. -/
theorem miner_address_stable (prims : StratumPrimitives) (minerAddr : AccountPublicAddress)
    (vdiffParams : VdiffParams) (period : UInt64) (isCoreAlwaysOnline : Bool)
    (prevBlockTemplateEthash : Hash) (events : List (Event κ))
    (h : ∀ done e rest, events = done ++ e :: rest →
      KeepsAddress prims ((init minerAddr vdiffParams period isCoreAlwaysOnline
        prevBlockTemplateEthash).run prims done) e) :
    let first : Server κ :=
      init minerAddr vdiffParams period isCoreAlwaysOnline prevBlockTemplateEthash
    (∀ done mid rest, events = done ++ mid ++ rest →
      (first.run prims done).minerAddr ≠ nullPubAddr →
        (first.run prims (done ++ mid)).minerAddr = (first.run prims done).minerAddr) ∧
    ∀ done e rest, events = done ++ e :: rest →
      AddressStable prims (first.run prims done) e := by
  intro first
  have hpays : ∀ done rest, events = done ++ rest → WorkPays prims (first.run prims done) :=
    RunInvariant.forall_states (Q := KeepsAddress prims) (workPays_init ..)
      (fun s e hs he => (hs.step he).2) h
  have hstable : ∀ done e rest, events = done ++ e :: rest →
      AddressStable prims (first.run prims done) e :=
    fun done e rest hrun => ((hpays done (e :: rest) hrun).step (h done e rest hrun)).1
  refine ⟨fun done mid => ?_, hstable⟩
  -- by induction on the steps after the address was set
  induction mid using List.reverseRecOn with
  | nil =>
      intro rest _ _
      rw [List.append_nil]
  | append_singleton mid e ih =>
      intro rest hrun hset
      have hrun' : events = done ++ mid ++ (e :: rest) := by rw [hrun]; simp
      have hsame := ih (e :: rest) hrun' hset
      have hstep : first.run prims (done ++ (mid ++ [e])) =
          ((first.run prims (done ++ mid)).step prims e).1 := by
        rw [← List.append_assoc, run_append]
        rfl
      rw [hstep, ← hsame]
      exact (hstable (done ++ mid) e rest hrun').kept (hsame ▸ hset)

/-! ## A server with two clients -/

/-- The hash of a blob is its first 32 bytes, and the key of an output counts on from the view key
of the address.  Nonces below 100 meet the difficulty of the network, those below 1000 meet a
difficulty of 1000. -/
def samplePrimitives : StratumPrimitives where
  cnFastHash bytes := Vector.ofFn fun i => bytes.getD i 0
  checkKey _ := true
  unreadChar := 0
  getBlockHashingBlob b := (bytesOfNat 32 (2 ^ 64 * b.timestamp + b.nonce.toNat)).reverse
  getBlockLonghash _ _ nonce :=
    if nonce < 100 then 0 else if nonce < 1000 then 2 ^ 245 else BitVec.allOnes 256
  ethashCalculateEpochSeed _ := 0
  secretKeyToPublicKey sec := sec + 1
  derivePublicKeyFromTargetAddress _ no addr := some (addr.viewPublicKey + BitVec.ofNat 256 no, 0)
  getObjectBlobsize _ := 500

def sampleAddress : AccountPublicAddress := ⟨1, 2, 0⟩

def sampleUsername : ByteString :=
  getAccountAddressAsStr samplePrimitives.toAddressPrimitives sampleAddress

def sampleVdiffParams : VdiffParams := ⟨100, 1000, 30000, 240000, 12, 25⟩

/-- The chain `timestamp` seconds after its start, with a new top block every second. -/
def sampleView (timestamp : Nat) : CoreView where
  now := UInt64.ofNat (1000 * timestamp)
  isSynchronized := true
  topBlockId := BitVec.ofNat 256 (timestamp / 60 + 1)
  template :=
    { header := { emptyBlock with timestamp }
      height := timestamp / 60 + 1
      diffic := 5000
      fillBlockTemplate := some []
      outAmounts := some [10]
      txSec := 6 }

theorem splitUsername_sample : splitUsername sampleUsername = some (sampleUsername, 0) := by
  have hnone : 45 ∉ sampleUsername := by decide +kernel
  rw [splitUsername, if_neg hnone]

theorem sampleUsername_parsed :
    getAccountAddressFromStr samplePrimitives.toAddressPrimitives sampleUsername =
      .parsed sampleAddress :=
  getAccountAddressFromStr_asStr _ rfl rfl

def sampleLogins : List (Event Nat) :=
  [.afterInitConnection 1 0, .afterInitConnection 2 0, .submitLogin 1 sampleUsername [] (sampleView 5),
    .submitLogin 2 workerAllowedUsername [] (sampleView 65), .getWork 2 (sampleView 70),
    .getWorkJson 2 (sampleView 70), .setWork 2, .sendWork 2]

def sampleServer (minerAddr : AccountPublicAddress) : Server Nat :=
  init minerAddr sampleVdiffParams 30000 false 0

/-- The first login sets the address, the second one uses it. -/
theorem miner_address_stable_sample :
    AddressStable samplePrimitives
      ((sampleServer nullPubAddr).run samplePrimitives (sampleLogins.take 7)) (.sendWork 2) := by
  refine (miner_address_stable samplePrimitives nullPubAddr sampleVdiffParams 30000 false 0
    sampleLogins ?_).2 (sampleLogins.take 7) (.sendWork 2) [] rfl
  refine RunInvariant.forall_steps_cons trivial (RunInvariant.forall_steps_cons trivial
    (RunInvariant.forall_steps_cons ?_ (RunInvariant.forall_steps_cons ?_
      (RunInvariant.forall_steps_cons trivial (RunInvariant.forall_steps_cons trivial
        (RunInvariant.forall_steps_cons trivial (RunInvariant.forall_steps_cons trivial
          RunInvariant.forall_steps_nil)))))))
  · intro _ user startDifficulty hsplit _
    rw [splitUsername_sample] at hsplit
    cases hsplit
    rw [sampleUsername_parsed]
    exact Or.inr ⟨rfl, Or.inl rfl⟩
  · intro _ user startDifficulty hsplit huser
    have hname : splitUsername workerAllowedUsername = some (workerAllowedUsername, 0) := by decide
    rw [hname] at hsplit
    cases hsplit
    exact absurd rfl huser

/-- The template of the work that a client is sent. -/
def sentTemplate : List (Message Nat) → Option Block
  | [.workResponse _ (.work _ _ _ _ template)] => template
  | _ => none

/-- A work is made for the null address before the first login. -/
def lateLogin : List (Event Nat) :=
  [.afterInitConnection 1 0, .onBlockchainUpdate (sampleView 5),
    .submitLogin 1 sampleUsername [] (sampleView 6), .getWork 1 (sampleView 7),
    .getWorkJson 1 (sampleView 7), .setWork 1]

/-- A username that is no address is answered with an error, and the miner address is null
afterwards.  And a client that has set the address by its login is sent a work that burns the
reward. -/
theorem wrong_login_changes_address :
    let s := (sampleServer sampleAddress).run samplePrimitives [.afterInitConnection 1 0]
    let o := s.step samplePrimitives (.submitLogin 1 [120] [119] (sampleView 5))
    let late := (sampleServer nullPubAddr).run samplePrimitives lateLogin
    (s.minerAddr = sampleAddress ∧ o.1.minerAddr = nullPubAddr ∧
      o.2 = [.responseError 1 jsonrpcErrorCodeDefault
        (String.join [errorCantParse [120], errorDoesntMatch [120]])]) ∧
    late.minerAddr = sampleAddress ∧
      ∃ b, sentTemplate (late.step samplePrimitives (.sendWork 1)).2 = some b ∧
        ¬ PaysTo samplePrimitives b late.minerAddr := by
  intro s o late
  refine ⟨⟨by decide +kernel, by decide +kernel, rfl⟩, ?_⟩
  have haddr : ((sampleServer nullPubAddr).run samplePrimitives lateLogin).minerAddr =
      sampleAddress := by decide +kernel
  have hsent : sentTemplate (((sampleServer nullPubAddr).run samplePrimitives lateLogin).step
      samplePrimitives (.sendWork 1)).2 =
        some (createBlockTemplate samplePrimitives nullPubAddr (sampleView 5).template).2.1 := by
    decide +kernel
  refine ⟨haddr, _, hsent, ?_⟩
  rw [haddr]
  rintro ⟨txSec, -, hpays⟩
  -- the key of the only output is the null key
  have hout : (createBlockTemplate samplePrimitives nullPubAddr
      (sampleView 5).template).2.1.minerTx.vout[0]? = some ⟨10, keyTarget nullPubAddr nullPkey⟩ := by
    decide +kernel
  obtain ⟨key, hint?, hkey, htarget⟩ := hpays 0 _ hout
  have hsome : outEphPublicKey samplePrimitives txSec 0 sampleAddress = some (2, some 0) := rfl
  rw [hsome] at hkey
  cases hkey
  revert htarget
  decide

end Server

end Chinet.Stratum
