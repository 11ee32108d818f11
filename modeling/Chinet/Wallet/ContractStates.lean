import Chinet.Wallet.Escrow

/-!
# How the state of a contract changes

A contract goes from the proposal over the acceptance, and possibly a cancel request, to
one of the three releases.  Of the four handlers only `handle_cancel_proposal` looks at
the state it starts from; the others write theirs over whatever is recorded.  So the
states follow this order exactly in those runs in which every message comes in its turn.
-/

namespace Chinet

/-! ## The order of the states -/

def ContractState.isReleased : ContractState → Bool
  | contractReleasedNormal => true
  | contractReleasedBurned => true
  | contractReleasedCancelled => true
  | _ => false

/-- The steps that a transaction may take a contract. -/
inductive ContractEdge : ContractState → ContractState → Prop
  | accept : ContractEdge .proposalSent .contractAccepted
  | requestCancel : ContractEdge .contractAccepted .contractCancelProposalSent
  | release {s s' : ContractState} (hs : s = .contractAccepted ∨ s = .contractCancelProposalSent)
      (hs' : s'.isReleased = true) : ContractEdge s s'

/-- Every contract stays with its party, and stays in its state or goes on. -/
structure Forward (contracts contracts' : EscrowContracts) : Prop where
  kept : ∀ contractId c, contracts contractId = some c → ∃ c', contracts' contractId = some c' ∧
    c'.isA = c.isA ∧ (c'.state = c.state ∨ ContractEdge c.state c'.state)
  entered : ∀ contractId c', contracts contractId = none → contracts' contractId = some c' →
    c'.state = .proposalSent ∨ c'.state = .contractAccepted

/-- The two explicit steps back: a cancel request that has expired, and a cancellation
that was not in a block when it did. -/
inductive ExpirationEdge (c : EscrowContractDetails) : ContractState → Prop
  | cancelRequest (hs : c.state = .contractCancelProposalSent) : ExpirationEdge c .contractAccepted
  | cancelAcceptance (hs : c.state = .contractReleasedCancelled) (hheight : c.height = 0) :
      ExpirationEdge c .contractAccepted

def ForwardExpired (contracts contracts' : EscrowContracts) : Prop :=
  ∀ contractId, Option.Rel (fun c c' => c'.isA = c.isA ∧
    (c'.state = c.state ∨ ExpirationEdge c c'.state)) (contracts contractId) (contracts' contractId)

theorem Forward.refl (contracts : EscrowContracts) : Forward contracts contracts where
  kept _ c hc := ⟨c, hc, rfl, Or.inl rfl⟩
  entered _ _ hnone hsome := by
    rw [hnone] at hsome
    cases hsome

theorem ContractEdge.not_released {s s' : ContractState} (h : ContractEdge s s') :
    s.isReleased = false := by
  cases h with
  | accept => rfl
  | requestCancel => rfl
  | release hs _ => rcases hs with rfl | rfl <;> rfl

theorem ContractEdge.ne_proposalSent {s s' : ContractState} (h : ContractEdge s s') :
    s' ≠ .proposalSent := by
  rintro rfl
  cases h with
  | release _ hs' => cases hs'

/-- One entry is written. -/
theorem forward_update_iff {contracts : EscrowContracts} {msId : Hash} {ed : EscrowContractDetails} :
    Forward contracts (Function.update contracts msId (some ed)) ↔
      match contracts msId with
      | some c => ed.isA = c.isA ∧ (ed.state = c.state ∨ ContractEdge c.state ed.state)
      | none => ed.state = .proposalSent ∨ ed.state = .contractAccepted := by
  constructor
  · intro h
    cases hc : contracts msId with
    | some c =>
        obtain ⟨c', hc', hsame⟩ := h.kept msId c hc
        rw [Function.update_self] at hc'
        cases hc'
        exact hsame
    | none => exact h.entered msId ed hc (Function.update_self _ _ _)
  · intro h
    constructor
    · intro contractId c hc
      by_cases hid : contractId = msId
      · subst hid
        rw [hc] at h
        exact ⟨ed, Function.update_self _ _ _, h⟩
      · exact ⟨c, by rw [Function.update_of_ne hid]; exact hc, rfl, Or.inl rfl⟩
    · intro contractId c' hnone hsome
      by_cases hid : contractId = msId
      · subst hid
        rw [Function.update_self] at hsome
        cases hsome
        rw [hnone] at h
        exact h
      · rw [Function.update_of_ne hid, hnone] at hsome
        cases hsome

/-! ## Messages in their turn -/

section

variable (wallet : EscrowWallet) (wti : WalletTransferInfo) (contracts : EscrowContracts)

/-- A valid proposal is for a contract that is not recorded, or still proposed, and for
the same party. -/
def ProposalInTurn (prop : ProposalBody) : Prop :=
  ∀ items msId cpd, validateEscrowProposal wallet wti prop = .ok (items, msId, cpd) →
    ∀ c, contracts msId = some c → c.state = .proposalSent ∧
      c.isA = decide (cpd.aAddr.spendPublicKey = wallet.keys.accountAddress.spendPublicKey)

/-- A valid contract is for one that is proposed or accepted, or not recorded, and for
the same party. -/
def ContractInTurn (cntr : ContractPrivateDetails) (decryptedAttach : List PayloadItem) : Prop :=
  ∀ msId rel, validateEscrowContract wallet wti cntr (cntr.aAddr = wallet.keys.accountAddress)
      decryptedAttach = .ok (msId, rel) →
    ∀ c, contracts msId = some c →
      (c.state = .proposalSent ∨ c.state = .contractAccepted) ∧
        c.isA = decide (cntr.aAddr = wallet.keys.accountAddress)

/-- A release is for a contract that is accepted, whether or not a cancel was requested,
or that was released in the same way. -/
def ReleaseInTurn (releaseInstruction : ByteString) : Prop :=
  ∀ msId newState c, firstMultisigInput? wti.tx.vin = some msId → msId ≠ nullHash →
    contracts msId = some c → releasedState releaseInstruction = some newState →
    c.state = .contractAccepted ∨ c.state = .contractCancelProposalSent ∨ c.state = newState

/-- Nothing is asked of a cancel request: its handler looks at the state itself. -/
def MessageInTurn (decryptedAttach : List PayloadItem) : ContractMessage → Prop
  | .proposal prop => ProposalInTurn wallet wti contracts prop
  | .contract cntr => ContractInTurn wallet wti contracts cntr decryptedAttach
  | .release releaseInstruction => ReleaseInTurn wti contracts releaseInstruction
  | _ => True

end

/-! ## One message -/

section

variable {wallet : EscrowWallet} {wti : WalletTransferInfo} {contracts : EscrowContracts}

theorem orReject_eq_ok {α : Type} {o : Option α} {a : α} : orReject o = .ok a ↔ o = some a := by
  cases o <;> simp [orReject]

/-- What the loop sees of a handler. -/
theorem afterHandler_contracts {r : Except Failure (Handled × Bool)} :
    (afterHandler wti contracts r).1.2 =
      match r with
      | .ok result => result.1.2
      | .error _ => contracts := by
  rcases r with (_ | _) | _ <;> rfl

theorem forward_handleProposal_iff {prop : ProposalBody} :
    Forward contracts (afterHandler wti contracts (handleProposal wallet wti contracts prop)).1.2 ↔
      ProposalInTurn wallet wti contracts prop := by
  rw [afterHandler_contracts]
  unfold ProposalInTurn handleProposal
  cases hvalid : validateEscrowProposal wallet wti prop with
  | error failure =>
      refine iff_of_true (Forward.refl contracts) ?_
      intro items msId cpd hok
      cases hok
  | ok result =>
      obtain ⟨items, msId, cpd⟩ := result
      have hwritten : (proposedContract wallet wti contracts prop items msId cpd).state =
          .proposalSent := rfl
      have hparty : (proposedContract wallet wti contracts prop items msId cpd).isA =
          decide (cpd.aAddr.spendPublicKey = wallet.keys.accountAddress.spendPublicKey) := rfl
      refine forward_update_iff.trans ?_
      rw [hwritten, hparty]
      constructor
      · intro h items' msId' cpd' hok c hc
        cases hok
        rw [hc] at h
        refine ⟨?_, h.1.symm⟩
        -- no step leads to a proposal
        exact h.2.elim Eq.symm fun hedge => absurd rfl hedge.ne_proposalSent
      · intro h
        cases hc : contracts msId with
        | none => exact Or.inl rfl
        | some c =>
            obtain ⟨hstate, hisA⟩ := h items msId cpd rfl c hc
            exact ⟨hisA.symm, Or.inl hstate.symm⟩

theorem forward_handleContract_iff {cntr : ContractPrivateDetails}
    {decryptedAttach : List PayloadItem} :
    Forward contracts (afterHandler wti contracts
        ((handleContract wallet wti contracts cntr decryptedAttach).map (·, true))).1.2 ↔
      ContractInTurn wallet wti contracts cntr decryptedAttach := by
  rw [afterHandler_contracts]
  unfold ContractInTurn handleContract
  dsimp only
  cases hvalid : validateEscrowContract wallet wti cntr (cntr.aAddr = wallet.keys.accountAddress)
      decryptedAttach with
  | error failure =>
      refine iff_of_true (Forward.refl contracts) ?_
      intro msId rel hok
      cases hok
  | ok result =>
      obtain ⟨msId, rel⟩ := result
      refine forward_update_iff.trans ?_
      have hwritten : (acceptedContract wti contracts cntr
          (cntr.aAddr = wallet.keys.accountAddress) msId rel).state = .contractAccepted := rfl
      have hparty : (acceptedContract wti contracts cntr
          (cntr.aAddr = wallet.keys.accountAddress) msId rel).isA =
          decide (cntr.aAddr = wallet.keys.accountAddress) := rfl
      rw [hwritten, hparty]
      constructor
      · intro h msId' rel' hok c hc
        cases hok
        rw [hc] at h
        refine ⟨?_, h.1.symm⟩
        rcases h.2 with hsame | hedge
        · exact Or.inr hsame.symm
        · generalize c.state = s at hedge
          cases hedge with
          | accept => exact Or.inl rfl
          | release _ hs' => cases hs'
      · intro h
        cases hc : contracts msId with
        | none => exact Or.inr rfl
        | some c =>
            obtain ⟨hstate, hisA⟩ := h msId rel rfl c hc
            refine ⟨hisA.symm, ?_⟩
            rcases hstate with hstate | hstate
            · right
              rw [hstate]
              exact .accept
            · exact Or.inl hstate.symm

theorem releasedState_isReleased {releaseInstruction : ByteString} {newState : ContractState}
    (h : releasedState releaseInstruction = some newState) : newState.isReleased = true := by
  unfold releasedState at h
  split at h
  · cases h
    rfl
  · split at h
    · cases h
      rfl
    · split at h
      · cases h
        rfl
      · cases h

/-- A release writes its state over that of the recorded contract. -/
theorem handleReleaseContract_contracts {releaseInstruction : ByteString} :
    (match (handleReleaseContract wti contracts releaseInstruction).map (·, true) with
      | .ok result => result.1.2
      | .error _ => contracts) =
    match firstMultisigInput? wti.tx.vin, releasedState releaseInstruction with
      | some msId, some newState =>
          if msId = nullHash then contracts
          else
            match contracts msId with
            | none => contracts
            | some c => Function.update contracts msId (some (c.change newState wti))
      | _, _ => contracts := by
  unfold handleReleaseContract
  cases hinput : firstMultisigInput? wti.tx.vin with
  | none => rfl
  | some msId =>
      by_cases hnull : msId = nullHash
      · subst hnull
        cases releasedState releaseInstruction <;> rfl
      · have hne : (msId != nullHash) = true := by simpa using hnull
        cases hc : contracts msId with
        | none => cases releasedState releaseInstruction <;> simp [orReject, require, hne, hc, hnull, bind, Except.bind, Except.map]
        | some c =>
            cases hnew : releasedState releaseInstruction <;> simp [orReject, require, hne, hc, hnull, bind, Except.bind, Except.map, pure, Except.pure]

theorem forward_handleReleaseContract_iff {releaseInstruction : ByteString} :
    Forward contracts (afterHandler wti contracts
        ((handleReleaseContract wti contracts releaseInstruction).map (·, true))).1.2 ↔
      ReleaseInTurn wti contracts releaseInstruction := by
  rw [afterHandler_contracts, handleReleaseContract_contracts]
  unfold ReleaseInTurn
  cases hinput : firstMultisigInput? wti.tx.vin with
  | none =>
      refine iff_of_true (Forward.refl contracts) ?_
      intro msId newState c hsome
      cases hsome
  | some msId =>
      cases hnew : releasedState releaseInstruction with
      | none =>
          refine iff_of_true (Forward.refl contracts) ?_
          intro msId newState c _ _ _ hsome
          cases hsome
      | some newState =>
          dsimp only
          split
          case isTrue hnull =>
            refine iff_of_true (Forward.refl contracts) ?_
            intro msId' newState' c hsome hne _ _
            cases hsome
            exact absurd hnull hne
          case isFalse hnull =>
            cases hc : contracts msId with
            | none =>
                refine iff_of_true (Forward.refl contracts) ?_
                intro msId' newState' c hsome _ hrecorded _
                cases hsome
                rw [hc] at hrecorded
                cases hrecorded
            | some c =>
                dsimp only
                rw [forward_update_iff, hc]
                have hwritten : (c.change newState wti).state = newState := rfl
                have hreleased := releasedState_isReleased hnew
                constructor
                · intro h msId' newState' c' hsome _ hrecorded hnew'
                  cases hsome
                  cases hnew'
                  rw [hc] at hrecorded
                  cases hrecorded
                  rcases h.2 with hsame | hedge
                  · exact Or.inr (Or.inr hsame.symm)
                  · rw [hwritten] at hedge
                    -- only a release leads to a released state
                    generalize c.state = s at hedge
                    cases hedge with
                    | accept => cases hreleased
                    | requestCancel => cases hreleased
                    | release hs _ => exact hs.elim Or.inl fun h => Or.inr (Or.inl h)
                · intro h
                  refine ⟨rfl, ?_⟩
                  rw [hwritten]
                  rcases h msId newState c rfl hnull hc rfl with hs | hs | hs
                  · exact Or.inr (.release (Or.inl hs) hreleased)
                  · exact Or.inr (.release (Or.inr hs) hreleased)
                  · exact Or.inl hs.symm

/-- A cancel request that is taken. -/
theorem handleCancelProposal_eq_ok {ectb : EscrowCancelTemplatesBody}
    {decryptedAttach : List PayloadItem} {result : Handled}
    (h : handleCancelProposal wallet wti contracts ectb decryptedAttach = .ok result) :
    ∃ contractId c ed, contracts contractId = some c ∧
      result.2 = Function.update contracts contractId (some ed) ∧ ed.isA = c.isA ∧
      (ed.state = c.state ∨ ContractEdge c.state ed.state) := by
  unfold handleCancelProposal at h
  split at h
  case h_1 ms rest hvin =>
    dsimp only at h
    rw [bind_eq_ok] at h
    obtain ⟨c, hc, h⟩ := h
    rw [bind_eq_ok] at h
    obtain ⟨_, _, h⟩ := h
    rw [require_bind_eq_ok, Bool.or_eq_true, decide_eq_true_eq, decide_eq_true_eq] at h
    obtain ⟨hstate, h⟩ := h
    cases h
    refine ⟨ms.multisigOutId, c, _, orReject_eq_ok.mp hc, rfl, ?_, ?_⟩
    · dsimp only
      split <;> rfl
    · dsimp only
      rcases hstate with hs | hs
      · rw [if_pos hs, hs]
        exact Or.inr .requestCancel
      · have hne : ¬ c.state = .contractAccepted := by
          rw [hs]
          decide
        rw [if_neg hne]
        exact Or.inl rfl
  case h_2 => cases h

/-- A cancel request is the one message whose handler reads the state. -/
theorem forward_handleCancelProposal {ectb : EscrowCancelTemplatesBody}
    {decryptedAttach : List PayloadItem} :
    Forward contracts (afterHandler wti contracts
        ((handleCancelProposal wallet wti contracts ectb decryptedAttach).map (·, true))).1.2 := by
  rw [afterHandler_contracts]
  cases hhandled : handleCancelProposal wallet wti contracts ectb decryptedAttach with
  | error _ => exact Forward.refl contracts
  | ok result =>
      obtain ⟨contractId, c, ed, hc, hwritten, hedge⟩ := handleCancelProposal_eq_ok hhandled
      dsimp only [Except.map]
      rw [hwritten, forward_update_iff, hc]
      exact hedge

theorem forward_processContractMessage_iff {decryptedAttach : List PayloadItem}
    {message : ContractMessage} :
    Forward contracts
        (processContractMessage wallet decryptedAttach message (wti, contracts)).1.2 ↔
      MessageInTurn wallet wti contracts decryptedAttach message := by
  cases message with
  | other => exact iff_of_true (Forward.refl contracts) trivial
  | unreadable => exact iff_of_true (Forward.refl contracts) trivial
  | proposal prop => exact forward_handleProposal_iff
  | contract cntr => exact forward_handleContract_iff
  | release releaseInstruction => exact forward_handleReleaseContract_iff
  | cancelProposal cpb => exact iff_of_true forward_handleCancelProposal trivial

end

/-! ## Expiration -/

theorem EscrowContractDetails.expire_isA (c : EscrowContractDetails) (txExpirationTsMedian : Nat) :
    (c.expire txExpirationTsMedian).isA = c.isA := by
  unfold expire
  dsimp only
  split <;> first | rfl | (split <;> rfl)

theorem EscrowContractDetails.expire_state (c : EscrowContractDetails)
    (txExpirationTsMedian : Nat) :
    (c.expire txExpirationTsMedian).state = c.state ∨
      ExpirationEdge c (c.expire txExpirationTsMedian).state := by
  unfold expire
  dsimp only
  split
  case h_1 hs =>
    split
    · exact Or.inr (.cancelRequest hs)
    · exact Or.inl rfl
  case h_2 hs =>
    split
    case isTrue h =>
      rw [Bool.and_eq_true, decide_eq_true_eq] at h
      exact Or.inr (.cancelAcceptance hs h.1)
    case isFalse => exact Or.inl rfl
  case h_3 => exact Or.inl rfl

/-- Expiration takes only its own steps, whatever is recorded. -/
theorem forwardExpired_handleContractExpirations (txExpirationTsMedian : Nat)
    (contracts : EscrowContracts) :
    ForwardExpired contracts (handleContractExpirations txExpirationTsMedian contracts) := by
  intro contractId
  unfold handleContractExpirations
  cases contracts contractId with
  | none => exact Option.Rel.none
  | some c =>
      exact Option.Rel.some
        ⟨c.expire_isA txExpirationTsMedian, c.expire_state txExpirationTsMedian⟩

/-! ## Runs -/

/-- What the wallet learns from outside: a transaction with its attachments, and with
the multisig outputs known by then, or a new median of timestamps. -/
inductive EscrowEvent
  | transaction (multisigTransfers : Hash → Option Transaction) (wti : WalletTransferInfo)
      (decryptedAttach : List PayloadItem)
  | expirations (txExpirationTsMedian : Nat)

/-- The transaction is one that this wallet knows its own multisig outputs for. -/
def EscrowWallet.knowing (wallet : EscrowWallet) (multisigTransfers : Hash → Option Transaction) :
    EscrowWallet :=
  { wallet with multisigTransfers }

section

variable (wallet : EscrowWallet)

def processEscrowEvent (contracts : EscrowContracts) : EscrowEvent → EscrowContracts
  | .transaction multisigTransfers wti decryptedAttach =>
      (processContractInfo (wallet.knowing multisigTransfers) wti decryptedAttach contracts).2
  | .expirations txExpirationTsMedian => handleContractExpirations txExpirationTsMedian contracts

def processEscrowEvents (contracts : EscrowContracts) (events : List EscrowEvent) :
    EscrowContracts :=
  events.foldl (processEscrowEvent wallet) contracts

/-- What holds of every message that the loop over the attachments reaches. -/
def EveryMessage (p : EscrowWallet → WalletTransferInfo → EscrowContracts → List PayloadItem →
    ContractMessage → Prop) (decryptedAttach : List PayloadItem) :
    List PayloadItem → Handled → Prop
  | [], _ => True
  | item :: rest, state =>
      p wallet state.1 state.2 decryptedAttach (readContractItem wallet item) ∧
        match processContractMessage wallet decryptedAttach (readContractItem wallet item) state with
        | (state', true) => EveryMessage p decryptedAttach rest state'
        | (_, false) => True

/-- What holds of every message of a run. -/
def EveryMessageOf (p : EscrowWallet → WalletTransferInfo → EscrowContracts → List PayloadItem →
    ContractMessage → Prop) : EscrowContracts → List EscrowEvent → Prop
  | _, [] => True
  | contracts, event :: rest =>
      (match event with
        | .transaction multisigTransfers wti decryptedAttach =>
            EveryMessage (wallet.knowing multisigTransfers) p decryptedAttach decryptedAttach
              (wti, contracts)
        | .expirations _ => True) ∧
      EveryMessageOf p (processEscrowEvent wallet contracts event) rest

end

/-- The message takes every contract forward. -/
def MessageForward (wallet : EscrowWallet) (wti : WalletTransferInfo) (contracts : EscrowContracts)
    (decryptedAttach : List PayloadItem) (message : ContractMessage) : Prop :=
  Forward contracts (processContractMessage wallet decryptedAttach message (wti, contracts)).1.2

theorem everyMessage_forward_iff {wallet : EscrowWallet} {decryptedAttach items : List PayloadItem}
    {state : Handled} :
    EveryMessage wallet MessageForward decryptedAttach items state ↔
      EveryMessage wallet MessageInTurn decryptedAttach items state := by
  induction items generalizing state with
  | nil => exact Iff.rfl
  | cons item rest ih =>
      unfold EveryMessage
      refine and_congr forward_processContractMessage_iff ?_
      split
      · exact ih
      · exact Iff.rfl

/-- Every step of a run, from a message to the next, goes forward exactly when every
message comes in its turn. -/
theorem everyMessageOf_forward_iff {wallet : EscrowWallet} {contracts : EscrowContracts}
    {events : List EscrowEvent} :
    EveryMessageOf wallet MessageForward contracts events ↔
      EveryMessageOf wallet MessageInTurn contracts events := by
  induction events generalizing contracts with
  | nil => exact Iff.rfl
  | cons event rest ih =>
      unfold EveryMessageOf
      refine and_congr ?_ ih
      cases event with
      | transaction multisigTransfers wti decryptedAttach => exact everyMessage_forward_iff
      | expirations txExpirationTsMedian => exact Iff.rfl

/-! ## From the first state of a run to its last -/

/-- A step of a contract, by a message or by expiration. -/
inductive ContractStep (s s' : ContractState) : Prop
  | message (h : ContractEdge s s')
  | cancelRequestExpired (hs : s = .contractCancelProposalSent) (hs' : s' = .contractAccepted)
  | cancelAcceptanceExpired (hs : s = .contractReleasedCancelled) (hs' : s' = .contractAccepted)

/-- Every contract stays with its party, and has gone through the steps of the order. -/
def FollowsOrder (contracts contracts' : EscrowContracts) : Prop :=
  ∀ contractId c, contracts contractId = some c → ∃ c', contracts' contractId = some c' ∧
    c'.isA = c.isA ∧ Relation.ReflTransGen ContractStep c.state c'.state

theorem FollowsOrder.refl (contracts : EscrowContracts) : FollowsOrder contracts contracts :=
  fun _ c hc => ⟨c, hc, rfl, .refl⟩

theorem FollowsOrder.trans {contracts₁ contracts₂ contracts₃ : EscrowContracts}
    (h₁ : FollowsOrder contracts₁ contracts₂) (h₂ : FollowsOrder contracts₂ contracts₃) :
    FollowsOrder contracts₁ contracts₃ := by
  intro contractId c hc
  obtain ⟨c', hc', hisA, hpath⟩ := h₁ contractId c hc
  obtain ⟨c'', hc'', hisA', hpath'⟩ := h₂ contractId c' hc'
  exact ⟨c'', hc'', hisA'.trans hisA, hpath.trans hpath'⟩

theorem Forward.followsOrder {contracts contracts' : EscrowContracts}
    (h : Forward contracts contracts') : FollowsOrder contracts contracts' := by
  intro contractId c hc
  obtain ⟨c', hc', hisA, hstate⟩ := h.kept contractId c hc
  refine ⟨c', hc', hisA, ?_⟩
  rcases hstate with hsame | hedge
  · rw [hsame]
  · exact .single (.message hedge)

theorem ForwardExpired.followsOrder {contracts contracts' : EscrowContracts}
    (h : ForwardExpired contracts contracts') : FollowsOrder contracts contracts' := by
  intro contractId c hc
  have hrel := h contractId
  rw [hc] at hrel
  cases hc' : contracts' contractId with
  | none =>
      rw [hc'] at hrel
      cases hrel
  | some c' =>
      rw [hc'] at hrel
      cases hrel with
      | some hrel =>
          obtain ⟨hisA, hstate⟩ := hrel
          refine ⟨c', rfl, hisA, ?_⟩
          rcases hstate with hsame | hedge
          · rw [hsame]
          · refine .single ?_
            generalize c'.state = s' at hedge
            cases hedge with
            | cancelRequest hs => exact .cancelRequestExpired hs rfl
            | cancelAcceptance hs _ => exact .cancelAcceptanceExpired hs rfl

theorem EveryMessage.followsOrder {wallet : EscrowWallet} {decryptedAttach items : List PayloadItem}
    {state : Handled} (h : EveryMessage wallet MessageForward decryptedAttach items state) :
    FollowsOrder state.2 (processContractItems wallet decryptedAttach items state).2 := by
  induction items generalizing state with
  | nil => exact FollowsOrder.refl _
  | cons item rest ih =>
      unfold EveryMessage at h
      obtain ⟨hforward, hrest⟩ := h
      have hstep := Forward.followsOrder hforward
      unfold processContractItems
      cases hresult : processContractMessage wallet decryptedAttach (readContractItem wallet item)
          state with
      | mk state' goesOn =>
          rw [hresult] at hstep hrest
          cases goesOn with
          | true => exact hstep.trans (ih hrest)
          | false => exact hstep

theorem EveryMessageOf.followsOrder {wallet : EscrowWallet} {contracts : EscrowContracts}
    {events : List EscrowEvent} (h : EveryMessageOf wallet MessageForward contracts events) :
    FollowsOrder contracts (processEscrowEvents wallet contracts events) := by
  induction events generalizing contracts with
  | nil => exact FollowsOrder.refl contracts
  | cons event rest ih =>
      obtain ⟨hevent, hrest⟩ := h
      refine FollowsOrder.trans ?_ (ih hrest)
      cases event with
      | transaction multisigTransfers wti decryptedAttach => exact hevent.followsOrder
      | expirations txExpirationTsMedian =>
          exact (forwardExpired_handleContractExpirations _ _).followsOrder

/-- No step leaves a contract that was released or burned, and of a cancelled one only
the cancellation itself can expire. -/
theorem ContractStep.of_isReleased {s s' : ContractState} (h : ContractStep s s')
    (hs : s.isReleased = true) : s = .contractReleasedCancelled ∧ s' = .contractAccepted := by
  cases h with
  | message hedge =>
      rw [hedge.not_released] at hs
      cases hs
  | cancelRequestExpired hs' _ =>
      subst hs'
      cases hs
  | cancelAcceptanceExpired hs' hs'' => exact ⟨hs', hs''⟩

theorem ContractStep.ne_proposalSent {s s' : ContractState} (h : ContractStep s s') :
    s' ≠ .proposalSent := by
  cases h with
  | message hedge => exact hedge.ne_proposalSent
  | cancelRequestExpired _ hs' =>
      subst hs'
      decide
  | cancelAcceptanceExpired _ hs' =>
      subst hs'
      decide

theorem eq_of_path_of_isReleased {s s' : ContractState}
    (h : Relation.ReflTransGen ContractStep s s') (hs : s.isReleased = true)
    (hne : s ≠ .contractReleasedCancelled) : s' = s := by
  induction h with
  | refl => rfl
  | tail _ hstep ih =>
      subst ih
      exact absurd (hstep.of_isReleased hs).1 hne

/-- For any wallet, any contracts it has, and any sequence of transactions and
expirations: every message takes every contract forward exactly when every message comes
in its turn.  Then each contract stays with its party and follows the order, and a
contract that was released or burned keeps its state. -/
theorem contracts_forward_iff (wallet : EscrowWallet) (contracts : EscrowContracts)
    (events : List EscrowEvent) :
    (EveryMessageOf wallet MessageForward contracts events ↔
      EveryMessageOf wallet MessageInTurn contracts events) ∧
    (EveryMessageOf wallet MessageInTurn contracts events →
      FollowsOrder contracts (processEscrowEvents wallet contracts events) ∧
      ∀ contractId c, contracts contractId = some c →
        c.state = .contractReleasedNormal ∨ c.state = .contractReleasedBurned →
        (processEscrowEvents wallet contracts events contractId).map EscrowContractDetails.state =
          some c.state) := by
  refine ⟨everyMessageOf_forward_iff, ?_⟩
  intro hturn
  have horder := (everyMessageOf_forward_iff.mpr hturn).followsOrder
  refine ⟨horder, ?_⟩
  intro contractId c hc hreleased
  obtain ⟨c', hc', _, hpath⟩ := horder contractId c hc
  rw [hc', Option.map_some]
  congr 1
  rcases hreleased with hs | hs
  · exact eq_of_path_of_isReleased hpath (by rw [hs]; rfl) (by rw [hs]; decide)
  · exact eq_of_path_of_isReleased hpath (by rw [hs]; rfl) (by rw [hs]; decide)

/-! ## A proposal that is sent again -/

def sampleEscrowPrimitives : CryptoPrimitives where
  prefixHash _ := 1
  getBlockHash _ := 2
  getBlockLonghash _ := 3
  getObjectBlobsize _ := 100
  multisigIdHash _ _ := 7
  kernelHash _ := 4
  getSignBuffHashForAliasUpdate _ := 5
  attachmentBlob _ := (0, 6)
  checkKey _ := true
  validateKeyImage _ := true
  checkSignature _ _ _ := true
  checkRingSignature _ _ _ _ := true
  sha256Hash _ := 8
  ripemd160Hash _ := 9

def sampleDetails : ContractPrivateDetails where
  title := []
  comment := []
  aAddr := { spendPublicKey := 1, viewPublicKey := 11, flags := 0 }
  bAddr := { spendPublicKey := 2, viewPublicKey := 12, flags := 0 }
  amountToPay := 3
  amountAPledge := 1
  amountBPledge := 1

/-- The transaction of the contract: one key input that signs all of it, and the
multisig output of the two parties. -/
def sampleContractTx : Transaction where
  version := 1
  extra := [.detailsFlags 1, .expirationTime 1000]
  vin := [.toKey {
    amount := 20000000000
    keyOffsets := []
    kImage := 1
    etcDetails := [.signedParts 1 2] }]
  vout := [⟨10000000005, .multisig { minimumSigs := 2, keys := [1, 2] }⟩]
  signatures := []
  attachment := []

/-- Items of the tag 20 are service attachments, named by the first byte of the body. -/
def sampleServiceAttachment? : PayloadItem → Option TxServiceAttachment
  | .other 20 [0] => some ⟨bcEscrowServiceId, instructionProposal, [], [], 0⟩
  | .other 20 [1] => some ⟨bcEscrowServiceId, instructionPrivateDetails, [], [], 0⟩
  | .other 20 [2] => some ⟨bcEscrowServiceId, instructionReleaseTemplates, [], [], 1⟩
  | _ => none

/-- The wallet of the seller. -/
def sampleSeller : EscrowWallet where
  primitives := {
    crypto := sampleEscrowPrimitives
    asServiceAttachment? := sampleServiceAttachment?
    decryptPayloadItems _ _ _ := some [.other 20 [1]]
    unserializeProposal _ := some { txTemplate := sampleContractTx, txOnetimeSecretKey := 5 }
    unserializeReleaseTemplates _ :=
      some { txNormalTemplate := emptyTransaction, txBurnTemplate := emptyTransaction }
    unserializeCancelTemplates _ := none
    loadPrivateDetails _ := some sampleDetails
    generateKeyDerivation viewPublicKey _ := some viewPublicKey
    derivePublicKey _ _ spendPublicKey := some spendPublicKey
    lookupAccOuts _ _ := true }
  keys := { accountAddress := sampleDetails.bAddr, spendSecretKey := 2, viewSecretKey := 12 }
  multisigTransfers _ := none

def sampleWti (tx : Transaction) (height : Nat) : WalletTransferInfo where
  tx := tx
  height := height
  timestamp := 0
  isIncome := true
  paymentId := []
  amount := 0
  fee := 0
  contract := none

def sampleProposalEvent (height : Nat) : EscrowEvent :=
  .transaction (fun _ => none) (sampleWti emptyTransaction height) [.other 20 [0]]

def sampleAcceptanceEvent : EscrowEvent :=
  .transaction (fun _ => none) (sampleWti sampleContractTx 20) [.other 20 [1], .other 20 [2]]

/-- The buyer sends the proposal once more when the contract is accepted: it is a
proposal again. -/
theorem contracts_proposal_sent_again :
    ¬ ∀ (wallet : EscrowWallet) (contracts : EscrowContracts) (events : List EscrowEvent),
      EveryMessageOf wallet MessageForward contracts events := by
  intro hforward
  have horder : FollowsOrder (processEscrowEvents sampleSeller (fun _ => none)
      [sampleProposalEvent 10, sampleAcceptanceEvent])
      (processEscrowEvents sampleSeller (processEscrowEvents sampleSeller (fun _ => none)
        [sampleProposalEvent 10, sampleAcceptanceEvent]) [sampleProposalEvent 30]) :=
    (hforward _ _ _).followsOrder
  have hbefore : (processEscrowEvents sampleSeller (fun _ => none)
      [sampleProposalEvent 10, sampleAcceptanceEvent] 7).map EscrowContractDetails.state =
      some .contractAccepted := by decide
  have hafter : (processEscrowEvents sampleSeller (processEscrowEvents sampleSeller (fun _ => none)
      [sampleProposalEvent 10, sampleAcceptanceEvent]) [sampleProposalEvent 30] 7).map
      EscrowContractDetails.state = some .proposalSent := by decide
  rw [Option.map_eq_some_iff] at hbefore
  obtain ⟨c, hc, haccepted⟩ := hbefore
  obtain ⟨c', hc', _, hpath⟩ := horder 7 c hc
  rw [hc', Option.map_some, Option.some_inj] at hafter
  rw [haccepted, hafter] at hpath
  cases hpath with
  | tail _ hstep => exact hstep.ne_proposalSent rfl

end Chinet
