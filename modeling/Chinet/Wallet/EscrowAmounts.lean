import Chinet.Storage.Payments
import Chinet.Wallet.ContractStates

/-!
# The amounts of an escrow contract

What `validate_escrow_proposal`, `validate_escrow_release` and `validate_escrow_cancel_release` make
sure of, with the amounts read as numbers.

The sums of the three functions are words, so a counterparty may let them wrap:

* the two pledges, the payment and the default fee of a contract are compared with the multisig
  amount as one word;
* the key outputs of a proposal are taken from its inputs after both sums have wrapped;
* the fee of a release template is a difference of words, read as a signed number.

The multisig amount itself has a lower bound only.  What it holds beyond the contract is the fee that
`accept_proposal` leaves for the release, and the party that accepts pays it.
-/

namespace Chinet

/-! ## Exact amounts -/

def TxoutTarget.isToKey : TxoutTarget → Bool
  | toKey _ => true
  | _ => false

def multisigAmount (outs : List TxOut) : Nat :=
  WordSums.total ((outs.filter (·.target.isMultisig)).map TxOut.amount)

def toKeyAmount (outs : List TxOut) : Nat :=
  WordSums.total ((outs.filter (·.target.isToKey)).map TxOut.amount)

namespace ContractPrivateDetails

variable (cpd : ContractPrivateDetails)

/-- The pledges of both parties and the payment. -/
def contractAmount : Nat :=
  cpd.amountAPledge.toNat + cpd.amountBPledge.toNat + cpd.amountToPay.toNat

/-- What party A has to bring in. -/
def shareOfA : Nat := cpd.amountAPledge.toNat + cpd.amountToPay.toNat

end ContractPrivateDetails

section

variable (template : Transaction) (cpd : ContractPrivateDetails) (fees : Nat)

/-- A template whose acceptance costs party B its pledge and `fees`, and no more. -/
structure ProposalProtects : Prop where
  covers : cpd.contractAmount + txDefaultFee.toNat ≤ multisigAmount template.vout
  paidByA : toKeyAmount template.vout + cpd.shareOfA ≤ template.amountIn
  paidByB : template.amountOut ≤ template.amountIn + (cpd.amountBPledge.toNat + fees)

/-- `left_for_fee_in_multisig` of `accept_proposal`. -/
def leftForFee : Nat := multisigAmount template.vout - cpd.contractAmount

/-- What party A brings in beyond its share. -/
def surplusOfA : Nat := template.amountIn - toKeyAmount template.vout - cpd.shareOfA

/-- A template whose amounts are what their words say, and whose release fee stays within `fees`. -/
structure ProposalFits : Prop where
  contract : cpd.contractAmount + txDefaultFee.toNat < 2 ^ 64
  outputs : toKeyAmount template.vout / 2 ^ 64 ≤ template.amountIn / 2 ^ 64
  release : leftForFee template cpd ≤ fees + surplusOfA template cpd

end

/-- The checks of `validate_tx_semantic` on the amounts of a transaction. -/
def amountsAccepted (tx : TransactionPrefix) : Bool :=
  tx.vout.all (·.amount > 0) && checkMoneyOverflow tx &&
    (getInputsMoneyAmount tx).2 ≥ getOutsMoneyAmount tx

theorem amountsAccepted_of_validateTxSemantic {crypto : CryptoPrimitives} {tx : TransactionPrefix}
    {txBlockSize : Nat} (h : validateTxSemantic crypto tx txBlockSize = true) :
    amountsAccepted tx = true := by
  simp only [validateTxSemantic, Bool.and_eq_true] at h
  obtain ⟨⟨⟨⟨⟨⟨⟨-, -⟩, houts⟩, hoverflow⟩, hamounts⟩, -⟩, -⟩, -⟩ := h
  have hpositive : tx.vout.all (·.amount > 0) = true := by
    rw [List.all_eq_true]
    intro out hout
    have hvalid := List.all_eq_true.mp houts out hout
    rw [outIsValid, Bool.and_eq_true] at hvalid
    exact hvalid.1
  rw [amountsAccepted, hpositive, hoverflow, hamounts]
  rfl

section

variable (tx : Transaction) (msAmount minimumFee : UInt64)

/-- A template that takes the multisig amount out and that the chain can accept. -/
structure ReleaseBalanced : Prop where
  balanced : ∃ fee, minimumFee.toNat ≤ fee ∧ tx.amountOut + fee = msAmount.toNat
  accepted : amountsAccepted tx.toTransactionPrefix = true

/-- A template without empty outputs, whose sum is not larger than the multisig amount by more than
half of the words. -/
structure ReleaseFits : Prop where
  positive : ∀ out ∈ tx.vout, out.amount ≠ 0
  bounded : tx.amountOut ≤ msAmount.toNat + 2 ^ 63

end

section

variable (wallet : EscrowWallet)

/-- An output to the key that is derived for a party. -/
def TxOut.pays (der : BitVec 256) (spendPublicKey : PublicKey) (i : Nat) (out : TxOut) : Bool :=
  match out.target with
  | .toKey target => wallet.primitives.derivePublicKey der i spendPublicKey = some target.key
  | _ => false

def paidOuts (der : BitVec 256) (spendPublicKey : PublicKey) : Nat → List TxOut → List TxOut
  | _, [] => []
  | i, out :: rest =>
      if out.pays wallet der spendPublicKey i then
        out :: paidOuts der spendPublicKey (i + 1) rest
      else paidOuts der spendPublicKey (i + 1) rest

/-- What a template pays to a party, for a wallet that looks at it. -/
def receivedAmount (tx : Transaction) (spendPublicKey : PublicKey) : Nat :=
  match wallet.primitives.generateKeyDerivation (getTxPubKeyFromExtra tx.toTransactionPrefix)
      wallet.keys.viewSecretKey with
  | none => 0
  | some der => WordSums.total ((paidOuts wallet der spendPublicKey 0 tx.vout).map TxOut.amount)

/-- The amount of the contract that a template spends. -/
def contractOutAmount (sourceTx : Transaction) (sourceMsOutIndex : Nat) : UInt64 :=
  ((sourceTx.vout[sourceMsOutIndex]?).map TxOut.amount).getD 0

/-- A release template that is of use to party A, whose wallet this is. -/
def ReleaseProtects (tx : Transaction) (releaseTypeNormal : Bool) (cpd : ContractPrivateDetails)
    (msAmount : UInt64) : Prop :=
  ReleaseBalanced tx msAmount txDefaultFee ∧
    if releaseTypeNormal then
      cpd.amountAPledge.toNat ≤ receivedAmount wallet tx cpd.aAddr.spendPublicKey
    else ∀ out ∈ tx.vout, out.isBurned = true

/-- A cancel template that is of use to party B, whose wallet this is. -/
def CancelProtects (tx : Transaction) (cpd : ContractPrivateDetails)
    (msAmount minimumReleaseFee : UInt64) : Prop :=
  ReleaseBalanced tx msAmount minimumReleaseFee ∧
    cpd.amountBPledge.toNat ≤ receivedAmount wallet tx cpd.bAddr.spendPublicKey

end

/-! ## The sums of a proposal -/

theorem templateInputsAmount_eq_ok {template : Transaction} {amount result : UInt64}
    {inputs : List Txin} (h : templateInputsAmount template amount inputs = .ok result) :
    result = amount + (inputs.map Txin.amount).sum := by
  induction inputs generalizing amount with
  | nil =>
      rw [templateInputsAmount, Except.ok.injEq] at h
      rw [← h, List.map_nil, List.sum_nil, add_zero]
  | cons input rest ih =>
      cases input with
      | toKey input =>
          rw [templateInputsAmount] at h
          split at h
          · cases h
          · simp only [require_bind_eq_ok] at h
            rw [ih h.2.2, List.map_cons, List.sum_cons, Txin.amount, add_assoc]
      | _ => cases h

/-- The outputs of a template: key outputs, and at most one multisig output. -/
theorem templateOutputs_eq_ok {amount result : UInt64} {found? msOutIndex? : Option Nat} {i : Nat}
    {outs : List TxOut}
    (h : templateOutputs amount found? i outs = .ok (result, msOutIndex?)) :
    result = amount + ((outs.filter (·.target.isToKey)).map TxOut.amount).sum ∧
      WordSums.total (outs.map TxOut.amount) = toKeyAmount outs + multisigAmount outs ∧
      (found?.isSome → msOutIndex? = found? ∧ multisigAmount outs = 0) ∧
      (∀ n, found? = none → msOutIndex? = some n → ∃ out,
        i ≤ n ∧ outs[n - i]? = some out ∧ multisigAmount outs = out.amount.toNat) := by
  induction outs generalizing amount found? i with
  | nil =>
      rw [templateOutputs, Except.ok.injEq, Prod.mk.injEq] at h
      obtain ⟨rfl, rfl⟩ := h
      refine ⟨(add_zero _).symm, rfl, fun _ => ⟨rfl, rfl⟩, ?_⟩
      intro n hnone hsome
      rw [hnone] at hsome
      cases hsome
  | cons out rest ih =>
      obtain ⟨outAmount, target⟩ := out
      cases target with
      | htlc target => cases h
      | toKey target =>
          obtain ⟨hsum, htotal, hsome, hnone⟩ := ih h
          have hmultisig : multisigAmount (⟨outAmount, .toKey target⟩ :: rest) = multisigAmount rest :=
            rfl
          have hkey : toKeyAmount (⟨outAmount, .toKey target⟩ :: rest) =
              outAmount.toNat + toKeyAmount rest := rfl
          refine ⟨?_, ?_, ?_, ?_⟩
          · rw [hsum, add_assoc]
            rfl
          · rw [List.map_cons, WordSums.total_cons, htotal, hkey, hmultisig, Nat.add_assoc]
          · rw [hmultisig]
            exact hsome
          · intro n hfound hindex
            obtain ⟨out, hle, hout, hamount⟩ := hnone n hfound hindex
            refine ⟨out, by omega, ?_, hamount⟩
            rw [show n - i = (n - (i + 1)) + 1 by omega, List.getElem?_cons_succ]
            exact hout
      | multisig target =>
          simp only [templateOutputs, require_bind_eq_ok, Option.isNone_iff_eq_none] at h
          obtain ⟨rfl, h⟩ := h
          obtain ⟨hsum, htotal, hsome, -⟩ := ih h
          obtain ⟨hindex, hempty⟩ := hsome rfl
          have hmultisig : multisigAmount (⟨outAmount, .multisig target⟩ :: rest) =
              outAmount.toNat + multisigAmount rest := rfl
          refine ⟨hsum, ?_, ?_, ?_⟩
          · rw [List.map_cons, WordSums.total_cons, htotal, hmultisig, Nat.add_left_comm]
            rfl
          · intro hfalse
            cases hfalse
          · intro n _ hn
            obtain rfl : i = n := by simpa [hindex] using hn
            refine ⟨⟨outAmount, .multisig target⟩, Nat.le_refl _, ?_, ?_⟩
            · rw [Nat.sub_self]
              rfl
            · rw [hmultisig, hempty, Nat.add_zero]

/-- The multisig amount is a word, so it covers a contract that is one. -/
theorem contractAmount_le_iff {cpd : ContractPrivateDetails} {fee msAmount : UInt64}
    (h : cpd.amountAPledge + cpd.amountBPledge + cpd.amountToPay + fee ≤ msAmount) :
    cpd.contractAmount + fee.toNat ≤ msAmount.toNat ↔ cpd.contractAmount + fee.toNat < 2 ^ 64 := by
  have hsum : [cpd.amountAPledge, cpd.amountBPledge, cpd.amountToPay, fee].sum =
      cpd.amountAPledge + cpd.amountBPledge + cpd.amountToPay + fee := by
    simp [add_assoc]
  have htotal : WordSums.total [cpd.amountAPledge, cpd.amountBPledge, cpd.amountToPay, fee] =
      cpd.contractAmount + fee.toNat := by
    simp [ContractPrivateDetails.contractAmount, Nat.add_assoc]
  rw [← hsum] at h
  rw [← htotal]
  exact WordSums.total_le_iff h

section

variable {wallet : EscrowWallet}

theorem validateProposalMultisig_eq_ok {prop : ProposalBody} {cpd : ContractPrivateDetails}
    {msOutIndex : Nat} {msAmount : UInt64} {ms : TxoutMultisig} {u : Unit}
    (h : validateProposalMultisig wallet prop cpd msOutIndex msAmount ms = .ok u) :
    cpd.amountAPledge + cpd.amountBPledge + cpd.amountToPay + txDefaultFee ≤ msAmount := by
  simp only [validateProposalMultisig, bind_eq_ok, require_eq_ok, decide_eq_true_eq] at h
  obtain ⟨-, -, -, -, -, -, -, -, -, -, -, -, hamount⟩ := h
  exact hamount

/-- What an accepted proposal has passed, in words. -/
theorem validateEscrowProposal_eq_ok {wti : WalletTransferInfo} {prop : ProposalBody}
    {decryptedItems : List PayloadItem} {msId : Hash} {cpd : ContractPrivateDetails}
    (h : validateEscrowProposal wallet wti prop = .ok (decryptedItems, msId, cpd)) :
    ∃ inputsAmount toKeyOutputsAmount msOutIndex out,
      templateInputsAmount prop.txTemplate 0 prop.txTemplate.vin = .ok inputsAmount ∧
      templateOutputs 0 none 0 prop.txTemplate.vout = .ok (toKeyOutputsAmount, some msOutIndex) ∧
      prop.txTemplate.vout[msOutIndex]? = some out ∧
      cpd.amountAPledge + cpd.amountBPledge + cpd.amountToPay + txDefaultFee ≤ out.amount ∧
      toKeyOutputsAmount < inputsAmount ∧
      cpd.amountAPledge + cpd.amountToPay ≤ inputsAmount - toKeyOutputsAmount := by
  simp only [validateEscrowProposal, bind_eq_ok, require_eq_ok, decide_eq_true_eq] at h
  obtain ⟨_, -, _, -, _, -, _, -, inputsAmount, hinputs, _, -, _, -, cpd', -, _, -, _, -, _, -, _, -,
    ⟨toKeyOutputsAmount, found?⟩, houts, msOutIndex, hfound, h⟩ := h
  rw [orReject_eq_ok] at hfound
  subst hfound
  split at h
  · rename_i msAmount ms hout
    simp only [bind_eq_ok, require_eq_ok, decide_eq_true_eq, pure, Except.pure, Except.ok.injEq,
      Prod.mk.injEq] at h
    obtain ⟨_, hmultisig, _, hlt, _, hshare, -, -, rfl⟩ := h
    exact ⟨inputsAmount, toKeyOutputsAmount, msOutIndex, _, hinputs, houts, hout,
      validateProposalMultisig_eq_ok hmultisig, hlt, hshare⟩
  · cases h

/-- An accepted proposal protects party B where its sums wrap nowhere and the release fee is within
the fees that B takes on. -/
theorem proposalProtects_iff {wti : WalletTransferInfo} {prop : ProposalBody}
    {decryptedItems : List PayloadItem} {msId : Hash} {cpd : ContractPrivateDetails} {fees : Nat}
    (h : validateEscrowProposal wallet wti prop = .ok (decryptedItems, msId, cpd)) :
    ProposalProtects prop.txTemplate cpd fees ↔ ProposalFits prop.txTemplate cpd fees := by
  obtain ⟨inputsAmount, toKeyOutputsAmount, msOutIndex, out, hinputs, houts, hout, hcovers, hlt,
    hshare⟩ := validateEscrowProposal_eq_ok h
  obtain ⟨hkeySum, htotal, -, hmultisig⟩ := templateOutputs_eq_ok houts
  obtain ⟨out', -, hout', hamount⟩ := hmultisig msOutIndex rfl rfl
  rw [Nat.sub_zero, hout, Option.some_inj] at hout'
  subst hout'
  rw [templateInputsAmount_eq_ok hinputs, zero_add, hkeySum, zero_add] at hlt hshare
  have hcovered : cpd.contractAmount + txDefaultFee.toNat ≤ multisigAmount prop.txTemplate.vout ↔
      cpd.contractAmount + txDefaultFee.toNat < 2 ^ 64 := by
    rw [hamount]
    exact contractAmount_le_iff hcovers
  have hshareOf : cpd.contractAmount < 2 ^ 64 →
      cpd.shareOfA = (cpd.amountAPledge + cpd.amountToPay).toNat := by
    intro hfits
    rw [ContractPrivateDetails.contractAmount] at hfits
    rw [UInt64.toNat_add, ContractPrivateDetails.shareOfA, Nat.mod_eq_of_lt (by omega)]
  have hpaid : cpd.contractAmount < 2 ^ 64 →
      (toKeyAmount prop.txTemplate.vout + cpd.shareOfA ≤ prop.txTemplate.amountIn ↔
        toKeyAmount prop.txTemplate.vout / 2 ^ 64 ≤ prop.txTemplate.amountIn / 2 ^ 64) := by
    intro hfits
    rw [hshareOf hfits]
    exact WordSums.total_add_le_iff hlt (UInt64.le_iff_toNat_le.mp hshare)
  have hrelease : cpd.contractAmount ≤ multisigAmount prop.txTemplate.vout →
      toKeyAmount prop.txTemplate.vout + cpd.shareOfA ≤ prop.txTemplate.amountIn →
      (prop.txTemplate.amountOut ≤ prop.txTemplate.amountIn + (cpd.amountBPledge.toNat + fees) ↔
        leftForFee prop.txTemplate cpd ≤ fees + surplusOfA prop.txTemplate cpd) := by
    intro hcovers hpaidByA
    rw [TransactionPrefix.amountOut, htotal, leftForFee, surplusOfA]
    rw [ContractPrivateDetails.contractAmount] at hcovers ⊢
    rw [ContractPrivateDetails.shareOfA] at hpaidByA ⊢
    omega
  constructor
  · rintro ⟨hcovers, hpaidByA, hpaidByB⟩
    have hfits := hcovered.mp hcovers
    refine ⟨hfits, (hpaid (by omega)).mp hpaidByA, ?_⟩
    exact (hrelease (by omega) hpaidByA).mp hpaidByB
  · rintro ⟨hfits, houtputs, hfee⟩
    have hcovers := hcovered.mpr hfits
    have hpaidByA := (hpaid (by omega)).mpr houtputs
    exact ⟨hcovers, hpaidByA, (hrelease (by omega) hpaidByA).mpr hfee⟩

/-! ## The sums of a release template -/

/-- The three sums, in words.  An output to the null key is not counted as burnt where it is the key
of the party. -/
theorem templateOutputSums_eq_ok {der : BitVec 256} {spendPublicKey : PublicKey}
    {sums result : TemplateOutputs} {i : Nat} {outs : List TxOut}
    (h : templateOutputSums wallet der spendPublicKey sums i outs = .ok result) :
    result.total = sums.total + (outs.map TxOut.amount).sum ∧
      result.toParty =
        sums.toParty + ((paidOuts wallet der spendPublicKey i outs).map TxOut.amount).sum ∧
      ∃ burned : List TxOut, burned.Sublist (outs.filter TxOut.isBurned) ∧
        result.toNull = sums.toNull + (burned.map TxOut.amount).sum := by
  induction outs generalizing sums i with
  | nil =>
      rw [templateOutputSums, Except.ok.injEq] at h
      subst h
      exact ⟨(add_zero _).symm, (add_zero _).symm, [], List.Sublist.refl _, (add_zero _).symm⟩
  | cons out rest ih =>
      obtain ⟨amount, target⟩ := out
      cases target with
      | multisig target => cases h
      | htlc target => cases h
      | toKey target =>
          simp only [templateOutputSums, bind_eq_ok, orReject_eq_ok] at h
          obtain ⟨ephemeralPubKey, hkey, h⟩ := h
          rw [paidOuts, List.map_cons, List.sum_cons, ← add_assoc]
          by_cases hparty : target.key = ephemeralPubKey
          · rw [if_pos hparty] at h
            obtain ⟨htotal, hpaid, burned, hburned, hnull⟩ := ih h
            have hpays : TxOut.pays wallet der spendPublicKey i ⟨amount, .toKey target⟩ = true := by
              simp [TxOut.pays, hkey, hparty]
            rw [if_pos hpays, List.map_cons, List.sum_cons, ← add_assoc]
            refine ⟨htotal, hpaid, burned, ?_, hnull⟩
            exact hburned.trans ((List.sublist_cons_self _ _).filter _)
          · rw [if_neg hparty] at h
            have hpays : ¬ TxOut.pays wallet der spendPublicKey i ⟨amount, .toKey target⟩ = true := by
              simp [TxOut.pays, hkey, Ne.symm hparty]
            rw [if_neg hpays]
            by_cases hnullKey : target.key = nullPkey
            · rw [if_pos hnullKey] at h
              obtain ⟨htotal, hpaid, burned, hburned, hnull⟩ := ih h
              have hisBurned : TxOut.isBurned ⟨amount, .toKey target⟩ = true := by
                simp [TxOut.isBurned, hnullKey]
              refine ⟨htotal, hpaid, ⟨amount, .toKey target⟩ :: burned, ?_, ?_⟩
              · rw [List.filter_cons_of_pos hisBurned]
                exact hburned.cons_cons _
              · rw [hnull, List.map_cons, List.sum_cons, ← add_assoc]
            · rw [if_neg hnullKey] at h
              obtain ⟨htotal, hpaid, burned, hburned, hnull⟩ := ih h
              refine ⟨htotal, hpaid, burned, ?_, hnull⟩
              exact hburned.trans ((List.sublist_cons_self _ _).filter _)

/-- A template whose fee is large enough as a signed word. -/
theorem releaseBalanced_iff {tx : Transaction} {ms : TxinMultisig} {minimumFee : UInt64}
    (hvin : tx.vin = [.multisig ms]) (hminimum : minimumFee.toNat < 2 ^ 63)
    (hfee : signedDifference ms.amount (tx.vout.map TxOut.amount).sum ≥ minimumFee.toBitVec.toInt) :
    ReleaseBalanced tx ms.amount minimumFee ↔ ReleaseFits tx ms.amount := by
  have hsigned : tx.amountOut + minimumFee.toNat ≤ ms.amount.toNat ↔
      tx.amountOut ≤ ms.amount.toNat + 2 ^ 63 :=
    WordSums.total_add_le_iff_of_signed hminimum hfee
  constructor
  · rintro ⟨⟨fee, hle, hsum⟩, haccepted⟩
    rw [amountsAccepted, Bool.and_eq_true, Bool.and_eq_true] at haccepted
    refine ⟨?_, by omega⟩
    intro out hout hzero
    have hpositive := List.all_eq_true.mp haccepted.1.1 out hout
    rw [hzero] at hpositive
    cases hpositive
  · rintro ⟨hpositive, hbounded⟩
    have hbalanced := hsigned.mpr hbounded
    have hamount := ms.amount.toNat_lt
    refine ⟨⟨ms.amount.toNat - tx.amountOut, by omega, by omega⟩, ?_⟩
    have hall : tx.vout.all (·.amount > 0) = true := by
      rw [List.all_eq_true]
      intro out hout
      have hne : out.amount.toNat ≠ 0 := fun h => hpositive out hout (UInt64.toNat.inj h)
      rw [decide_eq_true_eq, gt_iff_lt, UInt64.lt_iff_toNat_lt]
      exact Nat.pos_of_ne_zero hne
    have hinputs : checkInputsOverflow tx.toTransactionPrefix = true := by
      rw [checkInputsOverflow, hvin, Bool.and_eq_true, List.map_cons, List.map_nil, noOverflowFrom_iff]
      refine ⟨rfl, ?_⟩
      rw [WordSums.total_cons, WordSums.total_nil, UInt64.toNat_zero, Nat.zero_add, Nat.add_zero]
      exact hamount
    have houts : checkOutsOverflow tx.toTransactionPrefix = true := by
      rw [checkOutsOverflow, noOverflowFrom_iff, UInt64.toNat_zero, Nat.zero_add]
      exact Nat.lt_of_le_of_lt (Nat.le_of_add_right_le hbalanced) hamount
    have hspends : (getInputsMoneyAmount tx.toTransactionPrefix).2 = ms.amount := by
      rw [getInputsMoneyAmount, hvin, inputsMoneyFrom]
      split
      · rename_i hzero
        exact hzero.symm
      · rw [inputsMoneyFrom, zero_add]
        rfl
    have hpays : getOutsMoneyAmount tx.toTransactionPrefix ≤ ms.amount := by
      rw [UInt64.le_iff_toNat_le]
      calc (getOutsMoneyAmount tx.toTransactionPrefix).toNat
          ≤ tx.amountOut := WordSums.toNat_sum_le _
        _ ≤ ms.amount.toNat := Nat.le_of_add_right_le hbalanced
    rw [amountsAccepted, checkMoneyOverflow, hall, hinputs, houts, hspends]
    simpa using hpays

/-! ## Release templates -/

theorem validateTemplateInput_eq_ok {tx : Transaction} {sourceMsOut : TxoutMultisig} {msId : Hash}
    {sourceAmount minMsAmount : UInt64} {ms : TxinMultisig}
    (h : validateTemplateInput tx sourceMsOut msId sourceAmount minMsAmount = .ok ms) :
    tx.vin = [.multisig ms] ∧ ms.amount = sourceAmount := by
  rw [validateTemplateInput] at h
  split at h
  · rename_i ms' hvin
    simp only [require_bind_eq_ok, decide_eq_true_eq, pure, Except.pure, Except.ok.injEq] at h
    obtain ⟨-, -, -, hamount, -, -, -, rfl⟩ := h
    exact ⟨hvin, hamount⟩
  · cases h

/-- What an accepted release template has passed, in words. -/
theorem validateEscrowRelease_eq_ok {tx : Transaction} {releaseTypeNormal : Bool}
    {cpd : ContractPrivateDetails} {sourceMsOut : TxoutMultisig} {msId : Hash}
    {sourceMsOutIndex : Nat} {sourceTx : Transaction} {u : Unit}
    (h : validateEscrowRelease wallet tx releaseTypeNormal cpd sourceMsOut msId sourceMsOutIndex
      sourceTx = .ok u) :
    ∃ ms der sums, tx.vin = [.multisig ms] ∧
      ms.amount = contractOutAmount sourceTx sourceMsOutIndex ∧
      wallet.primitives.generateKeyDerivation (getTxPubKeyFromExtra tx.toTransactionPrefix)
        wallet.keys.viewSecretKey = some der ∧
      templateOutputSums wallet der cpd.aAddr.spendPublicKey ⟨0, 0, 0⟩ 0 tx.vout = .ok sums ∧
      (if releaseTypeNormal then cpd.amountAPledge ≤ sums.toParty else sums.toNull = sums.total) ∧
      signedDifference ms.amount sums.total ≥ txDefaultFee.toBitVec.toInt := by
  simp only [validateEscrowRelease, bind_eq_ok, require_eq_ok, decide_eq_true_eq, orReject_eq_ok] at h
  obtain ⟨ms, hinput, _, -, _, -, _, -, _, -, der, hder, sums, hsums, h⟩ := h
  obtain ⟨hvin, hamount⟩ := validateTemplateInput_eq_ok hinput
  cases releaseTypeNormal with
  | true =>
      simp only [reduceIte, bind_eq_ok, require_eq_ok, decide_eq_true_eq] at h
      obtain ⟨_, hparty, _, hfee, -⟩ := h
      exact ⟨ms, der, sums, hvin, hamount, hder, hsums, hparty, hfee⟩
  | false =>
      simp only [Bool.false_eq_true, reduceIte, bind_eq_ok, require_eq_ok, decide_eq_true_eq] at h
      obtain ⟨_, hburned, _, -, _, hfee, -⟩ := h
      exact ⟨ms, der, sums, hvin, hamount, hder, hsums, hburned, hfee⟩

/-- What an accepted cancel template has passed, in words. -/
theorem validateEscrowCancelRelease_eq_ok {tx : Transaction} {msId : Hash}
    {cpd : ContractPrivateDetails} {sourceTx : Transaction} {sourceMsOutIndex : Nat}
    {minimumReleaseFee : UInt64} {u : Unit}
    (h : validateEscrowCancelRelease wallet tx msId cpd sourceTx sourceMsOutIndex minimumReleaseFee =
      .ok u) :
    ∃ ms der sums, tx.vin = [.multisig ms] ∧
      ms.amount = contractOutAmount sourceTx sourceMsOutIndex ∧
      wallet.primitives.generateKeyDerivation (getTxPubKeyFromExtra tx.toTransactionPrefix)
        wallet.keys.viewSecretKey = some der ∧
      templateOutputSums wallet der cpd.bAddr.spendPublicKey ⟨0, 0, 0⟩ 0 tx.vout = .ok sums ∧
      cpd.amountBPledge ≤ sums.toParty ∧
      signedDifference ms.amount sums.total ≥ minimumReleaseFee.toBitVec.toInt := by
  rw [validateEscrowCancelRelease] at h
  split at h
  · cases h
  · rename_i sourceAmount sourceMsOut hsource
    simp only [bind_eq_ok, require_eq_ok, decide_eq_true_eq, orReject_eq_ok] at h
    obtain ⟨ms, hinput, _, -, _, -, _, -, der, hder, sums, hsums, _, hparty, _, hfee, -⟩ := h
    obtain ⟨hvin, hamount⟩ := validateTemplateInput_eq_ok hinput
    refine ⟨ms, der, sums, hvin, ?_, hder, hsums, hparty, hfee⟩
    rw [hamount, contractOutAmount, hsource]
    rfl
  · cases h

/-! ## What a release template protects -/

/-- Where nothing wraps, a template burns all of its outputs. -/
theorem isBurned_of_sum_eq {outs burned : List TxOut}
    (hburned : burned.Sublist (outs.filter TxOut.isBurned))
    (hsum : (burned.map TxOut.amount).sum = (outs.map TxOut.amount).sum)
    (hfits : WordSums.total (outs.map TxOut.amount) < 2 ^ 64)
    (hpositive : ∀ out ∈ outs, out.amount ≠ 0) : ∀ out ∈ outs, out.isBurned = true := by
  have hsplit := WordSums.total_filter_add TxOut.isBurned TxOut.amount outs
  have hsub : WordSums.total (burned.map TxOut.amount) ≤
      WordSums.total ((outs.filter TxOut.isBurned).map TxOut.amount) :=
    ((hburned.map TxOut.amount).map UInt64.toNat).sum_le_sum fun _ _ => Nat.zero_le _
  have htotal : WordSums.total (burned.map TxOut.amount) = WordSums.total (outs.map TxOut.amount) := by
    rw [← WordSums.toNat_sum_of_lt hfits, ← hsum]
    exact (WordSums.toNat_sum_of_lt (by omega)).symm
  intro out hout
  by_contra hnot
  have hkept : out ∈ outs.filter (!TxOut.isBurned ·) := by
    rw [List.mem_filter]
    exact ⟨hout, by simp [hnot]⟩
  have hamount := WordSums.toNat_le_total (List.mem_map_of_mem (f := TxOut.amount) hkept)
  have hzero : out.amount.toNat = 0 := by omega
  exact hpositive out hout (UInt64.toNat.inj hzero)

/-- The sum that the wallet forms for a party is at most what the party receives. -/
theorem le_receivedAmount {tx : Transaction} {der : BitVec 256} {spendPublicKey : PublicKey}
    {sums : TemplateOutputs} {pledge : UInt64}
    (hder : wallet.primitives.generateKeyDerivation (getTxPubKeyFromExtra tx.toTransactionPrefix)
      wallet.keys.viewSecretKey = some der)
    (hsums : templateOutputSums wallet der spendPublicKey ⟨0, 0, 0⟩ 0 tx.vout = .ok sums)
    (hpledge : pledge ≤ sums.toParty) : pledge.toNat ≤ receivedAmount wallet tx spendPublicKey := by
  obtain ⟨-, hpaid, -⟩ := templateOutputSums_eq_ok hsums
  rw [zero_add] at hpaid
  rw [receivedAmount, hder]
  calc pledge.toNat
      ≤ sums.toParty.toNat := UInt64.le_iff_toNat_le.mp hpledge
    _ = ((paidOuts wallet der spendPublicKey 0 tx.vout).map TxOut.amount).sum.toNat := by rw [hpaid]
    _ ≤ WordSums.total ((paidOuts wallet der spendPublicKey 0 tx.vout).map TxOut.amount) :=
        WordSums.toNat_sum_le _

theorem releaseProtects_iff {tx : Transaction} {releaseTypeNormal : Bool}
    {cpd : ContractPrivateDetails} {sourceMsOut : TxoutMultisig} {msId : Hash}
    {sourceMsOutIndex : Nat} {sourceTx : Transaction}
    (h : validateEscrowRelease wallet tx releaseTypeNormal cpd sourceMsOut msId sourceMsOutIndex
      sourceTx = .ok ()) :
    ReleaseProtects wallet tx releaseTypeNormal cpd (contractOutAmount sourceTx sourceMsOutIndex) ↔
      ReleaseFits tx (contractOutAmount sourceTx sourceMsOutIndex) := by
  obtain ⟨ms, der, sums, hvin, hamount, hder, hsums, hkind, hfee⟩ := validateEscrowRelease_eq_ok h
  obtain ⟨htotal, -, burned, hburned, hnull⟩ := templateOutputSums_eq_ok hsums
  rw [zero_add] at htotal hnull
  rw [htotal] at hfee
  have hbalanced := releaseBalanced_iff hvin (by decide) hfee
  rw [ReleaseProtects, ← hamount, hbalanced]
  constructor
  · exact And.left
  · intro hfits
    refine ⟨hfits, ?_⟩
    cases releaseTypeNormal with
    | true => exact le_receivedAmount hder hsums hkind
    | false =>
        obtain ⟨⟨fee, -, hsum⟩, -⟩ := hbalanced.mpr hfits
        have hkind : sums.toNull = sums.total := hkind
        rw [hnull, htotal] at hkind
        have hlt : tx.amountOut < 2 ^ 64 := by
          calc tx.amountOut
              ≤ ms.amount.toNat := by omega
            _ < 2 ^ 64 := ms.amount.toNat_lt
        exact isBurned_of_sum_eq hburned hkind hlt hfits.positive

theorem uint64_min_le_right (a b : UInt64) : min a b ≤ b := by
  change (if a ≤ b then a else b) ≤ b
  split
  · assumption
  · exact UInt64.le_refl b

theorem getMinimumAllowedFeeForContract_lt (msId : Hash) :
    (getMinimumAllowedFeeForContract wallet msId).toNat < 2 ^ 63 := by
  have hle : getMinimumAllowedFeeForContract wallet msId ≤ txMinimumFee := by
    rw [getMinimumAllowedFeeForContract]
    split
    · exact UInt64.le_refl _
    · exact uint64_min_le_right _ _
  calc (getMinimumAllowedFeeForContract wallet msId).toNat
      ≤ txMinimumFee.toNat := UInt64.le_iff_toNat_le.mp hle
    _ < 2 ^ 63 := by decide

theorem cancelProtects_iff {tx : Transaction} {cpd : ContractPrivateDetails} {msId : Hash}
    {sourceMsOutIndex : Nat} {sourceTx : Transaction} {minimumReleaseFee : UInt64}
    (hminimum : minimumReleaseFee.toNat < 2 ^ 63)
    (h : validateEscrowCancelRelease wallet tx msId cpd sourceTx sourceMsOutIndex minimumReleaseFee =
      .ok ()) :
    CancelProtects wallet tx cpd (contractOutAmount sourceTx sourceMsOutIndex) minimumReleaseFee ↔
      ReleaseFits tx (contractOutAmount sourceTx sourceMsOutIndex) := by
  obtain ⟨ms, der, sums, hvin, hamount, hder, hsums, hparty, hfee⟩ :=
    validateEscrowCancelRelease_eq_ok h
  obtain ⟨htotal, -⟩ := templateOutputSums_eq_ok hsums
  rw [zero_add] at htotal
  rw [htotal] at hfee
  rw [CancelProtects, ← hamount, releaseBalanced_iff hvin hminimum hfee]
  exact and_iff_left (le_receivedAmount hder hsums hparty)

end

/-- Accepted amounts are protective exactly where they fit: a proposal for every fee that the other
party takes on, and the templates of both kinds for the amount of their contract. -/
theorem escrowAmounts_protect_iff (wallet : EscrowWallet) :
    (∀ wti prop decryptedItems msId cpd fees,
      validateEscrowProposal wallet wti prop = .ok (decryptedItems, msId, cpd) →
      (ProposalProtects prop.txTemplate cpd fees ↔ ProposalFits prop.txTemplate cpd fees)) ∧
    (∀ tx releaseTypeNormal cpd sourceMsOut msId sourceMsOutIndex sourceTx,
      validateEscrowRelease wallet tx releaseTypeNormal cpd sourceMsOut msId sourceMsOutIndex
        sourceTx = .ok () →
      (ReleaseProtects wallet tx releaseTypeNormal cpd
          (contractOutAmount sourceTx sourceMsOutIndex) ↔
        ReleaseFits tx (contractOutAmount sourceTx sourceMsOutIndex))) ∧
    (∀ tx msId cpd sourceTx sourceMsOutIndex,
      validateEscrowCancelRelease wallet tx msId cpd sourceTx sourceMsOutIndex
        (getMinimumAllowedFeeForContract wallet msId) = .ok () →
      (CancelProtects wallet tx cpd (contractOutAmount sourceTx sourceMsOutIndex)
          (getMinimumAllowedFeeForContract wallet msId) ↔
        ReleaseFits tx (contractOutAmount sourceTx sourceMsOutIndex))) := by
  refine ⟨?_, ?_, ?_⟩
  · intro wti prop decryptedItems msId cpd fees h
    exact proposalProtects_iff h
  · intro tx releaseTypeNormal cpd sourceMsOut msId sourceMsOutIndex sourceTx h
    exact releaseProtects_iff h
  · intro tx msId cpd sourceTx sourceMsOutIndex h
    exact cancelProtects_iff (getMinimumAllowedFeeForContract_lt msId) h

/-! ## Amounts that wrap -/

/-- Templates besides the attachments of the contract itself. -/
def sampleTemplateAttachment? : PayloadItem → Option TxServiceAttachment
  | .other 20 [3] => some ⟨bcEscrowServiceId, instructionReleaseNormal, [], [], 0⟩
  | .other 20 [4] => some ⟨bcEscrowServiceId, instructionReleaseCancel, [], [], 0⟩
  | item => sampleServiceAttachment? item

/-- The wallet of one of the parties, which reads `details` in every proposal. -/
def sampleParty (address : AccountPublicAddress) (details : ContractPrivateDetails) :
    EscrowWallet where
  primitives := { sampleSeller.primitives with
    asServiceAttachment? := sampleTemplateAttachment?
    loadPrivateDetails _ := some details }
  keys := { accountAddress := address, spendSecretKey := 0, viewSecretKey := 0 }
  multisigTransfers _ := none

def sampleProposal : ProposalBody where
  txTemplate := sampleContractTx
  txOnetimeSecretKey := 5

def sampleTemplate (instruction : UInt8) (expiration : List PayloadItem) (vout : List TxOut) :
    Transaction where
  version := 1
  extra := .other 20 [instruction] :: expiration
  vin := [.multisig {
    amount := 10000000005
    multisigOutId := 7
    sigsCount := 2
    etcDetails := [] }]
  vout := vout
  signatures := [[1, 1]]
  attachment := []

def payTo (key : PublicKey) (amount : UInt64) : TxOut :=
  ⟨amount, .toKey { key, mixAttr := 0 }⟩

/-- A contract of small amounts, with a release and a cancel template that pay everything out. -/
theorem sampleTemplates_protect :
    ProposalProtects sampleContractTx sampleDetails txDefaultFee.toNat ∧
      ReleaseProtects (sampleParty sampleDetails.aAddr sampleDetails)
        (sampleTemplate 3 [] [payTo 1 1, payTo 2 4]) true sampleDetails 10000000005 ∧
      CancelProtects (sampleParty sampleDetails.bAddr sampleDetails)
        (sampleTemplate 4 [.expirationTime 1000] [payTo 1 4, payTo 2 1]) sampleDetails 10000000005
        txMinimumFee := by
  refine ⟨?_, ?_, ?_⟩
  · refine ((escrowAmounts_protect_iff (sampleParty sampleDetails.bAddr sampleDetails)).1
      (sampleWti emptyTransaction 1) sampleProposal [.other 20 [1]] 7 sampleDetails _ rfl).mpr ?_
    exact ⟨by decide, by decide, by decide⟩
  · refine ((escrowAmounts_protect_iff (sampleParty sampleDetails.aAddr sampleDetails)).2.1
      _ true sampleDetails { minimumSigs := 2, keys := [1, 2] } 7 0 sampleContractTx rfl).mpr ?_
    exact ⟨by decide, by decide⟩
  · refine ((escrowAmounts_protect_iff (sampleParty sampleDetails.bAddr sampleDetails)).2.2
      _ 7 sampleDetails sampleContractTx 0 rfl).mpr ?_
    exact ⟨by decide, by decide⟩

/-- A pledge of party B that makes the sum of the contract wrap. -/
def wrappedDetails : ContractPrivateDetails :=
  { sampleDetails with amountBPledge := 18446744073709551615 }

/-- The contract of `sampleDetails` with a multisig amount of party A's choice. -/
def overpricedProposal : ProposalBody :=
  { sampleProposal with txTemplate := { sampleContractTx with
    vout := [⟨1000000000000000, .multisig { minimumSigs := 2, keys := [1, 2] }⟩] } }

/-- A release template whose outputs wrap around to the pledge of party A. -/
def wrappedTemplate : Transaction :=
  sampleTemplate 3 [] [payTo 1 9223372036854775808, payTo 1 9223372036854775808, payTo 1 1]

/-- A pledge that the multisig amount does not cover, a release fee that only party B pays, and a
release that the chain refuses are all accepted. -/
theorem wrappedAmounts_not_protected :
    (validateEscrowProposal (sampleParty sampleDetails.bAddr wrappedDetails)
          (sampleWti emptyTransaction 1) sampleProposal =
        .ok ([.other 20 [1]], 7, wrappedDetails) ∧
      ∀ fees, ¬ ProposalProtects sampleContractTx wrappedDetails fees) ∧
    (validateEscrowProposal (sampleParty sampleDetails.bAddr sampleDetails)
          (sampleWti emptyTransaction 1) overpricedProposal =
        .ok ([.other 20 [1]], 7, sampleDetails) ∧
      ¬ ProposalProtects overpricedProposal.txTemplate sampleDetails txDefaultFee.toNat) ∧
    validateEscrowRelease (sampleParty sampleDetails.aAddr sampleDetails) wrappedTemplate true
        sampleDetails { minimumSigs := 2, keys := [1, 2] } 7 0 sampleContractTx = .ok () ∧
      ¬ ReleaseProtects (sampleParty sampleDetails.aAddr sampleDetails) wrappedTemplate true
        sampleDetails 10000000005 := by
  refine ⟨⟨rfl, ?_⟩, ⟨rfl, ?_⟩, rfl, ?_⟩
  · rintro fees ⟨hcovers, -, -⟩
    exact absurd hcovers (by decide)
  · rintro ⟨-, -, hpaidByB⟩
    exact absurd hpaidByB (by decide)
  · rintro ⟨⟨-, haccepted⟩, -⟩
    exact absurd haccepted (by decide)

end Chinet
