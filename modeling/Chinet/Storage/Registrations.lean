import Chinet.Storage.FeeMedian
import Chinet.Storage.Unwinding

/-!
# What a registration passes

`prevalidate_alias_info` asks for the price of a name and, for a short name, for the
signature of the alias authority, only while the name has no history.  The price is
the one that `get_tx_fee_median` gives at that moment.
-/

namespace Chinet

open Procedure

variable {env : Env}

/-- The alias entry of a transaction. -/
def aliasOf? (tx : Transaction) : Option ExtraAliasEntry :=
  (parseAndValidateTxExtra tx.toTransactionPrefix).bind TxExtraInfo.mAlias

/-- The entry has one signature, and it is one by `key` for this entry. -/
def SignedBy (env : Env) (key : PublicKey) (ai : ExtraAliasEntry) : Prop :=
  ∃ sign, ai.mSign = [sign] ∧
    env.crypto.checkSignature (env.crypto.getSignBuffHashForAliasUpdate ai) key sign = true

/-- The checks on the first entry of a name, in a block that `start` adds: whatever
happened in the block before, only the cached median may have moved. -/
structure RegistrationChecked (env : Env) (start : Node) (tx : Transaction) (ai : ExtraAliasEntry) :
    Prop where
  paid : ∃ asked medianFee, FeeStep start asked ∧ (getTxFeeMedian asked).1 = .ok medianFee ∧
    getAliasCoast medianFee ≤ getAmountForZeroPubkeys tx.toTransactionPrefix
  authorised : ai.mAlias.length < aliasMinimumPublicShortNameAllowed →
    SignedBy env env.config.aliasValidationPubkey ai

theorem RegistrationChecked.of_feeStep {start node : Node} {tx : Transaction} {ai : ExtraAliasEntry}
    (h : RegistrationChecked env node tx ai) (hstep : FeeStep start node) :
    RegistrationChecked env start tx ai := by
  obtain ⟨asked, medianFee, hasked, hmedian, hpaid⟩ := h.paid
  exact ⟨⟨asked, medianFee, IsTrans.trans _ _ _ hstep hasked, hmedian, hpaid⟩, h.authorised⟩

theorem prevalidateAliasInfo_registered {tx : Transaction} {ai : ExtraAliasEntry} {node node' : Node}
    (h : prevalidateAliasInfo env tx ai node = (.ok (), node'))
    (hnew : node.db.aliasHistory ai.mAlias = []) : RegistrationChecked env node tx ai := by
  unfold prevalidateAliasInfo at h
  rw [check_bind_ok_iff] at h
  obtain ⟨_, _, h⟩ := h
  rw [gets_bind, if_pos hnew, bind_ok_iff] at h
  obtain ⟨medianFee, asked, hmedian, h⟩ := h
  rw [check_bind_ok_iff] at h
  obtain ⟨_, hpaid, h⟩ := h
  refine ⟨⟨node, medianFee, Std.Refl.refl _, by rw [hmedian], by simpa using hpaid⟩, fun hshort => ?_⟩
  rw [if_pos hshort, check_apply] at h
  have hsigned := (Prod.mk.inj h).1
  rw [require_eq_ok] at hsigned
  cases hsign : ai.mSign with
  | nil =>
      rw [hsign] at hsigned
      cases hsigned
  | cons sign rest =>
      rw [hsign] at hsigned
      cases rest with
      | nil => exact ⟨sign, hsign, hsigned⟩
      | cons second others => cases hsigned

/-- The entry of a transaction passes the checks if it begins a history. -/
def TransactionRegistered (env : Env) (start : Node) (D : Db) (tx : Transaction) : Prop :=
  ∀ ai, aliasOf? tx = some ai → D.aliasHistory ai.mAlias = [] → RegistrationChecked env start tx ai

theorem processBlockchainTxExtra_registered {tx : Transaction} {node node' : Node}
    (h : processBlockchainTxExtra env tx node = (.ok (), node')) :
    TransactionRegistered env node node.db tx := by
  intro ai hai hnew
  obtain ⟨info, hparse, hinfo⟩ := Option.bind_eq_some_iff.mp hai
  unfold processBlockchainTxExtra at h
  rw [hparse] at h
  obtain ⟨mAlias⟩ := info
  cases hinfo
  rw [bind_ok_iff] at h
  obtain ⟨_, n, hprevalidate, _⟩ := h
  exact prevalidateAliasInfo_registered hprevalidate hnew

theorem addTransactionFromBlock_registered {tx : Transaction} {txId : Hash} {height : Nat}
    {node node' : Node} (h : addTransactionFromBlock env tx txId height node = (.ok (), node')) :
    TransactionRegistered env node node.db tx := by
  unfold addTransactionFromBlock at h
  rw [check_bind_ok_iff] at h
  obtain ⟨_, _, h⟩ := h
  rw [bind_ok_iff] at h
  obtain ⟨_, n, hextra, _⟩ := h
  exact processBlockchainTxExtra_registered hextra

/-- Every entry that begins a history passed the checks. -/
def EntriesRegistered (env : Env) (start : Node) : Db → List LedgerEntry → Prop
  | _, [] => True
  | D, e :: rest =>
      TransactionRegistered env start D e.tx ∧ EntriesRegistered env start (applyEntry env e D) rest

end Chinet
