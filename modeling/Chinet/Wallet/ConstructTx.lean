import Chinet.OutputOffsets
import Chinet.Stratum.Server
import Chinet.Wallet.Destinations
import Chinet.Wallet.TxSources

/-!
# Constructing a transaction

`construct_tx` of a transaction that is not appended to and whose outputs are not sorted, for
sources that are outputs to keys.  It has an input for each source, which spends the output of
the wallet in it, and an output for each destination, of its amount.
-/

namespace Chinet

/-- The part of `finalize_tx_param` that differs from one attempt to another. -/
structure FinalizeTxParam where
  sources : List TxSourceEntry
  preparedDestinations : List TxDestinationEntry
  selectedTransfers : List Nat

/-- What constructing takes from the keys of the sender, from `crypto/` and from the standard
library, and what it does before the inputs and after the outputs. -/
structure ConstructPrimitives where
  /-- By the key of the transaction and the place of the output: the key of the output and its
  image. -/
  generateKeyImageHelper : PublicKey → Nat → Option (PublicKey × KeyImage)
  /-- `derive_public_key_from_target_address`, with the hint. -/
  derivePublicKeyFromTargetAddress :
    SecretKey → Nat → AccountPublicAddress → Option (PublicKey × UInt16)
  /-- The target of an HTLC by its key to redeem, with the hint of its key to refund. -/
  htlcTarget : DestinationOptionHtlcOut → SecretKey → Nat → PublicKey → Option (TxoutTarget × UInt16)
  sortOffsets : List TxoutRef → List TxoutRef
  /-- The version, the extra and the attachments that a transaction begins with. -/
  startTx : PublicKey × SecretKey → Transaction
  /-- The extra and the attachments that it ends with, and the signatures. -/
  finishTx : List TxSourceEntry → Transaction →
    Option (List PayloadItem × List PayloadItem × List (List Signature))

section

variable (prims : ConstructPrimitives)

/-! ## Inputs -/

def constructInput (src : TxSourceEntry) : Except SendError Txin :=
  match src.outputs[src.realOutput]?,
      prims.generateKeyImageHelper src.realOutTxKey src.realOutputInTxIndex with
  | some real, some (inEphemeral, img) =>
      if inEphemeral ≠ real.2 then .error .wallet
      else
        match absoluteOutputOffsetsToRelative prims.sortOffsets (src.outputs.map Prod.fst) with
        | .error _ => .error .other
        | .ok keyOffsets => .ok (.toKey {
            amount := src.amount.toUInt64
            keyOffsets
            kImage := img
            etcDetails := [] })
  | _, _ => .error .wallet

def constructInputs : List TxSourceEntry → Except SendError (List Txin)
  | [] => .ok []
  | src :: rest => do
      let input ← constructInput prims src
      let inputs ← constructInputs rest
      return input :: inputs

/-! ## Outputs -/

/-- The key of one address in an output; money to the null keys is burned. -/
def targetKey (txSec : SecretKey) (outputIndex : Nat) (apa : AccountPublicAddress) :
    Option (PublicKey × Option UInt16) :=
  if apa.spendPublicKey = nullPkey ∧ apa.viewPublicKey = nullPkey then some (nullPkey, none)
  else
    (prims.derivePublicKeyFromTargetAddress txSec outputIndex apa).map fun derived =>
      (derived.1, some derived.2)

/-- The target of an output, and the hint of a further key. -/
def outTarget (de : TxDestinationEntry) (txSec : SecretKey) (outputIndex : Nat)
    (targetKeys : List PublicKey) : Option (TxoutTarget × Option UInt16) :=
  if de.htlcOptions.expiration ≠ 0 then
    match targetKeys with
    | [key] => (prims.htlcTarget de.htlcOptions txSec outputIndex key).map fun t => (t.1, some t.2)
    | _ => none
  else
    match targetKeys, de.addr with
    | [key], [apa] => some (Stratum.keyTarget apa key, none)
    | _, _ => some (.multisig ⟨de.minimumSigs, targetKeys⟩, none)

/-- Each hint goes to the extra once. -/
def addDerivationHints (hints : List UInt16) (extra : List PayloadItem) (derivCache : List UInt16) :
    List PayloadItem × List UInt16 :=
  hints.foldl (fun p hint =>
    if hint ∈ p.2 then p else (p.1 ++ [Stratum.txDerivationHint hint], p.2 ++ [hint])) (extra, derivCache)

/-- `construct_tx_out` -/
def constructTxOut (de : TxDestinationEntry) (txSec : SecretKey) (outputIndex : Nat)
    (tx : Transaction) (derivCache : List UInt16) : Except SendError (Transaction × List UInt16) :=
  if de.addr.length = 1 ∨ (1 < de.addr.length ∧ de.minimumSigs ≤ de.addr.length) then
    match de.addr.mapM (targetKey prims txSec outputIndex) with
    | none => .error .wallet
    | some derived =>
        match outTarget prims de txSec outputIndex (derived.map Prod.fst) with
        | none => .error .wallet
        | some (target, refundHint?) =>
            let (extra, derivCache) := addDerivationHints
              (derived.filterMap Prod.snd ++ refundHint?.toList) tx.extra derivCache
            let vout := tx.vout ++ [⟨de.amount, target⟩]
            .ok ({ tx with
              extra
              vout }, derivCache)
  else .error .wallet

/-- The loop over the destinations. -/
def constructOutputs (txSec : SecretKey) :
    List TxDestinationEntry → Nat → Transaction → List UInt16 → Except SendError Transaction
  | [], _, tx, _ => .ok tx
  | de :: rest, outputIndex, tx, derivCache =>
      if de.amount = 0 then .error .wallet
      else do
        let (tx, derivCache) ← constructTxOut prims de txSec outputIndex tx derivCache
        constructOutputs txSec rest (outputIndex + 1) tx derivCache

/-! ## The transaction -/

/-- `construct_tx` -/
def constructTx (txKey : PublicKey × SecretKey) (ftp : FinalizeTxParam) :
    Except SendError Transaction :=
  if currencyTxMaxAllowedOuts < ftp.preparedDestinations.length then .error .wallet
  else do
    let vin ← constructInputs prims ftp.sources
    let tx ← constructOutputs prims txKey.2 ftp.preparedDestinations 0
      { prims.startTx txKey with
        vin
        vout := [] } []
    let summaryInputsMoney := (ftp.sources.map fun src => src.amount.toUInt64).sum
    let summaryOutsMoney := (ftp.preparedDestinations.map TxDestinationEntry.amount).sum
    if summaryInputsMoney < summaryOutsMoney then .error .wallet
    else
      match prims.finishTx ftp.sources tx with
      | none => .error .wallet
      | some (extra, attachment, signatures) =>
          .ok { tx with
            extra
            attachment
            signatures }

end

/-! ## What a transaction has -/

section

variable {prims : ConstructPrimitives}

theorem constructInputs_ok {sources : List TxSourceEntry} {inputs : List Txin}
    (h : constructInputs prims sources = .ok inputs) :
    List.Forall₂ (fun src input => constructInput prims src = .ok input) sources inputs := by
  induction sources generalizing inputs with
  | nil =>
      cases h
      exact List.Forall₂.nil
  | cons src rest ih =>
      rw [constructInputs] at h
      cases hinput : constructInput prims src with
      | error e =>
          rw [hinput] at h
          cases h
      | ok input =>
          rw [hinput] at h
          cases hrest : constructInputs prims rest with
          | error e =>
              rw [hrest] at h
              cases h
          | ok inputs' =>
              rw [hrest] at h
              cases h
              exact List.Forall₂.cons hinput (ih hrest)

theorem constructTxOut_ok {de : TxDestinationEntry} {txSec : SecretKey} {outputIndex : Nat}
    {tx tx' : Transaction} {derivCache derivCache' : List UInt16}
    (h : constructTxOut prims de txSec outputIndex tx derivCache = .ok (tx', derivCache')) :
    tx'.vin = tx.vin ∧ tx'.vout.map TxOut.amount = tx.vout.map TxOut.amount ++ [de.amount] := by
  unfold constructTxOut at h
  split at h
  · split at h
    · cases h
    · split at h
      · cases h
      · cases h
        exact ⟨rfl, by rw [List.map_append]; rfl⟩
  · cases h

theorem constructOutputs_ok {txSec : SecretKey} {dsts : List TxDestinationEntry} {outputIndex : Nat}
    {tx tx' : Transaction} {derivCache : List UInt16}
    (h : constructOutputs prims txSec dsts outputIndex tx derivCache = .ok tx') :
    tx'.vin = tx.vin ∧
      tx'.vout.map TxOut.amount = tx.vout.map TxOut.amount ++ dsts.map TxDestinationEntry.amount := by
  induction dsts generalizing outputIndex tx derivCache with
  | nil =>
      cases h
      exact ⟨rfl, (List.append_nil _).symm⟩
  | cons de rest ih =>
      rw [constructOutputs] at h
      split at h
      · cases h
      · cases hout : constructTxOut prims de txSec outputIndex tx derivCache with
        | error e =>
            rw [hout] at h
            cases h
        | ok p =>
            obtain ⟨tx₁, derivCache₁⟩ := p
            rw [hout] at h
            obtain ⟨hvin, hvout⟩ := constructTxOut_ok hout
            obtain ⟨hvin', hvout'⟩ := ih h
            refine ⟨hvin'.trans hvin, ?_⟩
            rw [hvout', hvout, List.append_assoc]
            rfl

/-- A transaction has an input for each source and the amounts of the destinations. -/
theorem constructTx_ok {txKey : PublicKey × SecretKey} {ftp : FinalizeTxParam} {tx : Transaction}
    (h : constructTx prims txKey ftp = .ok tx) :
    List.Forall₂ (fun src input => constructInput prims src = .ok input) ftp.sources tx.vin ∧
      tx.vout.map TxOut.amount = ftp.preparedDestinations.map TxDestinationEntry.amount := by
  unfold constructTx at h
  split at h
  · cases h
  · cases hinputs : constructInputs prims ftp.sources with
    | error e =>
        rw [hinputs] at h
        cases h
    | ok vin =>
        rw [hinputs] at h
        cases houtputs : constructOutputs prims txKey.2 ftp.preparedDestinations 0
            { prims.startTx txKey with
              vin
              vout := [] } [] with
        | error e =>
            simp only [bind, Except.bind, houtputs] at h
            cases h
        | ok tx₁ =>
            simp only [bind, Except.bind, houtputs] at h
            obtain ⟨hvin, hvout⟩ := constructOutputs_ok houtputs
            split at h
            · cases h
            · split at h
              · cases h
              · cases h
                exact ⟨hvin ▸ constructInputs_ok hinputs, hvout⟩

end

end Chinet
