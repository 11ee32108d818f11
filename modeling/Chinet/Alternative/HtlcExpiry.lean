import Chinet.Alternative.Accept
import Chinet.Storage.Pop

/-!
# When an HTLC output expires

An HTLC output is redeemed with an HTLC input before its expiration and refunded
with a key input after it.  The main chain counts the age of the output up to its
size, the height of the next block.  An alternative block is checked with
`height_of_current_alt_block`, which is its height above another alternative block
and one more for the first block of a branch.
-/

namespace Chinet

open Procedure FiniteStore

variable {env : Env}

/-! ## One rule for both chains -/

/-- The key that the input has to sign for, if an HTLC output of this age takes
the input at all. -/
def TxoutHtlc.keyFor (out : TxoutHtlc) (age : Nat) (input : Txin) : Option PublicKey :=
  if out.isExpired age then
    if input.isToKey then some out.pkeyRefund else none
  else if input.isHtlc then some out.pkeyRedeem else none

theorem TxoutHtlc.isExpired_iff {out : TxoutHtlc} {age : Nat} :
    out.isExpired age = true ↔ out.expiration ≤ age := by
  simp [TxoutHtlc.isExpired]

theorem TxoutHtlc.keyFor_htlc {out : TxoutHtlc} {age : Nat} {redeem : TxinHtlc} {key : PublicKey} :
    out.keyFor age (.htlc redeem) = some key ↔ age < out.expiration ∧ key = out.pkeyRedeem := by
  by_cases hexpired : out.isExpired age = true
  · have hle := TxoutHtlc.isExpired_iff.mp hexpired
    simp [TxoutHtlc.keyFor, hexpired, Txin.isToKey, Nat.not_lt.mpr hle]
  · have hlt := Nat.not_le.mp (mt TxoutHtlc.isExpired_iff.mpr hexpired)
    simp [TxoutHtlc.keyFor, hexpired, Txin.isHtlc, hlt, eq_comm]

theorem TxoutHtlc.keyFor_toKey {out : TxoutHtlc} {age : Nat} {refund : TxinToKey} {key : PublicKey} :
    out.keyFor age (.toKey refund) = some key ↔ out.expiration ≤ age ∧ key = out.pkeyRefund := by
  by_cases hexpired : out.isExpired age = true
  · have hle := TxoutHtlc.isExpired_iff.mp hexpired
    simp [TxoutHtlc.keyFor, hexpired, Txin.isToKey, hle, eq_comm]
  · have hlt := Nat.not_le.mp (mt TxoutHtlc.isExpired_iff.mpr hexpired)
    simp [TxoutHtlc.keyFor, hexpired, Txin.isHtlc, hlt]

/-- Redeeming and refunding exclude each other, and one of them is possible. -/
theorem TxoutHtlc.keyFor_xor (out : TxoutHtlc) (age : Nat) (redeem : TxinHtlc) (refund : TxinToKey) :
    Xor (∃ key, out.keyFor age (.htlc redeem) = some key)
      (∃ key, out.keyFor age (.toKey refund) = some key) := by
  simp only [TxoutHtlc.keyFor_htlc, TxoutHtlc.keyFor_toKey, exists_and_left, exists_eq, and_true]
  rcases lt_or_ge age out.expiration with hlt | hge
  · exact .inl ⟨hlt, by omega⟩
  · exact .inr ⟨hge, by omega⟩

/-! ## The main chain -/

/-- The reference stands for an unspent HTLC output of the main chain which is not
locked; its transaction is in block `k`. -/
structure MainSource (db : Db) (now : Nat) (tx : Transaction) (amount : UInt64) (out : TxoutHtlc)
    (k : Nat) (ref : TxoutRef) : Prop where
  source : ∃ txId n entry outAmount unlockTime, resolveOutputRef db amount ref = some (txId, n) ∧
    db.transactions.lookup txId = some entry ∧ entry.tx.vout[n]? = some ⟨outAmount, .htlc out⟩ ∧
    entry.keeperBlockHeight = k ∧ entry.spentFlags[n]? = some false ∧
    getTxUnlockTime entry.tx.toTransactionPrefix n = .ok unlockTime ∧
    if isPosCoinbase tx then shouldUnlockValueBeTreatedAsBlockHeight unlockTime = true
    else isTxSpendtimeUnlocked unlockTime db.size now = true

theorem MainSource.of_lookup {db : Db} {now k n unlockTime : Nat} {tx : Transaction}
    {amount outAmount : UInt64} {out : TxoutHtlc} {ref : TxoutRef} {txId : Hash}
    (href : resolveOutputRef db amount ref = some (txId, n))
    (hentry : (db.transactions.lookup txId).map (fun entry =>
      (entry.tx.vout[n]?, entry.keeperBlockHeight, entry.spentFlags[n]?,
        getTxUnlockTime entry.tx.toTransactionPrefix n)) =
      some (some ⟨outAmount, .htlc out⟩, k, some false, .ok unlockTime))
    (hlock : if isPosCoinbase tx then shouldUnlockValueBeTreatedAsBlockHeight unlockTime = true
      else isTxSpendtimeUnlocked unlockTime db.size now = true) :
    MainSource db now tx amount out k ref := by
  obtain ⟨entry, hlookup, hview⟩ := Option.map_eq_some_iff.mp hentry
  obtain ⟨hvout, hview⟩ := Prod.mk.inj hview
  obtain ⟨hk, hview⟩ := Prod.mk.inj hview
  obtain ⟨hflag, hunlock⟩ := Prod.mk.inj hview
  exact ⟨txId, n, entry, outAmount, unlockTime, href, hlookup, hvout, hk, hflag, hunlock, hlock⟩

/-- `scan_outputkeys_for_indexes` takes the referenced output for the input, which
has to sign for `key`. -/
def MainPermits (db : Db) (now : Nat) (tx : Transaction) (amount : UInt64) (ringSize : Nat)
    (ref : TxoutRef) (acc : ScanResult) (input : Txin) (key : PublicKey) : Prop :=
  ∃ acc', scanOutput db now tx input amount ringSize ref acc = .ok acc' ∧
    acc'.outputKeys = acc.outputKeys ++ [key]

/-- Such an output is refused for its age and the kind of the input only. -/
theorem MainSource.scanOutput_eq {db : Db} {now k : Nat} {tx : Transaction} {amount : UInt64}
    {out : TxoutHtlc} {ref : TxoutRef} (h : MainSource db now tx amount out k ref) (ringSize : Nat)
    (acc : ScanResult) : ∃ maxUnlockTime, ∀ input,
      scanOutput db now tx input amount ringSize ref acc =
        match out.keyFor (db.size - k) input with
        | none => .error .rejected
        | some key => .ok {
            outputKeys := acc.outputKeys ++ [key]
            htlcOuts := acc.htlcOuts ++ [out]
            maxRelatedBlockHeight := max acc.maxRelatedBlockHeight k
            sourceMaxUnlockTimeForPosCoinbase := maxUnlockTime } := by
  obtain ⟨txId, n, entry, outAmount, unlockTime, href, hlookup, hvout, rfl, hflag, hunlock, hlock⟩ :=
    h.source
  obtain ⟨maxUnlockTime, htime⟩ : ∃ maxUnlockTime, handleOutputUnlockTime db now tx unlockTime
      acc.sourceMaxUnlockTimeForPosCoinbase = .ok maxUnlockTime := by
    rw [handleOutputUnlockTime]
    split at hlock
    · rename_i hpos
      rw [if_pos hpos, hlock]
      exact ⟨_, rfl⟩
    · rename_i hpos
      rw [if_neg hpos, hlock]
      exact ⟨_, rfl⟩
  refine ⟨maxUnlockTime, fun input => ?_⟩
  rw [scanOutput, href]
  simp only [hlookup, hvout, outputKeyForInput, isOutputAllowedForInput, TxoutHtlc.keyFor, hflag,
    hunlock]
  cases out.isExpired (db.size - entry.keeperBlockHeight) with
  | true =>
      simp only [if_true]
      cases input.isToKey with
      | false => rfl
      | true =>
          simp only [if_true, require, decide_true, bind, Except.bind, pure, Except.pure, htime]
  | false =>
      simp only [Bool.false_eq_true, if_false]
      cases input.isHtlc with
      | false => rfl
      | true =>
          simp only [if_true, require, decide_true, bind, Except.bind, pure, Except.pure, htime]

theorem mainPermits_iff {db : Db} {now k ringSize : Nat} {tx : Transaction} {amount : UInt64}
    {out : TxoutHtlc} {ref : TxoutRef} (h : MainSource db now tx amount out k ref)
    {acc : ScanResult} {input : Txin} {key : PublicKey} :
    MainPermits db now tx amount ringSize ref acc input key ↔
      out.keyFor (db.size - k) input = some key := by
  obtain ⟨maxUnlockTime, hscan⟩ := h.scanOutput_eq ringSize acc
  rw [MainPermits, hscan]
  constructor
  · rintro ⟨acc', hok, hkeys⟩
    cases hkey : out.keyFor (db.size - k) input with
    | none =>
        rw [hkey] at hok
        cases hok
    | some key' =>
        rw [hkey] at hok
        cases hok
        have hsingle := List.append_cancel_left hkeys
        rw [List.singleton_inj.mp hsingle]
  · intro hkey
    rw [hkey]
    exact ⟨_, rfl, rfl⟩

section

variable {db : Db} {zone : Bool} {now k height i : Nat} {tx : Transaction} {hash : Hash}
  {sig : List Signature} {out : TxoutHtlc} {ref : TxoutRef}

/-- The scan of an input with one reference finds the key that the output permits. -/
theorem scanOutputkeysForIndexes_permits (input : Txin) (height : Nat) {part : TxinToKey}
    (h : MainSource db now tx part.amount out k ref) (hrefs : part.keyOffsets = [ref]) :
    ∃ maxUnlockTime, ∀ scan, scanOutputkeysForIndexes db now tx input part height = .ok scan ↔
      db.outputs part.amount ≠ [] ∧
        ∃ key, MainPermits db now tx part.amount 1 ref ⟨[], [], height, 0⟩ input key ∧
          scan = ⟨[key], [out], max height k, maxUnlockTime⟩ := by
  obtain ⟨maxUnlockTime, hscan⟩ := h.scanOutput_eq 1 ⟨[], [], height, 0⟩
  refine ⟨maxUnlockTime, fun scan => ?_⟩
  simp only [scanOutputkeysForIndexes_single hrefs, mainPermits_iff h, hscan]
  cases out.keyFor (db.size - k) input with
  | none => simp
  | some key =>
      constructor
      · rintro ⟨hamount, hok⟩
        exact ⟨hamount, key, rfl, (Except.ok.inj hok).symm⟩
      · rintro ⟨hamount, _, hkey, rfl⟩
        cases hkey
        exact ⟨hamount, rfl⟩

/-- `check_tx_input` for an HTLC input asks the output whether it permits the input. -/
theorem checkTxInputHtlc_permits {txin : TxinHtlc}
    (h : MainSource db now tx txin.amount out k ref) (hrefs : txin.keyOffsets = [ref]) :
    (∃ height', checkTxInputHtlc env db zone now tx i txin hash sig height = .ok height') ↔
      db.outputs txin.amount ≠ [] ∧ htlcHashMatches env out txin.hltcOrigin = true ∧
        ∃ key, MainPermits db now tx txin.amount 1 ref ⟨[], [], height, 0⟩ (.htlc txin) key ∧
          checkInputSignature env zone tx i txin.kImage txin.etcDetails hash sig [key] = .ok () := by
  obtain ⟨maxUnlockTime, hscan⟩ := scanOutputkeysForIndexes_permits (.htlc txin) height h hrefs
  simp only [checkTxInputHtlc_eq_ok_iff, hscan]
  constructor
  · rintro ⟨_, _, _, ⟨hamount, key, hkey, rfl⟩, hrelated, hsecret, _, hsignature, _⟩
    cases hrelated
    exact ⟨hamount, hsecret, key, hkey, hsignature⟩
  · rintro ⟨hamount, hsecret, key, hkey, hsignature⟩
    exact ⟨_, _, out, ⟨hamount, key, hkey, rfl⟩, rfl, hsecret, rfl, hsignature, rfl⟩

/-- `check_tx_input` for a key input asks the output whether it permits the input. -/
theorem checkTxInputToKey_permits {txin : TxinToKey}
    (h : MainSource db now tx txin.amount out k ref) (hrefs : txin.keyOffsets = [ref]) :
    (∃ scan, checkTxInputToKey env db zone now tx i txin hash sig height = .ok scan) ↔
      db.outputs txin.amount ≠ [] ∧
        ∃ key, MainPermits db now tx txin.amount 1 ref ⟨[], [], height, 0⟩ (.toKey txin) key ∧
          checkInputSignature env zone tx i txin.kImage txin.etcDetails hash sig [key] = .ok () := by
  obtain ⟨maxUnlockTime, hscan⟩ := scanOutputkeysForIndexes_permits (.toKey txin) height h hrefs
  simp only [checkTxInputToKey_eq_ok_iff, hscan]
  constructor
  · rintro ⟨_, ⟨hamount, key, hkey, rfl⟩, _, hsignature⟩
    exact ⟨hamount, key, hkey, hsignature⟩
  · rintro ⟨hamount, key, hkey, hsignature⟩
    refine ⟨_, ⟨hamount, key, hkey, rfl⟩, ?_, hsignature⟩
    rw [hrefs]
    rfl

end

/-! ## The alternative chain -/

/-- What a reference stands for in a block above an alternative chain: an output of
that chain with its height, or the number of an output of the main chain. -/
inductive AltReferent
  | altOutput (target : TxoutTarget) (height : Nat)
  | mainOutput (txId : Hash) (outN : Nat)

def AltInputContext.referent (env : Env) (node : Node) (ctx : AltInputContext) (amount : UInt64) :
    TxoutRef → Option AltReferent
  | .globalIndex index =>
      let amountTouchedAltchain :=
        (ctx.altChain.getLast?.bind (·.gindexLookupTable amount)).isSome
      match
        (if amountTouchedAltchain then
          findGindexInAltChain amount index.toNat ctx.altChain.reverse
        else none) with
      | some (abei, localOffset) =>
          (abei.outputsPubKeys amount)[localOffset]?.map fun out =>
            .altOutput out.toTarget abei.height
      | none =>
          (node.db.outputs amount)[index.toNat]?.map fun entry => .mainOutput entry.txId entry.outNo
  | .refById txId n =>
      match altChainTxIds env ctx.altChain txId with
      | some (tx, heightOfSourceBlock) =>
          (tx.vout[n]?).map fun out => .altOutput out.target heightOfSourceBlock
      | none => some (.mainOutput txId n)

theorem keyOfReference_eq {node : Node} {ctx : AltInputContext} {input : Txin} {amount : UInt64}
    {ringSize maxRelated : Nat} {ref : TxoutRef} :
    keyOfReference env node ctx input amount ringSize maxRelated ref =
      match ctx.referent env node amount ref with
      | none => .error .rejected
      | some (.altOutput target height) => do
          let key ← keyOfSource target input ctx.heightOfCurrentAltBlock height
          return (key, maxRelated)
      | some (.mainOutput txId outN) =>
          keyOfMainChainOutput node ctx input ringSize maxRelated txId outN := by
  cases ref with
  | globalIndex index =>
      rw [keyOfReference, AltInputContext.referent]
      generalize (if (ctx.altChain.getLast?.bind (·.gindexLookupTable amount)).isSome = true then
        findGindexInAltChain amount index.toNat ctx.altChain.reverse else none) = found
      cases found with
      | some found =>
          dsimp only
          cases (found.1.outputsPubKeys amount)[found.2]? <;> rfl
      | none =>
          dsimp only
          cases (node.db.outputs amount)[index.toNat]? <;> rfl
  | refById txId n =>
      rw [keyOfReference, AltInputContext.referent]
      cases altChainTxIds env ctx.altChain txId with
      | none => rfl
      | some found =>
          dsimp only
          cases found.1.vout[n]? <;> rfl

theorem keyOfSource_htlc {out : TxoutHtlc} {input : Txin} {height k : Nat} {key : PublicKey} :
    keyOfSource (.htlc out) input height k = .ok key ↔
      k < height ∧ out.keyFor (height - k) input = some key := by
  rw [keyOfSource, require_bind_eq_ok, require_bind_eq_ok, isOutputAllowedForInput, keyOfTarget,
    TxoutHtlc.keyFor]
  cases out.isExpired (height - k) with
  | true => cases input <;> simp [Txin.isToKey]
  | false => cases input <;> simp [Txin.isHtlc]

/-- The reference of a block at height `h` stands for an HTLC output of its branch,
created in block `k`: a block of the alternative chain, a block of the main chain
below the split, or the block itself, whose outputs no table has yet. -/
inductive AltSource (env : Env) (node : Node) (ctx : AltInputContext) (amount : UInt64)
    (out : TxoutHtlc) (h k : Nat) (ref : TxoutRef) : Prop
  | altBlock (lt : k < h) (referent : ctx.referent env node amount ref =
      some (.altOutput (.htlc out) k))
  | mainBlock (lt : k < h) (txId : Hash) (outN : Nat) (entry : TransactionChainEntry)
      (outAmount : UInt64) (referent : ctx.referent env node amount ref = some (.mainOutput txId outN))
      (lookup_eq : node.db.transactions.lookup txId = some entry)
      (vout_eq : entry.tx.vout[outN]? = some ⟨outAmount, .htlc out⟩)
      (height_eq : entry.keeperBlockHeight = k) (below : k < ctx.splitHeight)
  | sameBlock (eq : k = h)
      (not_alt : ∀ target height,
        ctx.referent env node amount ref ≠ some (.altOutput target height))
      (not_main : ∀ txId outN entry, ctx.referent env node amount ref = some (.mainOutput txId outN) →
        node.db.transactions.lookup txId = some entry → ctx.splitHeight ≤ entry.keeperBlockHeight)

/-- `validate_alt_block_input` takes the referenced output for the input, which has
to sign for `key`. -/
def AltPermits (env : Env) (node : Node) (ctx : AltInputContext) (amount : UInt64)
    (ringSize maxRelated : Nat) (ref : TxoutRef) (input : Txin) (key : PublicKey) : Prop :=
  ∃ maxRelated', keyOfReference env node ctx input amount ringSize maxRelated ref =
    .ok (key, maxRelated')

/-- `validate_alt_block_input` asks the output whether it permits the input. -/
theorem validateAltBlockInput_permits {node : Node} {ctx : AltInputContext} {tx : Transaction}
    {txHash : Hash} {i : Nat} {input : Txin} {part : TxinToKey} {sig : List Signature}
    {collected : List KeyImage} {ref : TxoutRef} (hpart : input.toKeyPart? = some part)
    (hrefs : part.keyOffsets = [ref]) :
    (∃ result, validateAltBlockInput env node ctx tx txHash i input sig collected = .ok result) ↔
      keyImageIsFree node ctx collected part.kImage = true ∧
        ∃ key, AltPermits env node ctx part.amount 1 0 ref input key ∧
          checkInputSignature env node.isInCheckpointZone tx i part.kImage part.etcDetails txHash sig
            [key] = .ok () := by
  have hkeys : ∀ found, keysOfReferences env node ctx input part.amount 1 0 [ref] = .ok found ↔
      ∃ key, keyOfReference env node ctx input part.amount 1 0 ref = .ok (key, found.2) ∧
        found.1 = [key] := by
    intro found
    rw [keysOfReferences, bind_eq_ok]
    constructor
    · rintro ⟨⟨key, maxRelated⟩, hkey, hreturn⟩
      cases hreturn
      exact ⟨key, hkey, rfl⟩
    · rintro ⟨key, hkey, hfound⟩
      exact ⟨_, hkey, congrArg Except.ok (Prod.ext hfound.symm rfl)⟩
  rw [validateAltBlockInput, hpart]
  dsimp only
  rw [hrefs]
  constructor
  · rintro ⟨result, hok⟩
    rw [require_bind_eq_ok, bind_eq_ok] at hok
    obtain ⟨hfree, _, hoffsets, hok⟩ := hok
    cases hoffsets
    rw [require_bind_eq_ok, bind_eq_ok] at hok
    obtain ⟨_, ⟨keys, maxRelated⟩, hfound, hok⟩ := hok
    rw [bind_eq_ok] at hok
    obtain ⟨_, hsignature, _⟩ := hok
    obtain ⟨key, hkey, rfl⟩ := (hkeys _).mp hfound
    exact ⟨hfree, key, ⟨maxRelated, hkey⟩, hsignature⟩
  · rintro ⟨hfree, key, ⟨maxRelated, hkey⟩, hsignature⟩
    refine ⟨(collected ++ [part.kImage], maxRelated), ?_⟩
    rw [require_bind_eq_ok, bind_eq_ok]
    refine ⟨hfree, [ref], rfl, ?_⟩
    rw [require_bind_eq_ok, bind_eq_ok]
    refine ⟨rfl, ([key], maxRelated), (hkeys _).mpr ⟨key, hkey, rfl⟩, ?_⟩
    rw [bind_eq_ok]
    exact ⟨(), hsignature, rfl⟩

theorem altPermits_iff {node : Node} {ctx : AltInputContext} {amount : UInt64} {out : TxoutHtlc}
    {h k ringSize maxRelated : Nat} {ref : TxoutRef}
    (hsource : AltSource env node ctx amount out h k ref) (hheight : h ≤ ctx.heightOfCurrentAltBlock)
    {input : Txin} {key : PublicKey} :
    AltPermits env node ctx amount ringSize maxRelated ref input key ↔
      k < h ∧ out.keyFor (ctx.heightOfCurrentAltBlock - k) input = some key := by
  rw [AltPermits, keyOfReference_eq]
  cases hsource with
  | altBlock hlt hreferent =>
      -- the source is an output of the branch
      rw [hreferent]
      dsimp only
      constructor
      · rintro ⟨maxRelated', hok⟩
        rw [bind_eq_ok] at hok
        obtain ⟨key', hkey, hok⟩ := hok
        cases hok
        exact ⟨hlt, (keyOfSource_htlc.mp hkey).2⟩
      · rintro ⟨_, hkey⟩
        have hsource := keyOfSource_htlc.mpr ⟨hlt.trans_le hheight, hkey⟩
        refine ⟨maxRelated, ?_⟩
        rw [hsource]
        rfl
  | mainBlock hlt txId outN entry outAmount hreferent hlookup hvout hk hbelow =>
      -- the source is an output of the main chain below the split
      subst hk
      rw [hreferent]
      dsimp only
      rw [keyOfMainChainOutput]
      simp only [hlookup, hvout]
      constructor
      · rintro ⟨maxRelated', hok⟩
        rw [bind_eq_ok] at hok
        obtain ⟨key', hkey, hok⟩ := hok
        simp only [require_bind_eq_ok] at hok
        cases hok.2.2
        exact ⟨hlt, (keyOfSource_htlc.mp hkey).2⟩
      · rintro ⟨_, hkey⟩
        have hsource := keyOfSource_htlc.mpr ⟨hlt.trans_le hheight, hkey⟩
        refine ⟨max maxRelated entry.keeperBlockHeight, ?_⟩
        rw [hsource]
        simp [require, hbelow, bind, Except.bind, pure, Except.pure]
  | sameBlock heq hnotAlt hnotMain =>
      -- the source is in the block itself, where no reference reaches it
      refine ⟨?_, fun hpermits => absurd hpermits.1 (by omega)⟩
      rintro ⟨maxRelated', hok⟩
      exfalso
      cases hreferent : ctx.referent env node amount ref with
      | none =>
          rw [hreferent] at hok
          cases hok
      | some referent =>
          cases referent with
          | altOutput target height => exact hnotAlt target height hreferent
          | mainOutput txId outN =>
              rw [hreferent] at hok
              dsimp only at hok
              rw [keyOfMainChainOutput] at hok
              cases hlookup : node.db.transactions.lookup txId with
              | none =>
                  rw [hlookup] at hok
                  cases hok
              | some entry =>
                  have hsplit := hnotMain txId outN entry hreferent hlookup
                  simp only [hlookup] at hok
                  split at hok
                  · cases hok
                  · rw [bind_eq_ok] at hok
                    obtain ⟨key', _, hok⟩ := hok
                    simp only [require_bind_eq_ok, decide_eq_true_eq] at hok
                    omega

/-! ## The two heights -/

/-- The context in which the inputs of a block at this place are checked. -/
def AltPlace.inputContext (place : AltPlace) (altChainBlockIds : List Hash) : AltInputContext :=
  { altChain := place.altChain, splitHeight := place.connectionHeight, altChainBlockIds }

theorem heightOfCurrentAltBlock_eq {node : Node} {prevId : Hash} {place : AltPlace}
    (hplace : findAltPlace node prevId = .ok (some place)) (ids : List Hash) :
    (place.inputContext ids).heightOfCurrentAltBlock =
      if place.altChain = [] then place.height + 1 else place.height := by
  rw [AltInputContext.heightOfCurrentAltBlock, AltPlace.inputContext]
  cases findAltPlace_ok hplace with
  | alternative below prev hlookup haltChain hwalk hprev hheight =>
      rw [haltChain, List.getLast?_concat, if_neg (by simp), hheight]
  | mainChain mainPrev hnone hlookup haltChain hprev hheight =>
      rw [AltPlace.connectionHeight, haltChain, if_pos rfl]
      rfl

/-- The spends of an HTLC output: with the secret, or as a refund. -/
inductive HtlcSpend (env : Env) (out : TxoutHtlc) : Txin → Prop
  | redeem (input : TxinHtlc) (secret : htlcHashMatches env out input.hltcOrigin = true) :
      HtlcSpend env out (.htlc input)
  | refund (input : TxinToKey) : HtlcSpend env out (.toKey input)

/-- Two checks permit the same spends, with the same keys, and each permits exactly
one of redeeming and refunding. -/
structure SameHtlcSpends (env : Env) (out : TxoutHtlc) (permits permits' : Txin → PublicKey → Prop) :
    Prop where
  same : ∀ input key, HtlcSpend env out input → (permits input key ↔ permits' input key)
  one : ∀ redeem refund,
    Xor (∃ key, permits (.htlc redeem) key) (∃ key, permits (.toKey refund) key)
  one' : ∀ redeem refund,
    Xor (∃ key, permits' (.htlc redeem) key) (∃ key, permits' (.toKey refund) key)

/-- The check of the main chain of size `h` and the check of an alternative block at
height `h` agree on an HTLC output unless the output is from the same block, or
expires right above the first block of a branch. -/
theorem htlcSpends_agree_iff {db : Db} {node : Node} {now k ringSize maxRelated : Nat} {prevId : Hash}
    {place : AltPlace} {tx : Transaction} {amount : UInt64} {out : TxoutHtlc} {ref ref' : TxoutRef}
    {ids : List Hash} {acc : ScanResult} (hplace : findAltPlace node prevId = .ok (some place))
    (hsize : db.size = place.height) (hmain : MainSource db now tx amount out k ref)
    (halt : AltSource env node (place.inputContext ids) amount out place.height k ref') :
    SameHtlcSpends env out (MainPermits db now tx amount ringSize ref acc)
        (AltPermits env node (place.inputContext ids) amount ringSize maxRelated ref') ↔
      k < place.height ∧ (place.altChain = [] → k + out.expiration ≠ place.height + 1) := by
  have hcurrent := heightOfCurrentAltBlock_eq hplace ids
  have hheight : place.height ≤ (place.inputContext ids).heightOfCurrentAltBlock := by
    rw [hcurrent]
    split <;> omega
  have hxor := out.keyFor_xor
  constructor
  · intro hsame
    have hlt : k < place.height := by
      by_contra hge
      rcases hsame.one' ⟨⟨0, [], 0, []⟩, []⟩ ⟨0, [], 0, []⟩ with ⟨⟨key, hkey⟩, _⟩ | ⟨⟨key, hkey⟩, _⟩
      · exact hge ((altPermits_iff halt hheight).mp hkey).1
      · exact hge ((altPermits_iff halt hheight).mp hkey).1
    refine ⟨hlt, fun hempty hexpires => ?_⟩
    rw [if_pos hempty] at hcurrent
    -- the alternative check takes the refund one block too early
    have hrefund := hsame.same (.toKey ⟨0, [], 0, []⟩) out.pkeyRefund (.refund _)
    rw [mainPermits_iff hmain, altPermits_iff halt hheight, hsize, hcurrent, TxoutHtlc.keyFor_toKey,
      TxoutHtlc.keyFor_toKey] at hrefund
    have hearly := (hrefund.mpr ⟨hlt, by omega, rfl⟩).1
    omega
  · rintro ⟨hlt, hexpires⟩
    have hages : out.isExpired (db.size - k) =
        out.isExpired ((place.inputContext ids).heightOfCurrentAltBlock - k) := by
      rw [Bool.eq_iff_iff, TxoutHtlc.isExpired_iff, TxoutHtlc.isExpired_iff, hsize, hcurrent]
      split
      · rename_i hempty
        have hne := hexpires hempty
        omega
      · rfl
    have hkeys : ∀ input, out.keyFor (db.size - k) input =
        out.keyFor ((place.inputContext ids).heightOfCurrentAltBlock - k) input := by
      intro input
      rw [TxoutHtlc.keyFor, TxoutHtlc.keyFor, hages]
    refine ⟨?_, ?_, ?_⟩
    · intro input key _
      rw [mainPermits_iff hmain, altPermits_iff halt hheight, hkeys]
      exact (and_iff_right hlt).symm
    · intro redeem refund
      simp only [mainPermits_iff hmain]
      exact hxor _ redeem refund
    · intro redeem refund
      simp only [altPermits_iff halt hheight, hlt, true_and]
      exact hxor _ redeem refund

/-- An output of the main chain for the first block of a branch above it. -/
theorem AltSource.of_lookup {node : Node} {prevId txId : Hash} {amount outAmount : UInt64}
    {out : TxoutHtlc} {h k n : Nat} {ref : TxoutRef}
    (hplace : ((findAltPlace node prevId).map fun place =>
      place.map fun place => (place.altChain.isEmpty, place.height)) = .ok (some (true, h)))
    (href : resolveOutputRef node.db amount ref = some (txId, n))
    (hentry : (node.db.transactions.lookup txId).map (fun entry =>
      (entry.tx.vout[n]?, entry.keeperBlockHeight)) = some (some ⟨outAmount, .htlc out⟩, k))
    (hlt : k < h) :
    ∃ place, findAltPlace node prevId = .ok (some place) ∧ place.altChain = [] ∧ place.height = h ∧
      AltSource env node (place.inputContext []) amount out place.height k ref := by
  rcases hfound : findAltPlace node prevId with failure | found | place
  · rw [hfound] at hplace
    cases hplace
  · rw [hfound] at hplace
    cases hplace
  · rw [hfound] at hplace
    obtain ⟨hempty, hheight⟩ := Prod.mk.inj (Option.some.inj (Except.ok.inj hplace))
    have haltChain : place.altChain = [] := List.isEmpty_iff.mp hempty
    refine ⟨place, rfl, haltChain, hheight, ?_⟩
    obtain ⟨entry, hlookup, hview⟩ := Option.map_eq_some_iff.mp hentry
    obtain ⟨hvout, hk⟩ := Prod.mk.inj hview
    have hreferent : (place.inputContext []).referent env node amount ref =
        some (.mainOutput txId n) := by
      rw [AltPlace.inputContext, haltChain]
      cases ref with
      | globalIndex index =>
          obtain ⟨output, houtput, hids⟩ := Option.map_eq_some_iff.mp href
          obtain ⟨rfl, rfl⟩ := Prod.mk.inj hids
          simp [AltInputContext.referent, houtput]
      | refById txId' n' =>
          cases href
          rfl
    have hsplit : place.connectionHeight = h := by
      rw [AltPlace.connectionHeight, haltChain]
      exact hheight
    refine .mainBlock (by omega) txId n entry outAmount hreferent hlookup hvout hk ?_
    rw [AltPlace.inputContext, hsplit]
    exact hlt

/-! ## A sample -/

def htlcEnv : Env :=
  { sampleEnv with config := { sampleEnv.config with hardFork03StartsAfterHeight := 0 } }

def sampleHtlc (expiration : Nat) : TxoutHtlc where
  htlcHash := 0
  flags := 0
  expiration
  pkeyRedeem := 8
  pkeyRefund := 9

/-- The reward of block 1 goes to an HTLC output. -/
def htlcTx (expiration : Nat) : Transaction :=
  sampleMultisigTx 997 [sampleMultisigInput 0 1 currencyBlockReward]
    [{ amount := currencyBlockReward, target := .htlc (sampleHtlc expiration) }]

def htlcTxs (expiration : Nat) : TransactionsMap :=
  Finmap.singleton (getTransactionHash sampleCrypto (htlcTx expiration)) (htlcTx expiration)

/-- Eleven plain blocks and one with `htlcTx`. -/
def htlcBlocks (expiration : Nat) : List Block :=
  (List.range 11).map samplePlainBlock ++
    [sampleBlock 0 11 11 [sampleMultisigOut currencyBlockReward]
      [getTransactionHash sampleCrypto (htlcTx expiration)]]

def htlcNode (expiration : Nat) : Node :=
  (addBlocks htlcEnv 100000 (htlcTxs expiration) (htlcBlocks expiration) emptyNode).getD emptyNode

/-- The same with a plain block on top. -/
def htlcTopNode (expiration : Nat) : Node :=
  (addBlocks htlcEnv 100000 ∅ [samplePlainBlock 12] (htlcNode expiration)).getD emptyNode

/-- The output of block 11 for the next block of the main chain. -/
theorem mainSource_htlcNode {expiration : Nat} (h : expiration = 5 ∨ expiration = 2) :
    (htlcNode expiration).db.size = 12 ∧ MainSource (htlcNode expiration).db 100000
      (htlcTx expiration) currencyBlockReward (sampleHtlc expiration) 11 (.globalIndex 0) := by
  rcases h with rfl | rfl <;>
    refine ⟨?_, @MainSource.of_lookup _ _ _ 0 0 _ _ currencyBlockReward _ _ 997 ?_ ?_ ?_⟩ <;>
    decide +kernel

/-- The same output for the first block of a branch above block 11. -/
theorem altSource_htlcTopNode {expiration : Nat} (h : expiration = 5 ∨ expiration = 2) :
    ∃ place, findAltPlace (htlcTopNode expiration) 12 = .ok (some place) ∧ place.altChain = [] ∧
      place.height = 12 ∧ AltSource htlcEnv (htlcTopNode expiration) (place.inputContext [])
        currencyBlockReward (sampleHtlc expiration) place.height 11 (.globalIndex 0) := by
  rcases h with rfl | rfl <;>
    refine @AltSource.of_lookup _ _ _ 997 _ currencyBlockReward _ _ _ 0 _ ?_ ?_ ?_ ?_ <;>
    decide +kernel

/-- An output with five blocks to go. -/
theorem htlcSpends_agree_on_sample :
    ∃ place, findAltPlace (htlcTopNode 5) 12 = .ok (some place) ∧
      SameHtlcSpends htlcEnv (sampleHtlc 5)
        (MainPermits (htlcNode 5).db 100000 (htlcTx 5) currencyBlockReward 1 (.globalIndex 0)
          ⟨[], [], 0, 0⟩)
        (AltPermits htlcEnv (htlcTopNode 5) (place.inputContext []) currencyBlockReward 1 0
          (.globalIndex 0)) := by
  obtain ⟨hsize, hmain⟩ := mainSource_htlcNode (.inl rfl)
  obtain ⟨place, hplace, hempty, hheight, halt⟩ := altSource_htlcTopNode (.inl rfl)
  refine ⟨place, hplace, ?_⟩
  refine (htlcSpends_agree_iff hplace (hsize.trans hheight.symm) hmain halt).mpr ⟨by omega, ?_⟩
  intro _
  rw [hheight]
  decide

/-- The output of block 11 with expiration 2, spent at height 12: redeemed on the
main chain, refunded in the first block of a branch. -/
theorem htlcSpends_differ_on_first_altblock :
    Reachable htlcEnv (htlcNode 2).db ∧
      ∃ place, findAltPlace (htlcTopNode 2) 12 = .ok (some place) ∧ place.height = 12 ∧
        (∀ redeem, MainPermits (htlcNode 2).db 100000 (htlcTx 2) currencyBlockReward 1
          (.globalIndex 0) ⟨[], [], 0, 0⟩ (.htlc redeem) 8) ∧
        (∀ refund, AltPermits htlcEnv (htlcTopNode 2) (place.inputContext []) currencyBlockReward 1 0
          (.globalIndex 0) (.toKey refund) 9) ∧
        ¬ SameHtlcSpends htlcEnv (sampleHtlc 2)
          (MainPermits (htlcNode 2).db 100000 (htlcTx 2) currencyBlockReward 1 (.globalIndex 0)
            ⟨[], [], 0, 0⟩)
          (AltPermits htlcEnv (htlcTopNode 2) (place.inputContext []) currencyBlockReward 1 0
            (.globalIndex 0)) := by
  have hrun : (addBlocks htlcEnv 100000 (htlcTxs 2) (htlcBlocks 2) emptyNode).isSome = true := by
    decide +kernel
  obtain ⟨hsize, hmain⟩ := mainSource_htlcNode (.inr rfl)
  obtain ⟨place, hplace, hempty, hheight, halt⟩ := altSource_htlcTopNode (.inr rfl)
  have hcurrent := heightOfCurrentAltBlock_eq hplace []
  rw [if_pos hempty, hheight] at hcurrent
  have hbound : place.height ≤ (place.inputContext []).heightOfCurrentAltBlock := by omega
  have hredeem : ∀ redeem, MainPermits (htlcNode 2).db 100000 (htlcTx 2) currencyBlockReward 1
      (.globalIndex 0) ⟨[], [], 0, 0⟩ (.htlc redeem) 8 := by
    intro redeem
    rw [mainPermits_iff hmain, hsize, TxoutHtlc.keyFor_htlc]
    decide
  have hrefund : ∀ refund, AltPermits htlcEnv (htlcTopNode 2) (place.inputContext [])
      currencyBlockReward 1 0 (.globalIndex 0) (.toKey refund) 9 := by
    intro refund
    rw [altPermits_iff halt hbound, hcurrent, TxoutHtlc.keyFor_toKey, hheight]
    decide
  refine ⟨reachable_of_isSome_addBlocks rfl hrun, place, hplace, hheight, hredeem, hrefund, ?_⟩
  intro hsame
  have hboth := hsame.same _ 9 (.refund ⟨0, [], 0, []⟩)
  have hmainRefund := hboth.mpr (hrefund _)
  rw [mainPermits_iff hmain, hsize, TxoutHtlc.keyFor_toKey] at hmainRefund
  exact absurd hmainRefund.1 (by decide)

end Chinet
