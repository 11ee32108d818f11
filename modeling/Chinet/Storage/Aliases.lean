import Chinet.Storage.State

/-!
# Aliases

An alias name has a history of entries, the last one in force, and every
address has the set of names whose last entry points at it.  `putAliasInfo`
registers or updates a name, `popAliasInfo` undoes the last entry.
-/

namespace Chinet

variable (env : Env)

/-! ## The two maps -/

def Db.aliasHistory (db : Db) (name : ByteString) : List ExtraAliasEntryBase :=
  (db.aliases.lookup name).getD []

/-- Take `name` out of the set of `addr`; an empty set is erased. -/
def eraseAliasOfAddress (name : ByteString) (addr : AccountPublicAddress)
    (addrToAlias : FiniteStore AccountPublicAddress (Finset ByteString)) :
    FiniteStore AccountPublicAddress (Finset ByteString) :=
  match addrToAlias.lookup addr with
  | none => addrToAlias
  | some names =>
      if names.erase name = ∅ then addrToAlias.erase addr
      else addrToAlias.insert addr (names.erase name)

def insertAliasOfAddress (name : ByteString) (addr : AccountPublicAddress)
    (addrToAlias : FiniteStore AccountPublicAddress (Finset ByteString)) :
    FiniteStore AccountPublicAddress (Finset ByteString) :=
  addrToAlias.insert addr (insert name ((addrToAlias.lookup addr).getD ∅))

/-- `put_alias_info`: a name without history is registered, another one is
updated with the signature of the address it belongs to. -/
def putAliasInfo (ai : ExtraAliasEntry) : DbProcedure Unit := fun db =>
  if ai.mAlias = [] then (.error .rejected, db)
  else
    match (db.aliasHistory ai.mAlias).getLast? with
    | none =>
        (.ok (), { db with
          aliases := db.aliases.insert ai.mAlias [ai.toExtraAliasEntryBase]
          addrToAlias := insertAliasOfAddress ai.mAlias ai.mAddress db.addrToAlias })
    | some last =>
        match ai.mSign with
        | [sign] =>
            if env.crypto.checkSignature (env.crypto.getSignBuffHashForAliasUpdate ai)
                last.mAddress.spendPublicKey sign then
              (.ok (), { db with
                aliases := db.aliases.insert ai.mAlias
                  (db.aliasHistory ai.mAlias ++ [ai.toExtraAliasEntryBase])
                addrToAlias := insertAliasOfAddress ai.mAlias ai.mAddress
                  (eraseAliasOfAddress ai.mAlias last.mAddress db.addrToAlias) })
            else (.error .rejected, db)
        | _ => (.error .rejected, db)

/-- `pop_alias_info`. -/
def popAliasInfo (ai : ExtraAliasEntry) : DbProcedure Unit := fun db =>
  if ai.mAlias = [] then (.error .rejected, db)
  else
    match (db.aliasHistory ai.mAlias).getLast? with
    | none => (.error .rejected, db)
    | some last =>
        if (db.addrToAlias.lookup last.mAddress).any (ai.mAlias ∉ ·) then
          (.error .rejected, db)
        else
          let addrToAlias := eraseAliasOfAddress ai.mAlias last.mAddress db.addrToAlias
          let history := (db.aliasHistory ai.mAlias).dropLast
          match history.getLast? with
          | none =>
              (.ok (), { db with aliases := db.aliases.erase ai.mAlias, addrToAlias })
          | some previous =>
              (.ok (), { db with
                aliases := db.aliases.insert ai.mAlias history
                addrToAlias := insertAliasOfAddress ai.mAlias previous.mAddress addrToAlias })

/-! ## Price and authority -/

def isAliasCharacter (ch : UInt8) : Bool :=
  (48 ≤ ch && ch ≤ 57) || (97 ≤ ch && ch ≤ 122) || ch == 45 || ch == 46

def validateAliasName (al : ByteString) : Bool :=
  al.length ≤ aliasNameMaxLen && al.all isAliasCharacter

def getTxFeeMedianEffectiveIndex (h : Nat) : Nat :=
  if h ≤ aliasMedianRecalcInterwal + 1 then 0 else h - 1 - (h - 1) % aliasMedianRecalcInterwal

/-- `tx_fee_median_for_height`. -/
def txFeeMedianForHeight (db : Db) (h : Nat) : Except Failure UInt64 :=
  match db.blocks[getTxFeeMedianEffectiveIndex h]? with
  | none => .error .thrown
  | some bei => .ok bei.effectiveTxFeeMedian

/-- The cached fee median after `get_tx_fee_median` stored it: never zero. -/
def orInitialCoast (median : UInt64) : UInt64 :=
  if median = 0 then aliasVeryInitalCoast else median

/-- `get_tx_fee_median`: the median is recomputed only when the effective index
differs from the cached one. -/
def getTxFeeMedian : NodeProcedure UInt64 := fun node =>
  let index := getTxFeeMedianEffectiveIndex node.db.size
  if node.currentFeeMedianEffectiveIndex ≠ index then
    match txFeeMedianForHeight node.db node.db.size with
    | .error e => (.error e, node)
    | .ok median =>
        (.ok (orInitialCoast median), { node with
          currentFeeMedian := orInitialCoast median
          currentFeeMedianEffectiveIndex := index })
  else
    (.ok (orInitialCoast node.currentFeeMedian),
      { node with currentFeeMedian := orInitialCoast node.currentFeeMedian })

/-- `get_alias_coast`. -/
def getAliasCoast (medianFee : UInt64) : UInt64 :=
  (if medianFee = 0 then aliasVeryInitalCoast else medianFee) * 10

/-- `prevalidate_alias_info`: a new name is paid for, and a short one is signed
by the alias authority. -/
def prevalidateAliasInfo (tx : Transaction) (eae : ExtraAliasEntry) : NodeProcedure Unit := do
  Procedure.check fun _ => require (validateAliasName eae.mAlias)
  if (← Procedure.gets fun node => node.db.aliasHistory eae.mAlias) = [] then
    let medianFee ← getTxFeeMedian
    Procedure.check fun _ =>
      require (getAmountForZeroPubkeys tx.toTransactionPrefix ≥ getAliasCoast medianFee)
    if eae.mAlias.length < aliasMinimumPublicShortNameAllowed then
      Procedure.check fun _ =>
        require (match eae.mSign with
          | [sign] =>
              env.crypto.checkSignature (env.crypto.getSignBuffHashForAliasUpdate eae)
                env.config.aliasValidationPubkey sign
          | _ => false)
  else pure ()

/-- `process_blockchain_tx_extra`. -/
def processBlockchainTxExtra (tx : Transaction) : NodeProcedure Unit :=
  match parseAndValidateTxExtra tx.toTransactionPrefix with
  | none => Procedure.fail .rejected
  | some { mAlias := none } => pure ()
  | some { mAlias := some entry } => do
      prevalidateAliasInfo env tx entry
      NodeProcedure.onDb (putAliasInfo env entry)

/-- `unprocess_blockchain_tx_extra`. -/
def unprocessBlockchainTxExtra (tx : Transaction) : DbProcedure Unit :=
  match parseAndValidateTxExtra tx.toTransactionPrefix with
  | none => Procedure.fail .rejected
  | some { mAlias := none } => pure ()
  | some { mAlias := some entry } => popAliasInfo entry

end Chinet
