import Chinet.Storage.DoubleSpend
import Mathlib.Data.List.Chain

/-!
# Who may move an alias

The history of a name consists of the alias entries of the main chain for it, in their
order.  The first one was paid for and, if the name is short, is signed by the alias
authority; each of the others is signed by the owner before it.

What is signed is the entry in its old form, without the signatures.  Nothing in it tells
at which place of the history the entry stands.  So an owner who gets a name back can be
made to give it away again, with the entry and the signature of the first time.
-/

namespace Chinet

open Procedure FiniteStore

variable {env : Env}

/-! ## The history of a name -/

/-- The entry that a transaction of the ledger puts under `name`. -/
def LedgerEntry.aliasNamed? (name : ByteString) (e : LedgerEntry) : Option ExtraAliasEntryBase :=
  ((aliasOf? e.tx).filter (·.mAlias = name)).map ExtraAliasEntry.toExtraAliasEntryBase

def ExtraAliasEntryBase.named (name : ByteString) (entry : ExtraAliasEntryBase) : ExtraAliasEntry :=
  { entry with mAlias := name }

/-- `next` was signed by the owner after `prev`. -/
def SignedByOwner (env : Env) (name : ByteString) (prev next : ExtraAliasEntryBase) : Prop :=
  SignedBy env prev.mAddress.spendPublicKey (next.named name)

section

variable {D : Db} {tx : Transaction} {ai : ExtraAliasEntry}

theorem PutAlias.aliases_eq {db : Db} (h : PutAlias ai D db) :
    db.aliases =
      D.aliases.insert ai.mAlias (D.aliasHistory ai.mAlias ++ [ai.toExtraAliasEntryBase]) := by
  cases h with
  | registered hnew =>
      rw [hnew]
      rfl
  | updated hlast => rfl

theorem AliasPuttable.aliasHistory (h : AliasPuttable env tx D) (name : ByteString) :
    (Chinet.putAlias env tx D).aliasHistory name = D.aliasHistory name ++
      (((aliasOf? tx).filter (·.mAlias = name)).map
        ExtraAliasEntry.toExtraAliasEntryBase).toList := by
  rcases h.putAlias with ⟨ai, hparse, _, hput⟩ | ⟨hparse, heq⟩
  · have hai : aliasOf? tx = some ai := by
      rw [aliasOf?, hparse]
      rfl
    rw [hai, Db.aliasHistory, hput.aliases_eq, lookup_insert_ite]
    by_cases hname : ai.mAlias = name
    · rw [if_pos hname.symm, hname, Option.filter_some, if_pos (decide_eq_true hname)]
      rfl
    · rw [if_neg (Ne.symm hname), Option.filter_some, if_neg (by simpa using hname)]
      exact (List.append_nil _).symm
  · rw [heq, aliasOf?, hparse]
    exact (List.append_nil _).symm

/-- An entry on top of another one is signed by its owner. -/
theorem AliasPuttable.signed (h : AliasPuttable env tx D) (hai : aliasOf? tx = some ai)
    {last : ExtraAliasEntryBase} (hlast : (D.aliasHistory ai.mAlias).getLast? = some last) :
    SignedBy env last.mAddress.spendPublicKey ai := by
  obtain ⟨info, hparse, hput⟩ := h
  rw [aliasOf?, hparse] at hai
  have hok := hput ai hai
  unfold putAliasInfo at hok
  split at hok
  · cases hok
  · rw [hlast] at hok
    dsimp only at hok
    split at hok
    · rename_i sign hsign
      split at hok
      · rename_i hcheck
        exact ⟨sign, hsign, hcheck⟩
      · cases hok
    · cases hok

end

namespace Ledger

variable {es : List LedgerEntry} {db : Db}

theorem aliasHistory_eq (h : Ledger env es db) (name : ByteString) :
    db.aliasHistory name = es.filterMap (LedgerEntry.aliasNamed? name) := by
  induction h with
  | empty hsame =>
      rw [Db.aliasHistory, hsame.aliases]
      rfl
  | @snoc es D db e hist hvalid hsame ih =>
      have hhistory : db.aliasHistory name = (Chinet.putAlias env e.tx D).aliasHistory name := by
        rw [Db.aliasHistory, hsame.aliases, applyEntry_aliases, Db.aliasHistory]
      have hsingle : [e].filterMap (LedgerEntry.aliasNamed? name) = (e.aliasNamed? name).toList := by
        rw [List.filterMap_cons]
        cases e.aliasNamed? name <;> rfl
      rw [hhistory, hvalid.addable.extra.aliasHistory, ih, List.filterMap_append, hsingle]
      rfl

theorem signedByOwner (h : Ledger env es db) (name : ByteString) :
    (db.aliasHistory name).IsChain (SignedByOwner env name) := by
  induction h with
  | empty hsame =>
      rw [Db.aliasHistory, hsame.aliases]
      exact List.isChain_nil
  | @snoc es D db e hist hvalid hsame ih =>
      have hhistory : db.aliasHistory name = (Chinet.putAlias env e.tx D).aliasHistory name := by
        rw [Db.aliasHistory, hsame.aliases, applyEntry_aliases, Db.aliasHistory]
      rw [hhistory, hvalid.addable.extra.aliasHistory]
      refine List.isChain_append.mpr ⟨ih, ?_, fun prev hprev next hnext => ?_⟩
      · cases (aliasOf? e.tx).filter (·.mAlias = name) with
        | none => exact List.isChain_nil
        | some ai => exact List.isChain_singleton _
      · cases hnamed : (aliasOf? e.tx).filter (·.mAlias = name) with
        | none =>
            rw [hnamed] at hnext
            cases hnext
        | some ai =>
            rw [hnamed] at hnext
            obtain rfl := Option.some.inj hnext
            obtain ⟨hai, hname⟩ := Option.filter_eq_some_iff.mp hnamed
            obtain rfl := of_decide_eq_true hname
            exact hvalid.addable.extra.signed hai hprev

end Ledger

/-! ## First entries -/

/-- Entries that begin a history satisfy `Q` with the blocks below theirs. -/
def FirstsRegistered (Q : List BlockExtendedInfo → Transaction → ExtraAliasEntry → Prop)
    (blocks : List BlockExtendedInfo) (es : List LedgerEntry) : Prop :=
  ∀ before e after ai, es = before ++ e :: after → aliasOf? e.tx = some ai →
    before.filterMap (LedgerEntry.aliasNamed? ai.mAlias) = [] →
      Q (blocks.take e.keeperBlockHeight) e.tx ai

/-- No entry claims a height above the chain. -/
def HeightsBelow (n : Nat) (es : List LedgerEntry) : Prop := ∀ e ∈ es, e.keeperBlockHeight < n

theorem History.heightsBelow {records : List BlockRecord} {db : Db} (h : History env records db) :
    HeightsBelow records.length (records.flatMap BlockRecord.entries) := by
  induction h with
  | empty hsame hblocks => exact nofun
  | @snoc records D db r hist hvalid hsame hblocks ih =>
      have hsize : D.size = records.length := by rw [Db.size, hist.blocks_eq, List.length_map]
      intro e he
      rw [List.length_append, List.length_singleton]
      rw [List.flatMap_append, List.flatMap_singleton] at he
      rcases List.mem_append.mp he with hold | hnew
      · exact (ih e hold).trans (Nat.lt_succ_self _)
      · rw [hvalid.keeperBlockHeight_eq e hnew, hsize]
        exact Nat.lt_succ_self _

theorem EntriesValid.of_append {D : Db} {es es' : List LedgerEntry}
    (h : EntriesValid env D (es ++ es')) : EntriesValid env D es := by
  induction es generalizing D with
  | nil => trivial
  | cons e rest ih => exact ⟨h.1, ih h.2⟩

theorem EntriesRegistered.at {start : Node} {D : Db} {es before after : List LedgerEntry}
    {e : LedgerEntry} (h : EntriesRegistered env start D es) (hes : es = before ++ e :: after) :
    TransactionRegistered env start (applyEntries env before D) e.tx := by
  subst hes
  induction before generalizing D with
  | nil => exact h.1
  | cons first rest ih => exact ih h.2

namespace FirstsRegistered

variable {Q : List BlockExtendedInfo → Transaction → ExtraAliasEntry → Prop}
  {blocks : List BlockExtendedInfo} {es : List LedgerEntry}

theorem nil : FirstsRegistered Q blocks [] := by
  intro before e after ai hes
  simp at hes

/-- A shorter chain of the same blocks. -/
theorem of_append {rest : List BlockExtendedInfo} {es' : List LedgerEntry}
    (h : FirstsRegistered Q (blocks ++ rest) (es ++ es')) (hheights : HeightsBelow blocks.length es) :
    FirstsRegistered Q blocks es := by
  intro before e after ai hes hai hnew
  have hmem : e ∈ es := by
    rw [hes]
    exact List.mem_append_right _ List.mem_cons_self
  have hQ := h before e (after ++ es') ai (by rw [hes, List.append_assoc, List.cons_append]) hai hnew
  rwa [List.take_append_of_le_length (hheights e hmem).le] at hQ

/-- The entries of one more block. -/
theorem append {start : Node} {D : Db} {es' : List LedgerEntry} {bei : BlockExtendedInfo}
    (h : FirstsRegistered Q D.blocks es) (hledger : Ledger env es D)
    (hheights : HeightsBelow D.size es) (hvalid : EntriesValid env D es')
    (hheight : ∀ e ∈ es', e.keeperBlockHeight = D.size)
    (hregistered : EntriesRegistered env start D es')
    (hQ : ∀ tx ai, RegistrationChecked env start tx ai → Q D.blocks tx ai) :
    FirstsRegistered Q (D.blocks ++ [bei]) (es ++ es') := by
  intro before e after ai hes hai hnew
  have hadded : ∀ middle, before = es ++ middle → es' = middle ++ e :: after →
      Q ((D.blocks ++ [bei]).take e.keeperBlockHeight) e.tx ai := by
    intro middle hbefore hes'
    have htake : (D.blocks ++ [bei]).take e.keeperBlockHeight = D.blocks := by
      rw [hheight e (hes' ▸ List.mem_append_right _ List.mem_cons_self)]
      exact List.take_left
    rw [htake]
    refine hQ e.tx ai (hregistered.at hes' ai hai ?_)
    rw [hes'] at hvalid
    rw [(hledger.append hvalid.of_append).aliasHistory_eq, ← hbefore, hnew]
  rcases List.append_eq_append_iff.mp hes with ⟨middle, hbefore, hes'⟩ | ⟨middle, hold, hrest⟩
  · exact hadded middle hbefore hes'
  · cases middle with
    | nil => exact hadded [] (by rw [hold, List.append_nil, List.append_nil]) hrest.symm
    | cons first rest =>
        obtain ⟨rfl, -⟩ := List.cons.inj hrest
        have hmem : e ∈ es := by
          rw [hold]
          exact List.mem_append_right _ List.mem_cons_self
        rw [List.take_append_of_le_length (hheights e hmem).le]
        exact h before e rest ai hold hai hnew

end FirstsRegistered

/-! ## Runs -/

/-- The runs of `Reachable` in which every block is added to a node that satisfies
`Before`. -/
inductive ReachableWhen (env : Env) (Before : Node → Prop) : Db → Prop
  | genesis {now : Nat} {bl : Block} {onboard : TransactionsMap} {node node' : Node}
      (hempty : node.db = Db.empty) (htxs : bl.txHashes = []) (hbefore : Before node)
      (hrun : handleBlockToMainChain env now bl (env.crypto.getBlockHash bl) onboard node =
        (.ok .addedToMainChain, node')) : ReachableWhen env Before node'.db
  | addBlock {now : Nat} {bl : Block} {onboard : TransactionsMap} {node node' : Node}
      (hreach : ReachableWhen env Before node.db) (hbefore : Before node)
      (hrun : handleBlockToMainChain env now bl (env.crypto.getBlockHash bl) onboard node =
        (.ok .addedToMainChain, node')) : ReachableWhen env Before node'.db
  | popBlock {onboard : TransactionsMap} {node node' : Node}
      (hreach : ReachableWhen env Before node.db)
      (hrun : popBlockFromBlockchain env node = (.ok onboard, node')) :
      ReachableWhen env Before node'.db

theorem Reachable.when_true {db : Db} (h : Reachable env db) :
    ReachableWhen env (fun _ => True) db := by
  induction h with
  | genesis hempty htxs hrun => exact .genesis hempty htxs trivial hrun
  | addBlock _ hrun ih => exact .addBlock ih trivial hrun
  | popBlock _ hrun ih => exact .popBlock ih hrun

namespace ReachableWhen

variable {Before : Node → Prop} {db : Db}

theorem reachable (h : ReachableWhen env Before db) : Reachable env db := by
  induction h with
  | genesis hempty htxs _ hrun => exact .genesis hempty htxs hrun
  | addBlock _ _ hrun ih => exact .addBlock ih hrun
  | popBlock _ hrun ih => exact .popBlock ih hrun

/-- What a registration is checked for holds of the first entries on the main chain. -/
theorem firstsRegistered {Q : List BlockExtendedInfo → Transaction → ExtraAliasEntry → Prop}
    (hQ : ∀ node, Before node → ∀ tx ai, RegistrationChecked env node tx ai → Q node.db.blocks tx ai)
    (h : ReachableWhen env Before db) :
    ∃ records, History env records db ∧
      FirstsRegistered Q db.blocks (records.flatMap BlockRecord.entries) := by
  induction h with
  | @genesis now bl onboard node node' hempty htxs hbefore hrun =>
      obtain ⟨s⟩ := handleBlockToMainChain_added hrun
      obtain ⟨r, hr, hregistered⟩ := s.registeredRecord fun _ => htxs
      have hist : History env [] node.db := by
        refine .empty ?_ ?_
        · rw [hempty]
          exact SameLedger.refl _
        · rw [hempty]
          rfl
      refine ⟨_, hr.history hist, ?_⟩
      rw [s.blocks_eq, List.flatMap_append, List.flatMap_singleton]
      exact FirstsRegistered.nil.append hist.ledger nofun hr.valid.valid hr.valid.keeperBlockHeight_eq
        hregistered (hQ node hbefore)
  | @addBlock now bl onboard node node' hreach hbefore hrun ih =>
      obtain ⟨records, hist, hfirsts⟩ := ih
      obtain ⟨s⟩ := handleBlockToMainChain_added hrun
      obtain ⟨r, hr, hregistered⟩ :=
        s.registeredRecord fun hzero => absurd hzero hreach.reachable.size_ne_zero
      have hheights := hist.heightsBelow
      rw [← List.length_map BlockRecord.bei, ← hist.blocks_eq] at hheights
      refine ⟨_, hr.history hist, ?_⟩
      rw [s.blocks_eq, List.flatMap_append, List.flatMap_singleton]
      exact hfirsts.append hist.ledger hheights hr.valid.valid hr.valid.keeperBlockHeight_eq
        hregistered (hQ node hbefore)
  | popBlock hreach hrun ih =>
      obtain ⟨records, hist, hfirsts⟩ := ih
      obtain ⟨s⟩ := popBlockFromBlockchain_ok hrun
      obtain ⟨records', r, rfl⟩ := s.records_concat hist
      have hist' := s.history_concat hist
      have hheights := hist'.heightsBelow
      rw [← List.length_map BlockRecord.bei, ← hist'.blocks_eq] at hheights
      rw [← List.dropLast_append_getLast? _ s.last, List.flatMap_append, ← s.blocks_eq] at hfirsts
      exact ⟨records', hist', hfirsts.of_append hheights⟩

end ReachableWhen

/-! ## Ownership -/

/-- `get_alias_coast` as the blocks below define it. -/
def aliasCoastAbove (below : List BlockExtendedInfo) : UInt64 :=
  getAliasCoast (orInitialCoast
    ((below[getTxFeeMedianEffectiveIndex below.length]?.map
      BlockExtendedInfo.effectiveTxFeeMedian).getD 0))

/-- The signatures in the history of a name. -/
structure AliasSigned (env : Env) (db : Db) (name : ByteString) : Prop where
  first : ∀ first, (db.aliasHistory name).head? = some first →
    name.length < aliasMinimumPublicShortNameAllowed →
      SignedBy env env.config.aliasValidationPubkey (first.named name)
  later : (db.aliasHistory name).IsChain (SignedByOwner env name)

/-- The first entry of the history is that of a transaction of the chain which pays what
the blocks below its block ask for. -/
def AliasPaid (db : Db) (name : ByteString) : Prop :=
  ∀ first, (db.aliasHistory name).head? = some first →
    ∃ txId entry, db.transactions.lookup txId = some entry ∧
      aliasOf? entry.tx = some (first.named name) ∧
      aliasCoastAbove (db.blocks.take entry.keeperBlockHeight) ≤
        getAmountForZeroPubkeys entry.tx.toTransactionPrefix

/-- The fee median that the node asks for is the one of its chain. -/
def FeeMedianKnown (node : Node) : Prop := FeeMedianCoherent node.db.blocks node.feeFields

theorem FirstsRegistered.first {Q : List BlockExtendedInfo → Transaction → ExtraAliasEntry → Prop}
    {db : Db} {es : List LedgerEntry} {name : ByteString} {first : ExtraAliasEntryBase}
    (h : FirstsRegistered Q db.blocks es) (hledger : Ledger env es db)
    (hfirst : (db.aliasHistory name).head? = some first) :
    ∃ e ∈ es, aliasOf? e.tx = some (first.named name) ∧
      Q (db.blocks.take e.keeperBlockHeight) e.tx (first.named name) := by
  rw [hledger.aliasHistory_eq] at hfirst
  obtain ⟨rest, hrest⟩ := List.head?_eq_some_iff.mp hfirst
  obtain ⟨before, e, after, hes, hbefore, he, -⟩ := List.filterMap_eq_cons_iff.mp hrest
  obtain ⟨ai, hnamed, rfl⟩ := Option.map_eq_some_iff.mp he
  obtain ⟨hai, hname⟩ := Option.filter_eq_some_iff.mp hnamed
  obtain rfl := of_decide_eq_true hname
  refine ⟨e, ?_, hai, h before e after ai hes hai ?_⟩
  · rw [hes]
    exact List.mem_append_right _ List.mem_cons_self
  · rw [List.filterMap_eq_nil_iff]
    exact hbefore

/-- The median asked for is the one that the price depends on. -/
theorem FeeMedianCoherent.aliasCoast {node : Node} {medianFee : UInt64}
    (h : FeeMedianCoherent node.db.blocks node.feeFields)
    (hmedian : (Chinet.getTxFeeMedian node).1 = .ok medianFee) :
    getAliasCoast medianFee = aliasCoastAbove node.db.blocks := by
  by_cases hempty : node.db.blocks = []
  · have hindex : getTxFeeMedianEffectiveIndex node.db.size = 0 := by
      rw [Db.size, hempty]
      rfl
    have hbelow : aliasCoastAbove node.db.blocks = getAliasCoast (orInitialCoast 0) := by
      rw [aliasCoastAbove, hempty]
      rfl
    unfold Chinet.getTxFeeMedian at hmedian
    dsimp only at hmedian
    by_cases hcached : node.currentFeeMedianEffectiveIndex = 0
    · rw [if_neg (by rw [hindex, hcached]; exact not_not.mpr rfl)] at hmedian
      have hstored := h.cached (by rw [Node.feeFields, hcached]; exact Nat.zero_le _)
      rw [Node.feeFields] at hstored
      dsimp only at hstored
      rw [hcached] at hstored
      rw [← Except.ok.inj hmedian, hstored, hbelow]
      rfl
    · rw [if_pos (by rw [hindex]; exact hcached), txFeeMedianForHeight, hempty] at hmedian
      cases hmedian
  · obtain ⟨bei, hbei, -⟩ := h.asked_fst hempty
    obtain ⟨medianFee', hchain, hasked⟩ := h.getTxFeeMedian hempty
    rw [hasked] at hmedian
    rw [txFeeMedianForHeight, Db.size, hbei] at hchain
    rw [← Except.ok.inj hmedian, ← Except.ok.inj hchain, aliasCoastAbove, hbei]
    rfl

/-- Blocks that are added one after the other know the median if the first one does. -/
theorem ReachableWhen.of_addBlocks {now : Nat} {onboard : TransactionsMap} {blocks : List Block}
    {node node' : Node} (hreach : ReachableWhen env FeeMedianKnown node.db)
    (hknown : FeeMedianKnown node) (h : addBlocks env now onboard blocks node = some node') :
    ReachableWhen env FeeMedianKnown node'.db := by
  induction blocks generalizing node with
  | nil =>
      cases h
      exact hreach
  | cons bl rest ih =>
      rw [addBlocks] at h
      split at h
      · rename_i n hrun
        obtain ⟨s⟩ := handleBlockToMainChain_added hrun
        exact ih (hreach.addBlock hknown hrun) (s.feeMedianCoherent hknown) h
      · cases h

theorem reachableWhen_of_isSome_addBlocks {now : Nat} {onboard : TransactionsMap} {genesis : Block}
    {rest : List Block} (htxs : genesis.txHashes = [])
    (h : (addBlocks env now onboard (genesis :: rest) emptyNode).isSome = true) :
    ReachableWhen env FeeMedianKnown
      ((addBlocks env now onboard (genesis :: rest) emptyNode).getD emptyNode).db := by
  obtain ⟨node, hnode⟩ := Option.isSome_iff_exists.mp h
  rw [hnode, Option.getD_some]
  rw [addBlocks] at hnode
  split at hnode
  · rename_i n hrun
    obtain ⟨s⟩ := handleBlockToMainChain_added hrun
    have hknown : FeeMedianKnown emptyNode := FeeMedianCoherent.empty
    exact (ReachableWhen.genesis rfl htxs hknown hrun).of_addBlocks (s.feeMedianCoherent hknown) hnode
  · cases hnode

/-- What the signatures of a history say on every reachable main chain, and what was paid
for the first entry on a chain whose blocks were added while the median was known. -/
theorem alias_ownership :
    (∀ db name, Reachable env db → AliasSigned env db name) ∧
      ∀ db name, ReachableWhen env FeeMedianKnown db → AliasPaid db name := by
  constructor
  · intro db name hreach
    obtain ⟨records, hist, hfirsts⟩ := hreach.when_true.firstsRegistered
      (Q := fun _ _ ai => ai.mAlias.length < aliasMinimumPublicShortNameAllowed →
        SignedBy env env.config.aliasValidationPubkey ai)
      fun _ _ _ _ hchecked => hchecked.authorised
    refine ⟨fun first hfirst hshort => ?_, hist.ledger.signedByOwner name⟩
    obtain ⟨e, _, _, hsigned⟩ := hfirsts.first hist.ledger hfirst
    exact hsigned hshort
  · intro db name hreach first hfirst
    obtain ⟨records, hist, hfirsts⟩ := hreach.firstsRegistered
      (Q := fun blocks tx _ =>
        aliasCoastAbove blocks ≤ getAmountForZeroPubkeys tx.toTransactionPrefix)
      fun node hknown tx ai hchecked => by
        obtain ⟨asked, medianFee, hstep, hmedian, hpaid⟩ := hchecked.paid
        rw [(hknown.feeStep hstep).aliasCoast hmedian, hstep.1] at hpaid
        exact hpaid
    obtain ⟨e, he, hai, hpaid⟩ := hfirsts.first hist.ledger hfirst
    obtain ⟨entry, hentry, hcore⟩ := Option.map_eq_some_iff.mp (hist.ledger.lookup_core e he)
    have htx : entry.tx = e.tx := congrArg Prod.fst hcore
    have hheight : entry.keeperBlockHeight = e.keeperBlockHeight :=
      congrArg (fun core => core.2.1) hcore
    refine ⟨e.txId, entry, hentry, ?_, ?_⟩
    · rw [htx]
      exact hai
    · rw [htx, hheight]
      exact hpaid

/-! ### A name that comes back -/

/-- A signature names its key and what it signs, and what is signed of an alias entry is
the new owner. -/
def ownerCrypto : CryptoPrimitives :=
  { sampleCrypto with
    getSignBuffHashForAliasUpdate := fun ai => ai.mAddress.spendPublicKey
    checkSignature := fun hash key sign => sign == BitVec.ofNat 512 (2 ^ 256 * key.toNat + hash.toNat) }

def ownerEnv : Env := { sampleEnv with crypto := ownerCrypto }

/-- Give the name `alice1` to the key `owner`, with a signature by `signer`. -/
def aliceEntry (signer owner : Nat) : ExtraAliasEntry where
  mAlias := [97, 108, 105, 99, 101, 49]
  mAddress := { spendPublicKey := BitVec.ofNat 256 owner, viewPublicKey := 0, flags := 0 }
  mTextComment := []
  mViewKey := []
  mSign := [BitVec.ofNat 512 (2 ^ 256 * signer + owner)]

/-- A block whose coinbase has an alias entry and pays to the zero key. -/
def aliasBlock (height : Nat) (entry : ExtraAliasEntry) : Block :=
  let b := sampleBlock 0 height (BitVec.ofNat 256 height)
    [{ amount := currencyBlockReward, target := .toKey { key := 0, mixAttr := 0 } }] []
  { b with minerTx := { b.minerTx with extra := b.minerTx.extra ++ [.aliasEntry entry] } }

/-- The name goes from 5 to 6 and back, and then to 6 with the entry of the first time. -/
def aliceBlocks : List Block :=
  [samplePlainBlock 0, aliasBlock 1 (aliceEntry 0 5), aliasBlock 2 (aliceEntry 5 6),
    aliasBlock 3 (aliceEntry 6 5), aliasBlock 4 (aliceEntry 5 6)]

def aliceNode : Node := (addBlocks ownerEnv 100000 ∅ aliceBlocks emptyNode).getD emptyNode

theorem reachableWhen_aliceNode : ReachableWhen ownerEnv FeeMedianKnown aliceNode.db := by
  have hrun : (addBlocks ownerEnv 100000 ∅ aliceBlocks emptyNode).isSome = true := by decide +kernel
  exact reachableWhen_of_isSome_addBlocks rfl hrun

def aliceName : ByteString := (aliceEntry 0 5).mAlias

theorem alias_ownership_of_alice :
    AliasSigned ownerEnv aliceNode.db aliceName ∧ AliasPaid aliceNode.db aliceName ∧
      (aliceNode.db.aliasHistory aliceName).length = 4 :=
  ⟨alias_ownership.1 _ _ reachableWhen_aliceNode.reachable,
    alias_ownership.2 _ _ reachableWhen_aliceNode, by decide +kernel⟩

/-- No signature stands in two entries of the history. -/
def SignaturesFresh (db : Db) (name : ByteString) : Prop :=
  (db.aliasHistory name).Pairwise fun entry later => ∀ sign ∈ entry.mSign, sign ∉ later.mSign

theorem alice_entry_replayed :
    ¬ ∀ env db name, Reachable env db →
      AliasSigned env db name ∧ AliasPaid db name ∧ SignaturesFresh db name := by
  intro hclaim
  have hfresh := (hclaim ownerEnv aliceNode.db aliceName reachableWhen_aliceNode.reachable).2.2
  have hsecond : (aliceNode.db.aliasHistory aliceName)[1]?.map ExtraAliasEntryBase.mSign =
      some (aliceEntry 5 6).mSign := by
    decide +kernel
  have hfourth : (aliceNode.db.aliasHistory aliceName)[3]?.map ExtraAliasEntryBase.mSign =
      some (aliceEntry 5 6).mSign := by
    decide +kernel
  obtain ⟨second, hsecond, hsign⟩ := Option.map_eq_some_iff.mp hsecond
  obtain ⟨fourth, hfourth, hsign'⟩ := Option.map_eq_some_iff.mp hfourth
  obtain ⟨hlt, rfl⟩ := List.getElem?_eq_some_iff.mp hsecond
  obtain ⟨hlt', rfl⟩ := List.getElem?_eq_some_iff.mp hfourth
  refine List.pairwise_iff_getElem.mp hfresh 1 3 hlt hlt' (by decide)
    (BitVec.ofNat 512 (2 ^ 256 * 5 + 6)) ?_ ?_
  · rw [hsign]
    exact List.mem_cons_self
  · rw [hsign']
    exact List.mem_cons_self

end Chinet
