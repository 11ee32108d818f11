import Chinet.Caches.State

/-!
# When the caches are coherent

Adding a block computes every derived value again, and so does removing one, with two
exceptions.  The size limit is computed only when a block is added, so it is the one of
a longer chain after a removal.  And an aborted transaction takes the main chain back to
where it was while the caches keep what they had; this does no harm as long as the
chain is the same before and after, which an abandoned switch without a complete
rollback does not provide for.
-/

namespace Chinet

open CachedNode

variable {env : Env}

/-! ## Coherence -/

/-- The target data of all blocks of a type but the genesis block, oldest first. -/
def targetdataOf (blocks : List BlockHeaderInfo) (pos : Bool) : TargetdataCache :=
  (blocks.tail.filter (·.isPos = pos)).map targetdataEntry

/-- Every cached value is the one computed from the present main chain. -/
structure CachesCoherent (env : Env) (cn : CachedNode) : Prop where
  timestamps : ∀ n medianRes, cn.timestampsMedianCache.lookup n = some medianRes →
    medianRes = median (getLastNBlocksTimestamps cn.db.headers n)
  targetdata : ∀ pos, cn.targetdataCache pos <:+ targetdataOf cn.db.headers pos
  nextDifficulty : ∀ pos, (cn.getNextDiffConditional env pos).1 =
    Chinet.getNextDiffConditional env cn.db.headers pos
  feeMedian : cn.db.blocks ≠ [] → ∃ medianFee, txFeeMedianForHeight cn.db cn.db.size = .ok medianFee ∧
    (getTxFeeMedian cn.toNode).1 = .ok (orInitialCoast medianFee)
  sizeLimit : cn.db.blocks ≠ [] → cn.currentBlockCumulSzLimit =
    2 * max (median (getLastNBlocksSizes cn.db currencyRewardBlocksWindow))
      currencyBlockGrantedFullRewardZone

/-- What holds at every moment of a call. -/
structure MemoryCoherent (cn : CachedNode) : Prop where
  timestamps : ∀ n medianRes, cn.timestampsMedianCache.lookup n = some medianRes →
    medianRes = median (getLastNBlocksTimestamps cn.db.headers n)
  targetdata : ∀ pos, cn.targetdataCache pos <:+ targetdataOf cn.db.headers pos
  feeMedian : FeeMedianCoherent cn.db.blocks cn.feeFields

theorem nextComulativeSizeLimit_eq (db : Db) :
    nextComulativeSizeLimit db =
      2 * max (median (getLastNBlocksSizes db currencyRewardBlocksWindow))
        currencyBlockGrantedFullRewardZone := by
  unfold nextComulativeSizeLimit
  dsimp only
  split <;> omega

/-! ## Target data -/

section

variable {pos : Bool}

theorem targetdataOf_snoc {blocks : List BlockHeaderInfo} (hne : blocks ≠ []) (bei : BlockHeaderInfo) :
    targetdataOf (blocks ++ [bei]) pos =
      targetdataOf blocks pos ++ if bei.isPos = pos then [targetdataEntry bei] else [] := by
  unfold targetdataOf
  rw [List.tail_append_of_ne_nil hne, List.filter_append, List.map_append]
  by_cases hpos : bei.isPos = pos
  · simp [hpos]
  · simp [hpos]

theorem loadTargetdataCache_suffix (blocks : List BlockHeaderInfo) :
    loadTargetdataCache blocks pos <:+ targetdataOf blocks pos := by
  unfold loadTargetdataCache targetdataOf downFrom
  rw [List.take_length, List.filter_reverse, ← List.map_reverse, List.reverse_take,
    List.reverse_reverse]
  exact (List.drop_suffix _ _).map _

@[simp] theorem targetdataCache_set (cn : CachedNode) (cache : TargetdataCache) (pos' : Bool) :
    (cn.setTargetdataCache pos' cache).targetdataCache pos =
      if pos = pos' then cache else cn.targetdataCache pos := by
  cases pos <;> cases pos' <;> rfl

@[simp] theorem toNode_setTargetdataCache (cn : CachedNode) (cache : TargetdataCache) :
    (cn.setTargetdataCache pos cache).toNode = cn.toNode := by
  cases pos <;> rfl

@[simp] theorem timestamps_setTargetdataCache (cn : CachedNode) (cache : TargetdataCache) :
    (cn.setTargetdataCache pos cache).timestampsMedianCache = cn.timestampsMedianCache := by
  cases pos <;> rfl

@[simp] theorem limit_setTargetdataCache (cn : CachedNode) (cache : TargetdataCache) :
    (cn.setTargetdataCache pos cache).currentBlockCumulSzLimit = cn.currentBlockCumulSzLimit := by
  cases pos <;> rfl

end

/-! ## Asking -/

theorem MemoryCoherent.medianAsked {cn : CachedNode} (h : MemoryCoherent cn) (n : Nat) :
    MemoryCoherent (cn.getLastNBlocksTimestampsMedian n).2 := by
  unfold getLastNBlocksTimestampsMedian
  split
  · exact h
  · refine ⟨fun n' medianRes hlookup => ?_, h.targetdata, h.feeMedian⟩
    rw [FiniteStore.lookup_insert_ite] at hlookup
    split at hlookup
    · rename_i heq
      cases hlookup
      rw [heq]
    · exact h.timestamps n' medianRes hlookup

/-- What `get_next_diff_conditional` changes: the target data of its type. -/
structure DifficultyAsked (pos : Bool) (cn cn' : CachedNode) : Prop where
  db : cn'.db = cn.db
  feeFields : cn'.feeFields = cn.feeFields
  timestamps : cn'.timestampsMedianCache = cn.timestampsMedianCache
  limit : cn'.currentBlockCumulSzLimit = cn.currentBlockCumulSzLimit
  targetdata : ∀ pos', cn'.targetdataCache pos' = cn.targetdataCache pos' ∨
    pos' = pos ∧ cn'.targetdataCache pos' = loadTargetdataCache cn.db.headers pos

theorem getNextDiffConditional_asked (env : Env) (cn : CachedNode) (pos : Bool) :
    DifficultyAsked pos cn (cn.getNextDiffConditional env pos).2 := by
  unfold CachedNode.getNextDiffConditional
  by_cases hempty : cn.db.blocks = []
  · rw [if_pos hempty]
    exact ⟨rfl, rfl, rfl, rfl, fun _ => .inl rfl⟩
  · rw [if_neg hempty]
    cases pos with
    | true =>
        refine ⟨rfl, rfl, rfl, rfl, fun pos' => ?_⟩
        cases pos' with
        | true => exact .inr ⟨rfl, rfl⟩
        | false => exact .inl rfl
    | false =>
        refine ⟨rfl, rfl, rfl, rfl, fun pos' => ?_⟩
        cases pos' with
        | true => exact .inl rfl
        | false => exact .inr ⟨rfl, rfl⟩

theorem MemoryCoherent.difficultyAsked {cn cn' : CachedNode} {pos : Bool} (h : MemoryCoherent cn)
    (hasked : DifficultyAsked pos cn cn') : MemoryCoherent cn' := by
  refine ⟨?_, fun pos' => ?_, ?_⟩
  · rw [hasked.timestamps, hasked.db]
    exact h.timestamps
  · rw [hasked.db]
    obtain hsame | ⟨rfl, hloaded⟩ := hasked.targetdata pos'
    · rw [hsame]
      exact h.targetdata pos'
    · rw [hloaded]
      exact loadTargetdataCache_suffix _
  · rw [hasked.feeFields, hasked.db]
    exact h.feeMedian

/-- Another node with the same chain and a fee median that is coherent with it. -/
theorem MemoryCoherent.withNode {cn : CachedNode} {node : Node} (h : MemoryCoherent cn)
    (hblocks : node.db.blocks = cn.db.blocks)
    (hfee : FeeMedianCoherent cn.db.blocks node.feeFields) :
    MemoryCoherent { cn with toNode := node } := by
  have hheaders : node.db.headers = cn.db.headers :=
    congrArg (List.map BlockExtendedInfo.toBlockHeaderInfo) hblocks
  refine ⟨?_, ?_, ?_⟩
  · show ∀ n medianRes, cn.timestampsMedianCache.lookup n = some medianRes →
      medianRes = median (getLastNBlocksTimestamps node.db.headers n)
    rw [hheaders]
    exact h.timestamps
  · show ∀ pos, cn.targetdataCache pos <:+ targetdataOf node.db.headers pos
    rw [hheaders]
    exact h.targetdata
  · show FeeMedianCoherent node.db.blocks node.feeFields
    rw [hblocks]
    exact hfee

/-! ## Adding and removing -/

section

variable (cn : CachedNode)

@[simp] theorem targetdataCache_clearTimestamps (pos : Bool) :
    cn.clearTimestamps.targetdataCache pos = cn.targetdataCache pos := by
  cases pos <;> rfl

@[simp] theorem targetdataCache_updateLimit (pos : Bool) :
    cn.updateNextComulativeSizeLimit.targetdataCache pos = cn.targetdataCache pos := by
  cases pos <;> simp only [updateNextComulativeSizeLimit, targetdataCache]

@[simp] theorem toNode_clearTimestamps : cn.clearTimestamps.toNode = cn.toNode := rfl

@[simp] theorem timestamps_clearTimestamps : cn.clearTimestamps.timestampsMedianCache = ∅ := rfl

@[simp] theorem limit_clearTimestamps :
    cn.clearTimestamps.currentBlockCumulSzLimit = cn.currentBlockCumulSzLimit := rfl

@[simp] theorem toNode_updateLimit : cn.updateNextComulativeSizeLimit.toNode = cn.toNode := by
  simp only [updateNextComulativeSizeLimit]

@[simp] theorem limit_updateLimit :
    cn.updateNextComulativeSizeLimit.currentBlockCumulSzLimit = nextComulativeSizeLimit cn.db := rfl

end

/-- What a notification leaves of the state, apart from the target data. -/
structure Notified (cn : CachedNode) (limit : Nat) (cn' : CachedNode) : Prop where
  toNode : cn'.toNode = cn.toNode
  timestamps : cn'.timestampsMedianCache = ∅
  limit : cn'.currentBlockCumulSzLimit = limit

theorem notified_added (cn : CachedNode) (bei : BlockHeaderInfo) :
    Notified cn (nextComulativeSizeLimit cn.db) (cn.onBlockAdded bei) := by
  unfold onBlockAdded updateTargetdataCacheOnBlockAdded
  split <;> constructor <;> simp

theorem notified_removed (cn : CachedNode) (bei : BlockHeaderInfo) :
    Notified cn cn.currentBlockCumulSzLimit (cn.onBlockRemoved bei) := by
  unfold onBlockRemoved updateTargetdataCacheOnBlockRemoved
  constructor <;> simp

theorem targetdata_onBlockAdded {cn : CachedNode} {blocks : List BlockHeaderInfo}
    {bei : BlockHeaderInfo} (h : ∀ pos, cn.targetdataCache pos <:+ targetdataOf blocks pos)
    (hheight : bei.height = blocks.length) (pos : Bool) :
    (cn.onBlockAdded bei).targetdataCache pos <:+ targetdataOf (blocks ++ [bei]) pos := by
  unfold onBlockAdded updateTargetdataCacheOnBlockAdded
  by_cases hzero : bei.height = 0
  · -- the genesis block counts for neither type
    have hblocks : blocks = [] := List.length_eq_zero_iff.mp (hheight.symm.trans hzero)
    have hnone := h pos
    rw [hblocks] at hnone
    rw [if_pos hzero, hblocks]
    simpa [targetdataOf] using hnone
  · have hne : blocks ≠ [] := by
      intro hblocks
      rw [hblocks] at hheight
      exact hzero hheight
    rw [if_neg hzero, targetdataCache_set, targetdataOf_snoc hne]
    simp only [targetdataCache_clearTimestamps, targetdataCache_updateLimit]
    by_cases hpos : pos = bei.isPos
    · rw [if_pos hpos, if_pos hpos.symm, ← hpos]
      refine (List.drop_suffix _ _).trans ?_
      obtain ⟨older, holder⟩ := h pos
      exact ⟨older, by rw [← List.append_assoc, holder]⟩
    · rw [if_neg hpos, if_neg (Ne.symm hpos), List.append_nil]
      exact h pos

theorem targetdata_onBlockRemoved {cn : CachedNode} {blocks : List BlockHeaderInfo}
    {bei : BlockHeaderInfo}
    (h : ∀ pos, cn.targetdataCache pos <:+ targetdataOf (blocks ++ [bei]) pos) (hne : blocks ≠ [])
    (pos : Bool) : (cn.onBlockRemoved bei).targetdataCache pos <:+ targetdataOf blocks pos := by
  have hpos := h pos
  rw [targetdataOf_snoc hne] at hpos
  unfold onBlockRemoved updateTargetdataCacheOnBlockRemoved
  dsimp only
  rw [targetdataCache_set, targetdataCache_clearTimestamps, targetdataCache_clearTimestamps]
  by_cases heq : pos = bei.isPos
  · rw [if_pos heq.symm] at hpos
    rw [if_pos heq, ← heq]
    split
    · exact List.nil_suffix
    · rcases List.eq_nil_or_concat (cn.targetdataCache pos) with hnil | ⟨init, entry, hsnoc⟩
      · rw [hnil]
        exact List.nil_suffix
      · rw [hsnoc] at hpos ⊢
        rw [List.concat_eq_append, List.dropLast_concat]
        obtain ⟨older, holder⟩ := hpos
        rw [List.concat_eq_append, ← List.append_assoc] at holder
        exact ⟨older, (List.append_inj' holder rfl).1⟩
  · rw [if_neg (Ne.symm heq), List.append_nil] at hpos
    rw [if_neg heq]
    exact hpos

/-! ## On the way through a call -/

/-- The next difficulty is computed from the main chain, whatever is cached. -/
theorem nextDifficulty_eq (cn : CachedNode) (pos : Bool) :
    (cn.getNextDiffConditional env pos).1 =
      Chinet.getNextDiffConditional env cn.db.headers pos := by
  unfold CachedNode.getNextDiffConditional Chinet.getNextDiffConditional
  have hheaders : cn.db.headers = [] ↔ cn.db.blocks = [] := List.map_eq_nil_iff
  simp only [hheaders]
  split
  · rfl
  · simp only [loadTargetdata, toNode_setTargetdataCache, targetdataCache_set, if_true, Db.headers_length,
      Db.size]

theorem targetdataCache_withNode (cn : CachedNode) (node : Node) (pos : Bool) :
    CachedNode.targetdataCache { cn with toNode := node } pos = cn.targetdataCache pos := by
  cases pos <;> rfl

theorem headers_getLast? {db : Db} {bei : BlockExtendedInfo} (h : db.blocks.getLast? = some bei) :
    db.headers = db.headers.dropLast ++ [bei.toBlockHeaderInfo] := by
  obtain ⟨init, hinit⟩ := List.getLast?_eq_some_iff.mp h
  rw [Db.headers, hinit, List.map_append, List.map_singleton, List.dropLast_concat]

/-- After a notification the timestamps are not cached. -/
theorem MemoryCoherent.notified {cn cn' : CachedNode} {limit : Nat} (h : Notified cn limit cn')
    (htargetdata : ∀ pos, cn'.targetdataCache pos <:+ targetdataOf cn.db.headers pos)
    (hfee : FeeMedianCoherent cn.db.blocks cn.feeFields) : MemoryCoherent cn' := by
  refine ⟨fun n medianRes hlookup => ?_, ?_, ?_⟩
  · rw [h.timestamps, Finmap.lookup_empty] at hlookup
    cases hlookup
  · rw [h.toNode]
    exact htargetdata
  · rw [h.toNode]
    exact hfee

theorem MemoryCoherent.added {cn : CachedNode} {now : Nat} {bl : Block} {id : Hash}
    {onboard : TransactionsMap} {node : Node} {bei : BlockExtendedInfo} (h : MemoryCoherent cn)
    (s : AddedBlock env now bl id onboard cn.toNode node)
    (hlast : node.db.blocks.getLast? = some bei) :
    MemoryCoherent (CachedNode.onBlockAdded bei.toBlockHeaderInfo
      { (cn.getNextDiffConditional env (isPosBlock bl)).2 with toNode := node }) := by
  have hbei : s.bei = bei := by
    rw [s.blocks_eq, List.getLast?_concat] at hlast
    exact Option.some.inj hlast
  have hasked := getNextDiffConditional_asked env cn (isPosBlock bl)
  have htargetdata := (h.difficultyAsked hasked).targetdata
  rw [hasked.db] at htargetdata
  have hheight : bei.height = cn.db.headers.length := by
    rw [← hbei, s.height_eq, Db.headers_length]
  have hheaders : node.db.headers = cn.db.headers ++ [bei.toBlockHeaderInfo] := by
    rw [Db.headers, s.blocks_eq, hbei, List.map_append, List.map_singleton, Db.headers]
  refine MemoryCoherent.notified (notified_added _ _) (fun pos => ?_) (s.feeMedianCoherent h.feeMedian)
  show _ <:+ targetdataOf node.db.headers pos
  rw [hheaders]
  refine targetdata_onBlockAdded (fun pos' => ?_) hheight pos
  rw [targetdataCache_withNode]
  exact htargetdata pos'

theorem MemoryCoherent.removed {cn : CachedNode} {onboard : TransactionsMap} {node : Node}
    {bei : BlockExtendedInfo} (h : MemoryCoherent cn) (s : PoppedBlock env onboard cn.toNode node)
    (hlast : cn.db.blocks.getLast? = some bei) :
    MemoryCoherent (CachedNode.onBlockRemoved bei.toBlockHeaderInfo { cn with toNode := node }) := by
  have htargetdata := h.targetdata
  rw [headers_getLast? hlast] at htargetdata
  have hne : cn.db.headers.dropLast ≠ [] := by
    have hsize := s.size_gt
    rw [← List.length_pos_iff, List.length_dropLast, Db.headers_length]
    omega
  refine MemoryCoherent.notified (notified_removed _ _) (fun pos => ?_)
    (s.feeMedianCoherent h.feeMedian)
  show _ <:+ targetdataOf node.db.headers pos
  rw [s.headers_eq]
  refine targetdata_onBlockRemoved (fun pos' => ?_) hne pos
  rw [targetdataCache_withNode]
  exact htargetdata pos'

/-- What every moment of a call keeps. -/
structure OnPath (cn : CachedNode) (sized : Db) : Prop where
  memory : MemoryCoherent cn
  limit : sized.blocks ≠ [] → cn.currentBlockCumulSzLimit = nextComulativeSizeLimit sized
  empty : sized.blocks = [] → cn.db.blocks = []

theorem OnPath.medianAsked {cn : CachedNode} {sized : Db} (h : OnPath cn sized) (n : Nat) :
    OnPath (cn.getLastNBlocksTimestampsMedian n).2 sized := by
  refine ⟨h.memory.medianAsked n, ?_, ?_⟩ <;> unfold getLastNBlocksTimestampsMedian <;> split
  · exact h.limit
  · exact h.limit
  · exact h.empty
  · exact h.empty

theorem OnPath.feeMedianAsked {cn : CachedNode} {sized : Db} (h : OnPath cn sized) :
    OnPath { cn with toNode := (getTxFeeMedian cn.toNode).2 } sized := by
  have hstep : FeeStep cn.toNode (getTxFeeMedian cn.toNode).2 := follows_getTxFeeMedian cn.toNode
  have hfee := h.memory.feeMedian.feeStep hstep
  rw [hstep.1] at hfee
  refine ⟨h.memory.withNode hstep.1 hfee, h.limit, fun hsized => ?_⟩
  exact hstep.1.trans (h.empty hsized)

theorem CachePath.onPath {start cn : CachedNode} {sized : Db} (h : CachePath env start cn sized)
    (hstart : OnPath start start.db) : OnPath cn sized := by
  induction h with
  | refl => exact hstart
  | medianAsked _ n ih => exact ih.medianAsked n
  | @difficultyAsked cn _ _ pos ih =>
      have hasked := getNextDiffConditional_asked env cn pos
      refine ⟨ih.memory.difficultyAsked hasked, ?_, ?_⟩
      · rw [hasked.limit]
        exact ih.limit
      · rw [hasked.db]
        exact ih.empty
  | feeMedianAsked _ ih => exact ih.feeMedianAsked
  | elsewhere _ hblocks hmedian hindex ih =>
      refine ⟨ih.memory.withNode hblocks ?_, ih.limit, fun hsized => hblocks.trans (ih.empty hsized)⟩
      have hfee := ih.memory.feeMedian
      unfold Node.feeFields at hfee ⊢
      rw [hmedian, hindex]
      exact hfee
  | added _ hrun hlast ih =>
      obtain ⟨s⟩ := handleBlockToMainChain_added hrun
      refine ⟨ih.memory.added s hlast, fun _ => (notified_added _ _).limit, fun hsized => ?_⟩
      rw [(notified_added _ _).toNode]
      exact hsized
  | removed _ hlast hrun ih =>
      obtain ⟨s⟩ := popBlockFromBlockchain_ok hrun
      refine ⟨ih.memory.removed s hlast, fun hsized => ?_, fun hsized => ?_⟩
      · rw [(notified_removed _ _).limit]
        exact ih.limit hsized
      · -- a chain without blocks has none to remove
        rw [ih.empty hsized] at hlast
        cases hlast

/-! ## Between calls -/

namespace OnPath

variable {cn : CachedNode}

theorem initial (h : cn.Initial) : OnPath cn cn.db := by
  refine ⟨⟨fun n medianRes hlookup => ?_, fun pos => ?_, ?_⟩, fun hne => absurd h.blocks hne,
    fun _ => h.blocks⟩
  · rw [h.timestamps, Finmap.lookup_empty] at hlookup
    cases hlookup
  · rw [h.targetdata pos]
    exact List.nil_suffix
  · rw [h.blocks, h.feeFields]
    exact FeeMedianCoherent.empty

/-- The limit is the one of the main chain, where this is the one it was computed for. -/
theorem resize {sized : Db} (h : OnPath cn sized) (hlast : cn.db.blocks = sized.blocks) :
    OnPath cn cn.db := by
  refine ⟨h.memory, fun hne => ?_, id⟩
  have hlimit : nextComulativeSizeLimit cn.db = nextComulativeSizeLimit sized := by
    unfold nextComulativeSizeLimit getLastNBlocksSizes Db.size
    rw [hlast]
  rw [hlimit]
  exact h.limit fun hsized => hne (h.empty hsized)

theorem abortTransaction {start : CachedNode} {sized : Db} (h : OnPath cn sized)
    (hstart : OnPath start start.db) (hsame : cn.db.blocks = start.db.blocks) (onAbort : Bool) :
    OnPath (cn.abortTransaction start onAbort) (cn.abortTransaction start onAbort).db := by
  have hrestored := @MemoryCoherent.withNode cn { cn.toNode with db := start.db } h.memory
    hsame.symm h.memory.feeMedian
  cases onAbort with
  | false => exact ⟨⟨hrestored.timestamps, hrestored.targetdata, hrestored.feeMedian⟩,
      hstart.limit, id⟩
  | true =>
      refine ⟨⟨fun n medianRes hlookup => ?_, hrestored.targetdata, hrestored.feeMedian⟩,
        hstart.limit, id⟩
      rw [CachedNode.abortTransaction, if_pos rfl, timestamps_clearTimestamps,
        Finmap.lookup_empty] at hlookup
      cases hlookup

theorem cachesCoherent (h : OnPath cn cn.db) : CachesCoherent env cn := by
  refine ⟨h.memory.timestamps, h.memory.targetdata, nextDifficulty_eq cn,
    h.memory.feeMedian.getTxFeeMedian, fun hne => ?_⟩
  rw [h.limit hne, nextComulativeSizeLimit_eq]

end OnPath

/-- A call that does not reach one of the two exceptions: when it is committed, its last change
of the main chain is an addition, or it makes none; when it is aborted, the main chain is the
one it found. -/
inductive HarmlessCall (env : Env) (start : CachedNode) : CachedNode → Prop
  | committed {cn : CachedNode} {sized : Db} (h : CachePath env start cn sized)
      (hlast : cn.db.blocks = sized.blocks) : HarmlessCall env start cn
  | aborted {cn : CachedNode} {sized : Db} (h : CachePath env start cn sized)
      (hsame : cn.db.blocks = start.db.blocks) (onAbort : Bool) :
      HarmlessCall env start (cn.abortTransaction start onAbort)

theorem HarmlessCall.cacheCall {start cn : CachedNode} (h : HarmlessCall env start cn) :
    CacheCall env start cn := by
  cases h with
  | committed h _ => exact .committed h
  | aborted h _ onAbort => exact .aborted h onAbort

theorem HarmlessCall.onPath {start cn : CachedNode} (h : HarmlessCall env start cn)
    (hstart : OnPath start start.db) : OnPath cn cn.db := by
  cases h with
  | committed h hlast => exact (h.onPath hstart).resize hlast
  | aborted h hsame onAbort => exact (h.onPath hstart).abortTransaction hstart hsame onAbort

theorem CacheReachable.mono {Call Call' : CachedNode → CachedNode → Prop} {cn : CachedNode}
    (h : CacheReachable Call cn) (hcall : ∀ start cn, Call start cn → Call' start cn) :
    CacheReachable Call' cn := by
  obtain ⟨start, hinitial, hcalls⟩ := h
  exact ⟨start, hinitial, Relation.ReflTransGen.mono hcall _ _ hcalls⟩

theorem CacheReachable.tail {Call : CachedNode → CachedNode → Prop} {cn cn' : CachedNode}
    (h : CacheReachable Call cn) (hcall : Call cn cn') : CacheReachable Call cn' := by
  obtain ⟨start, hinitial, hcalls⟩ := h
  exact ⟨start, hinitial, hcalls.tail hcall⟩

theorem CacheReachable.onPath {cn : CachedNode} (h : CacheReachable (HarmlessCall env) cn) :
    OnPath cn cn.db := by
  obtain ⟨start, hinitial, hcalls⟩ := h
  induction hcalls with
  | refl => exact .initial hinitial
  | tail _ hcall ih => exact hcall.onPath ih

end Chinet
