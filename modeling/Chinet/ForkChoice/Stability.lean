import Chinet.Fork.Numbers

/-!
# Stability of the fork choice

Two branches `A` and `B` leave a common prefix `P`, one of them in the main
chain.  The comparison of `is_reorganize_required` needs the PoW and the PoS
difficulty at the split.  `get_x_difficulty_after_height` takes them from the
first block of the type in the main branch, which has the difficulty that `P`
asks for; without such a block it takes the cached next difficulty, whatever it
was computed for.

`forkDecision` is the comparison with the difficulties of `P` in both places.
It is a function of the three lists, and of two roles of the branches at most one
wins.  A node decides by it as long as the cache it reads is fresh
(`FreshCaches`), that is, unset or computed on top of `P`.
-/

namespace Chinet

variable {env : Env} {P A B : List BlockHeaderInfo}

/-! ## Chains with their difficulties -/

/-- A chain whose blocks have the difficulties that the header checks ask for. -/
structure BuiltChain (env : Env) (chain : List BlockHeaderInfo) : Prop
    extends WellFormedChain chain where
  difficulty_eq : ∀ below bei above, chain = below ++ bei :: above →
    bei.difficulty = getNextDiffConditional env below bei.isPos

namespace BuiltChain

theorem nil : BuiltChain env [] where
  toWellFormedChain := WellFormedChain.nil
  difficulty_eq := by simp

theorem of_append {chain rest : List BlockHeaderInfo} (h : BuiltChain env (chain ++ rest)) :
    BuiltChain env chain where
  toWellFormedChain := h.toWellFormedChain.of_append
  difficulty_eq := fun below bei above heq =>
    h.difficulty_eq below bei (above ++ rest) (by rw [heq, List.append_assoc, List.cons_append])

theorem snoc_nextHeader {chain : List BlockHeaderInfo} {b : Block} (h : BuiltChain env chain)
    (hchain : WellFormedChain (chain ++ [nextHeader env chain b])) :
    BuiltChain env (chain ++ [nextHeader env chain b]) where
  toWellFormedChain := hchain
  difficulty_eq := by
    intro below bei above heq
    rcases List.eq_nil_or_concat above with rfl | ⟨above, last, rfl⟩
    · obtain ⟨rfl, hbei⟩ := List.append_inj' heq rfl
      rw [← List.singleton_inj.mp hbei]
      rfl
    · rw [List.concat_eq_append, ← List.cons_append, ← List.append_assoc] at heq
      exact h.difficulty_eq below bei above (List.append_inj' heq rfl).1

theorem dropLast {chain : List BlockHeaderInfo} (h : BuiltChain env chain) :
    BuiltChain env chain.dropLast := by
  rcases List.eq_nil_or_concat chain with rfl | ⟨below, last, rfl⟩
  · exact h
  · rw [List.concat_eq_append] at h ⊢
    rw [List.dropLast_concat]
    exact h.of_append

end BuiltChain

theorem Reachable.builtChain {db : Db} (h : Reachable env db) : BuiltChain env db.headers := by
  induction h with
  | @genesis _ _ _ node _ hempty htxs hrun =>
      have hwell := (Reachable.genesis hempty htxs hrun).wellFormed
      obtain ⟨s⟩ := handleBlockToMainChain_added hrun
      have hnil : node.db.headers = [] := by
        rw [hempty]
        rfl
      rw [s.headers_eq_nextHeader] at hwell ⊢
      refine BuiltChain.snoc_nextHeader ?_ hwell
      rw [hnil]
      exact BuiltChain.nil
  | addBlock hreach hrun ih =>
      have hwell := (hreach.addBlock hrun).wellFormed
      obtain ⟨s⟩ := handleBlockToMainChain_added hrun
      rw [s.headers_eq_nextHeader] at hwell ⊢
      exact ih.snoc_nextHeader hwell
  | popBlock hreach hrun ih =>
      obtain ⟨s⟩ := popBlockFromBlockchain_ok hrun
      rw [s.headers_eq]
      exact ih.dropLast

theorem AltBuilt.builtChain (h : AltBuilt env P A) (hP : BuiltChain env P) :
    BuiltChain env (P ++ A) := by
  induction h with
  | nil => simpa using hP
  | @snoc A abei now b onboard place node node' hA hmain hplace hbranch hsplit hrun ih =>
      obtain ⟨hheaders, hchain⟩ := (AltBuilt.snoc hA hmain hplace hbranch hsplit hrun).eq_extendHeaders
        hP.toWellFormedChain
      rw [List.map_append, List.map_singleton, extendHeaders_snoc,
        ← (hA.eq_extendHeaders hP.toWellFormedChain).1] at hheaders
      rw [hheaders] at hchain ⊢
      exact ih.snoc_nextHeader hchain

/-! ## The difficulties at the split -/

theorem isAfterHardfork1Zone_mono {height height' : Nat} (hle : height ≤ height')
    (h : env.isAfterHardfork1Zone height = true) : env.isAfterHardfork1Zone height' = true := by
  simp only [Env.isAfterHardfork1Zone, decide_eq_true_eq] at h ⊢
  omega

/-- Blocks of the other type do not change the next difficulty. -/
theorem getNextDiffConditional_append (hP : P ≠ []) {pos : Bool}
    (hfork : env.isAfterHardfork1Zone P.length = true) (hnone : ∀ bei ∈ A, bei.isPos ≠ pos) :
    getNextDiffConditional env (P ++ A) pos = getNextDiffConditional env P pos := by
  have hfork' : env.isAfterHardfork1Zone (P ++ A).length = true :=
    isAfterHardfork1Zone_mono (by simp) hfork
  have hfilter : (fromTop (P ++ A)).filter (·.isPos = pos) = (fromTop P).filter (·.isPos = pos) := by
    rw [fromTop_append hP, List.filter_append]
    have hnil : A.reverse.filter (·.isPos = pos) = [] := by
      simpa [List.filter_eq_nil_iff] using hnone
    rw [hnil, List.nil_append]
  rw [getNextDiffConditional_eq (List.append_ne_nil_of_left_ne_nil hP A),
    getNextDiffConditional_eq hP, hfilter, nextDifficulty, nextDifficulty, if_pos hfork, if_pos hfork']

theorem firstDifficultyAfter_append (hP : P ≠ []) (A : List BlockHeaderInfo) (pos : Bool) :
    firstDifficultyAfter (P ++ A) (P.length - 1) pos =
      ((A.find? (·.isPos = pos)).map BlockHeaderInfo.difficulty).getD 0 := by
  have hlength : P.length - 1 + 1 = P.length :=
    Nat.sub_add_cancel (List.length_pos_of_ne_nil hP)
  rw [firstDifficultyAfter, hlength, List.drop_left]

theorem firstDifficultyAfter_of_exists (hP : P ≠ []) {pos : Bool}
    (hfork : env.isAfterHardfork1Zone P.length = true) (hbuilt : BuiltChain env (P ++ A))
    (hexists : ∃ bei ∈ A, bei.isPos = pos) :
    firstDifficultyAfter (P ++ A) (P.length - 1) pos = getNextDiffConditional env P pos ∧
      getNextDiffConditional env P pos ≠ 0 := by
  rw [firstDifficultyAfter_append hP]
  cases hfind : A.find? (·.isPos = pos) with
  | none =>
      obtain ⟨bei, hbei, hkind⟩ := hexists
      have hnot := List.find?_eq_none.mp hfind bei hbei
      simp [hkind] at hnot
  | some first =>
      obtain ⟨hkind, below, above, hA, hbelow⟩ := List.find?_eq_some_iff_append.mp hfind
      have hkind : first.isPos = pos := by simpa using hkind
      have hdiff := hbuilt.difficulty_eq (P ++ below) first above (by rw [hA, List.append_assoc])
      rw [hkind, getNextDiffConditional_append hP hfork (fun bei hbei => by
        simpa using hbelow bei hbei)] at hdiff
      have hne := hbuilt.difficulty_ne_zero first (by simp [hA])
      rw [hdiff] at hne
      exact ⟨hdiff, hne⟩

theorem firstDifficultyAfter_of_none (hP : P ≠ []) {pos : Bool}
    (hnone : ∀ bei ∈ A, bei.isPos ≠ pos) : firstDifficultyAfter (P ++ A) (P.length - 1) pos = 0 := by
  have hfind : A.find? (·.isPos = pos) = none := by
    rw [List.find?_eq_none]
    simpa using hnone
  rw [firstDifficultyAfter_append hP, hfind]
  rfl

/-- What `get_x_difficulty_after_height` returns. -/
def Node.splitDifficulty (env : Env) (node : Node) (height : Nat) (pos : Bool) : WideDifficulty :=
  if firstDifficultyAfter node.db.headers height pos ≠ 0 then
    firstDifficultyAfter node.db.headers height pos
  else if node.cachedNextDifficulty pos ≠ 0 then node.cachedNextDifficulty pos
  else getNextDiffConditional env node.db.headers pos

theorem cachedNextDifficulty_nextDiffConditional (env : Env) {node : Node} (hne : node.db.blocks ≠ [])
    (pos : Bool) :
    nextDiffConditional env pos node =
        (.ok (getNextDiffConditional env node.db.headers pos), (nextDiffConditional env pos node).2) ∧
      (nextDiffConditional env pos node).2.db = node.db ∧
      (nextDiffConditional env pos node).2.cachedNextDifficulty pos =
        getNextDiffConditional env node.db.headers pos ∧
      (nextDiffConditional env pos node).2.cachedNextDifficulty (!pos) =
        node.cachedNextDifficulty (!pos) := by
  unfold nextDiffConditional
  dsimp only
  rw [if_neg hne]
  cases pos <;> exact ⟨rfl, rfl, rfl, rfl⟩

theorem getXDifficultyAfterHeight_apply (env : Env) {node : Node} {height : Nat}
    (hheight : height < node.db.size)
    (pos : Bool) :
    ∃ node', getXDifficultyAfterHeight env height pos node =
        (.ok (node.splitDifficulty env height pos), node') ∧ node'.db = node.db ∧
      node'.cachedNextDifficulty (!pos) = node.cachedNextDifficulty (!pos) := by
  have hthrow : requireThrow (decide (height < node.db.size)) = .ok () := by
    rw [decide_eq_true hheight]
    rfl
  have hcheck : (Procedure.check (fun node : Node => requireThrow (height < node.db.size)) :
      NodeProcedure Unit) node = (.ok (), node) := Prod.ext hthrow rfl
  unfold getXDifficultyAfterHeight Node.splitDifficulty
  rw [Procedure.bind_of_ok hcheck, Procedure.gets_bind]
  by_cases hdiff : firstDifficultyAfter node.db.headers height pos ≠ 0
  · rw [if_pos hdiff, if_pos hdiff]
    exact ⟨node, rfl, rfl, rfl⟩
  · rw [if_neg hdiff, if_neg hdiff]
    unfold getCachedNextDifficulty
    rw [Procedure.gets_bind]
    by_cases hcache : node.cachedNextDifficulty pos ≠ 0
    · rw [if_pos hcache, if_pos hcache]
      exact ⟨node, rfl, rfl, rfl⟩
    · rw [if_neg hcache, if_neg hcache]
      have hne : node.db.blocks ≠ [] := by
        intro hnil
        rw [Db.size, hnil] at hheight
        exact absurd hheight (Nat.not_lt_zero _)
      obtain ⟨hrun, hdb, hsame, hother⟩ :=
        cachedNextDifficulty_nextDiffConditional env hne pos
      rw [Procedure.bind_of_ok hrun]
      exact ⟨_, Prod.ext (congrArg Except.ok hsame) rfl, hdb, hother⟩

/-- The cached next difficulty of the type, where it is read, is unset or was
computed on top of `P`. -/
def FreshCache (env : Env) (P A : List BlockHeaderInfo) (node : Node) (pos : Bool) : Prop :=
  (∀ bei ∈ A, bei.isPos ≠ pos) → node.cachedNextDifficulty pos = 0 ∨
    node.cachedNextDifficulty pos = getNextDiffConditional env P pos

/-- The difficulty at the split is that of the common prefix exactly when the
cache is fresh. -/
theorem splitDifficulty_eq_iff {node : Node} (hP : P ≠ []) {pos : Bool}
    (hfork : env.isAfterHardfork1Zone P.length = true) (hbuilt : BuiltChain env (P ++ A))
    (hmain : node.db.headers = P ++ A) :
    node.splitDifficulty env (P.length - 1) pos = getNextDiffConditional env P pos ↔
      FreshCache env P A node pos := by
  unfold Node.splitDifficulty FreshCache
  rw [hmain]
  by_cases hexists : ∃ bei ∈ A, bei.isPos = pos
  · obtain ⟨heq, hne⟩ := firstDifficultyAfter_of_exists hP hfork hbuilt hexists
    rw [heq, if_pos hne]
    refine iff_of_true rfl fun hnone => ?_
    obtain ⟨bei, hbei, hkind⟩ := hexists
    exact absurd hkind (hnone bei hbei)
  · have hnone : ∀ bei ∈ A, bei.isPos ≠ pos := fun bei hbei hkind => hexists ⟨bei, hbei, hkind⟩
    rw [firstDifficultyAfter_of_none hP hnone, if_neg (by simp),
      getNextDiffConditional_append hP hfork hnone]
    by_cases hcache : node.cachedNextDifficulty pos = 0
    · rw [if_neg (by simpa using hcache)]
      exact iff_of_true rfl fun _ => Or.inl hcache
    · rw [if_pos hcache]
      exact ⟨fun heq _ => Or.inr heq, fun h => (h hnone).resolve_left hcache⟩

/-- The condition on the two caches; before the first hard fork none is read. -/
def FreshCaches (env : Env) (P A : List BlockHeaderInfo) (node : Node) : Prop :=
  env.isAfterHardfork1Zone P.length = true → ∀ pos, FreshCache env P A node pos

/-! ## The comparison as a function of the chains -/

/-- The proof of the head of a branch. -/
def headProof (env : Env) (bei : BlockHeaderInfo) : Hash :=
  if isPosBlock bei.bl then bei.stakeHash else env.crypto.getBlockLonghash bei.bl

/-- The adjusted cumulative difficulty of a type at the head of `chain`. -/
def cumulativeDifficulty (chain : List BlockHeaderInfo) (pos : Bool) : WideDifficulty :=
  (((fromTop chain).find? (·.isPos = pos)).map
    BlockHeaderInfo.cumulativeDiffPreciseAdjusted).getD 0

/-- The difficulties that the branch `A` adds to `P`. -/
def branchDifficulties (P A : List BlockHeaderInfo) : Difficulties where
  posDiff := (cumulativeDifficulty (P ++ A) true - cumulativeDifficulty P true).toNat
  powDiff := (cumulativeDifficulty (P ++ A) false - cumulativeDifficulty P false).toNat

/-- The score of the branch `A` against the branch `B`. -/
def branchScore (env : Env) (P A B : List BlockHeaderInfo) : Nat :=
  getAToBRelativeCumulativeDifficulty (getNextDiffConditional env P true).toNat
    (getNextDiffConditional env P false).toNat (branchDifficulties P A) (branchDifficulties P B)

/-- Whether to leave the main branch `A` for the branch `B`. -/
def forkDecision (env : Env) (P A B : List BlockHeaderInfo) : Except Failure Bool :=
  match (P ++ A).getLast?, (P ++ B).getLast? with
  | some headA, some headB =>
      if !env.isAfterHardfork1Zone P.length then
        .ok (prefersAlternative headA.cumulativeDiffAdjusted.toNat
          headB.cumulativeDiffAdjusted.toNat headA (headProof env headB))
      else if getNextDiffConditional env P true = 0 then .error .thrown
      else .ok (prefersAlternative (branchScore env P A B) (branchScore env P B A) headA
        (headProof env headB))
  | _, _ => .error .thrown

/-- Of two heads only one wins the comparison. -/
theorem prefersAlternative_asymm {scoreA scoreB : Nat} {headA headB : BlockHeaderInfo}
    (h : prefersAlternative scoreA scoreB headA (headProof env headB) = true) :
    prefersAlternative scoreB scoreA headB (headProof env headA) = false := by
  unfold prefersAlternative at h ⊢
  rcases lt_trichotomy scoreA scoreB with hlt | rfl | hgt
  · rw [if_neg (by omega), if_pos hlt]
  · -- a tie: the larger proof wins
    rw [if_neg (lt_irrefl _), if_neg (lt_irrefl _)] at h ⊢
    simp only [tieBreak, Bool.and_eq_true, decide_eq_true_eq] at h
    obtain ⟨hposA, hproof⟩ := h
    have hposA : isPosBlock headA.bl = true := hposA
    by_cases hposB : isPosBlock headB.bl = true
    · rw [headProof, if_pos hposB] at hproof
      have hnot : ¬ headB.stakeHash < headProof env headA := by
        rw [headProof, if_pos hposA]
        exact BitVec.not_lt.mpr (BitVec.le_of_lt hproof)
      simp [tieBreak, hnot]
    · have hpow : headB.isPos = false := Bool.eq_false_iff.mpr hposB
      simp [tieBreak, hpow]
  · rw [if_neg (by omega), if_pos hgt] at h
    cases h

/-- The decision is stable: the branch that was left does not win in turn. -/
theorem forkDecision_asymm (h : forkDecision env P A B = .ok true) :
    forkDecision env P B A = .ok false := by
  unfold forkDecision at h ⊢
  cases hA : (P ++ A).getLast? with
  | none =>
      rw [hA] at h
      cases h
  | some headA =>
      cases hB : (P ++ B).getLast? with
      | none =>
          rw [hA, hB] at h
          cases h
      | some headB =>
          rw [hA, hB] at h
          dsimp only at h ⊢
          split at h
          · rename_i hfork
            rw [if_pos hfork, prefersAlternative_asymm (Except.ok.inj h)]
          · rename_i hfork
            split at h
            · cases h
            · rename_i hpos
              rw [if_neg hfork, if_neg hpos, prefersAlternative_asymm (Except.ok.inj h)]

/-! ## The decision of a node -/

/-- The decision of `node` about the alternative chain `altChain`. -/
def reorganizeDecision (env : Env) (node : Node) (altChain : AltChain) : Except Failure Bool :=
  match altChain.getLast? with
  | none => .error .thrown
  | some abei => (isReorganizeRequiredFor env altChain (proofOf env abei) node).1

theorem getLastAltXBlockCumulativePreciseAdjDifficulty_eq {blocks : List BlockHeaderInfo}
    (h : Branches blocks P) (hfront : ∀ front, B.head? = some front → front.height = P.length)
    {blockHeight : Nat} (hheight : B = [] → blockHeight + 1 = P.length) (pos : Bool) :
    getLastAltXBlockCumulativePreciseAdjDifficulty blocks B blockHeight pos =
      cumulativeDifficulty (P ++ B) pos := by
  rw [getLastAltXBlockCumulativePreciseAdjDifficulty,
    getLastAltXBlockCumulativePreciseDifficulty_eq h hfront hheight, cumulativeDifficulty]
  cases (fromTop (P ++ B)).find? (·.isPos = pos) <;> rfl

theorem branches_append (hP : P ≠ []) (A : List BlockHeaderInfo) : Branches (P ++ A) P where
  prefix_eq := List.take_left
  nonempty := hP

/-- The difficulties of the alternative branch, in the node's terms. -/
theorem altCumulDiff_eq (hP : P ≠ []) (hB : B ≠ [])
    (hfront : ∀ front, B.head? = some front → front.height = P.length) (headHeight : Nat) :
    altCumulDiff (P ++ A) B headHeight P.length = branchDifficulties P B := by
  have hsplit : P.length - 1 + 1 = P.length := Nat.sub_add_cancel (List.length_pos_of_ne_nil hP)
  have hend : ∀ pos, getLastAltXBlockCumulativePreciseAdjDifficulty (P ++ A) B headHeight pos =
      cumulativeDifficulty (P ++ B) pos :=
    getLastAltXBlockCumulativePreciseAdjDifficulty_eq (branches_append hP A) hfront
      (fun hnil => absurd hnil hB)
  have hbegin : ∀ pos, getLastAltXBlockCumulativePreciseAdjDifficulty (P ++ A) [] (P.length - 1) pos =
      cumulativeDifficulty P pos := fun pos => by
    rw [getLastAltXBlockCumulativePreciseAdjDifficulty_eq (branches_append hP A) (by simp)
      (fun _ => hsplit), List.append_nil]
  simp only [altCumulDiff, cumulativeDifficultyAfterSplit, hend, hbegin, branchDifficulties]

/-- The difficulties of the main branch. -/
theorem mainCumulDiff_eq (hP : P ≠ []) (A : List BlockHeaderInfo) :
    mainCumulDiff (P ++ A) P.length = branchDifficulties P A := by
  have hne : P ++ A ≠ [] := List.append_ne_nil_of_left_ne_nil hP A
  have hsplit : P.length - 1 + 1 = P.length := Nat.sub_add_cancel (List.length_pos_of_ne_nil hP)
  have htop : (P ++ A).length - 1 + 1 = (P ++ A).length :=
    Nat.sub_add_cancel (List.length_pos_of_ne_nil hne)
  have hself : Branches (P ++ A) (P ++ A) := { prefix_eq := List.take_length, nonempty := hne }
  have hend : ∀ pos, getLastAltXBlockCumulativePreciseAdjDifficulty (P ++ A) []
      ((P ++ A).length - 1) pos = cumulativeDifficulty (P ++ A) pos := fun pos => by
    rw [getLastAltXBlockCumulativePreciseAdjDifficulty_eq hself (by simp) (fun _ => htop),
      List.append_nil]
  have hbegin : ∀ pos, getLastAltXBlockCumulativePreciseAdjDifficulty (P ++ A) [] (P.length - 1) pos =
      cumulativeDifficulty P pos := fun pos => by
    rw [getLastAltXBlockCumulativePreciseAdjDifficulty_eq (branches_append hP A) (by simp)
      (fun _ => hsplit), List.append_nil]
  simp only [mainCumulDiff, cumulativeDifficultyAfterSplit, hend, hbegin, branchDifficulties]

/-- The two difficulties that a node with fresh caches compares with. -/
theorem isReorganizeRequiredRelative_apply {node : Node} {headA headB front : BlockHeaderInfo}
    {proofAlt : Hash} (hP : P ≠ []) (hB : B ≠ [])
    (hfork : env.isAfterHardfork1Zone P.length = true) (hbuilt : BuiltChain env (P ++ A))
    (hmain : node.db.headers = P ++ A)
    (hfront : ∀ front, B.head? = some front → front.height = P.length)
    (hheight : front.height = P.length) (hfresh : FreshCaches env P A node) :
    (isReorganizeRequiredRelative env headA headB front B proofAlt node).1 =
      if getNextDiffConditional env P true = 0 then .error .thrown
      else .ok (prefersAlternative (branchScore env P A B) (branchScore env P B A) headA proofAlt) := by
  have hsize : P.length - 1 < node.db.size := by
    rw [← Db.headers_length, hmain, List.length_append]
    have := List.length_pos_of_ne_nil hP
    omega
  have hfreshPos := (splitDifficulty_eq_iff hP hfork hbuilt hmain).mpr (hfresh hfork true)
  obtain ⟨node₁, hrunPos, hdb₁, hcache₁⟩ := getXDifficultyAfterHeight_apply env hsize true
  have hmain₁ : node₁.db.headers = P ++ A := by rw [hdb₁, hmain]
  have hfreshPow : FreshCache env P A node₁ false := by
    unfold FreshCache
    rw [show node₁.cachedNextDifficulty false = node.cachedNextDifficulty false from hcache₁]
    exact hfresh hfork false
  have hdPow := (splitDifficulty_eq_iff hP hfork hbuilt hmain₁).mpr hfreshPow
  obtain ⟨node₂, hrunPow, hdb₂, _⟩ :=
    getXDifficultyAfterHeight_apply env (by rw [hdb₁]; exact hsize) false
  have hmain₂ : node₂.db.headers = P ++ A := by rw [hdb₂, hmain₁]
  rw [hfreshPos] at hrunPos
  rw [hdPow] at hrunPow
  unfold isReorganizeRequiredRelative
  dsimp only
  rw [hheight, Procedure.bind_of_ok hrunPos, Procedure.bind_of_ok hrunPow, Procedure.gets_bind,
    Procedure.gets_bind, hmain₂, altCumulDiff_eq hP hB hfront, mainCumulDiff_eq hP A]
  by_cases hzero : getNextDiffConditional env P true = 0
  · rw [if_pos hzero, hzero]
    rfl
  · have hthrow : requireThrow (getNextDiffConditional env P true != 0) = .ok () := by
      rw [bne_iff_ne.mpr hzero]
      rfl
    have hcheck : (Procedure.check (fun _ : Node =>
        requireThrow (getNextDiffConditional env P true != 0)) : NodeProcedure Unit) node₂ =
        (.ok (), node₂) := Prod.ext hthrow rfl
    rw [if_neg hzero, Procedure.bind_of_ok hcheck]
    rfl

theorem isReorganizeRequiredFor_apply {node : Node} {altChain : AltChain} {proofAlt : Hash}
    {headA : BlockHeaderInfo} {front abei : AltBlockExtendedInfo}
    (hmain : node.db.headers.getLast? = some headA) (hfront : altChain.head? = some front)
    (hlast : altChain.getLast? = some abei) :
    isReorganizeRequiredFor env altChain proofAlt node =
      isReorganizeRequired env headA abei.toBlockHeaderInfo front.toBlockHeaderInfo altChain.headers
        proofAlt node := by
  unfold isReorganizeRequiredFor
  rw [Procedure.gets_bind, hmain, hfront, hlast]

/-- A node with fresh caches decides by the blocks of the two branches alone. -/
theorem reorganizeDecision_eq {node : Node} {altChain : AltChain} (hP : P ≠ [])
    (hbuilt : BuiltChain env (P ++ A)) (hmain : node.db.headers = P ++ A)
    (hwell : WellFormedChain (P ++ altChain.headers)) (halt : altChain ≠ [])
    (hfresh : FreshCaches env P A node) :
    reorganizeDecision env node altChain = forkDecision env P A altChain.headers := by
  have hB : altChain.headers ≠ [] := by simpa [AltChain.headers] using halt
  have hfront := OnTopOf.front_height hwell
  obtain ⟨headA, hheadA⟩ : ∃ headA, (P ++ A).getLast? = some headA :=
    ⟨_, List.getLast?_eq_some_getLast (List.append_ne_nil_of_left_ne_nil hP A)⟩
  obtain ⟨front, above, hcons⟩ := List.exists_cons_of_ne_nil halt
  obtain ⟨rest, abei, hlast⟩ := (List.eq_nil_or_concat altChain).resolve_left halt
  rw [List.concat_eq_append] at hlast
  have hheaders : altChain.headers = rest.map (·.toBlockHeaderInfo) ++ [abei.toBlockHeaderInfo] := by
    rw [hlast, AltChain.headers, List.map_append, List.map_singleton]
  have hheadB : (P ++ altChain.headers).getLast? = some abei.toBlockHeaderInfo := by
    rw [hheaders, ← List.append_assoc, List.getLast?_concat]
  have hconnection : front.height = P.length := hfront front.toBlockHeaderInfo (by rw [hcons]; rfl)
  have htop : P.length ≤ abei.height := by
    have hheight := hwell.height_eq (P ++ rest.map (·.toBlockHeaderInfo)) abei.toBlockHeaderInfo []
      (by rw [hheaders, List.append_assoc])
    rw [hheight, List.length_append]
    exact Nat.le_add_right _ _
  have hlast? : altChain.getLast? = some abei := by rw [hlast, List.getLast?_concat]
  have hmainHead : node.db.headers.getLast? = some headA := by rw [hmain, hheadA]
  unfold reorganizeDecision forkDecision
  rw [hheadA, hheadB, hlast?]
  dsimp only
  rw [isReorganizeRequiredFor_apply hmainHead (by rw [hcons]; rfl) hlast?]
  unfold isReorganizeRequired
  rw [hconnection]
  by_cases hfork : env.isAfterHardfork1Zone P.length = true
  · have hforkTop := isAfterHardfork1Zone_mono htop hfork
    have hnew : ¬ (!env.isAfterHardfork1Zone P.length) = true := by simp [hfork]
    rw [if_neg hnew, if_neg hnew, if_pos hforkTop]
    exact isReorganizeRequiredRelative_apply hP hB hfork hbuilt hmain hfront hconnection hfresh
  · have hold : (!env.isAfterHardfork1Zone P.length) = true := by simpa using hfork
    rw [if_pos hold, if_pos hold]
    rfl

/-- **The fork choice is history-free and stable while the caches are fresh.**
Let the main chain of a reachable state be `P ++ A` and `altB` a branch built
above `P`.  The decision about `altB` is `forkDecision`, a function of the blocks;
and when it is to switch, a node with the main chain `P ++ altB` decides against
the branch `A` of the disconnected blocks. -/
theorem reorganize_history_free_and_stable {node : Node} {altB : AltChain} (hP : P ≠ [])
    (hreach : Reachable env node.db) (hmain : node.db.headers = P ++ A)
    (hB : AltBuilt env P altB.headers) (hne : altB ≠ []) (hfresh : FreshCaches env P A node) :
    reorganizeDecision env node altB = forkDecision env P A altB.headers ∧
      ∀ (node' : Node) (altA : AltChain), node'.db.headers = P ++ altB.headers →
        altA.headers = A → altA ≠ [] → FreshCaches env P altB.headers node' →
        reorganizeDecision env node altB = .ok true →
        reorganizeDecision env node' altA = .ok false := by
  have hbuiltA : BuiltChain env (P ++ A) := by
    rw [← hmain]
    exact hreach.builtChain
  have hbuiltB : BuiltChain env (P ++ altB.headers) := hB.builtChain hbuiltA.of_append
  have hdecision : reorganizeDecision env node altB = forkDecision env P A altB.headers :=
    reorganizeDecision_eq hP hbuiltA hmain hbuiltB.toWellFormedChain hne hfresh
  refine ⟨hdecision, fun node' altA hmain' haltA hne' hfresh' hswitch => ?_⟩
  subst haltA
  rw [reorganizeDecision_eq hP hbuiltB hmain' hbuiltA.toWellFormedChain hne' hfresh']
  rw [hdecision] at hswitch
  exact forkDecision_asymm hswitch

/-- The fork above the genesis block: no PoS block was ever met, and no PoS
difficulty computed. -/
theorem sampleMainNode_decides_by_blocks :
    ∃ altB : AltChain, altB.map (·.bl) = [sampleFork] ∧
      reorganizeDecision sampleEnv sampleMainNode altB =
        forkDecision sampleEnv (sampleMainNode.db.headers.take 1) (sampleMainNode.db.headers.drop 1)
          altB.headers := by
  have hlength : (sampleMainNode.db.headers.take 1).length = 1 := by decide +kernel
  have hP : sampleMainNode.db.headers.take 1 ≠ [] := by
    intro hnil
    rw [hnil] at hlength
    cases hlength
  have haccepted : (acceptedAltblock sampleEnv 100000 sampleFork 1 sampleMainNode).isSome = true := by
    decide +kernel
  obtain ⟨abei, habei⟩ := Option.isSome_iff_exists.mp haccepted
  rw [← hlength] at habei
  obtain ⟨hB, hblock⟩ := altBuilt_of_acceptedAltblock habei (by rw [hlength])
  have hfresh : FreshCaches sampleEnv (sampleMainNode.db.headers.take 1)
      (sampleMainNode.db.headers.drop 1) sampleMainNode := by
    intro _ pos hnone
    cases pos with
    | true => exact Or.inl (by decide +kernel)
    | false =>
        have hpow : ∃ bei ∈ sampleMainNode.db.headers.drop 1, bei.isPos = false := by decide +kernel
        obtain ⟨bei, hbei, hkind⟩ := hpow
        exact absurd hkind (hnone bei hbei)
  refine ⟨[abei], by rw [List.map_singleton, hblock], ?_⟩
  have hbranch : AltBuilt sampleEnv (sampleMainNode.db.headers.take 1) (AltChain.headers [abei]) := hB
  exact (reorganize_history_free_and_stable hP reachable_sampleMainNode
    (List.take_append_drop 1 _).symm hbranch (by simp) hfresh).1

/-! ### A stale cache

The PoS blocks at the heights 13 and 14 follow quickly on each other and on the
block of height 12.  The one at height 15 was mined at the difficulty 4, and asks
for a larger one above it.  A PoW block and a PoS block compete at height 16. -/

def staleChain : List Block :=
  (List.range 13).map (fun height => sampleKeyBlock height (90 * height)) ++
    [samplePosBlock 0 13 0 1095, samplePosBlock 0 14 1 1125, samplePosBlock 0 15 2 1155,
      sampleKeyBlock 16 1275]

def staleFork : Block := samplePosBlock 1 16 3 1275

def staleNode : Node := (addBlocks sampleEnv 100000 ∅ staleChain emptyNode).getD emptyNode

/-- The node after the switch from height 16 of the chain to `staleFork`. -/
def staleForkNode : Node :=
  (handleBlockToMainChain sampleEnv 100000 staleFork (sampleEnv.crypto.getBlockHash staleFork) ∅
    (popBlockFromBlockchain sampleEnv staleNode).2).2

def staleForkBranch : AltChain := (acceptedAltblock sampleEnv 100000 staleFork 16 staleNode).toList

def staleMainBranch : AltChain :=
  (acceptedAltblock sampleEnv 100000 (sampleKeyBlock 16 1275) 16 staleForkNode).toList

theorem reachable_staleNode : Reachable sampleEnv staleNode.db := by
  have hrun : (addBlocks sampleEnv 100000 ∅ staleChain emptyNode).isSome = true := by
    decide +kernel
  obtain ⟨node, hnode⟩ := Option.isSome_iff_exists.mp hrun
  have hstale : staleNode = node := by rw [staleNode, hnode, Option.getD_some]
  rw [hstale]
  refine reachable_of_addBlocks rfl ?_ hnode
  rfl

/-- The top block is popped and another one added. -/
theorem Reachable.replaceTop {now : Nat} {bl : Block} {node : Node} (hreach : Reachable env node.db)
    (hpop : (popBlockFromBlockchain env node).1.isOk = true)
    (hadd : (handleBlockToMainChain env now bl (env.crypto.getBlockHash bl) ∅
      (popBlockFromBlockchain env node).2).1 = .ok .addedToMainChain) :
    Reachable env (handleBlockToMainChain env now bl (env.crypto.getBlockHash bl) ∅
      (popBlockFromBlockchain env node).2).2.db := by
  rcases hrun : popBlockFromBlockchain env node with ⟨e | onboard, popped⟩
  · rw [hrun] at hpop
    cases hpop
  · rw [hrun] at hadd
    exact (hreach.popBlock hrun).addBlock (Prod.ext hadd rfl)

theorem reachable_staleForkNode : Reachable sampleEnv staleForkNode.db := by
  have hpop : (popBlockFromBlockchain sampleEnv staleNode).1.isOk = true := by decide +kernel
  have hadd : (handleBlockToMainChain sampleEnv 100000 staleFork
      (sampleEnv.crypto.getBlockHash staleFork) ∅
      (popBlockFromBlockchain sampleEnv staleNode).2).1 = .ok .addedToMainChain := by
    decide +kernel
  unfold staleForkNode
  exact reachable_staleNode.replaceTop hpop hadd

/-- A branch of one accepted block. -/
theorem altBuilt_of_toList {P : List BlockHeaderInfo} {now : Nat} {b : Block} {node : Node}
    {splitHeight : Nat} (hlength : P.length = splitHeight)
    (hsome : (acceptedAltblock env now b splitHeight node).isSome = true)
    (hmain : node.db.headers.take splitHeight = P) :
    AltBuilt env P (AltChain.headers (acceptedAltblock env now b splitHeight node).toList) := by
  subst hlength
  obtain ⟨abei, habei⟩ := Option.isSome_iff_exists.mp hsome
  rw [habei]
  exact (altBuilt_of_acceptedAltblock habei hmain).1

/-- With the chain of `staleNode` the node switches to `staleFork`, and after the
switch it decides to switch back.  A node that starts with unset caches on the same
chain does not switch at all. -/
theorem staleFork_switches_back :
    Reachable sampleEnv staleNode.db ∧ Reachable sampleEnv staleForkNode.db ∧
      ∃ P, P ≠ [] ∧ staleNode.db.headers = P ++ staleMainBranch.headers ∧
        staleForkNode.db.headers = P ++ staleForkBranch.headers ∧
        AltBuilt sampleEnv P staleMainBranch.headers ∧ AltBuilt sampleEnv P staleForkBranch.headers ∧
        reorganizeDecision sampleEnv staleNode staleForkBranch = .ok true ∧
        reorganizeDecision sampleEnv staleForkNode staleMainBranch = .ok true ∧
        reorganizeDecision sampleEnv { staleNode with cachedNextPosDifficulty := 0 } staleForkBranch =
          .ok false := by
  have hlength : (staleNode.db.headers.take 16).length = 16 := by decide +kernel
  have hsplit : staleForkNode.db.headers.take 16 = staleNode.db.headers.take 16 := by decide +kernel
  have hmainAccepted : (acceptedAltblock sampleEnv 100000 (sampleKeyBlock 16 1275) 16
      staleForkNode).isSome = true := by
    decide +kernel
  have hforkAccepted : (acceptedAltblock sampleEnv 100000 staleFork 16 staleNode).isSome = true := by
    decide +kernel
  have hmain : AltBuilt sampleEnv (staleNode.db.headers.take 16) staleMainBranch.headers :=
    altBuilt_of_toList hlength hmainAccepted hsplit
  have hfork : AltBuilt sampleEnv (staleNode.db.headers.take 16) staleForkBranch.headers :=
    altBuilt_of_toList hlength hforkAccepted rfl
  refine ⟨reachable_staleNode, reachable_staleForkNode, staleNode.db.headers.take 16, ?_, ?_, ?_,
    hmain, hfork, ?_, ?_, ?_⟩
  · intro hnil
    rw [hnil] at hlength
    cases hlength
  all_goals decide +kernel

end Chinet
