import Chinet.Fork.Headers
import Mathlib.Data.List.Find
import Mathlib.Data.List.TakeWhile

/-!
# The two copies of the header rules compute the same numbers

A branch `A` leaves the main chain `blocks` after its first blocks `P`.  The
alternative copy of a rule walks through `A` and goes on in `P`; the main copy
reads the chain `P ++ A`.  Both visit the headers of `P ++ A` from the top down
(`enumBlockchain_branch`), so most rules agree by that alone.

Two of them need the chain to be well formed.

* The main copy of `get_adjusted_cumulative_difficulty_for_next_pos` also looks
  at the genesis block.  That changes nothing: where there is a PoS block there
  is a PoW block above the genesis, since the stake modifier needs one.
* A visitor of the alternative side stops at a header of height zero, which is
  the genesis block only.
-/

namespace Chinet

variable {env : Env}

/-! ## Well-formed chains -/

/-- What the header checks leave behind on a chain. -/
structure WellFormedChain (chain : List BlockHeaderInfo) : Prop where
  height_eq : ∀ below bei above, chain = below ++ bei :: above → bei.height = below.length
  difficulty_ne_zero : ∀ bei ∈ chain, bei.difficulty ≠ 0
  pow_below_pos : ∀ below bei above, chain = below ++ bei :: above → bei.isPos = true →
    ∃ pow ∈ below.tail, pow.isPos = false

namespace WellFormedChain

theorem nil : WellFormedChain [] where
  height_eq := by simp
  difficulty_ne_zero := by simp
  pow_below_pos := by simp

/-- A block on top keeps a chain well formed. -/
theorem snoc {chain : List BlockHeaderInfo} {bei : BlockHeaderInfo} (h : WellFormedChain chain)
    (hheight : bei.height = chain.length) (hdiff : bei.difficulty ≠ 0)
    (hpow : bei.isPos = true → ∃ pow ∈ chain.tail, pow.isPos = false) :
    WellFormedChain (chain ++ [bei]) where
  height_eq := by
    intro below b above heq
    rcases List.eq_nil_or_concat above with rfl | ⟨above, last, rfl⟩
    · obtain ⟨rfl, hb⟩ := List.append_inj' heq rfl
      rw [← List.singleton_inj.mp hb, hheight]
    · rw [List.concat_eq_append, ← List.cons_append, ← List.append_assoc] at heq
      exact h.height_eq below b above (List.append_inj' heq rfl).1
  difficulty_ne_zero := by
    intro b hb
    rcases List.mem_append.mp hb with hb | hb
    · exact h.difficulty_ne_zero b hb
    · rw [List.mem_singleton.mp hb]
      exact hdiff
  pow_below_pos := by
    intro below b above heq hpos
    rcases List.eq_nil_or_concat above with rfl | ⟨above, last, rfl⟩
    · obtain ⟨rfl, hb⟩ := List.append_inj' heq rfl
      rw [← List.singleton_inj.mp hb] at hpos
      exact hpow hpos
    · rw [List.concat_eq_append, ← List.cons_append, ← List.append_assoc] at heq
      exact h.pow_below_pos below b above (List.append_inj' heq rfl).1 hpos

theorem of_append {chain rest : List BlockHeaderInfo} (h : WellFormedChain (chain ++ rest)) :
    WellFormedChain chain where
  height_eq := fun below bei above heq =>
    h.height_eq below bei (above ++ rest) (by rw [heq, List.append_assoc, List.cons_append])
  difficulty_ne_zero := fun bei hbei => h.difficulty_ne_zero bei (List.mem_append_left rest hbei)
  pow_below_pos := fun below bei above heq =>
    h.pow_below_pos below bei (above ++ rest) (by rw [heq, List.append_assoc, List.cons_append])

theorem dropLast {chain : List BlockHeaderInfo} (h : WellFormedChain chain) :
    WellFormedChain chain.dropLast := by
  rcases List.eq_nil_or_concat chain with rfl | ⟨below, last, rfl⟩
  · exact h
  · rw [List.concat_eq_append] at h ⊢
    rw [List.dropLast_concat]
    exact h.of_append

theorem take {chain : List BlockHeaderInfo} (h : WellFormedChain chain) (n : Nat) :
    WellFormedChain (chain.take n) := by
  rw [← List.take_append_drop n chain] at h
  exact h.of_append

/-- Only the genesis block has height zero. -/
theorem height_ne_zero {chain : List BlockHeaderInfo} (h : WellFormedChain chain) :
    ∀ bei ∈ chain.tail, bei.height ≠ 0 := by
  intro bei hbei
  cases chain with
  | nil => cases hbei
  | cons genesis rest =>
      obtain ⟨below, above, hrest⟩ := List.append_of_mem (by simpa using hbei)
      rw [h.height_eq (genesis :: below) bei above (by rw [hrest, List.cons_append])]
      exact Nat.succ_ne_zero _

/-- A PoS block comes with a PoW block above the genesis. -/
theorem exists_pow_of_pos {chain : List BlockHeaderInfo} (h : WellFormedChain chain)
    {bei : BlockHeaderInfo} (hbei : bei ∈ chain) (hpos : bei.isPos = true) :
    ∃ pow ∈ chain.tail, pow.isPos = false := by
  obtain ⟨below, above, heq⟩ := List.append_of_mem hbei
  obtain ⟨pow, hpow, hkind⟩ := h.pow_below_pos below bei above heq hpos
  refine ⟨pow, ?_, hkind⟩
  cases below with
  | nil => cases hpow
  | cons genesis below =>
      rw [heq]
      exact List.mem_append_left _ hpow

end WellFormedChain

/-! ## The order of the walk -/

/-- The headers of a chain from the top down, without the genesis block. -/
def fromTop (chain : List BlockHeaderInfo) : List BlockHeaderInfo := chain.tail.reverse

theorem downFrom_length (chain : List BlockHeaderInfo) : downFrom chain chain.length = fromTop chain := by
  rw [downFrom, List.take_length, fromTop]

theorem fromTop_append {P : List BlockHeaderInfo} (hP : P ≠ []) (A : List BlockHeaderInfo) :
    fromTop (P ++ A) = A.reverse ++ fromTop P := by
  rw [fromTop, List.tail_append_of_ne_nil hP, List.reverse_append, fromTop]

theorem fromTop_snoc {P : List BlockHeaderInfo} (hP : P ≠ []) (bei : BlockHeaderInfo) :
    fromTop (P ++ [bei]) = bei :: fromTop P :=
  fromTop_append hP [bei]

theorem mem_fromTop {chain : List BlockHeaderInfo} {bei : BlockHeaderInfo} :
    bei ∈ fromTop chain ↔ bei ∈ chain.tail := by
  rw [fromTop, List.mem_reverse]

/-- The whole chain from the top down: the genesis block comes last. -/
theorem reverse_eq_fromTop {chain : List BlockHeaderInfo} {genesis : BlockHeaderInfo}
    (h : chain.head? = some genesis) : chain.reverse = fromTop chain ++ [genesis] := by
  obtain ⟨rest, rfl⟩ := List.head?_eq_some_iff.mp h
  rw [List.reverse_cons, fromTop, List.tail_cons]

/-- The main chain without an alternative chain. -/
theorem enumBlockchain_main (blocks : List BlockHeaderInfo) :
    enumBlockchain blocks [] 0 = fromTop blocks := by
  rw [enumBlockchain, List.reverse_nil, List.nil_append]
  exact downFrom_length blocks

/-- `A` leaves the main chain `blocks` after the non-empty prefix `P`. -/
structure Branches (blocks P : List BlockHeaderInfo) : Prop where
  prefix_eq : blocks.take P.length = P
  nonempty : P ≠ []

namespace Branches

variable {blocks P : List BlockHeaderInfo} (h : Branches blocks P)

include h

theorem length_ne_zero : P.length ≠ 0 := fun hlen => h.nonempty (List.length_eq_zero_iff.mp hlen)

theorem length_le : P.length ≤ blocks.length := by
  have hlen := congrArg List.length h.prefix_eq
  rw [List.length_take] at hlen
  omega

theorem blocks_ne_nil : blocks ≠ [] := by
  intro hnil
  have hle := h.length_le
  rw [hnil, List.length_nil] at hle
  exact h.length_ne_zero (Nat.le_zero.mp hle)

theorem downFrom_eq : downFrom blocks P.length = fromTop P := by
  rw [downFrom, h.prefix_eq, fromTop]

/-- Both walks visit the headers of `P ++ A` from the top down. -/
theorem enumBlockchain_branch (A : List BlockHeaderInfo) :
    enumBlockchain blocks A P.length = fromTop (P ++ A) := by
  unfold enumBlockchain
  rw [if_pos h.length_ne_zero, h.downFrom_eq, fromTop_append h.nonempty]

end Branches

/-! ## Next difficulty -/

/-- `get_next_diff_conditional` without its cache. -/
theorem getNextDiffConditional_eq {chain : List BlockHeaderInfo} (hne : chain ≠ []) (pos : Bool) :
    getNextDiffConditional env chain pos =
      nextDifficulty env chain.length
        ((((fromTop chain).filter (·.isPos = pos)).take difficultyWindow).map (·.bl.timestamp))
        ((((fromTop chain).filter (·.isPos = pos)).take difficultyWindow).map
          (·.cumulativeDiffPrecise)) pos := by
  have hdata : (loadTargetdataCache chain pos).reverse.take difficultyWindow =
      (((fromTop chain).filter (·.isPos = pos)).take difficultyWindow).map
        fun bei => (bei.cumulativeDiffPrecise, bei.bl.timestamp) := by
    rw [loadTargetdataCache, List.reverse_reverse, downFrom_length, ← List.map_take, List.take_take]
    rfl
  rw [getNextDiffConditional, if_neg hne, hdata]
  simp only [List.map_map]
  rfl

theorem getNextDiffConditional2_eq {blocks P : List BlockHeaderInfo} (h : Branches blocks P)
    {A : List BlockHeaderInfo} (hchain : WellFormedChain (P ++ A)) (pos : Bool) :
    getNextDiffConditional2 env blocks A pos P.length (P ++ A).length =
      getNextDiffConditional env (P ++ A) pos := by
  have hne : P ++ A ≠ [] := List.append_ne_nil_of_left_ne_nil h.nonempty A
  have hvisited : (fromTop (P ++ A)).takeWhile (·.height ≠ 0) = fromTop (P ++ A) := by
    rw [List.takeWhile_eq_self_iff]
    intro bei hbei
    simpa using hchain.height_ne_zero bei (mem_fromTop.mp hbei)
  rw [getNextDiffConditional2, if_neg h.blocks_ne_nil, h.enumBlockchain_branch, hvisited,
    getNextDiffConditional_eq hne]

/-! ## Sequence factor -/

theorem takeWhile_append_length {α : Type} (p : α → Bool) (l₁ l₂ : List α) :
    ((l₁ ++ l₂).takeWhile p).length =
      if (l₁.takeWhile p).length < l₁.length then (l₁.takeWhile p).length
      else (l₁.takeWhile p).length + (l₂.takeWhile p).length := by
  induction l₁ with
  | nil => simp
  | cons a rest ih =>
      cases hp : p a with
      | false => simp [hp]
      | true =>
          simp only [List.cons_append, List.takeWhile_cons, hp, if_true, List.length_cons, ih]
          split <;> split <;> omega

theorem getCurrentSequenceFactorForAlt_eq {blocks P : List BlockHeaderInfo} (h : Branches blocks P)
    (A : List BlockHeaderInfo) (pos : Bool) :
    getCurrentSequenceFactorForAlt blocks A pos P.length =
      getCurrentSequenceFactor (P ++ A) pos := by
  rw [getCurrentSequenceFactor, downFrom_length, fromTop_append h.nonempty,
    takeWhile_append_length, List.length_reverse, getCurrentSequenceFactorForAlt, h.downFrom_eq]

/-! ## Adjusted difficulty of a PoS block -/

theorem scanLastDifficulties_of_ne_zero {lastPow lastPos : WideDifficulty} (hpow : lastPow ≠ 0)
    (hpos : lastPos ≠ 0) (l : List BlockHeaderInfo) :
    scanLastDifficulties lastPow lastPos l = (lastPow, lastPos) := by
  cases l with
  | nil => rfl
  | cons bei rest => rw [scanLastDifficulties, if_pos ⟨hpow, hpos⟩]

/-- The walk goes on where it stopped. -/
theorem scanLastDifficulties_append (lastPow lastPos : WideDifficulty) (l₁ l₂ : List BlockHeaderInfo) :
    scanLastDifficulties lastPow lastPos (l₁ ++ l₂) =
      scanLastDifficulties (scanLastDifficulties lastPow lastPos l₁).1
        (scanLastDifficulties lastPow lastPos l₁).2 l₂ := by
  induction l₁ generalizing lastPow lastPos with
  | nil => rfl
  | cons bei rest ih =>
      rw [List.cons_append, scanLastDifficulties, scanLastDifficulties]
      split
      · rename_i hboth
        exact (scanLastDifficulties_of_ne_zero hboth.1 hboth.2 l₂).symm
      · split
        · exact ih _ _
        · exact ih _ _

/-- A difficulty once found stays. -/
theorem scanLastDifficulties_pow_ne_zero {lastPow lastPos : WideDifficulty} {l : List BlockHeaderInfo}
    (hdiff : ∀ bei ∈ l, bei.difficulty ≠ 0)
    (h : lastPow ≠ 0 ∨ ∃ bei ∈ l, bei.isPos = false) :
    (scanLastDifficulties lastPow lastPos l).1 ≠ 0 := by
  induction l generalizing lastPow lastPos with
  | nil => simpa [scanLastDifficulties] using h
  | cons bei rest ih =>
      have hrest : ∀ b ∈ rest, b.difficulty ≠ 0 := fun b hb => hdiff b (List.mem_cons_of_mem bei hb)
      have hbei : bei.difficulty ≠ 0 := hdiff bei List.mem_cons_self
      rw [scanLastDifficulties]
      split
      · rename_i hboth
        exact hboth.1
      · split
        · rename_i hpos
          refine ih hrest ?_
          rcases h with h | ⟨b, hb, hkind⟩
          · exact Or.inl h
          · rcases List.mem_cons.mp hb with rfl | hb
            · rw [hpos] at hkind
              cases hkind
            · exact Or.inr ⟨b, hb, hkind⟩
        · refine ih hrest (Or.inl ?_)
          split
          · exact hbei
          · assumption

/-- Only PoS blocks fill the second slot. -/
theorem scanLastDifficulties_pos_eq {lastPow lastPos : WideDifficulty} {l : List BlockHeaderInfo}
    (h : ∀ bei ∈ l, bei.isPos = false) :
    (scanLastDifficulties lastPow lastPos l).2 = lastPos := by
  induction l generalizing lastPow with
  | nil => rfl
  | cons bei rest ih =>
      have hbei : bei.isPos = false := h bei List.mem_cons_self
      rw [scanLastDifficulties]
      split
      · rfl
      · rw [if_neg (by simp [hbei])]
        exact ih fun b hb => h b (List.mem_cons_of_mem bei hb)

theorem scanLastDifficulties_genesis {lastPow lastPos : WideDifficulty} (hpow : lastPow ≠ 0)
    {genesis : BlockHeaderInfo} (hgenesis : genesis.isPos = false) :
    scanLastDifficulties lastPow lastPos [genesis] = (lastPow, lastPos) := by
  rw [scanLastDifficulties]
  split
  · rfl
  · simp only [hgenesis, Bool.false_eq_true, if_false, scanLastDifficulties]

/-- Looking at the genesis block does not change the adjusted difficulty. -/
theorem getAdjustedCumulativeDifficultyForNextPos_eq {chain : List BlockHeaderInfo}
    (hne : chain ≠ []) (hchain : WellFormedChain chain) (nextDiff : WideDifficulty) :
    getAdjustedCumulativeDifficultyForNextPos chain nextDiff =
      adjustPosDifficulty nextDiff (scanLastDifficulties 0 0 (fromTop chain)) := by
  obtain ⟨genesis, hgenesis⟩ := Option.ne_none_iff_exists'.mp (mt List.head?_eq_none_iff.mp hne)
  obtain ⟨rest, rfl⟩ := List.head?_eq_some_iff.mp hgenesis
  have hgenesisPow : genesis.isPos = false := by
    cases hpos : genesis.isPos with
    | false => rfl
    | true =>
        obtain ⟨pow, hpow, _⟩ := hchain.pow_below_pos [] genesis rest rfl hpos
        cases hpow
  rw [getAdjustedCumulativeDifficultyForNextPos, if_neg hne, reverse_eq_fromTop hgenesis,
    scanLastDifficulties_append]
  by_cases hpos : ∃ bei ∈ rest, bei.isPos = true
  · -- both slots may be filled above the genesis block, at least the PoW one is
    obtain ⟨bei, hbei, hkind⟩ := hpos
    obtain ⟨pow, hpow, hpowKind⟩ :=
      hchain.exists_pow_of_pos (List.mem_cons_of_mem genesis hbei) hkind
    have hfound : (scanLastDifficulties 0 0 (fromTop (genesis :: rest))).1 ≠ 0 := by
      refine scanLastDifficulties_pow_ne_zero (fun b hb => ?_)
        (Or.inr ⟨pow, mem_fromTop.mpr hpow, hpowKind⟩)
      exact hchain.difficulty_ne_zero b (List.mem_cons_of_mem genesis (mem_fromTop.mp hb))
    rw [scanLastDifficulties_genesis hfound hgenesisPow]
  · have hpow : ∀ bei ∈ rest, bei.isPos = false := by
      intro bei hbei
      cases hkind : bei.isPos with
      | false => rfl
      | true => exact absurd ⟨bei, hbei, hkind⟩ hpos
    have hnone : (scanLastDifficulties 0 0 (fromTop (genesis :: rest))).2 = 0 :=
      scanLastDifficulties_pos_eq fun bei hbei => hpow bei (mem_fromTop.mp hbei)
    rw [adjustPosDifficulty, adjustPosDifficulty, if_pos hnone, hnone,
      if_pos (scanLastDifficulties_pos_eq (by simpa using hgenesisPow))]

theorem getAdjustedCumulativeDifficultyForNextAltPos_eq {blocks P : List BlockHeaderInfo}
    (h : Branches blocks P) {A : List BlockHeaderInfo} (hchain : WellFormedChain (P ++ A))
    (nextDiff : WideDifficulty) :
    getAdjustedCumulativeDifficultyForNextAltPos blocks A nextDiff P.length =
      getAdjustedCumulativeDifficultyForNextPos (P ++ A) nextDiff := by
  rw [getAdjustedCumulativeDifficultyForNextPos_eq
    (List.append_ne_nil_of_left_ne_nil h.nonempty A) hchain, fromTop_append h.nonempty,
    scanLastDifficulties_append, getAdjustedCumulativeDifficultyForNextAltPos, h.downFrom_eq]

/-! ## The last block of a type -/

theorem getLastXBlockHeight_snoc (chain : List BlockHeaderInfo) (bei : BlockHeaderInfo) (pos : Bool) :
    getLastXBlockHeight (chain ++ [bei]) pos =
      if bei.isPos = pos then chain.length else getLastXBlockHeight chain pos := by
  have hlast : (chain ++ [bei])[chain.length]?.map BlockHeaderInfo.isPos = some bei.isPos := by
    rw [List.getElem?_append_right le_rfl, Nat.sub_self]
    rfl
  have hbelow : ∀ i ∈ (List.range chain.length).reverse,
      decide ((chain ++ [bei])[i]?.map BlockHeaderInfo.isPos = some pos) =
        decide (chain[i]?.map BlockHeaderInfo.isPos = some pos) := by
    intro i hi
    rw [List.mem_reverse, List.mem_range] at hi
    rw [List.getElem?_append_left hi]
  rw [getLastXBlockHeight, List.length_append, List.length_singleton, List.range_succ,
    List.reverse_append, List.reverse_singleton, List.singleton_append, List.find?_cons, hlast]
  by_cases hkind : bei.isPos = pos
  · simp [hkind]
  · simp only [Option.some.injEq, hkind, decide_false, if_false, getLastXBlockHeight]
    rw [List.find?_congr hbelow]

/-- `get_last_x_block_height` finds what the walk from the top finds; it is zero
when there is no such block above the genesis. -/
theorem getLastXBlockHeight_spec {chain : List BlockHeaderInfo} (hne : chain ≠ []) (pos : Bool) :
    match (fromTop chain).find? (·.isPos = pos) with
    | none => getLastXBlockHeight chain pos = 0
    | some bei => getLastXBlockHeight chain pos ≠ 0 ∧
        chain[getLastXBlockHeight chain pos]? = some bei := by
  induction chain using List.reverseRecOn with
  | nil => exact absurd rfl hne
  | append_singleton chain bei ih =>
      rw [getLastXBlockHeight_snoc]
      rcases eq_or_ne chain [] with rfl | hchain
      · simp only [List.nil_append, fromTop, List.tail_cons, List.reverse_nil, List.find?_nil,
          List.length_nil]
        split
        · rfl
        · rfl
      · rw [fromTop_snoc hchain, List.find?_cons]
        by_cases hkind : bei.isPos = pos
        · simp only [hkind, decide_true, if_true]
          refine ⟨fun hlen => hchain (List.length_eq_zero_iff.mp hlen), ?_⟩
          rw [List.getElem?_append_right le_rfl, Nat.sub_self]
          rfl
        · simp only [hkind, decide_false, if_false]
          have hspec := ih hchain
          cases hfind : (fromTop chain).find? (·.isPos = pos) with
          | none => simpa [hfind] using hspec
          | some found =>
              simp only [hfind] at hspec
              obtain ⟨hpos, hget⟩ := hspec
              refine ⟨hpos, ?_⟩
              have hlt : getLastXBlockHeight chain pos < chain.length :=
                (List.getElem?_eq_some_iff.mp hget).1
              rw [List.getElem?_append_left hlt, hget]

theorem getLastAltXBlockCumulativePreciseDifficulty_eq {blocks P : List BlockHeaderInfo}
    (h : Branches blocks P) {A : List BlockHeaderInfo}
    (hfront : ∀ front, A.head? = some front → front.height = P.length) {blockHeight : Nat}
    (hheight : A = [] → blockHeight + 1 = P.length) (pos : Bool) :
    getLastAltXBlockCumulativePreciseDifficulty blocks A blockHeight pos =
      match (fromTop (P ++ A)).find? (·.isPos = pos) with
      | some bei => (bei.cumulativeDiffPrecise, bei.cumulativeDiffPreciseAdjusted)
      | none => (0, 0) := by
  have hpos := h.length_ne_zero
  have hle := h.length_le
  unfold getLastAltXBlockCumulativePreciseDifficulty
  rw [fromTop_append h.nonempty, List.find?_append]
  cases hfind : A.reverse.find? (·.isPos = pos) with
  | some bei => rfl
  | none =>
      have hmain : ∀ first, first + 1 = P.length →
          (if first < blocks.length then
            match (downFrom blocks (first + 1)).find? (·.isPos = pos) with
            | some bei => (bei.cumulativeDiffPrecise, bei.cumulativeDiffPreciseAdjusted)
            | none => (0, 0)
          else (0, 0)) =
            match (fromTop P).find? (·.isPos = pos) with
            | some bei => (bei.cumulativeDiffPrecise, bei.cumulativeDiffPreciseAdjusted)
            | none => (0, 0) := by
        intro first hfirst
        rw [if_pos (by omega), hfirst, h.downFrom_eq]
      rw [Option.none_or]
      cases A with
      | nil => exact hmain blockHeight (hheight rfl)
      | cons front rest =>
          have hheight := hfront front rfl
          exact hmain (front.height - 1) (by omega)

/-! ## The header of a block -/

/-- The cumulative difficulties of the main copy, through the walk from the top. -/
theorem mainCumulative_eq {chain : List BlockHeaderInfo} (hne : chain ≠ []) (pos : Bool)
    (f : BlockHeaderInfo → WideDifficulty) (diff : WideDifficulty) :
    (if getLastXBlockHeight chain pos = 0 then diff
      else ((chain[getLastXBlockHeight chain pos]?.map f).getD 0) + diff) =
      (((fromTop chain).find? (·.isPos = pos)).map f).getD 0 + diff := by
  have hspec := getLastXBlockHeight_spec hne pos
  cases hfind : (fromTop chain).find? (·.isPos = pos) with
  | none =>
      simp only [hfind] at hspec
      rw [if_pos hspec, Option.map_none, Option.getD_none]
      exact (BitVec.zero_add diff).symm
  | some bei =>
      simp only [hfind] at hspec
      rw [if_neg hspec.1, hspec.2, Option.map_some]

/-- Both copies store the same header. -/
theorem altHeaderInfo_eq {blocks P : List BlockHeaderInfo} (h : Branches blocks P)
    {A : List BlockHeaderInfo} (hchain : WellFormedChain (P ++ A))
    (hfront : ∀ front, A.head? = some front → front.height = P.length) {prev : BlockHeaderInfo}
    (hprev : (P ++ A).getLast? = some prev) (b : Block) (currentDiff : WideDifficulty)
    (stakeHash : Hash) :
    altHeaderInfo env blocks A prev b (P ++ A).length P.length currentDiff stakeHash =
      mainHeaderInfo env (P ++ A) b currentDiff stakeHash := by
  have hne : P ++ A ≠ [] := List.append_ne_nil_of_left_ne_nil h.nonempty A
  have hpos := h.length_ne_zero
  have hheight : A = [] → (P ++ A).length - 1 + 1 = P.length := by
    rintro rfl
    rw [List.append_nil]
    omega
  have hlast := getLastAltXBlockCumulativePreciseDifficulty_eq h hfront hheight (isPosBlock b)
  unfold altHeaderInfo mainHeaderInfo
  simp only [mainCumulative_eq hne, getCurrentSequenceFactorForAlt_eq h,
    getAdjustedCumulativeDifficultyForNextAltPos_eq h hchain, hlast, hprev, Option.map_some,
    Option.getD_some]
  cases (fromTop (P ++ A)).find? (·.isPos = isPosBlock b) with
  | none => rfl
  | some bei => rfl

/-! ## The proof of a block -/

theorem buildStakeModifier_branch {blocks P : List BlockHeaderInfo} (h : Branches blocks P)
    (A : List BlockHeaderInfo) :
    buildStakeModifier env blocks A P.length = buildStakeModifier env (P ++ A) [] 0 := by
  rw [buildStakeModifier, buildStakeModifier, getLastBlockOfType, getLastBlockOfType,
    getLastBlockOfType, getLastBlockOfType, h.enumBlockchain_branch, enumBlockchain_main]

theorem validatePosBlockKernel_branch {blocks P : List BlockHeaderInfo} (h : Branches blocks P)
    (A : List BlockHeaderInfo) (b : Block) (basicDiff : WideDifficulty) :
    validatePosBlockKernel env blocks A P.length b basicDiff =
      validatePosBlockKernel env (P ++ A) [] 0 b basicDiff := by
  rw [validatePosBlockKernel, validatePosBlockKernel, buildStakeModifier_branch h]

/-- A stake modifier needs a PoW block above the genesis. -/
theorem exists_pow_of_buildStakeModifier {chain : List BlockHeaderInfo} {sm : StakeModifier}
    (h : buildStakeModifier env chain [] 0 = .ok sm) : ∃ pow ∈ chain.tail, pow.isPos = false := by
  rw [buildStakeModifier, getLastBlockOfType, enumBlockchain_main] at h
  cases hfind : (fromTop chain).find? (·.isPos = false) with
  | none =>
      rw [hfind] at h
      cases h
  | some pow =>
      exact ⟨pow, mem_fromTop.mp (List.mem_of_find?_eq_some hfind),
        by simpa using List.find?_some hfind⟩

theorem validatePosBlockKernel_ok {blocks altChain : List BlockHeaderInfo} {splitHeight : Nat}
    {b : Block} {basicDiff : WideDifficulty} {proofHash : Hash}
    (h : validatePosBlockKernel env blocks altChain splitHeight b basicDiff = .ok proofHash) :
    ∃ sm kernel amount, buildStakeModifier env blocks altChain splitHeight = .ok sm ∧
      buildKernel b sm = .ok (kernel, amount) ∧ proofHash = env.crypto.kernelHash kernel := by
  unfold validatePosBlockKernel at h
  simp only [require_bind_eq_ok] at h
  obtain ⟨-, h⟩ := h
  rw [bind_eq_ok] at h
  obtain ⟨sm, hsm, h⟩ := h
  rw [bind_eq_ok] at h
  obtain ⟨⟨kernel, amount⟩, hkernel, h⟩ := h
  simp only [require_bind_eq_ok] at h
  obtain ⟨-, -, -, h⟩ := h
  cases h
  exact ⟨sm, kernel, amount, hsm, hkernel, rfl⟩

/-! ## The header as a function of the chain and the block -/

/-- The stake hash of a block on top of `chain`. -/
def stakeHashOf (env : Env) (chain : List BlockHeaderInfo) (b : Block) : Hash :=
  if isPosBlock b then
    match buildStakeModifier env chain [] 0 with
    | .error _ => nullHash
    | .ok sm =>
        match buildKernel b sm with
        | .error _ => nullHash
        | .ok (kernel, _) => env.crypto.kernelHash kernel
  else nullHash

/-- The header of a block on top of `chain`. -/
def nextHeader (env : Env) (chain : List BlockHeaderInfo) (b : Block) : BlockHeaderInfo :=
  mainHeaderInfo env chain b (getNextDiffConditional env chain (isPosBlock b))
    (stakeHashOf env chain b)

/-- The headers of `chain` with the blocks put on top of it. -/
def extendHeaders (env : Env) (chain : List BlockHeaderInfo) (blocks : List Block) :
    List BlockHeaderInfo :=
  blocks.foldl (fun chain b => chain ++ [nextHeader env chain b]) chain

theorem extendHeaders_snoc (chain : List BlockHeaderInfo) (blocks : List Block) (b : Block) :
    extendHeaders env chain (blocks ++ [b]) =
      extendHeaders env chain blocks ++ [nextHeader env (extendHeaders env chain blocks) b] := by
  rw [extendHeaders, List.foldl_append]
  rfl

theorem stakeHashOf_of_kernel {chain : List BlockHeaderInfo} {b : Block} {basicDiff : WideDifficulty}
    {proofHash : Hash} (hpos : isPosBlock b = true)
    (h : validatePosBlockKernel env chain [] 0 b basicDiff = .ok proofHash) :
    stakeHashOf env chain b = proofHash := by
  obtain ⟨sm, kernel, amount, hsm, hkernel, rfl⟩ := validatePosBlockKernel_ok h
  rw [stakeHashOf, if_pos hpos, hsm]
  simp only [hkernel]

theorem stakeHashOf_of_pow {chain : List BlockHeaderInfo} {b : Block} (hpow : isPosBlock b = false) :
    stakeHashOf env chain b = nullHash := by
  rw [stakeHashOf, if_neg (by simp [hpow])]

/-- A header that passed its checks keeps a chain well formed. -/
theorem WellFormedChain.snoc_nextHeader {chain : List BlockHeaderInfo} {b : Block}
    (h : WellFormedChain chain) (hdiff : getNextDiffConditional env chain (isPosBlock b) ≠ 0)
    (hpos : isPosBlock b = true → ∃ diff proofHash,
      validatePosBlockKernel env chain [] 0 b diff = .ok proofHash) :
    WellFormedChain (chain ++ [nextHeader env chain b]) := by
  refine h.snoc rfl hdiff fun hkind => ?_
  obtain ⟨diff, proofHash, hkernel⟩ := hpos hkind
  obtain ⟨sm, _, _, hsm, _⟩ := validatePosBlockKernel_ok hkernel
  exact exists_pow_of_buildStakeModifier hsm

end Chinet
