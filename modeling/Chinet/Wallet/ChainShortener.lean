import Chinet.Lib.StepWindow

/-!
# The wallet's shortened chain

The ids of the blocks that a wallet remembers: the last ones, every tenth, every hundredth and
every thousandth, each map trimmed by its size and cut by height.
-/

namespace Chinet

open StepWindow

/-- `WALLET_EVERYBLOCK_SIZE` -/
def walletEveryblockSize : Nat := 20

/-- `WALLET_EVERY_10_BLOCKS_SIZE`, and the same for every hundredth and every thousandth. -/
def walletEvery10BlocksSize : Nat := 144

def walletEvery100BlocksSize : Nat := 144

def walletEvery1000BlocksSize : Nat := 144

/-- The internal checks of the shortener that throw. -/
inductive ChainShortenerError where
  /-- `get_blockchain_current_height() == height is not equal` -/
  | heightNotSize
  /-- `(--m_last_144_blocks_every_10.end())->first + 10 == height is not equal`, and the same for
  the other steps -/
  | heightNotNextOfStep (step : Nat)
  /-- `current_back_offset == sz-i is not equal` -/
  | wrongBackOffset
  /-- `index not found for devider` -/
  | indexNotFound (devider : Nat)
  /-- `index is not located in expected range of m_last_20_blocks` -/
  | indexNotInRange
  /-- `filde to find index in m_last_20_blocks` -/
  | failedToFindIndex
  /-- The loop of the history has not ended. -/
  | outOfPasses
deriving DecidableEq

/-- `wallet_chain_shortener` -/
structure WalletChainShortener (θ : Type*) where
  localBcSize : Nat
  genesis : θ
  last20Blocks : List (Nat × θ)
  last144BlocksEvery10 : List (Nat × θ)
  last144BlocksEvery100 : List (Nat × θ)
  last144BlocksEvery1000 : List (Nat × θ)
deriving DecidableEq

/-- The outputs of `check_if_block_matched`, all false before the call. -/
structure BlockMatch where
  blockFound : Bool
  blockMatched : Bool
  fullResetNeeded : Bool
deriving DecidableEq

/-- The block of `push_new_block_id` for the map of a step. -/
def pushEvery {θ : Type*} (step limit : Nat) (items : List (Nat × θ)) (id : θ) (height : Nat) :
    Except ChainShortenerError (List (Nat × θ)) :=
  if height % step = 0 then
    match items.getLast? with
    | some last =>
        if last.1 + step = height then .ok (trim limit (setItem items height id))
        else .error (.heightNotNextOfStep step)
    | none => .ok (trim limit (setItem items height id))
  else .ok items

namespace WalletChainShortener

variable {θ : Type*}

/-- The constructor, with the default genesis. -/
def init (genesis : θ) : WalletChainShortener θ := ⟨1, genesis, [], [], [], []⟩

/-- `push_new_block_id` -/
def pushNewBlockId (s : WalletChainShortener θ) (id : θ) (height : Nat) :
    Except ChainShortenerError (WalletChainShortener θ) := do
  if height = 0 then
    return { s with genesis := id, localBcSize := 1 }
  if s.localBcSize ≠ 1 ∧ s.localBcSize ≠ height then
    throw .heightNotSize
  let every10 ← pushEvery 10 walletEvery10BlocksSize s.last144BlocksEvery10 id height
  let every100 ← pushEvery 100 walletEvery100BlocksSize s.last144BlocksEvery100 id height
  let every1000 ← pushEvery 1000 walletEvery1000BlocksSize s.last144BlocksEvery1000 id height
  return ⟨height + 1, s.genesis,
    trim walletEveryblockSize (setItem s.last20Blocks height id), every10, every100, every1000⟩

/-- The test of `lookup_item_around` whether a container begins at or below a height. -/
def beginsBelow (container : List (Nat × θ)) (i : Nat) : Bool :=
  match container.head? with
  | some first => decide (first.1 ≤ i)
  | none => false

/-- The container that `lookup_item_around` looks in, with its divider. -/
def containerAround (s : WalletChainShortener θ) (i : Nat) : Option (Nat × List (Nat × θ)) :=
  if beginsBelow s.last20Blocks i then some (1, s.last20Blocks)
  else if beginsBelow s.last144BlocksEvery10 i then some (10, s.last144BlocksEvery10)
  else if beginsBelow s.last144BlocksEvery100 i then some (100, s.last144BlocksEvery100)
  else if beginsBelow s.last144BlocksEvery1000 i then some (1000, s.last144BlocksEvery1000)
  else none

/-- `lookup_item_around`, none for the result false. -/
def lookupItemAround (s : WalletChainShortener θ) (i : Nat) :
    Except ChainShortenerError (Option (Nat × θ)) :=
  match s.containerAround i with
  | none => .ok none
  | some (devider, container) =>
      match findItem container (i - i % devider) with
      | some item => .ok (some item)
      | none => .error (.indexNotFound devider)

/-- The loop of `get_short_chain_history`: the ids that it appends. -/
def historyLoop (s : WalletChainShortener θ) : Nat → Nat → Nat →
    Except ChainShortenerError (List θ)
  | 0, _, _ => .error .outOfPasses
  | passes + 1, currentBackOffset, currentOffsetDistance =>
      if currentBackOffset < s.localBcSize then
        match s.lookupItemAround (s.localBcSize - currentBackOffset) with
        | .error e => .error e
        | .ok none => .ok []
        | .ok (some item) =>
            match s.historyLoop passes
              (s.localBcSize - item.1 + currentOffsetDistance * 2)
              (currentOffsetDistance * 2) with
            | .error e => .error e
            | .ok ids => .ok (item.2 :: ids)
      else .ok []

/-- `get_short_chain_history` -/
def getShortChainHistory (s : WalletChainShortener θ) : Except ChainShortenerError (List θ) :=
  if s.localBcSize = 0 then .ok []
  else
    let last10 := s.last20Blocks.reverse.take 10
    let i := (last10.getLast?.map Prod.fst).getD 0
    if last10.length + 1 = s.localBcSize - i + 1 ∨ last10 = [] then
      match s.historyLoop (s.localBcSize + 1) (last10.length + 1) 1 with
      | .error e => .error e
      | .ok ids => .ok (last10.map Prod.snd ++ ids ++ [s.genesis])
    else .error .wrongBackOffset

/-- The lazy lookup of `check_if_block_matched`, for a block out of the short sequence. -/
def lazyLookup [DecidableEq θ] (s : WalletChainShortener θ) (i : Nat) (id : θ) :
    Except ChainShortenerError BlockMatch :=
  match s.lookupItemAround i with
  | .error e => .error e
  | .ok none => .ok ⟨false, false, true⟩
  | .ok (some result) =>
      if result.1 = i then .ok ⟨true, decide (result.2 = id), false⟩
      else .ok ⟨false, false, false⟩

/-- `check_if_block_matched` -/
def checkIfBlockMatched [DecidableEq θ] (s : WalletChainShortener θ) (i : Nat) (id : θ) :
    Except ChainShortenerError BlockMatch :=
  if i = 0 then
    if s.localBcSize > 0 then
      .ok ⟨true, decide (id = s.genesis), !decide (id = s.genesis)⟩
    else .ok ⟨false, false, true⟩
  else
    match s.last20Blocks.head?, s.last20Blocks.getLast? with
    | some first, some last =>
        if i > first.1 then
          if last.1 ≥ i then
            match findItem s.last20Blocks i with
            | some item => .ok ⟨true, decide (id = item.2), false⟩
            | none => .error .failedToFindIndex
          else .error .indexNotInRange
        else s.lazyLookup i id
    | _, _ => s.lazyLookup i id

/-- `detach`, with `clean_map_from_items_above` for each map. -/
def detach (s : WalletChainShortener θ) (includingHeight : Nat) : WalletChainShortener θ :=
  ⟨includingHeight, s.genesis, cutFrom includingHeight s.last20Blocks,
    cutFrom includingHeight s.last144BlocksEvery10,
    cutFrom includingHeight s.last144BlocksEvery100,
    cutFrom includingHeight s.last144BlocksEvery1000⟩

end WalletChainShortener

/-! ## Density -/

section Density

variable {θ : Type*} {step limit size : Nat} {chain : Nat → θ} {items : List (Nat × θ)}

/-- A map holds the multiples of its step from its first one up to the size of the chain, with
their ids, and no more of them than its limit. -/
def Dense (step limit size : Nat) (chain : Nat → θ) (items : List (Nat × θ)) : Prop :=
  ∃ first count, 1 ≤ first ∧ count ≤ limit ∧ items = window step chain first count ∧
    (0 < count → step * (first + count) < size + step ∧ size ≤ step * (first + count))

theorem dense_nil : Dense step limit size chain [] :=
  ⟨1, 0, le_rfl, Nat.zero_le _, rfl, fun h => by omega⟩

/-- The map that the genesis block alone leaves. -/
theorem Dense.eq_nil_of_size_le (h : Dense step limit size chain items) (hstep : 0 < step)
    (hsize : size ≤ 1) : items = [] := by
  obtain ⟨first, count, hfirst, -, rfl, htop⟩ := h
  rcases Nat.eq_zero_or_pos count with rfl | hcount
  · rfl
  · have htwo : step * 2 ≤ step * (first + count) := Nat.mul_le_mul_left step (by omega)
    have := (htop hcount).1
    omega

/-- The map after a push. -/
def pushed (step limit : Nat) (items : List (Nat × θ)) (id : θ) (height : Nat) :
    List (Nat × θ) :=
  if height % step = 0 then trim limit (setItem items height id) else items

/-- A map that is cut stays dense. -/
theorem Dense.cutFrom (h : Dense step limit size chain items) {height : Nat}
    (hheight : height ≤ size) : Dense step limit height chain (cutFrom height items) := by
  obtain ⟨first, count, hfirst, hcount, rfl, htop⟩ := h
  obtain ⟨kept, hkept, hcut, hbelow⟩ := @cutFrom_window θ step first count chain height
  refine ⟨first, kept, hfirst, hkept.trans hcount, hcut, fun hpos => ⟨?_, ?_⟩⟩
  · have hlast := (hbelow (first + kept - 1) (by omega) (by omega)).mp (by omega)
    have hsum : first + kept = first + kept - 1 + 1 := by omega
    rw [hsum, Nat.mul_add, Nat.mul_one]
    omega
  · rcases Nat.lt_or_ge kept count with hlt | hge
    · have hnext := (hbelow (first + kept) (by omega) (by omega)).not.mp (by omega)
      omega
    · obtain rfl : kept = count := by omega
      have := (htop hpos).2
      omega

/-- A dense map finds the multiple of its step below a height that is not below its first. -/
theorem Dense.findItem (h : Dense step limit size chain items) (hstep : 0 < step) {i : Nat}
    (hi : i < size) {first : Nat × θ} (hhead : items.head? = some first) (hle : first.1 ≤ i) :
    StepWindow.findItem items (i - i % step) = some (i - i % step, chain (i - i % step)) ∧
      0 < i - i % step := by
  obtain ⟨start, count, hstart, -, rfl, htop⟩ := h
  have hcount : 0 < count := by
    rcases Nat.eq_zero_or_pos count with rfl | hpos
    · cases hhead
    · exact hpos
  obtain ⟨m, rfl⟩ : ∃ m, count = m + 1 := ⟨count - 1, by omega⟩
  rw [window_cons, List.head?_cons, Option.some.injEq] at hhead
  subst hhead
  have hmul : i - i % step = step * (i / step) := by
    have := Nat.div_add_mod i step
    omega
  have hlow : start ≤ i / step := by
    rw [Nat.le_div_iff_mul_le hstep, Nat.mul_comm]
    exact hle
  have hhigh : i / step < start + (m + 1) := by
    rw [Nat.div_lt_iff_lt_mul hstep, Nat.mul_comm]
    have := (htop hcount).2
    omega
  rw [hmul]
  exact ⟨findItem_window hstep hlow hhigh, Nat.mul_pos hstep (by omega)⟩

/-- A dense map that does not reach down to a height holds nothing at or below it. -/
theorem Dense.above_of_head (h : Dense step limit size chain items) {i : Nat}
    (hhead : ∀ first, items.head? = some first → i < first.1) : ∀ item ∈ items, i < item.1 := by
  obtain ⟨start, count, -, -, rfl, -⟩ := h
  intro item hitem
  obtain ⟨k, hle, hlt, rfl⟩ := mem_window.mp hitem
  obtain ⟨m, rfl⟩ : ∃ m, count = m + 1 := ⟨count - 1, by omega⟩
  rw [window_cons] at hhead
  have hfirst : i < step * start := hhead _ rfl
  have := Nat.mul_le_mul_left step hle
  show i < step * k
  omega

open WalletChainShortener in
theorem Dense.lookup (h : Dense step limit size chain items) (hstep : 0 < step) {i : Nat}
    (hi : i < size) :
    if beginsBelow items i then
      StepWindow.findItem items (i - i % step) = some (i - i % step, chain (i - i % step)) ∧
        0 < i - i % step
    else ∀ item ∈ items, i < item.1 := by
  cases hhead : items.head? with
  | none =>
      rw [beginsBelow, hhead, if_neg (by simp)]
      exact h.above_of_head fun first hfirst => by rw [hhead] at hfirst; cases hfirst
  | some first =>
      by_cases hle : first.1 ≤ i
      · rw [beginsBelow, hhead, if_pos (decide_eq_true hle)]
        exact h.findItem hstep hi hhead hle
      · rw [beginsBelow, hhead, if_neg (by simpa using hle)]
        refine h.above_of_head fun other hother => ?_
        rw [hhead] at hother
        obtain rfl := Option.some.inj hother
        omega

/-! ### Refilling a map -/

/-- A map that is filled from a multiple on, up to the size: it begins there or is full. -/
def Refilled (step limit size start : Nat) (chain : Nat → θ) (items : List (Nat × θ)) : Prop :=
  ∃ first count, start ≤ first ∧ count ≤ limit ∧ (first = start ∨ count = limit) ∧
    items = window step chain first count ∧ size ≤ step * (first + count) ∧
      (0 < count → step * (first + count) < size + step)

theorem Refilled.pushEvery {start : Nat} (h : Refilled step limit size start chain items)
    (hstep : 0 < step) (hlimit : 0 < limit) (hstart : step ∣ size → step * start ≤ size) :
    Chinet.pushEvery step limit items (chain size) size =
        .ok (pushed step limit items (chain size) size) ∧
      Refilled step limit (size + 1) start chain (pushed step limit items (chain size) size) := by
  obtain ⟨first, count, hfirst, hcount, hbegin, hitems, htop, hlow⟩ := h
  rw [Chinet.pushEvery, pushed]
  by_cases hmod : size % step = 0
  · rw [if_pos hmod, if_pos hmod]
    obtain ⟨k, rfl⟩ := Nat.dvd_of_mod_eq_zero hmod
    have hk : start ≤ k := Nat.le_of_mul_le_mul_left (hstart (Nat.dvd_mul_right step k)) hstep
    have htop' : k ≤ first + count := Nat.le_of_mul_le_mul_left htop hstep
    have hsucc : step * (k + 1) = step * k + step := Nat.mul_succ step k
    -- the next multiple of the window is the height
    have hnext : first + count = k := by
      rcases Nat.eq_zero_or_pos count with rfl | hpos
      · rcases hbegin with rfl | hfull
        · omega
        · omega
      · have hlow' : step * (first + count) < step * (k + 1) := by
          have := hlow hpos
          omega
        have := Nat.lt_of_mul_lt_mul_left hlow'
        omega
    have hset := @setItem_window θ step first count chain hstep
    rw [hnext] at hset
    have hrefilled : Refilled step limit (step * k + 1) start chain
        (trim limit (setItem items (step * k) (chain (step * k)))) := by
      rw [hitems, hset, trim_window hcount]
      by_cases hfull : count = limit
      · rw [if_pos hfull]
        refine ⟨first + 1, count, by omega, hcount, Or.inr hfull, rfl, ?_, fun _ => ?_⟩
        · rw [show first + 1 + count = k + 1 by omega]
          omega
        · rw [show first + 1 + count = k + 1 by omega]
          omega
      · rw [if_neg hfull]
        have hbegin' : first = start := hbegin.resolve_right hfull
        refine ⟨first, count + 1, hfirst, by omega, Or.inl hbegin', rfl, ?_, fun _ => ?_⟩
        · rw [show first + (count + 1) = k + 1 by omega]
          omega
        · rw [show first + (count + 1) = k + 1 by omega]
          omega
    refine ⟨?_, hrefilled⟩
    rcases Nat.eq_zero_or_pos count with rfl | hpos
    · rw [hitems, window_zero]
      rfl
    · obtain ⟨m, rfl⟩ : ∃ m, count = m + 1 := ⟨count - 1, by omega⟩
      have hlast : items.getLast? = some (step * (first + m), chain (step * (first + m))) := by
        rw [hitems, getLast?_window]
      have hcheck : step * (first + m) + step = step * k := by
        rw [← hnext]
        ring
      simp only [hlast, hcheck, if_true]
  · rw [if_neg hmod, if_neg hmod]
    have hne : size ≠ step * (first + count) := by
      rintro rfl
      exact hmod (Nat.mul_mod_right step _)
    refine ⟨rfl, first, count, hfirst, hcount, hbegin, hitems, by omega, fun hpos => ?_⟩
    have := hlow hpos
    omega

/-- The push of the genesis does not touch a map that is to be filled. -/
theorem Refilled.genesis {start : Nat} (h : Refilled step limit 0 start chain items)
    (hstep : 0 < step) (hstart : 0 < start) : Refilled step limit 1 start chain items := by
  obtain ⟨first, count, hfirst, hcount, hbegin, hitems, -, hlow⟩ := h
  have hmul : step * 1 ≤ step * (first + count) := Nat.mul_le_mul_left step (by omega)
  refine ⟨first, count, hfirst, hcount, hbegin, hitems, by omega, fun hpos => ?_⟩
  have := hlow hpos
  omega

theorem exists_next_multiple (hstep : 0 < step) {height : Nat} (hpos : 0 < height) :
    ∃ k, 0 < k ∧ height ≤ step * k ∧ step * k < height + step := by
  refine ⟨(height + step - 1) / step, Nat.div_pos (by omega) hstep, ?_, ?_⟩
  · have hmod := Nat.mod_lt (height + step - 1) hstep
    have hdiv := Nat.div_add_mod (height + step - 1) step
    omega
  · have := Nat.mul_div_le (height + step - 1) step
    omega

theorem le_of_mul_lt_add {x y : Nat} (hx : step * x < size + step) (hy : size ≤ step * y) :
    x ≤ y := by
  have hlt : step * x < step * (y + 1) := by
    rw [Nat.mul_succ]
    omega
  exact Nat.lt_succ_iff.mp (Nat.lt_of_mul_lt_mul_left hlt)

theorem Refilled.dense {start : Nat} (h : Refilled step limit size start chain items)
    (hstart : 0 < start) : Dense step limit size chain items := by
  obtain ⟨first, count, hfirst, hcount, -, hitems, htop, hlow⟩ := h
  exact ⟨first, count, by omega, hcount, hitems, fun hpos => ⟨hlow hpos, htop⟩⟩

/-- The self check of a push holds, and the map stays dense. -/
theorem Dense.pushEvery (h : Dense step limit size chain items) (hstep : 0 < step)
    (hlimit : 0 < limit) {height : Nat} (hpos : 0 < height) (hheight : size = 1 ∨ size = height)
    (id : θ) :
    Chinet.pushEvery step limit items id height = .ok (pushed step limit items id height) ∧
      Dense step limit (height + 1) (Function.update chain height id)
        (pushed step limit items id height) := by
  -- the map is one that is being filled, from its first item or from the next multiple on
  have hrefilled : ∃ start, 0 < start ∧ (step ∣ height → step * start ≤ height) ∧
      Refilled step limit height start (Function.update chain height id) items := by
    have hempty : size = 1 → items = [] := fun hone => h.eq_nil_of_size_le hstep (by omega)
    obtain ⟨first, count, hfirst, hcount, hitems, htop⟩ := h
    rcases Nat.eq_zero_or_pos count with rfl | hcountpos
    · obtain ⟨next, hnextpos, hnext, hnextlow⟩ := exists_next_multiple hstep hpos
      refine ⟨next, hnextpos, ?_, next, 0, le_rfl, hcount, Or.inl rfl, hitems, hnext,
        fun h => by omega⟩
      rintro ⟨k, rfl⟩
      exact Nat.mul_le_mul_left step (le_of_mul_lt_add hnextlow le_rfl)
    · have hsize : size = height := by
        refine hheight.resolve_left fun hone => ?_
        have hlen := congrArg List.length (hitems.symm.trans (hempty hone))
        rw [length_window, List.length_nil] at hlen
        omega
      subst hsize
      obtain ⟨hlow, hhigh⟩ := htop hcountpos
      refine ⟨first, hfirst, fun _ => ?_, first, count, le_rfl, hcount, Or.inl rfl, ?_, hhigh,
        fun _ => hlow⟩
      · have hmul : step * (first + 1) ≤ step * (first + count) :=
          Nat.mul_le_mul_left step (by omega)
        rw [Nat.mul_succ] at hmul
        omega
      · rw [hitems]
        refine window_congr fun k _ hlt => ?_
        have hmul : step * (k + 1) ≤ step * (first + count) :=
          Nat.mul_le_mul_left step (by omega)
        rw [Nat.mul_succ] at hmul
        rw [Function.update_of_ne (by omega)]
  obtain ⟨start, hstart, hlow, hrefilled⟩ := hrefilled
  have hpush := hrefilled.pushEvery hstep hlimit hlow
  rw [Function.update_self] at hpush
  exact ⟨hpush.1, hpush.2.dense hstart⟩

/-- The map holds every multiple of its step from a height on, or as many as it can. -/
def Refillable (step limit size : Nat) (items : List (Nat × θ)) (height : Nat) : Prop :=
  items.length = limit ∨
    ∀ k, height ≤ k → 0 < k → k < size → step ∣ k → ∃ item ∈ items, item.1 = k

/-- A map filled from its first item on is what it was. -/
theorem Refilled.eq_window {first count start : Nat} {items' : List (Nat × θ)}
    (h : Refilled step limit size start chain items') (hcount : 0 < count) (hle : count ≤ limit)
    (htop : step * (first + count) < size + step ∧ size ≤ step * (first + count))
    (hstart : start = first ∨ start < first ∧ count = limit) :
    items' = window step chain first count := by
  obtain ⟨first', count', hfirst, hcount', hbegin, rfl, hhigh, hlow⟩ := h
  have hup := le_of_mul_lt_add htop.1 hhigh
  rcases Nat.eq_zero_or_pos count' with hzero | hpos
  · -- nothing filled: the map was empty too
    have hfirst' : first' = start := hbegin.resolve_right (by omega)
    omega
  · have hdown := le_of_mul_lt_add (hlow hpos) htop.2
    have hfirst' : first' = first := by
      rcases hstart with rfl | ⟨hlt, hfull⟩
      · rcases hbegin with h' | h' <;> omega
      · rcases hbegin with h' | h' <;> omega
    obtain rfl : count' = count := by omega
    rw [hfirst']

/-- A dense map that is cut can be filled again to what it was, from some multiple on. -/
theorem Dense.refill (h : Dense step limit size chain items) (hstep : 0 < step)
    (hlimit : 0 < limit) {height : Nat} (hle : height ≤ size)
    (hfill : Refillable step limit size items height) :
    ∃ start, Refilled step limit height start chain (StepWindow.cutFrom height items) ∧
      (∀ t, height ≤ t → t < size → 0 < t → step ∣ t → step * start ≤ t) ∧ 0 < start ∧
        ∀ items', Refilled step limit size start chain items' → items' = items := by
  obtain ⟨first, count, hfirst, hcount, hitems, htop⟩ := h
  obtain ⟨next, hnextpos, hnext, hnextlow⟩ :=
    exists_next_multiple hstep (show 0 < max height 1 by omega)
  obtain ⟨kept, hkept, hcut, hbelow⟩ := @cutFrom_window θ step first count chain height
  have hnextle : ∀ t, height ≤ t → 0 < t → step ∣ t → step * next ≤ t := by
    rintro t ht hpos ⟨k, rfl⟩
    have hlow : step * next < step * (k + 1) := by
      rw [Nat.mul_succ]
      omega
    have := Nat.lt_of_mul_lt_mul_left hlow
    exact Nat.mul_le_mul_left step (by omega)
  -- the cut map, where it begins at its first item
  have hcutRefilled : 0 < count →
      Refilled step limit height first chain (StepWindow.cutFrom height items) := by
    intro hpos
    rw [hitems, hcut]
    refine ⟨first, kept, le_rfl, hkept.trans hcount, Or.inl rfl, rfl, ?_, fun hkeptpos => ?_⟩
    · rcases Nat.lt_or_ge kept count with hlt | hge
      · have := (hbelow (first + kept) (by omega) (by omega)).not.mp (by omega)
        omega
      · obtain rfl : kept = count := by omega
        have := (htop hpos).2
        omega
    · have hlast := (hbelow (first + kept - 1) (by omega) (by omega)).mp (by omega)
      have hsum : first + kept = first + kept - 1 + 1 := by omega
      rw [hsum, Nat.mul_succ]
      omega
  rcases Nat.eq_zero_or_pos count with rfl | hpos
  · -- an empty map: nothing was to be held
    have hnil : items = [] := hitems
    refine ⟨next, ?_, fun t ht _ hpos hdvd => hnextle t ht hpos hdvd, hnextpos, ?_⟩
    · rw [hnil]
      exact ⟨next, 0, le_rfl, Nat.zero_le _, Or.inl rfl, rfl, by rw [Nat.add_zero]; omega,
        fun h => by omega⟩
    · rintro items' ⟨first', count', hfirst', -, -, rfl, -, hlow⟩
      rcases Nat.eq_zero_or_pos count' with rfl | hcountpos
      · rw [hnil, window_zero]
      · have hover : step * (next + 1) ≤ step * (first' + count') :=
          Nat.mul_le_mul_left step (by omega)
        rw [Nat.mul_succ] at hover
        have hbig := hlow hcountpos
        rcases hfill with hlen | hall
        · rw [hnil, List.length_nil] at hlen
          omega
        · obtain ⟨item, hitem, -⟩ :=
            hall (step * next) (by omega) (by omega) (by omega) (Nat.dvd_mul_right ..)
          rw [hnil] at hitem
          cases hitem
  · by_cases hgap : (∀ t, height ≤ t → t < size → 0 < t → step ∣ t → step * first ≤ t)
    · exact ⟨first, hcutRefilled hpos, hgap, hfirst, fun items' h' => by
        rw [hitems]
        exact h'.eq_window hpos hcount (htop hpos) (Or.inl rfl)⟩
    · -- a full map cut below its first item
      have hfull : count = limit := by
        rcases hfill with hlen | hall
        · rwa [hitems, length_window] at hlen
        · refine absurd (fun t ht hlt hpos hdvd => ?_) hgap
          obtain ⟨item, hitem, rfl⟩ := hall t ht hpos hlt hdvd
          rw [hitems] at hitem
          obtain ⟨k, hk, -, rfl⟩ := mem_window.mp hitem
          exact Nat.mul_le_mul_left step hk
      have hbefore : next < first := by
        by_contra hnot
        refine hgap fun t ht _ hpos hdvd => ?_
        exact (Nat.mul_le_mul_left step (Nat.not_lt.mp hnot)).trans (hnextle t ht hpos hdvd)
      have hkeptzero : kept = 0 := by
        by_contra hne
        have hlow := (hbelow first le_rfl (by omega)).mp (by omega)
        have := Nat.mul_le_mul_left step hbefore.le
        omega
      refine ⟨next, ?_, fun t ht _ hpos hdvd => hnextle t ht hpos hdvd, hnextpos,
        fun items' h' => by
          rw [hitems]
          exact h'.eq_window hpos hcount (htop hpos) (Or.inr ⟨hbefore, hfull⟩)⟩
      rw [hitems, hcut, hkeptzero]
      exact ⟨next, 0, le_rfl, Nat.zero_le _, Or.inl rfl, rfl, by rw [Nat.add_zero]; omega,
        fun h => by omega⟩

end Density

namespace WalletChainShortener

variable {θ : Type*} {s : WalletChainShortener θ} {chain : Nat → θ}

/-- What holds of the shortener in any run: the genesis and four dense maps of the current
chain. -/
structure Holds (s : WalletChainShortener θ) (chain : Nat → θ) : Prop where
  genesis : s.genesis = chain 0
  last20 : Dense 1 walletEveryblockSize s.localBcSize chain s.last20Blocks
  every10 : Dense 10 walletEvery10BlocksSize s.localBcSize chain s.last144BlocksEvery10
  every100 : Dense 100 walletEvery100BlocksSize s.localBcSize chain s.last144BlocksEvery100
  every1000 : Dense 1000 walletEvery1000BlocksSize s.localBcSize chain s.last144BlocksEvery1000

/-- The push of the next height, or of any height on a chain of the genesis alone. -/
def Consecutive (s : WalletChainShortener θ) (height : Nat) : Prop :=
  s.localBcSize = 1 ∨ s.localBcSize = height

/-- An id of one of the maps at a height. -/
def Retains (s : WalletChainShortener θ) (height : Nat) : Prop :=
  ∃ item ∈ s.last20Blocks ++ s.last144BlocksEvery10 ++ s.last144BlocksEvery100 ++
    s.last144BlocksEvery1000, item.1 = height

theorem holds_init {genesis : θ} (h : chain 0 = genesis) : Holds (init genesis) chain :=
  ⟨h.symm, dense_nil, dense_nil, dense_nil, dense_nil⟩

theorem Holds.detach (h : Holds s chain) {height : Nat} (hle : height ≤ s.localBcSize) :
    Holds (s.detach height) chain :=
  ⟨h.genesis, h.last20.cutFrom hle, h.every10.cutFrom hle, h.every100.cutFrom hle,
    h.every1000.cutFrom hle⟩

/-- The shortener after a push that does not throw. -/
def afterPush (s : WalletChainShortener θ) (id : θ) (height : Nat) : WalletChainShortener θ :=
  if height = 0 then { s with genesis := id, localBcSize := 1 }
  else
    ⟨height + 1, s.genesis, pushed 1 walletEveryblockSize s.last20Blocks id height,
      pushed 10 walletEvery10BlocksSize s.last144BlocksEvery10 id height,
      pushed 100 walletEvery100BlocksSize s.last144BlocksEvery100 id height,
      pushed 1000 walletEvery1000BlocksSize s.last144BlocksEvery1000 id height⟩

/-- A consecutive push does not throw. -/
theorem Holds.push (h : Holds s chain) {id : θ} {height : Nat} (hnext : s.Consecutive height) :
    s.pushNewBlockId id height = .ok (s.afterPush id height) ∧
      Holds (s.afterPush id height) (Function.update chain height id) := by
  by_cases hzero : height = 0
  · subst hzero
    rw [pushNewBlockId, afterPush, if_pos rfl, if_pos rfl]
    have hsize : s.localBcSize ≤ 1 := by
      rcases hnext with hone | hnone <;> omega
    have hnil : ∀ {step limit : Nat} {items : List (Nat × θ)}, 0 < step →
        Dense step limit s.localBcSize chain items → ∀ chain', Dense step limit 1 chain' items := by
      intro step limit items hstep hdense chain'
      rw [hdense.eq_nil_of_size_le hstep hsize]
      exact dense_nil
    exact ⟨rfl, by simp only [Function.update_self], hnil (by decide) h.last20 _,
      hnil (by decide) h.every10 _, hnil (by decide) h.every100 _, hnil (by decide) h.every1000 _⟩
  · have hpos : 0 < height := Nat.pos_of_ne_zero hzero
    obtain ⟨-, h20⟩ := h.last20.pushEvery (by decide) (by decide) hpos hnext id
    obtain ⟨hpush10, h10⟩ := h.every10.pushEvery (by decide) (by decide) hpos hnext id
    obtain ⟨hpush100, h100⟩ := h.every100.pushEvery (by decide) (by decide) hpos hnext id
    obtain ⟨hpush1000, h1000⟩ := h.every1000.pushEvery (by decide) (by decide) hpos hnext id
    have hcheck : ¬ (s.localBcSize ≠ 1 ∧ s.localBcSize ≠ height) := by
      rcases hnext with hone | hsize
      · exact fun hboth => hboth.1 hone
      · exact fun hboth => hboth.2 hsize
    have hgenesis : s.genesis = Function.update chain height id 0 := by
      rw [Function.update_of_ne (Ne.symm hzero)]
      exact h.genesis
    rw [pushNewBlockId, afterPush, if_neg hzero, if_neg hzero]
    refine ⟨?_, hgenesis, h20, h10, h100, h1000⟩
    simp only [if_neg hcheck, hpush10, hpush100, hpush1000, pushed, Nat.mod_one, if_true]
    rfl

/-- A lookup finds an id of the chain at or below a height, unless nothing is retained there. -/
theorem Holds.lookup (h : Holds s chain) {i : Nat} (hi : i < s.localBcSize) :
    (s.lookupItemAround i = .ok none ∧ ∀ k ≤ i, ¬ s.Retains k) ∨
      ∃ j, 0 < j ∧ j ≤ i ∧ s.lookupItemAround i = .ok (some (j, chain j)) := by
  have h20 := h.last20.lookup (by decide) hi
  have h10 := h.every10.lookup (by decide) hi
  have h100 := h.every100.lookup (by decide) hi
  have h1000 := h.every1000.lookup (by decide) hi
  rw [lookupItemAround, containerAround]
  by_cases b20 : beginsBelow s.last20Blocks i
  · rw [if_pos b20] at h20 ⊢
    simp only [h20.1]
    exact Or.inr ⟨_, h20.2, Nat.sub_le _ _, rfl⟩
  rw [if_neg b20] at h20 ⊢
  by_cases b10 : beginsBelow s.last144BlocksEvery10 i
  · rw [if_pos b10] at h10 ⊢
    simp only [h10.1]
    exact Or.inr ⟨_, h10.2, Nat.sub_le _ _, rfl⟩
  rw [if_neg b10] at h10 ⊢
  by_cases b100 : beginsBelow s.last144BlocksEvery100 i
  · rw [if_pos b100] at h100 ⊢
    simp only [h100.1]
    exact Or.inr ⟨_, h100.2, Nat.sub_le _ _, rfl⟩
  rw [if_neg b100] at h100 ⊢
  by_cases b1000 : beginsBelow s.last144BlocksEvery1000 i
  · rw [if_pos b1000] at h1000 ⊢
    simp only [h1000.1]
    exact Or.inr ⟨_, h1000.2, Nat.sub_le _ _, rfl⟩
  rw [if_neg b1000] at h1000 ⊢
  refine Or.inl ⟨rfl, ?_⟩
  rintro k hk ⟨item, hitem, rfl⟩
  have habove : i < item.1 := by
    simp only [List.mem_append] at hitem
    rcases hitem with ((h' | h') | h') | h'
    · exact h20 item h'
    · exact h10 item h'
    · exact h100 item h'
    · exact h1000 item h'
  omega

/-! ### The history -/

/-- The loop of the history ends, with ids of the chain from below the offset down. -/
theorem Holds.historyLoop (h : Holds s chain) {passes : Nat} :
    ∀ {offset distance : Nat}, 0 < offset → 0 < distance → s.localBcSize ≤ passes + offset →
      ∃ heights : List Nat, s.historyLoop (passes + 1) offset distance = .ok (heights.map chain) ∧
        heights.Pairwise (· > ·) ∧ ∀ k ∈ heights, 0 < k ∧ k + offset ≤ s.localBcSize := by
  induction passes with
  | zero =>
      intro offset distance _ _ hpasses
      refine ⟨[], ?_, List.Pairwise.nil, by simp⟩
      rw [WalletChainShortener.historyLoop, if_neg (by omega)]
      rfl
  | succ passes ih =>
      intro offset distance hoffset hdistance hpasses
      rw [WalletChainShortener.historyLoop]
      by_cases hmore : offset < s.localBcSize
      · rw [if_pos hmore]
        rcases h.lookup (show s.localBcSize - offset < s.localBcSize by omega) with
          ⟨hnone, -⟩ | ⟨j, hpos, hle, hfound⟩
        · rw [hnone]
          exact ⟨[], rfl, List.Pairwise.nil, by simp⟩
        · rw [hfound]
          -- the next offset is behind the item found
          obtain ⟨heights, hloop, hpair, hbelow⟩ :=
            @ih (s.localBcSize - j + distance * 2) (distance * 2) (by omega)
              (by omega) (by omega)
          simp only [hloop]
          refine ⟨j :: heights, rfl, List.pairwise_cons.mpr ⟨fun k hk => ?_, hpair⟩, ?_⟩
          · have := (hbelow k hk).2
            omega
          · intro k hk
            rcases List.mem_cons.mp hk with rfl | hk
            · omega
            · have := hbelow k hk
              omega
      · rw [if_neg hmore]
        exact ⟨[], rfl, List.Pairwise.nil, by simp⟩

/-- The last items of a window, the greatest first. -/
theorem take_reverse_window {step first count : Nat} (n : Nat) :
    (window step chain first count).reverse.take n =
      (List.range' (first + count - min n count) (min n count)).reverse.map
        fun k => (step * k, chain (step * k)) := by
  have hsplit : List.range' first count =
      List.range' first (count - min n count) ++
        List.range' (first + count - min n count) (min n count) := by
    have happ := @List.range'_append first (count - min n count) (min n count) 1
    rw [Nat.one_mul, show first + (count - min n count) = first + count - min n count by omega,
      show count - min n count + min n count = count by omega] at happ
    exact happ.symm
  have hnothing : (List.map (fun k => (step * k, chain (step * k)))
      (List.range' first (count - min n count))).reverse.take (n - min n count) = [] := by
    rw [← List.length_eq_zero_iff]
    simp only [List.length_take, List.length_reverse, List.length_map, List.length_range']
    omega
  rw [window, hsplit, List.map_append, List.reverse_append, List.take_append,
    List.length_reverse, List.length_map, List.length_range', hnothing, List.append_nil,
    List.take_of_length_le (by simp), List.map_reverse]

/-- The history is the ids of some heights of the chain, strictly decreasing to the genesis. -/
theorem Holds.history (h : Holds s chain) :
    ∃ heights : List Nat, s.getShortChainHistory = .ok (heights.map chain) ∧
      heights.Pairwise (· > ·) ∧ (∀ k ∈ heights, k < s.localBcSize) ∧
        (0 < s.localBcSize → heights.getLast? = some 0) := by
  rw [getShortChainHistory]
  by_cases hzero : s.localBcSize = 0
  · rw [if_pos hzero]
    exact ⟨[], rfl, List.Pairwise.nil, by simp, fun hpos => by omega⟩
  rw [if_neg hzero]
  obtain ⟨first, count, hfirst, -, hitems, htop⟩ := h.last20
  have hsize : 0 < count → s.localBcSize = first + count := by
    intro hpos
    have := htop hpos
    omega
  have hlast10 := @take_reverse_window θ chain 1 first count 10
  rw [← hitems] at hlast10
  have hlen : (s.last20Blocks.reverse.take 10).length = min 10 count := by
    rw [hlast10, List.length_map, List.length_reverse, List.length_range']
  -- the newest items are neighbours, so the check on their number passes
  have hcheck : (s.last20Blocks.reverse.take 10).length + 1 = s.localBcSize -
      ((s.last20Blocks.reverse.take 10).getLast?.map Prod.fst).getD 0 + 1 ∨
        s.last20Blocks.reverse.take 10 = [] := by
    rcases Nat.eq_zero_or_pos count with hnone | hpos
    · refine Or.inr (List.length_eq_zero_iff.mp ?_)
      rw [hlen]
      omega
    · left
      rw [hlen, hlast10, List.getLast?_map, List.getLast?_reverse]
      obtain ⟨m, hm⟩ : ∃ m, min 10 count = m + 1 := ⟨min 10 count - 1, by omega⟩
      rw [hm, List.range'_succ, List.head?_cons]
      simp only [Option.map_some, Option.getD_some]
      have := hsize hpos
      omega
  dsimp only
  rw [if_pos hcheck, hlen]
  obtain ⟨heights, hloop, hpair, hbelow⟩ := @Holds.historyLoop θ s chain h s.localBcSize
    (min 10 count + 1) 1 (by omega) (by decide) (by omega)
  simp only [hloop]
  -- the heights fall: the newest items, the ones of the loop below them, the genesis
  have hgreatest : ∀ k ∈ (List.range' (first + count - min 10 count) (min 10 count)).reverse,
      first + count - min 10 count ≤ k ∧ k < first + count ∧ 0 < count := by
    intro k hk
    have hmem := List.mem_range'_1.mp (List.mem_reverse.mp hk)
    omega
  refine ⟨(List.range' (first + count - min 10 count) (min 10 count)).reverse ++ heights ++ [0],
    ?_, ?_, ?_, fun _ => by rw [List.getLast?_append]; rfl⟩
  · rw [hlast10, h.genesis, List.map_append, List.map_append, List.map_map]
    simp only [Nat.one_mul]
    rfl
  · refine List.pairwise_append.mpr ⟨List.pairwise_append.mpr ⟨?_, hpair, ?_⟩,
      List.pairwise_singleton _ _, ?_⟩
    · rw [List.pairwise_reverse]
      exact List.pairwise_lt_range' ..
    · intro k hk j hj
      have hk' := hgreatest k hk
      have hj' := hbelow j hj
      have := hsize hk'.2.2
      omega
    · intro k hk j hj
      rw [List.mem_singleton.mp hj]
      rcases List.mem_append.mp hk with hk | hk
      · have := hgreatest k hk
        omega
      · exact (hbelow k hk).1
  · intro k hk
    rcases List.mem_append.mp hk with hk | hk
    · rcases List.mem_append.mp hk with hk | hk
      · have hk' := hgreatest k hk
        have := hsize hk'.2.2
        omega
      · have := hbelow k hk
        omega
    · rw [List.mem_singleton.mp hk]
      omega

/-! ### The check of a block -/

/-- What the check of a block tells about it. -/
structure Tells (s : WalletChainShortener θ) (chain : Nat → θ) (i : Nat) (id : θ)
    (r : BlockMatch) : Prop where
  matched : r.blockFound = true → r.blockMatched = true → id = chain i
  differs : r.blockFound = true → r.blockMatched = false → id ≠ chain i
  reset : r.fullResetNeeded = true →
    (i = 0 ∧ id ≠ s.genesis) ∨ (0 < i ∧ ∀ k ≤ i, ¬ s.Retains k)

variable [DecidableEq θ]

theorem Holds.lazyLookup (h : Holds s chain) {i : Nat} (hpos : 0 < i) (hi : i < s.localBcSize)
    (id : θ) : ∃ r, s.lazyLookup i id = .ok r ∧ s.Tells chain i id r := by
  rw [WalletChainShortener.lazyLookup]
  rcases h.lookup hi with ⟨hnone, habove⟩ | ⟨j, -, -, hfound⟩
  · rw [hnone]
    exact ⟨_, rfl, by simp, by simp, fun _ => Or.inr ⟨hpos, habove⟩⟩
  · rw [hfound]
    by_cases hj : j = i
    · subst hj
      refine ⟨_, if_pos rfl, fun _ hm => ?_, fun _ hm => ?_, by simp⟩
      · exact (of_decide_eq_true hm).symm
      · exact Ne.symm (of_decide_eq_false hm)
    · exact ⟨_, if_neg hj, by simp, by simp, by simp⟩

/-- The check of a block of the chain does not throw and tells the truth. -/
theorem Holds.check (h : Holds s chain) {i : Nat} (hi : i < s.localBcSize) (id : θ) :
    ∃ r, s.checkIfBlockMatched i id = .ok r ∧ s.Tells chain i id r := by
  rw [checkIfBlockMatched]
  by_cases hzero : i = 0
  · subst hzero
    rw [if_pos rfl, if_pos hi]
    refine ⟨_, rfl, fun _ hm => ?_, fun _ hm => ?_, fun hr => ?_⟩
    · rw [← h.genesis]
      exact of_decide_eq_true hm
    · rw [← h.genesis]
      exact of_decide_eq_false hm
    · exact Or.inl ⟨rfl, by simpa using hr⟩
  have hpos : 0 < i := Nat.pos_of_ne_zero hzero
  rw [if_neg hzero]
  obtain ⟨first, count, hfirst, -, hitems, htop⟩ := h.last20
  rcases Nat.eq_zero_or_pos count with rfl | hcount
  · rw [hitems]
    exact h.lazyLookup hpos hi id
  obtain ⟨m, rfl⟩ : ∃ m, count = m + 1 := ⟨count - 1, by omega⟩
  have hhead : s.last20Blocks.head? = some (1 * first, chain (1 * first)) := by
    rw [hitems, window_cons]
    rfl
  have hlast : s.last20Blocks.getLast? = some (1 * (first + m), chain (1 * (first + m))) := by
    rw [hitems, getLast?_window]
  simp only [hhead, hlast]
  by_cases hshort : i > 1 * first
  · have hfind : findItem s.last20Blocks i = some (i, chain i) := by
      have hmem := @findItem_window θ 1 first (m + 1) chain (by decide) i (by omega) (by omega)
      rwa [Nat.one_mul, ← hitems] at hmem
    rw [if_pos hshort, if_pos (by omega), hfind]
    exact ⟨_, rfl, fun _ hm => of_decide_eq_true hm, fun _ hm => of_decide_eq_false hm, by simp⟩
  · rw [if_neg hshort]
    exact h.lazyLookup hpos hi id

omit [DecidableEq θ]

/-! ### Detaching and pushing again -/

/-- Ids pushed at the heights that follow. -/
def pushIds (s : WalletChainShortener θ) (ids : List θ) :
    Except ChainShortenerError (WalletChainShortener θ) :=
  ids.foldlM (fun t id => t.pushNewBlockId id t.localBcSize) s

/-- Each map holds every multiple of its step from a height on, or as many as it can. -/
structure CanRestore (s : WalletChainShortener θ) (height : Nat) : Prop where
  last20 : Refillable 1 walletEveryblockSize s.localBcSize s.last20Blocks height
  every10 : Refillable 10 walletEvery10BlocksSize s.localBcSize s.last144BlocksEvery10 height
  every100 : Refillable 100 walletEvery100BlocksSize s.localBcSize s.last144BlocksEvery100 height
  every1000 :
    Refillable 1000 walletEvery1000BlocksSize s.localBcSize s.last144BlocksEvery1000 height

/-- A shortener whose maps are being filled, each from a multiple of its own on. -/
structure Filling (s : WalletChainShortener θ) (chain : Nat → θ) (start : Nat → Nat) : Prop where
  genesis : s.genesis = chain 0
  last20 : Refilled 1 walletEveryblockSize s.localBcSize (start 1) chain s.last20Blocks
  every10 : Refilled 10 walletEvery10BlocksSize s.localBcSize (start 10) chain
    s.last144BlocksEvery10
  every100 : Refilled 100 walletEvery100BlocksSize s.localBcSize (start 100) chain
    s.last144BlocksEvery100
  every1000 : Refilled 1000 walletEvery1000BlocksSize s.localBcSize (start 1000) chain
    s.last144BlocksEvery1000

theorem Filling.push {start : Nat → Nat} (h : Filling s chain start)
    (hstart : ∀ step, 0 < start step)
    (hlow : ∀ step, 0 < s.localBcSize → step ∣ s.localBcSize →
      step * start step ≤ s.localBcSize) :
    ∃ t, s.pushNewBlockId (chain s.localBcSize) s.localBcSize = .ok t ∧
      t.localBcSize = s.localBcSize + 1 ∧ Filling t chain start := by
  by_cases hzero : s.localBcSize = 0
  · obtain ⟨-, h20, h10, h100, h1000⟩ := h
    rw [hzero] at h20 h10 h100 h1000 ⊢
    refine ⟨{ s with genesis := chain 0, localBcSize := 1 }, ?_, rfl, rfl,
      h20.genesis (by decide) (hstart 1), h10.genesis (by decide) (hstart 10),
      h100.genesis (by decide) (hstart 100), h1000.genesis (by decide) (hstart 1000)⟩
    rw [pushNewBlockId, if_pos rfl]
    rfl
  · have hpos : 0 < s.localBcSize := Nat.pos_of_ne_zero hzero
    obtain ⟨-, h20⟩ := h.last20.pushEvery (by decide) (by decide) (hlow 1 hpos)
    obtain ⟨hpush10, h10⟩ := h.every10.pushEvery (by decide) (by decide) (hlow 10 hpos)
    obtain ⟨hpush100, h100⟩ := h.every100.pushEvery (by decide) (by decide) (hlow 100 hpos)
    obtain ⟨hpush1000, h1000⟩ := h.every1000.pushEvery (by decide) (by decide) (hlow 1000 hpos)
    refine ⟨s.afterPush (chain s.localBcSize) s.localBcSize, ?_, ?_, ?_⟩
    · rw [pushNewBlockId, afterPush, if_neg hzero, if_neg hzero]
      simp only [if_neg (show ¬ (s.localBcSize ≠ 1 ∧ s.localBcSize ≠ s.localBcSize) from
        fun hboth => hboth.2 rfl), hpush10, hpush100, hpush1000, pushed, Nat.mod_one, if_true]
      rfl
    · rw [afterPush, if_neg hzero]
    · rw [afterPush, if_neg hzero]
      exact ⟨h.genesis, h20, h10, h100, h1000⟩

theorem Filling.pushIds {start : Nat → Nat} (hstart : ∀ step, 0 < start step) {size : Nat}
    (n : Nat) : ∀ {s : WalletChainShortener θ}, Filling s chain start →
      s.localBcSize + n = size →
      (∀ step t, s.localBcSize ≤ t → t < size → 0 < t → step ∣ t → step * start step ≤ t) →
      ∃ t, s.pushIds ((List.range' s.localBcSize n).map chain) = .ok t ∧
        t.localBcSize = size ∧ Filling t chain start := by
  induction n with
  | zero => exact fun {s} h hsize _ => ⟨s, rfl, by omega, h⟩
  | succ n ih =>
      intro s h hsize hlow
      obtain ⟨t, hpush, ht, hfilling⟩ := h.push hstart fun step hpos hdvd =>
        hlow step s.localBcSize le_rfl (by omega) hpos hdvd
      obtain ⟨u, hpushIds, hu, hend⟩ := ih hfilling (by omega) fun step k hk hlt hpos hdvd =>
        hlow step k (by omega) hlt hpos hdvd
      refine ⟨u, ?_, hu, hend⟩
      rw [List.range'_succ, List.map_cons, WalletChainShortener.pushIds, List.foldlM_cons, hpush,
        ← ht]
      exact hpushIds

/-- What was detached comes back when the same ids are pushed. -/
theorem Holds.restore (h : Holds s chain) {height : Nat} (hle : height ≤ s.localBcSize)
    (hcan : s.CanRestore height) :
    (s.detach height).pushIds ((List.range' height (s.localBcSize - height)).map chain) =
      .ok s := by
  obtain ⟨st20, hcut20, hlow20, hpos20, heq20⟩ :=
    h.last20.refill (by decide) (by decide) hle hcan.last20
  obtain ⟨st10, hcut10, hlow10, hpos10, heq10⟩ :=
    h.every10.refill (by decide) (by decide) hle hcan.every10
  obtain ⟨st100, hcut100, hlow100, hpos100, heq100⟩ :=
    h.every100.refill (by decide) (by decide) hle hcan.every100
  obtain ⟨st1000, hcut1000, hlow1000, hpos1000, heq1000⟩ :=
    h.every1000.refill (by decide) (by decide) hle hcan.every1000
  let start : Nat → Nat := fun step =>
    if step = 1 then st20 else if step = 10 then st10 else if step = 100 then st100
    else if step = 1000 then st1000 else 1
  have hstart : ∀ step, 0 < start step := by
    intro step
    simp only [start]
    split_ifs <;> omega
  have hlow : ∀ step t, height ≤ t → t < s.localBcSize → 0 < t → step ∣ t →
      step * start step ≤ t := by
    intro step t ht hlt hpos hdvd
    simp only [start]
    split_ifs with h1 h10 h100 h1000
    · exact h1 ▸ hlow20 t ht hlt hpos (h1 ▸ hdvd)
    · exact h10 ▸ hlow10 t ht hlt hpos (h10 ▸ hdvd)
    · exact h100 ▸ hlow100 t ht hlt hpos (h100 ▸ hdvd)
    · exact h1000 ▸ hlow1000 t ht hlt hpos (h1000 ▸ hdvd)
    · rw [Nat.mul_one]
      exact Nat.le_of_dvd hpos hdvd
  have hfilling : Filling (s.detach height) chain start :=
    ⟨h.genesis, hcut20, hcut10, hcut100, hcut1000⟩
  obtain ⟨t, hpush, hsize, hend⟩ := hfilling.pushIds hstart (s.localBcSize - height)
    (show height + (s.localBcSize - height) = s.localBcSize by omega) hlow
  obtain ⟨tsize, tgenesis, t20, t10, t100, t1000⟩ := t
  obtain ⟨hgenesis, hr20, hr10, hr100, hr1000⟩ := hend
  change tsize = s.localBcSize at hsize
  subst hsize
  refine hpush.trans ?_
  rw [show tgenesis = s.genesis from hgenesis.trans h.genesis.symm, heq20 t20 hr20, heq10 t10 hr10,
    heq100 t100 hr100, heq1000 t1000 hr1000]

/-! ### Runs -/

/-- The states of the runs of consecutive pushes and of detaches of blocks of the chain, each with
the id that was pushed last at each height. -/
inductive Reached : WalletChainShortener θ → (Nat → θ) → Prop
  | init {genesis : θ} {chain : Nat → θ} (h : chain 0 = genesis) : Reached (init genesis) chain
  | push {s t : WalletChainShortener θ} {chain : Nat → θ} {id : θ} {height : Nat}
      (h : Reached s chain) (hnext : s.Consecutive height)
      (hpush : s.pushNewBlockId id height = .ok t) : Reached t (Function.update chain height id)
  | detach {s : WalletChainShortener θ} {chain : Nat → θ} {height : Nat} (h : Reached s chain)
      (hle : height ≤ s.localBcSize) : Reached (s.detach height) chain

theorem Reached.holds (h : Reached s chain) : Holds s chain := by
  induction h with
  | init h => exact holds_init h
  | push _ hnext hpush ih =>
      obtain ⟨hok, hholds⟩ := ih.push hnext
      rw [hpush, Except.ok.injEq] at hok
      exact hok ▸ hholds
  | detach _ hle ih => exact ih.detach hle

/-- The ids of the chain are pushed one after the other. -/
theorem Reached.pushIds {s t : WalletChainShortener θ} {n : Nat} (h : Reached s chain)
    (hpush : s.pushIds ((List.range' s.localBcSize n).map chain) = .ok t) : Reached t chain := by
  induction n generalizing s with
  | zero =>
      cases hpush
      exact h
  | succ n ih =>
      have hnext : s.Consecutive s.localBcSize := .inr rfl
      have hfirst : s.pushNewBlockId (chain s.localBcSize) s.localBcSize = .ok _ :=
        (h.holds.push hnext).1
      have hreached := h.push hnext hfirst
      rw [Function.update_eq_self] at hreached
      rw [List.range'_succ, List.map_cons, WalletChainShortener.pushIds, List.foldlM_cons,
        hfirst] at hpush
      refine ih hreached ?_
      have hsize : (s.afterPush (chain s.localBcSize) s.localBcSize).localBcSize =
          s.localBcSize + 1 := by
        rw [afterPush]
        split <;> simp_all
      rw [hsize]
      exact hpush

/-- The shortened chain does not lie, in any run. -/
theorem shortened_chain_sound [DecidableEq θ] (h : Reached s chain) :
    (∀ id height, s.Consecutive height → ∃ t, s.pushNewBlockId id height = .ok t) ∧
      (∃ heights : List Nat, s.getShortChainHistory = .ok (heights.map chain) ∧
        heights.Pairwise (· > ·) ∧ (∀ k ∈ heights, k < s.localBcSize) ∧
          (0 < s.localBcSize → heights.getLast? = some 0)) ∧
        (∀ i id, i < s.localBcSize →
          ∃ r, s.checkIfBlockMatched i id = .ok r ∧ s.Tells chain i id r) ∧
          ∀ height, height ≤ s.localBcSize → s.CanRestore height →
            (s.detach height).pushIds
              ((List.range' height (s.localBcSize - height)).map chain) = .ok s :=
  ⟨fun _ _ hnext => ⟨_, (h.holds.push hnext).1⟩, h.holds.history,
    fun _ id hi => h.holds.check hi id, fun _ hle hcan => h.holds.restore hle hcan⟩

/-- The chain of the heights, shortened: the id of a block is its height. -/
def heightsShortener (size first20 : Nat) (every10 : List Nat) : WalletChainShortener Nat where
  localBcSize := size
  genesis := 0
  last20Blocks := (List.range' first20 (size - first20)).map fun height => (height, height)
  last144BlocksEvery10 := every10.map fun height => (height, height)
  last144BlocksEvery100 := []
  last144BlocksEvery1000 := []

/-- A chain of 26 blocks, cut down to 23 and grown to 31: the last blocks are trimmed
twice, and what is detached comes back. -/
theorem shortened_chain_sound_regrown :
    Reached (heightsShortener 31 11 [10, 20, 30]) id ∧
      (heightsShortener 31 11 [10, 20, 30]).getShortChainHistory =
        .ok [30, 29, 28, 27, 26, 25, 24, 23, 22, 21, 20, 18, 14, 0] ∧
      ((heightsShortener 31 11 [10, 20, 30]).detach 24).pushIds (List.range' 24 7) =
        .ok (heightsShortener 31 11 [10, 20, 30]) := by
  have hgrown : (init 0).pushIds ((List.range' 1 25).map id) =
      .ok (heightsShortener 26 6 [10, 20]) := by
    decide
  have hregrown : ((heightsShortener 26 6 [10, 20]).detach 23).pushIds ((List.range' 23 8).map id) =
      .ok (heightsShortener 31 11 [10, 20, 30]) := by
    decide
  have hreached : Reached (heightsShortener 31 11 [10, 20, 30]) id :=
    (((Reached.init rfl).pushIds hgrown).detach (by decide)).pushIds hregrown
  have hsound := shortened_chain_sound hreached
  refine ⟨hreached, ?_, hsound.2.2.2 24 (by decide) ⟨Or.inl (by decide), Or.inr ?_, Or.inr ?_,
    Or.inr ?_⟩⟩
  · decide
  · rintro k hle _ hlt ⟨m, rfl⟩
    change 10 * m < 31 at hlt
    obtain rfl : m = 3 := by omega
    decide
  · rintro k hle _ hlt ⟨m, rfl⟩
    change 100 * m < 31 at hlt
    omega
  · rintro k hle _ hlt ⟨m, rfl⟩
    change 1000 * m < 31 at hlt
    omega

/-- The shortener of 21 blocks cut down to two and grown by one. -/
def sampleShortener : Except ChainShortenerError (WalletChainShortener Nat) := do
  let s ← (init 0).pushIds (List.range' 1 21)
  (s.detach 2).pushIds [2]

/-- A detach above the size makes the history throw; blocks that were trimmed before come back
into the history when they are pushed again; a wrong genesis asks for a reset although the genesis
is kept; and equal ids are repeated. -/
theorem shortened_chain_lies :
    (∃ s t : WalletChainShortener Nat, (init 0).pushIds [1, 2] = .ok s ∧
        (s.detach 100).pushIds [100] = .ok t ∧
          t.getShortChainHistory = .error .wrongBackOffset) ∧
      (∃ s t : WalletChainShortener Nat, sampleShortener = .ok s ∧
        (s.detach 1).pushIds [1, 2] = .ok t ∧ s.getShortChainHistory = .ok [2, 0] ∧
          t.getShortChainHistory = .ok [2, 1, 0]) ∧
        (init 0).checkIfBlockMatched 0 1 = .ok ⟨true, false, true⟩ ∧
          ∃ s : WalletChainShortener Nat, (init 0).pushIds [5, 5] = .ok s ∧
            s.getShortChainHistory = .ok [5, 5, 0] := by
  refine ⟨⟨_, _, rfl, rfl, by decide⟩, ⟨_, _, rfl, rfl, by decide,
    by decide⟩, by decide, ⟨_, rfl, by decide⟩⟩

end WalletChainShortener
end Chinet
