import Mathlib.Data.Nat.Digits.Defs
import Chinet.AmountDigits

/-!
# The places of an amount

What `decompose_amount_into_digits` does with an amount can be read off its decimal places.  The
first loop goes up to the first place whose digit is above the largest output (`firstAbove`).
Below it, the places are dust as long as the amount up to them is within the threshold
(`HasDust`), and each later digit but zero is a chunk (`chunkPlaces`).  The rest is paid in
outputs of the largest size.

A call pays its amount whole just when the outputs fit the limit (`Fits`); it hands out dust
twice when both the places below and what the second loop leaves have dust (`DustTwice`).
-/

namespace Chinet

open PartialSteps

/-! ## Places -/

/-- The digit at a place, in its place. -/
def digitAt (a i : Nat) : Nat := a / 10 ^ i % 10 * 10 ^ i

/-- The lowest place whose digit is above the largest output; an amount of 64 bits has 20 places. -/
def firstAbove (maxOutputAllowed a : Nat) : Option Nat :=
  (List.range 20).find? fun i => maxOutputAllowed < digitAt a i

/-- The number of chunks that the places below `k` make. -/
def chunkPlaces (dustThreshold a k : Nat) : Nat :=
  (List.range k).countP fun i => dustThreshold < a % 10 ^ (i + 1) ∧ digitAt a i ≠ 0

/-- The places below `k` begin with dust. -/
def HasDust (dustThreshold a k : Nat) : Prop :=
  ∃ i ≤ k, 0 < a % 10 ^ i ∧ a % 10 ^ i ≤ dustThreshold

instance (dustThreshold a k : Nat) : Decidable (HasDust dustThreshold a k) :=
  inferInstanceAs (Decidable (∃ i ≤ k, 0 < a % 10 ^ i ∧ a % 10 ^ i ≤ dustThreshold))

/-- What the first loop leaves when it ends at place `k`. -/
def restFrom (a k : Nat) : Nat := a - a % 10 ^ k

/-- The outputs of the decomposition stay within the limit. -/
def Fits (dustThreshold maxOutputAllowed maxOutsCount a : Nat) : Prop :=
  a / maxOutputAllowed ≤ maxOutsCount ∧
    ∀ k ∈ firstAbove maxOutputAllowed a,
      chunkPlaces dustThreshold a k +
        (restFrom a k + maxOutputAllowed - 1) / maxOutputAllowed ≤ maxOutsCount

/-- Both the places of the first loop and the rest that the second one leaves begin with dust. -/
def DustTwice (dustThreshold maxOutputAllowed a : Nat) : Prop :=
  ∃ k ∈ firstAbove maxOutputAllowed a,
    HasDust dustThreshold a k ∧ HasDust dustThreshold (restFrom a k % maxOutputAllowed) 20

theorem mod_pow_place (a i : Nat) : a % 10 ^ (i + 1) = a % 10 ^ i + digitAt a i := by
  rw [Nat.mod_pow_succ, digitAt, Nat.mul_comm (10 ^ i)]

/-- A digit that is not zero weighs more than everything below it. -/
theorem mod_pow_lt_digitAt {a i : Nat} (h : digitAt a i ≠ 0) : a % 10 ^ i < digitAt a i := by
  have hdigit : 0 < a / 10 ^ i % 10 := by
    apply Nat.pos_of_ne_zero
    intro hzero
    exact h (by rw [digitAt, hzero, Nat.zero_mul])
  calc a % 10 ^ i < 10 ^ i := Nat.mod_lt a (Nat.pow_pos (by decide))
    _ ≤ digitAt a i := Nat.le_mul_of_pos_left _ hdigit

theorem hasDust_succ {dustThreshold a i : Nat} :
    HasDust dustThreshold a (i + 1) ↔
      HasDust dustThreshold a i ∨ 0 < a % 10 ^ (i + 1) ∧ a % 10 ^ (i + 1) ≤ dustThreshold := by
  constructor
  · rintro ⟨j, hj, hdust⟩
    rcases Nat.lt_or_eq_of_le hj with hlt | rfl
    · exact .inl ⟨j, Nat.le_of_lt_succ hlt, hdust⟩
    · exact .inr hdust
  · rintro (⟨j, hj, hdust⟩ | hdust)
    · exact ⟨j, Nat.le_succ_of_le hj, hdust⟩
    · exact ⟨i + 1, le_rfl, hdust⟩

theorem chunkPlaces_succ (dustThreshold a i : Nat) :
    chunkPlaces dustThreshold a (i + 1) = chunkPlaces dustThreshold a i +
      if dustThreshold < a % 10 ^ (i + 1) ∧ digitAt a i ≠ 0 then 1 else 0 := by
  simp [chunkPlaces, List.range_succ, List.countP_append, List.countP_singleton]

theorem chunkPlaces_le (dustThreshold a k : Nat) : chunkPlaces dustThreshold a k ≤ k := by
  have hle := @List.countP_le_length _
    (fun i => decide (dustThreshold < a % 10 ^ (i + 1) ∧ digitAt a i ≠ 0)) (List.range k)
  rwa [List.length_range] at hle

theorem firstAbove_eq_some {maxOutputAllowed a k : Nat} :
    firstAbove maxOutputAllowed a = some k ↔
      maxOutputAllowed < digitAt a k ∧ k < 20 ∧ ∀ j < k, digitAt a j ≤ maxOutputAllowed := by
  simp [firstAbove, List.find?_range_eq_some]

theorem firstAbove_eq_none {maxOutputAllowed a : Nat} :
    firstAbove maxOutputAllowed a = none ↔ ∀ j < 20, digitAt a j ≤ maxOutputAllowed := by
  simp [firstAbove]

theorem fits_iff {dustThreshold maxOutputAllowed maxOutsCount a k : Nat}
    (hplace : firstAbove maxOutputAllowed a = some k) (hle : a / maxOutputAllowed ≤ maxOutsCount) :
    Fits dustThreshold maxOutputAllowed maxOutsCount a ↔
      chunkPlaces dustThreshold a k +
        (restFrom a k + maxOutputAllowed - 1) / maxOutputAllowed ≤ maxOutsCount := by
  simp [Fits, hplace, hle]

theorem dustTwice_iff {dustThreshold maxOutputAllowed a k : Nat}
    (hplace : firstAbove maxOutputAllowed a = some k) :
    DustTwice dustThreshold maxOutputAllowed a ↔
      HasDust dustThreshold a k ∧ HasDust dustThreshold (restFrom a k % maxOutputAllowed) 20 := by
  simp [DustTwice, hplace]

/-! ## The dust that is handed out -/

def dustsOf (pieces : List Piece) : List Nat :=
  pieces.filterMap fun
    | .chunk _ => none
    | .dust aDust => some aDust

@[simp] theorem dustsOf_append (xs ys : List Piece) :
    dustsOf (xs ++ ys) = dustsOf xs ++ dustsOf ys := List.filterMap_append

@[simp] theorem dustsOf_chunk (n : Nat) : dustsOf [.chunk n] = [] := rfl

@[simp] theorem dustsOf_dust (n : Nat) : dustsOf [.dust n] = [n] := rfl

/-- The dust of a call so far: none, or one piece that was handed out. -/
def Digits.handedDust (s : Digits) : List Nat := if s.isDustHandled then [s.dust] else []

/-- Dust is handed out unless it is zero. -/
def dustPiece (aDust : Nat) : List Nat := if aDust = 0 then [] else [aDust]

theorem dustPiece_pos {aDust n : Nat} (h : n ∈ dustPiece aDust) : 0 < n := by
  rw [dustPiece] at h
  split at h
  · cases h
  · rw [List.mem_singleton.mp h]
    omega

theorem dustPiece_length (aDust : Nat) :
    (dustPiece aDust).length = if aDust = 0 then 0 else 1 := by
  rw [dustPiece]
  split <;> rfl

/-- In the end the dust of the first loop is handed out, before or behind what comes after it. -/
theorem dustsOf_handleDust {s : Digits} {pieces : List Piece} {dusts : List Nat}
    (h : dustsOf pieces = s.handedDust ++ dusts) (hhandled : s.isDustHandled = true → s.dust ≠ 0) :
    (dustsOf { s with pieces := pieces }.handleDust.pieces).Perm (dustPiece s.dust ++ dusts) := by
  rw [Digits.handedDust] at h
  rw [Digits.handleDust, dustPiece]
  cases hflag : s.isDustHandled with
  | true =>
      rw [hflag, if_pos rfl] at h
      rw [if_neg (hhandled hflag)]
      simp [h]
  | false =>
      rw [hflag, if_neg (by decide)] at h
      by_cases hdust : s.dust = 0
      · simp [hdust, h]
      · simp only [hdust, Bool.not_false, Bool.true_and, bne_iff_ne, ne_eq, not_false_eq_true,
          if_true, if_false, dustsOf_append, dustsOf_dust, h]
        exact List.perm_append_comm

/-! ## The first loop -/

/-- The first loop has taken the places below `i`. -/
structure Taken (dustThreshold maxOutputAllowed a outsCount i : Nat) (s : Digits) : Prop where
  amount : s.amount = a / 10 ^ i
  multiplier : s.amount ≠ 0 → s.multiplier = 10 ^ i
  below : ∀ j < i, digitAt a j ≤ maxOutputAllowed
  outs : s.outsCount = outsCount + chunkPlaces dustThreshold a i
  hasDust : s.dust ≠ 0 ↔ HasDust dustThreshold a i
  waits : a % 10 ^ i ≤ dustThreshold → s.dust = a % 10 ^ i
  handed : dustsOf s.pieces = s.handedDust
  handled : s.isDustHandled = true → s.dust ≠ 0

section

variable {dustThreshold maxOutputAllowed a outsCount i : Nat}

theorem start_taken :
    Taken dustThreshold maxOutputAllowed a outsCount 0 (Digits.start a outsCount) where
  amount := by simp [Digits.start]
  multiplier _ := rfl
  below j hj := absurd hj (Nat.not_lt_zero j)
  outs := rfl
  hasDust := by simp [Digits.start, HasDust, Nat.mod_one]
  waits _ := by simp [Digits.start, Nat.mod_one]
  handed := rfl
  handled h := by cases h

/-- The digit that a turn takes is that of its place. -/
theorem taken_chunk (ha : a < 2 ^ 64) {s : Digits}
    (hs : Account a outsCount dustThreshold maxOutputAllowed s)
    (ht : Taken dustThreshold maxOutputAllowed a outsCount i s) (hne : s.amount ≠ 0) :
    s.chunk = digitAt a i := by
  rw [(takeDigit_account ha hs).1, ht.amount, ht.multiplier hne, digitAt]

theorem takeDigit_amount {s : Digits} (ht : Taken dustThreshold maxOutputAllowed a outsCount i s) :
    s.takeDigit.amount = a / 10 ^ (i + 1) := by
  calc s.takeDigit.amount = s.amount / 10 := rfl
    _ = a / 10 ^ i / 10 := by rw [ht.amount]
    _ = a / 10 ^ (i + 1) := by rw [Nat.div_div_eq_div_mul, pow_succ]

theorem takeDigit_multiplier (ha : a < 2 ^ 64) {s : Digits}
    (hs : Account a outsCount dustThreshold maxOutputAllowed s)
    (ht : Taken dustThreshold maxOutputAllowed a outsCount i s) (hne : s.amount ≠ 0)
    (hrest : s.takeDigit.amount ≠ 0) : s.takeDigit.multiplier = 10 ^ (i + 1) := by
  rw [(takeDigit_account ha hs).2.2 hrest, ht.multiplier hne, pow_succ]

theorem below_succ (hbelow : ∀ j < i, digitAt a j ≤ maxOutputAllowed)
    (hmax : digitAt a i ≤ maxOutputAllowed) : ∀ j < i + 1, digitAt a j ≤ maxOutputAllowed := by
  intro j hj
  rcases Nat.lt_or_eq_of_le (Nat.le_of_lt_succ hj) with hlt | rfl
  · exact hbelow j hlt
  · exact hmax

/-- A place that is dust continues it from below, or its digit is zero. -/
theorem taken_dust {s : Digits} (ht : Taken dustThreshold maxOutputAllowed a outsCount i s)
    (hsmall : s.dust + digitAt a i ≤ dustThreshold) :
    s.dust + digitAt a i = a % 10 ^ (i + 1) ∨
      dustThreshold < a % 10 ^ i ∧ digitAt a i = 0 ∧ a % 10 ^ (i + 1) = a % 10 ^ i := by
  have hplace := mod_pow_place a i
  rcases Nat.lt_or_ge dustThreshold (a % 10 ^ i) with hpassed | hwaits
  · have hzero : digitAt a i = 0 := by
      by_contra hdigit
      have hlow := mod_pow_lt_digitAt hdigit
      omega
    exact .inr ⟨hpassed, hzero, by omega⟩
  · have hdust := ht.waits hwaits
    exact .inl (by omega)

theorem takeDust_taken (ha : a < 2 ^ 64) {s : Digits}
    (hs : Account a outsCount dustThreshold maxOutputAllowed s)
    (ht : Taken dustThreshold maxOutputAllowed a outsCount i s) (hne : s.amount ≠ 0)
    (hmax : digitAt a i ≤ maxOutputAllowed) (hsmall : s.dust + digitAt a i ≤ dustThreshold) :
    Taken dustThreshold maxOutputAllowed a outsCount (i + 1)
      { s.takeDigit with dust := s.dust + digitAt a i } := by
  -- dust that was handed out before takes no digit but zero any more
  have hhandled (hflag : s.isDustHandled = true) : digitAt a i = 0 := by
    by_contra hdigit
    have hlow : 10 ^ i ≤ digitAt a i := (chunk_bounds rfl hdigit).1
    rcases hs.handled hflag with hnone | hbeyond
    · exact hne hnone
    · rw [ht.multiplier hne] at hbeyond
      omega
  have hcases := taken_dust ht hsmall
  exact {
    amount := takeDigit_amount ht
    multiplier := takeDigit_multiplier ha hs ht hne
    below := below_succ ht.below hmax
    outs := by
      rw [chunkPlaces_succ, if_neg (by omega)]
      exact ht.outs
    hasDust := by
      rw [hasDust_succ, ← ht.hasDust]
      change s.dust + digitAt a i ≠ 0 ↔ _
      omega
    waits := by
      intro hle
      rcases hcases with hnext | ⟨hpassed, -, hsame⟩
      · exact hnext
      · exact absurd hle (by omega)
    handed := by
      have hhanded := ht.handed
      rw [Digits.handedDust] at hhanded ⊢
      cases hflag : s.isDustHandled with
      | true =>
          simp only [hflag, Digits.takeDigit, hhandled hflag, Nat.add_zero] at hhanded ⊢
          exact hhanded
      | false =>
          simp only [hflag, Digits.takeDigit] at hhanded ⊢
          exact hhanded
    handled := by
      intro hflag
      have hdust := ht.handled hflag
      simp only
      omega }

theorem handleDust_handed {s : Digits} (hhanded : dustsOf s.pieces = s.handedDust)
    (hhandled : s.isDustHandled = true → s.dust ≠ 0) :
    dustsOf s.handleDust.pieces = s.handleDust.handedDust ∧
      (s.handleDust.isDustHandled = true → s.handleDust.dust ≠ 0) := by
  rw [Digits.handedDust] at hhanded
  rw [Digits.handleDust]
  split
  · rename_i hwaits
    simp only [Bool.and_eq_true, Bool.not_eq_true', bne_iff_ne, ne_eq] at hwaits
    rw [hwaits.1, if_neg (by decide)] at hhanded
    refine ⟨?_, fun _ => hwaits.2⟩
    simp [Digits.handedDust, hhanded]
  · exact ⟨hhanded, hhandled⟩

theorem takeChunk_taken (ha : a < 2 ^ 64) {s : Digits}
    (hs : Account a outsCount dustThreshold maxOutputAllowed s)
    (ht : Taken dustThreshold maxOutputAllowed a outsCount i s) (hne : s.amount ≠ 0)
    (hmax : digitAt a i ≤ maxOutputAllowed) (hlarge : dustThreshold < s.dust + digitAt a i) :
    Taken dustThreshold maxOutputAllowed a outsCount (i + 1)
      (s.takeDigit.handleDust.handleChunk (digitAt a i)) := by
  have hplace := mod_pow_place a i
  have hdust := hs.dust
  have hdigit : digitAt a i ≠ 0 := by omega
  have hpassed : dustThreshold < a % 10 ^ (i + 1) := by
    rcases Nat.lt_or_ge dustThreshold (a % 10 ^ i) with hpassed | hwaits
    · omega
    · have hwhole := ht.waits hwaits
      omega
  obtain ⟨hhanded, hhandled⟩ := @handleDust_handed s.takeDigit ht.handed ht.handled
  have hamount : s.takeDigit.handleDust.amount = a / 10 ^ (i + 1) := by
    rw [handleDust_amount]
    exact takeDigit_amount ht
  have hmultiplier (hrest : s.takeDigit.handleDust.amount ≠ 0) :
      s.takeDigit.handleDust.multiplier = 10 ^ (i + 1) := by
    rw [handleDust_multiplier]
    rw [handleDust_amount] at hrest
    exact takeDigit_multiplier ha hs ht hne hrest
  rw [Digits.handleChunk, if_pos hdigit]
  exact {
    amount := hamount
    multiplier := hmultiplier
    below := below_succ ht.below hmax
    outs := by
      rw [chunkPlaces_succ, if_pos ⟨hpassed, hdigit⟩, ← Nat.add_assoc, ← ht.outs,
        handleDust_outsCount]
      rfl
    hasDust := by
      rw [hasDust_succ, ← ht.hasDust, handleDust_dust]
      constructor
      · exact .inl
      · rintro (hdust | ⟨-, hle⟩)
        · exact hdust
        · omega
    waits := by
      intro hle
      omega
    handed := by
      rw [dustsOf_append, dustsOf_chunk, List.append_nil]
      exact hhanded
    handled := hhandled }

theorem digitStep_taken (ha : a < 2 ^ 64) {s s' : Digits}
    (hs : Account a outsCount dustThreshold maxOutputAllowed s)
    (ht : Taken dustThreshold maxOutputAllowed a outsCount i s)
    (h : digitStep dustThreshold maxOutputAllowed s = some s') :
    Taken dustThreshold maxOutputAllowed a outsCount (i + 1) s' := by
  obtain ⟨hne, hmax, hcases⟩ := digitStep_cases h
  have hproduct := (takeDigit_account ha hs).2.1
  have hfits := hs.fits
  rw [taken_chunk ha hs ht hne] at hmax hcases hproduct
  rw [Nat.mod_eq_of_lt (by omega)] at hcases
  obtain ⟨hsmall, rfl⟩ | ⟨hlarge, rfl⟩ := hcases
  · exact takeDust_taken ha hs ht hne hmax hsmall
  · exact takeChunk_taken ha hs ht hne hmax hlarge

/-- The first loop takes the places in their order. -/
theorem digitsLoop_taken (ha : a < 2 ^ 64) {s : Digits}
    (hs : Account a outsCount dustThreshold maxOutputAllowed s)
    (ht : Taken dustThreshold maxOutputAllowed a outsCount i s) :
    ∃ k, Taken dustThreshold maxOutputAllowed a outsCount k (digitsLoop dustThreshold maxOutputAllowed s) := by
  induction s using digitsLoop.induct dustThreshold maxOutputAllowed generalizing i with
  | case1 s hnone =>
      rw [digitsLoop, hnone]
      exact ⟨i, ht⟩
  | case2 s s' hstep ih =>
      rw [digitsLoop, hstep]
      exact ih (digitStep_account ha hs hstep) (digitStep_taken ha hs ht hstep)

/-- A place of an amount of 64 bits that is not zero is one of the first 20. -/
theorem place_lt (ha : a < 2 ^ 64) (hne : a / 10 ^ i ≠ 0) : i < 20 := by
  by_contra hle
  apply hne
  apply Nat.div_eq_of_lt
  calc a < 10 ^ 20 := lt_trans ha (by decide)
    _ ≤ 10 ^ i := Nat.pow_le_pow_right (by decide) (not_lt.mp hle)

/-- Where the first loop ends. -/
theorem digitsLoop_ends (ha : a < 2 ^ 64) {s : Digits}
    (hs : Account a outsCount dustThreshold maxOutputAllowed s)
    (ht : Taken dustThreshold maxOutputAllowed a outsCount i s)
    (hend : digitStep dustThreshold maxOutputAllowed s = none) :
    s.amount = 0 ∧ firstAbove maxOutputAllowed a = none ∨
      s.amount ≠ 0 ∧ firstAbove maxOutputAllowed a = some i ∧
        s.amount * s.multiplier = restFrom a i := by
  by_cases hzero : s.amount = 0
  · refine .inl ⟨hzero, firstAbove_eq_none.mpr ?_⟩
    intro j _
    rcases Nat.lt_or_ge j i with hlt | hle
    · exact ht.below j hlt
    · have hnone : a / 10 ^ j = 0 := by
        apply Nat.eq_zero_of_le_zero
        calc a / 10 ^ j ≤ a / 10 ^ i :=
              Nat.div_le_div_left (Nat.pow_le_pow_right (by decide) hle) (Nat.pow_pos (by decide))
          _ = 0 := by rw [← ht.amount, hzero]
      rw [digitAt, hnone, Nat.zero_mod, Nat.zero_mul]
      exact Nat.zero_le _
  · refine .inr ⟨hzero, firstAbove_eq_some.mpr ⟨?_, ?_, ht.below⟩, ?_⟩
    · rw [digitStep, if_neg hzero, taken_chunk ha hs ht hzero] at hend
      split at hend
      · assumption
      · split at hend <;> cases hend
    · exact place_lt ha (ht.amount ▸ hzero)
    · rw [ht.amount, ht.multiplier hzero, restFrom]
      have hparts := Nat.div_add_mod' a (10 ^ i)
      omega

/-! ## The second loop -/

/-- A turn of the second loop takes one output off the rounded up number of them. -/
theorem outputs_step {left : Nat} (hmax : 0 < maxOutputAllowed) (hle : maxOutputAllowed ≤ left) :
    (left + maxOutputAllowed - 1) / maxOutputAllowed =
      (left - maxOutputAllowed + maxOutputAllowed - 1) / maxOutputAllowed + 1 := by
  rw [Nat.div_eq_sub_div hmax (by omega)]
  congr 2
  omega

/-- The second loop goes through when its outputs, the last one included, stay within the limit. -/
theorem splitLoop_places {maxOutsCount : Nat} (hmax : 0 < maxOutputAllowed) (left outsCount : Nat)
    (pieces : List Piece) (houts : outsCount < maxOutsCount) :
    ((splitLoop maxOutputAllowed maxOutsCount left outsCount pieces).stopped = false ↔
        outsCount + (left + maxOutputAllowed - 1) / maxOutputAllowed ≤ maxOutsCount) ∧
      ((splitLoop maxOutputAllowed maxOutsCount left outsCount pieces).stopped = false →
        (splitLoop maxOutputAllowed maxOutsCount left outsCount pieces).amountMultiplied =
          left % maxOutputAllowed) ∧
      dustsOf (splitLoop maxOutputAllowed maxOutsCount left outsCount pieces).pieces =
        dustsOf pieces := by
  induction left, outsCount, pieces using splitLoop.induct maxOutputAllowed maxOutsCount with
  | case1 left outsCount pieces hend =>
      have hlt : left < maxOutputAllowed := hend.resolve_left hmax.ne'
      have hfew : (left + maxOutputAllowed - 1) / maxOutputAllowed ≤ 1 := by
        apply Nat.le_of_lt_succ
        apply Nat.div_lt_of_lt_mul
        omega
      rw [splitLoop, if_pos hend]
      refine ⟨?_, fun _ => (Nat.mod_eq_of_lt hlt).symm, rfl⟩
      simp only [true_iff]
      omega
  | case2 left outsCount pieces hgoes rest pieces' hcheck ih =>
      have hle : maxOutputAllowed ≤ left := not_lt.mp fun h => hgoes (.inr h)
      have hstep := outputs_step hmax hle
      rw [splitLoop, if_neg hgoes]
      simp only
      rw [if_pos hcheck]
      rcases hcheck with hbefore | hlast
      · obtain ⟨hstopped, hleft, hdusts⟩ := ih hbefore
        refine ⟨?_, fun h => (hleft h).trans (Nat.mod_eq_sub_mod hle).symm, ?_⟩
        · rw [hstopped, hstep]
          simp only [rest]
          omega
        · rw [hdusts]
          simp [pieces']
      · -- the last output ends the amount
        have hnone : left - maxOutputAllowed = 0 := hlast
        rw [hnone, splitLoop, if_pos (.inr hmax)]
        have hone : left = maxOutputAllowed := by omega
        have hfew : (0 + maxOutputAllowed - 1) / maxOutputAllowed = 0 :=
          Nat.div_eq_of_lt (by omega)
        refine ⟨?_, fun _ => ?_, by simp⟩
        · rw [hstep, hnone, hfew]
          simp only [true_iff]
          omega
        · rw [hone, Nat.mod_self]
  | case3 left outsCount pieces hgoes rest hcheck =>
      have hle : maxOutputAllowed ≤ left := not_lt.mp fun h => hgoes (.inr h)
      have hstep := outputs_step hmax hle
      rw [not_or, not_lt] at hcheck
      have hmore : 0 < (left - maxOutputAllowed + maxOutputAllowed - 1) / maxOutputAllowed := by
        apply Nat.div_pos _ hmax
        have hrest : left - maxOutputAllowed ≠ 0 := hcheck.2
        omega
      rw [splitLoop, if_neg hgoes]
      simp only
      rw [if_neg (by rw [not_or, not_lt]; exact hcheck)]
      refine ⟨?_, fun h => (Bool.noConfusion h), by simp⟩
      simp only [Bool.true_eq_false, false_iff]
      omega

/-! ## The whole call -/

theorem hasDust_zero (dustThreshold k : Nat) : ¬ HasDust dustThreshold 0 k := by
  rintro ⟨i, -, hpos, -⟩
  rw [Nat.zero_mod] at hpos
  exact absurd hpos (Nat.lt_irrefl 0)

/-- Above the last place of an amount there is no more dust. -/
theorem hasDust_below {k l : Nat} (hlt : a < 10 ^ k) (h : HasDust dustThreshold a l) :
    HasDust dustThreshold a k := by
  obtain ⟨i, -, hpos, hle⟩ := h
  rcases Nat.le_total i k with hi | hi
  · exact ⟨i, hi, hpos, hle⟩
  · have hall : a % 10 ^ i = a % 10 ^ k := by
      rw [Nat.mod_eq_of_lt hlt, Nat.mod_eq_of_lt]
      exact lt_of_lt_of_le hlt (Nat.pow_le_pow_right (by decide) hi)
    exact ⟨k, le_rfl, hall ▸ hpos, hall ▸ hle⟩

/-- What both loops have in common: the account, the places and the end. -/
theorem digitsLoop_start (ha : a < 2 ^ 64) :
    ∃ k, Account a outsCount dustThreshold maxOutputAllowed
        (digitsLoop dustThreshold maxOutputAllowed (Digits.start a outsCount)) ∧
      Taken dustThreshold maxOutputAllowed a outsCount k
        (digitsLoop dustThreshold maxOutputAllowed (Digits.start a outsCount)) ∧
      digitStep dustThreshold maxOutputAllowed
        (digitsLoop dustThreshold maxOutputAllowed (Digits.start a outsCount)) = none := by
  have hstart := start_account a outsCount dustThreshold maxOutputAllowed
  obtain ⟨hs, hend⟩ := digitsLoop_account ha hstart
  obtain ⟨k, ht⟩ := digitsLoop_taken ha hstart start_taken
  exact ⟨k, hs, ht, hend⟩

/-- A place where the first loop has taken the whole amount. -/
theorem Taken.hasDust_all {k : Nat} {s : Digits}
    (ht : Taken dustThreshold maxOutputAllowed a outsCount k s) (ha : a < 2 ^ 64)
    (hzero : s.amount = 0) : s.dust ≠ 0 ↔ HasDust dustThreshold a 20 := by
  have hlt : a < 10 ^ k := by
    have hlast : a / 10 ^ k = 0 := ht.amount ▸ hzero
    exact (Nat.div_eq_zero_iff.mp hlast).resolve_left (Nat.pow_pos (by decide)).ne'
  rw [ht.hasDust]
  exact ⟨hasDust_below (lt_trans ha (by decide)), hasDust_below hlt⟩

end

/-! ## The whole call -/

/-- What a call does with an amount, read off its places. -/
structure ByPlaces (dustThreshold maxOutputAllowed maxOutsCount a : Nat) (d : Decomposition) :
    Prop where
  le : total d.pieces ≤ a
  whole : total d.pieces = a ↔ Fits dustThreshold maxOutputAllowed maxOutsCount a
  dusts : total d.pieces = a →
    ((dustsOf d.pieces).length ≤ 1 ↔ ¬ DustTwice dustThreshold maxOutputAllowed a)
  pos : ∀ aDust ∈ dustsOf d.pieces, 0 < aDust

section

variable {dustThreshold maxOutputAllowed maxOutsCount outsCount : Nat} {amount : UInt64}

theorem Taken.dusts_perm {a k : Nat} {s : Digits}
    (ht : Taken dustThreshold maxOutputAllowed a outsCount k s) :
    (dustsOf s.handleDust.pieces).Perm (dustPiece s.dust) := by
  have hperm := @dustsOf_handleDust s s.pieces [] (by rw [ht.handed, List.append_nil]) ht.handled
  rwa [List.append_nil] at hperm

theorem handedDust_pos {s : Digits} (h : s.isDustHandled = true → s.dust ≠ 0) {n : Nat}
    (hn : n ∈ s.handedDust) : 0 < n := by
  rw [Digits.handedDust] at hn
  split at hn
  · rename_i hflag
    rw [List.mem_singleton.mp hn]
    exact Nat.pos_of_ne_zero (h hflag)
  · cases hn

/-- A call that pays the whole amount, with its dust in two parts. -/
theorem byPlaces_whole {a first second : Nat} {d : Decomposition} (hall : total d.pieces = a)
    (hfits : Fits dustThreshold maxOutputAllowed maxOutsCount a)
    (hdusts : (dustsOf d.pieces).Perm (dustPiece first ++ dustPiece second))
    (htwice : DustTwice dustThreshold maxOutputAllowed a ↔ first ≠ 0 ∧ second ≠ 0) :
    ByPlaces dustThreshold maxOutputAllowed maxOutsCount a d where
  le := hall.le
  whole := ⟨fun _ => hfits, fun _ => hall⟩
  dusts _ := by
    rw [hdusts.length_eq, List.length_append, dustPiece_length, dustPiece_length, htwice]
    split <;> split <;> omega
  pos aDust haDust := by
    rcases List.mem_append.mp (hdusts.mem_iff.mp haDust) with hfirst | hsecond
    · exact dustPiece_pos hfirst
    · exact dustPiece_pos hsecond

/-- One loop hands out the dust of its places. -/
theorem decompose_one_dust (hne : amount ≠ 0) (hlt : amount.toNat < maxOutputAllowed) :
    ∃ pieces aDust, decomposeAmountIntoDigits dustThreshold maxOutputAllowed maxOutsCount amount
        outsCount = .ok ⟨pieces, .complete⟩ ∧
      total pieces = amount.toNat ∧ (dustsOf pieces).Perm (dustPiece aDust) ∧
      (aDust ≠ 0 ↔ HasDust dustThreshold amount.toNat 20) ∧
      Within dustThreshold maxOutputAllowed pieces := by
  obtain ⟨k, hs, ht, hend⟩ := @digitsLoop_start dustThreshold maxOutputAllowed amount.toNat
    outsCount amount.toNat_lt
  have hzero : (digitsLoop dustThreshold maxOutputAllowed
      (Digits.start amount.toNat outsCount)).amount = 0 := by
    by_contra hrest
    have hmore := max_lt_rest amount.toNat_lt hs hend hrest
    have hfits := hs.fits
    omega
  obtain ⟨htotal, -, hwithin⟩ := handleDust_pieces _ hs.dust hs.within
  have hwhole := hs.whole
  rw [hzero, Nat.zero_mul] at hwhole
  refine ⟨_, _, ?_, htotal.trans (by omega), ht.dusts_perm, ht.hasDust_all amount.toNat_lt hzero,
    hwithin⟩
  rw [decomposeAmountIntoDigits, if_neg hne, dif_neg (by omega),
    if_neg (by rw [Nat.div_eq_of_lt hlt]; exact Nat.not_lt_zero _)]
  exact dif_pos hzero

theorem restFrom_le (a k : Nat) : restFrom a k ≤ a := Nat.sub_le a _

/-- A call with a largest output above zero and a limit beyond the places. -/
theorem decompose_by_places (hne : amount ≠ 0) (hmax : 0 < maxOutputAllowed)
    (hlimit : 20 < maxOutsCount) :
    ∃ d, decomposeAmountIntoDigits dustThreshold maxOutputAllowed maxOutsCount amount 0 = .ok d ∧
      ByPlaces dustThreshold maxOutputAllowed maxOutsCount amount.toNat d := by
  have hamount : amount.toNat ≠ 0 := fun h => hne (UInt64.toNat_inj.mp h)
  by_cases hbig : amount.toNat / maxOutputAllowed > maxOutsCount
  · refine ⟨⟨[], .tooBigAmount⟩, by
      rw [decomposeAmountIntoDigits, if_neg hne, dif_neg hmax.ne', if_pos hbig], ?_⟩
    have hnot : ¬ Fits dustThreshold maxOutputAllowed maxOutsCount amount.toNat :=
      fun h => not_le.mpr hbig h.1
    exact {
      le := Nat.zero_le _
      whole := ⟨fun h => absurd h.symm hamount, fun h => absurd h hnot⟩
      dusts := fun h => absurd h.symm hamount
      pos := fun _ h => absurd h List.not_mem_nil }
  obtain ⟨k, hs, ht, hend⟩ := @digitsLoop_start dustThreshold maxOutputAllowed amount.toNat 0
    amount.toNat_lt
  have hends := digitsLoop_ends amount.toNat_lt hs ht hend
  have hrestEq := rest_eq amount.toNat_lt hs
  rw [decomposeAmountIntoDigits, if_neg hne, dif_neg hmax.ne', if_neg hbig]
  simp only
  generalize digitsLoop dustThreshold maxOutputAllowed (Digits.start amount.toNat 0) = s
    at hs ht hends hrestEq ⊢
  have hwhole := hs.whole
  have hdusts := ht.dusts_perm
  obtain ⟨hdone, hnone⟩ | ⟨hmore, hplace, hrest⟩ := hends
  · -- the first loop takes the whole amount
    obtain ⟨htotal, -, -⟩ := handleDust_pieces s hs.dust hs.within
    rw [hdone, Nat.zero_mul] at hwhole
    rw [dif_pos hdone]
    have hall : total s.handleDust.pieces = amount.toNat := htotal.trans (by omega)
    refine ⟨_, rfl, @byPlaces_whole _ _ _ _ s.dust 0 _ hall ⟨not_lt.mp hbig, by simp [hnone]⟩
      (hdusts.trans (by rw [dustPiece, dustPiece, if_pos rfl, List.append_nil])) ?_⟩
    simp [DustTwice, hnone]
  rw [dif_neg hmore, if_neg (hs.multiplier hmore).ne', hrestEq, hrest]
  rw [hrest] at hwhole
  have houts : s.outsCount < maxOutsCount := by
    have hk : k < 20 := (firstAbove_eq_some.mp hplace).2.1
    have hle := chunkPlaces_le dustThreshold amount.toNat k
    rw [ht.outs]
    omega
  have hafter := @splitLoop_account dustThreshold maxOutputAllowed maxOutsCount hmax
    (restFrom amount.toNat k) s.outsCount s.pieces
  obtain ⟨hthrough, hleft, hsplitDusts⟩ :=
    @splitLoop_places maxOutputAllowed maxOutsCount hmax (restFrom amount.toNat k) s.outsCount
      s.pieces houts
  generalize splitLoop maxOutputAllowed maxOutsCount (restFrom amount.toNat k) s.outsCount
    s.pieces = split at hafter hthrough hleft hsplitDusts ⊢
  have hsplit := hafter.whole
  have hpieces := hafter.within hs.within
  have hfits : Fits dustThreshold maxOutputAllowed maxOutsCount amount.toNat ↔
      split.stopped = false := by
    rw [hthrough, ht.outs, Nat.zero_add]
    exact fits_iff hplace (not_lt.mp hbig)
  by_cases hstopped : split.stopped = true
  · -- the outputs that are allowed do not pay the rest
    obtain ⟨-, hunpaid⟩ := hafter.stopped hstopped
    rw [dif_pos hstopped]
    refine ⟨_, rfl, ?_⟩
    have hless : total split.pieces < amount.toNat := by omega
    exact {
      le := hless.le
      whole := ⟨fun h => absurd h hless.ne, fun h => by
        rw [hfits, hstopped] at h
        cases h⟩
      dusts := fun h => absurd h hless.ne
      pos := fun aDust haDust => by
        simp only at haDust
        rw [hsplitDusts, ht.handed] at haDust
        exact handedDust_pos ht.handled haDust }
  have hgoes := Bool.eq_false_of_not_eq_true hstopped
  have hall := hleft hgoes
  have htwice (second : Nat)
      (hsecond : second ≠ 0 ↔ HasDust dustThreshold split.amountMultiplied 20) :
      DustTwice dustThreshold maxOutputAllowed amount.toNat ↔ s.dust ≠ 0 ∧ second ≠ 0 := by
    rw [ht.hasDust, hsecond, hall]
    exact dustTwice_iff hplace
  rw [dif_neg hstopped]
  by_cases hnothing : split.amountMultiplied = 0
  · obtain ⟨htotal, -, -⟩ := @handleDust_pieces dustThreshold maxOutputAllowed
      { s with pieces := split.pieces } hs.dust hpieces
    simp only at htotal
    rw [if_pos hnothing]
    refine ⟨_, rfl, byPlaces_whole (htotal.trans (by omega)) (hfits.mpr hgoes)
      (dustsOf_handleDust (hsplitDusts.trans ?_) ht.handled) (htwice 0 ?_)⟩
    · rw [ht.handed]
      exact (List.append_nil _).symm
    · rw [hnothing]
      simp [hasDust_zero]
  · -- the further call is below the largest output
    have hless := hafter.through hgoes
    have hle := restFrom_le amount.toNat k
    obtain ⟨hvalue, hnot⟩ := ofNat_value hnothing
      (lt_of_le_of_lt (show split.amountMultiplied ≤ amount.toNat by omega) amount.toNat_lt)
    obtain ⟨inner, aDust, hinner, hinnerTotal, hinnerDusts, hsecond, hinnerWithin⟩ :=
      @decompose_one_dust dustThreshold maxOutputAllowed maxOutsCount split.outsCount _ hnot
        (by rwa [hvalue])
    rw [hvalue] at hinnerTotal hsecond
    obtain ⟨htotal, -, -⟩ := @handleDust_pieces dustThreshold maxOutputAllowed
      { s with pieces := split.pieces ++ inner } hs.dust (hpieces.append hinnerWithin)
    simp only [total_append] at htotal
    have hboth : dustsOf (split.pieces ++ inner) = s.handedDust ++ dustsOf inner := by
      rw [dustsOf_append, hsplitDusts, ht.handed]
    rw [if_neg hnothing, hinner, ok_bind]
    refine ⟨_, rfl, byPlaces_whole (htotal.trans (by omega)) (hfits.mpr hgoes) ?_
      (htwice aDust hsecond)⟩
    calc (dustsOf { s with pieces := split.pieces ++ inner }.handleDust.pieces).Perm
          (dustPiece s.dust ++ dustsOf inner) := dustsOf_handleDust hboth ht.handled
      List.Perm _ (dustPiece s.dust ++ dustPiece aDust) := hinnerDusts.append_left _

end

end Chinet
