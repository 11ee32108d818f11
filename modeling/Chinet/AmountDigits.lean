import Mathlib.Data.List.Basic
import Mathlib.Tactic.Ring
import Chinet.Lib.PartialSteps

/-!
# An amount in digits

`decompose_amount_into_digits` of `currency_format_utils.h`.  A first loop takes the decimal
digits of the amount, from the lowest up, as chunks or, as long as they stay below the
threshold, as dust; a digit that makes a chunk above the largest allowed output ends it.  What
is left is split into chunks of the largest output by a second loop, and the rest of that is
decomposed by a further call.

`Account` says what is never lost: what the loop still has to decompose, the dust that waits and
the pieces handed out are the amount together (`digitStep_account`, `splitLoop_account`).  The
checks of the function are the only way to leave with less (`decompose_conserves`).
-/

namespace Chinet

open PartialSteps

/-! ## The function -/

/-- What one call of `chunk_handler` or `dust_handler` is given. -/
inductive Piece
  | chunk (amount : Nat)
  | dust (amount : Nat)
deriving DecidableEq, Repr

def Piece.amount : Piece → Nat
  | .chunk n => n
  | .dust n => n

def total (pieces : List Piece) : Nat := (pieces.map Piece.amount).sum

/-- How a call ends: to the end, or at one of its checks. -/
inductive Ending
  | complete
  | zeroAmount
  | tooBigAmount
  | multiplierZero
  | tooManyOutputs
deriving DecidableEq, Repr

/-- The variables of the first loop, with the pieces handed out so far. -/
structure Digits where
  amount : Nat
  multiplier : Nat
  dust : Nat
  isDustHandled : Bool
  outsCount : Nat
  pieces : List Piece
deriving DecidableEq, Repr

/-- The dust that waits is handed out, once. -/
def Digits.handleDust (s : Digits) : Digits :=
  if !s.isDustHandled && s.dust != 0 then
    { s with isDustHandled := true, pieces := s.pieces ++ [.dust s.dust] }
  else s

def Digits.handleChunk (s : Digits) (chunk : Nat) : Digits :=
  if chunk ≠ 0 then
    { s with pieces := s.pieces ++ [.chunk chunk], outsCount := s.outsCount + 1 }
  else s

/-- The lowest digit in its place.  The products are those of `uint64_t`. -/
def Digits.chunk (s : Digits) : Nat := s.amount % 10 * s.multiplier % 2 ^ 64

def Digits.takeDigit (s : Digits) : Digits :=
  { s with amount := s.amount / 10, multiplier := s.multiplier * 10 % 2 ^ 64 }

/-- One turn of the first loop, none when it ends. -/
def digitStep (dustThreshold maxOutputAllowed : Nat) (s : Digits) : Option Digits :=
  if s.amount = 0 then none
  else if s.chunk > maxOutputAllowed then none
  else if (s.dust + s.chunk) % 2 ^ 64 ≤ dustThreshold then
    some { s.takeDigit with dust := (s.dust + s.chunk) % 2 ^ 64 }
  else some (s.takeDigit.handleDust.handleChunk s.chunk)

section

variable {dustThreshold maxOutputAllowed : Nat}

/-- A turn adds the digit to the dust, or hands it out as a chunk behind the dust so far. -/
theorem digitStep_cases {s s' : Digits} (h : digitStep dustThreshold maxOutputAllowed s = some s') :
    s.amount ≠ 0 ∧ s.chunk ≤ maxOutputAllowed ∧
      ((s.dust + s.chunk) % 2 ^ 64 ≤ dustThreshold ∧
          s' = { s.takeDigit with dust := (s.dust + s.chunk) % 2 ^ 64 } ∨
        dustThreshold < (s.dust + s.chunk) % 2 ^ 64 ∧
          s' = s.takeDigit.handleDust.handleChunk s.chunk) := by
  rw [digitStep] at h
  split at h
  · cases h
  · rename_i hne
    split at h
    · cases h
    · rename_i hchunk
      refine ⟨hne, not_lt.mp hchunk, ?_⟩
      split at h
      · rename_i hdust
        cases h
        exact .inl ⟨hdust, rfl⟩
      · rename_i hdust
        cases h
        exact .inr ⟨not_le.mp hdust, rfl⟩

@[simp] theorem handleDust_amount (s : Digits) : s.handleDust.amount = s.amount := by
  rw [Digits.handleDust]
  split <;> rfl

@[simp] theorem handleDust_multiplier (s : Digits) : s.handleDust.multiplier = s.multiplier := by
  rw [Digits.handleDust]
  split <;> rfl

@[simp] theorem handleDust_dust (s : Digits) : s.handleDust.dust = s.dust := by
  rw [Digits.handleDust]
  split <;> rfl

@[simp] theorem handleDust_outsCount (s : Digits) : s.handleDust.outsCount = s.outsCount := by
  rw [Digits.handleDust]
  split <;> rfl

@[simp] theorem handleChunk_amount (s : Digits) (chunk : Nat) :
    (s.handleChunk chunk).amount = s.amount := by
  rw [Digits.handleChunk]
  split <;> rfl

theorem digitStep_amount {s s' : Digits} (h : digitStep dustThreshold maxOutputAllowed s = some s') :
    s.amount ≠ 0 ∧ s'.amount = s.amount / 10 := by
  obtain ⟨hne, -, ⟨-, rfl⟩ | ⟨-, rfl⟩⟩ := digitStep_cases h
  · exact ⟨hne, rfl⟩
  · exact ⟨hne, by simp [Digits.takeDigit]⟩

end

/-- The first loop; each turn takes a digit off the amount. -/
def digitsLoop (dustThreshold maxOutputAllowed : Nat) (s : Digits) : Digits :=
  match _h : digitStep dustThreshold maxOutputAllowed s with
  | none => s
  | some s' => digitsLoop dustThreshold maxOutputAllowed s'
termination_by s.amount
decreasing_by
  obtain ⟨hne, hdiv⟩ := digitStep_amount _h
  omega

/-- The second loop's variables; it stops at its check, or goes through. -/
structure Split where
  amountMultiplied : Nat
  outsCount : Nat
  pieces : List Piece
  stopped : Bool
deriving DecidableEq, Repr

/-- The second loop.  The largest output is not zero here: the amount was divided by it. -/
def splitLoop (maxOutputAllowed maxOutsCount amountMultiplied outsCount : Nat)
    (pieces : List Piece) : Split :=
  if maxOutputAllowed = 0 ∨ amountMultiplied < maxOutputAllowed then
    ⟨amountMultiplied, outsCount, pieces, false⟩
  else
    let rest := amountMultiplied - maxOutputAllowed
    let pieces := pieces ++ [.chunk maxOutputAllowed]
    if outsCount + 1 < maxOutsCount ∨ rest = 0 then
      splitLoop maxOutputAllowed maxOutsCount rest (outsCount + 1) pieces
    else ⟨rest, outsCount + 1, pieces, true⟩
termination_by amountMultiplied

/-! ## What the first loop keeps -/

def Piece.isChunk : Piece → Bool
  | .chunk _ => true
  | .dust _ => false

/-- The number of chunks among the pieces. -/
def chunkCount (pieces : List Piece) : Nat := pieces.countP Piece.isChunk

/-- No piece is larger than it may be. -/
structure Within (dustThreshold maxOutputAllowed : Nat) (pieces : List Piece) : Prop where
  chunks : ∀ n, Piece.chunk n ∈ pieces → n ≤ maxOutputAllowed
  dusts : ∀ n, Piece.dust n ∈ pieces → n ≤ dustThreshold

/-- The amount of a call is in what is left of it, in the dust that waits and in the pieces. -/
structure Account (amount outsCount dustThreshold maxOutputAllowed : Nat) (s : Digits) :
    Prop where
  whole : s.amount * s.multiplier + (if s.isDustHandled then 0 else s.dust) + total s.pieces = amount
  fits : s.amount * s.multiplier + s.dust ≤ amount
  multiplier : s.amount ≠ 0 → 0 < s.multiplier
  handled : s.isDustHandled = true → s.amount = 0 ∨ dustThreshold < s.dust + s.multiplier
  dust : s.dust ≤ dustThreshold
  counted : s.outsCount = outsCount + chunkCount s.pieces
  within : Within dustThreshold maxOutputAllowed s.pieces

@[simp] theorem total_nil : total [] = 0 := rfl

@[simp] theorem total_append (xs ys : List Piece) : total (xs ++ ys) = total xs + total ys := by
  simp [total]

@[simp] theorem total_singleton (piece : Piece) : total [piece] = piece.amount := by
  simp [total]

@[simp] theorem chunkCount_append (xs ys : List Piece) :
    chunkCount (xs ++ ys) = chunkCount xs + chunkCount ys := by
  simp [chunkCount]

@[simp] theorem chunkCount_chunk (n : Nat) : chunkCount [.chunk n] = 1 := rfl

@[simp] theorem chunkCount_dust (n : Nat) : chunkCount [.dust n] = 0 := rfl

section

variable {amount outsCount dustThreshold maxOutputAllowed : Nat}

theorem Within.append_chunk {pieces : List Piece} (h : Within dustThreshold maxOutputAllowed pieces)
    {n : Nat} (hn : n ≤ maxOutputAllowed) :
    Within dustThreshold maxOutputAllowed (pieces ++ [.chunk n]) where
  chunks m hm := by
    rcases List.mem_append.mp hm with hm | hm
    · exact h.chunks m hm
    · cases List.mem_singleton.mp hm
      exact hn
  dusts m hm := by
    rcases List.mem_append.mp hm with hm | hm
    · exact h.dusts m hm
    · cases List.mem_singleton.mp hm

theorem Within.append_dust {pieces : List Piece} (h : Within dustThreshold maxOutputAllowed pieces)
    {n : Nat} (hn : n ≤ dustThreshold) :
    Within dustThreshold maxOutputAllowed (pieces ++ [.dust n]) where
  chunks m hm := by
    rcases List.mem_append.mp hm with hm | hm
    · exact h.chunks m hm
    · cases List.mem_singleton.mp hm
  dusts m hm := by
    rcases List.mem_append.mp hm with hm | hm
    · exact h.dusts m hm
    · cases List.mem_singleton.mp hm
      exact hn

/-- The dust that waits is handed out, and nothing else. -/
theorem handleDust_pieces (s : Digits) (hdust : s.dust ≤ dustThreshold)
    (hwithin : Within dustThreshold maxOutputAllowed s.pieces) :
    total s.handleDust.pieces = total s.pieces + (if s.isDustHandled then 0 else s.dust) ∧
      chunkCount s.handleDust.pieces = chunkCount s.pieces ∧
      Within dustThreshold maxOutputAllowed s.handleDust.pieces := by
  rw [Digits.handleDust]
  split
  · rename_i hwaits
    simp only [Bool.and_eq_true, Bool.not_eq_true', bne_iff_ne, ne_eq] at hwaits
    refine ⟨?_, by simp, hwithin.append_dust hdust⟩
    simp [hwaits.1, Piece.amount]
  · rename_i hwaits
    refine ⟨?_, rfl, hwithin⟩
    cases hflag : s.isDustHandled with
    | true => rfl
    | false =>
        simp only [hflag, Bool.not_false, Bool.true_and, bne_iff_ne, ne_eq, not_not] at hwaits
        rw [hwaits]
        rfl

/-- No dust waits any more. -/
theorem handleDust_none (s : Digits) :
    (if s.handleDust.isDustHandled then 0 else s.handleDust.dust) = 0 := by
  rw [Digits.handleDust]
  split
  · rfl
  · rename_i hwaits
    cases hflag : s.isDustHandled with
    | true => rfl
    | false => simpa [hflag] using hwaits

/-- Taking a digit off loses nothing, and no product wraps. -/
theorem digit_products {a m : Nat} (hlt : a * m < 2 ^ 64) :
    a % 10 * m % 2 ^ 64 = a % 10 * m ∧ a / 10 * (m * 10 % 2 ^ 64) + a % 10 * m = a * m := by
  have hparts : a * m = a / 10 * (m * 10) + a % 10 * m := by
    conv_lhs => rw [← Nat.div_add_mod a 10]
    ring
  constructor
  · exact Nat.mod_eq_of_lt (by omega)
  · by_cases hlast : a / 10 = 0
    · rw [hlast, Nat.zero_mul] at hparts ⊢
      omega
    · have hle : m * 10 ≤ a / 10 * (m * 10) := Nat.le_mul_of_pos_left _ (Nat.pos_of_ne_zero hlast)
      rw [Nat.mod_eq_of_lt (by omega)]
      exact hparts.symm

/-- With the digit taken off, the account lacks just its chunk. -/
theorem takeDigit_account (hamount : amount < 2 ^ 64) {s : Digits}
    (hs : Account amount outsCount dustThreshold maxOutputAllowed s) :
    s.chunk = s.amount % 10 * s.multiplier ∧
      s.takeDigit.amount * s.takeDigit.multiplier + s.chunk = s.amount * s.multiplier ∧
      (s.takeDigit.amount ≠ 0 → s.takeDigit.multiplier = s.multiplier * 10) := by
  have hfits := hs.fits
  obtain ⟨hchunk, hproduct⟩ := @digit_products s.amount s.multiplier (by omega)
  refine ⟨hchunk, ?_, ?_⟩
  · rw [Digits.chunk, hchunk]
    exact hproduct
  · intro hrest
    apply Nat.mod_eq_of_lt
    have hle : s.multiplier * 10 ≤ s.amount / 10 * (s.multiplier * 10) :=
      Nat.le_mul_of_pos_left _ (Nat.pos_of_ne_zero hrest)
    have hless : s.amount / 10 * (s.multiplier * 10) ≤ s.amount * s.multiplier := by
      calc s.amount / 10 * (s.multiplier * 10)
        _ = 10 * (s.amount / 10) * s.multiplier := by ring
        _ ≤ s.amount * s.multiplier := Nat.mul_le_mul_right _ (Nat.mul_div_le _ _)
    omega

/-- A digit that is not zero makes a chunk of at least the multiplier and below ten times it. -/
theorem chunk_bounds {d m chunk : Nat} (hchunk : chunk = d % 10 * m) (hne : chunk ≠ 0) :
    m ≤ chunk ∧ chunk < m * 10 := by
  have hdigit : d % 10 ≠ 0 := by
    intro h
    rw [h, Nat.zero_mul] at hchunk
    exact hne hchunk
  have hm : 0 < m := by
    apply Nat.pos_of_ne_zero
    rintro rfl
    exact hne hchunk
  constructor
  · rw [hchunk]
    exact Nat.le_mul_of_pos_left m (Nat.pos_of_ne_zero hdigit)
  · calc chunk = d % 10 * m := hchunk
      _ < 10 * m := Nat.mul_lt_mul_of_pos_right (Nat.mod_lt d (by decide)) hm
      _ = m * 10 := Nat.mul_comm 10 m

/-- A digit of the next place is too large for the dust. -/
theorem takeDigit_beyond (hamount : amount < 2 ^ 64) {s : Digits}
    (hs : Account amount outsCount dustThreshold maxOutputAllowed s)
    (h : dustThreshold < s.dust + s.multiplier * 10) :
    s.takeDigit.amount = 0 ∨ dustThreshold < s.dust + s.takeDigit.multiplier := by
  obtain ⟨-, -, hmultiplier⟩ := takeDigit_account hamount hs
  rcases Nat.eq_zero_or_pos s.takeDigit.amount with hzero | hrest
  · exact .inl hzero
  · right
    rw [hmultiplier hrest.ne']
    exact h

theorem takeDigit_multiplier_pos (hamount : amount < 2 ^ 64) {s : Digits}
    (hs : Account amount outsCount dustThreshold maxOutputAllowed s) (hne : s.amount ≠ 0)
    (hrest : s.takeDigit.amount ≠ 0) : 0 < s.takeDigit.multiplier := by
  have hpos := hs.multiplier hne
  rw [(takeDigit_account hamount hs).2.2 hrest]
  omega

/-- The digit becomes dust. -/
theorem takeDust_account (hamount : amount < 2 ^ 64) {s : Digits}
    (hs : Account amount outsCount dustThreshold maxOutputAllowed s) (hne : s.amount ≠ 0)
    (hsmall : s.dust + s.chunk ≤ dustThreshold) :
    Account amount outsCount dustThreshold maxOutputAllowed
      { s.takeDigit with dust := s.dust + s.chunk } := by
  obtain ⟨hchunk, hproduct, -⟩ := takeDigit_account hamount hs
  have hwhole := hs.whole
  have hfits := hs.fits
  -- dust that was handed out before takes no digit but zero any more
  have hhandled (hflag : s.isDustHandled = true) : s.chunk = 0 := by
    by_contra hzero
    obtain ⟨hlow, -⟩ := chunk_bounds hchunk hzero
    rcases hs.handled hflag with hnone | hbeyond
    · exact hne hnone
    · omega
  exact {
    whole := by
      have hpieces : s.takeDigit.pieces = s.pieces := rfl
      have hsame : s.takeDigit.isDustHandled = s.isDustHandled := rfl
      simp only [hpieces, hsame]
      cases hflag : s.isDustHandled with
      | true =>
          have hzero := hhandled hflag
          rw [hflag] at hwhole
          simp only [if_true] at hwhole ⊢
          omega
      | false =>
          rw [hflag] at hwhole
          simp only [Bool.false_eq_true, if_false] at hwhole ⊢
          omega
    fits := by
      simp only
      omega
    multiplier := takeDigit_multiplier_pos hamount hs hne
    handled := fun hflag => by
      rw [hhandled hflag]
      apply takeDigit_beyond hamount hs
      have hbeyond := (hs.handled hflag).resolve_left hne
      omega
    dust := hsmall
    counted := hs.counted
    within := hs.within }

/-- The chunk is handed out; the dust before it, if any, goes first. -/
theorem takeChunk_account (hamount : amount < 2 ^ 64) {s : Digits}
    (hs : Account amount outsCount dustThreshold maxOutputAllowed s) (hne : s.amount ≠ 0)
    (hmax : s.chunk ≤ maxOutputAllowed) (hlarge : dustThreshold < s.dust + s.chunk) :
    Account amount outsCount dustThreshold maxOutputAllowed
      (s.takeDigit.handleDust.handleChunk s.chunk) := by
  obtain ⟨hchunk, hproduct, -⟩ := takeDigit_account hamount hs
  have hwhole := hs.whole
  have hfits := hs.fits
  have hdust := hs.dust
  have hcounted := hs.counted
  have hzero : s.chunk ≠ 0 := by omega
  obtain ⟨-, hhigh⟩ := chunk_bounds hchunk hzero
  obtain ⟨htotal, hcount, hwithin⟩ := handleDust_pieces s.takeDigit hdust hs.within
  have hnone := handleDust_none s.takeDigit
  have hpieces : s.takeDigit.pieces = s.pieces := rfl
  have hflag : s.takeDigit.isDustHandled = s.isDustHandled := rfl
  have hsame : s.takeDigit.dust = s.dust := rfl
  have houts : s.takeDigit.outsCount = s.outsCount := rfl
  rw [hpieces, hflag, hsame] at htotal
  rw [Digits.handleChunk, if_pos hzero]
  exact {
    whole := by
      simp only [hnone, handleDust_amount, handleDust_multiplier, total_append, total_singleton,
        Piece.amount]
      omega
    fits := by
      simp only [handleDust_amount, handleDust_multiplier, handleDust_dust, hsame]
      omega
    multiplier := by
      simp only [handleDust_amount, handleDust_multiplier]
      exact takeDigit_multiplier_pos hamount hs hne
    handled := fun _ => by
      simp only [handleDust_amount, handleDust_multiplier, handleDust_dust, hsame]
      exact takeDigit_beyond hamount hs (by omega)
    dust := by
      simp only [handleDust_dust, hsame]
      exact hdust
    counted := by
      simp only [handleDust_outsCount, chunkCount_append, chunkCount_chunk, hcount, hpieces, houts]
      omega
    within := hwithin.append_chunk hmax }

theorem digitStep_account (hamount : amount < 2 ^ 64) {s s' : Digits}
    (hs : Account amount outsCount dustThreshold maxOutputAllowed s)
    (h : digitStep dustThreshold maxOutputAllowed s = some s') :
    Account amount outsCount dustThreshold maxOutputAllowed s' := by
  obtain ⟨hne, hmax, hcases⟩ := digitStep_cases h
  obtain ⟨-, hproduct, -⟩ := takeDigit_account hamount hs
  have hfits := hs.fits
  rw [Nat.mod_eq_of_lt (by omega)] at hcases
  obtain ⟨hsmall, rfl⟩ | ⟨hlarge, rfl⟩ := hcases
  · exact takeDust_account hamount hs hne hsmall
  · exact takeChunk_account hamount hs hne hmax hlarge

/-- The first loop keeps the account to its end. -/
theorem digitsLoop_account (hamount : amount < 2 ^ 64) {s : Digits}
    (hs : Account amount outsCount dustThreshold maxOutputAllowed s) :
    Account amount outsCount dustThreshold maxOutputAllowed
        (digitsLoop dustThreshold maxOutputAllowed s) ∧
      digitStep dustThreshold maxOutputAllowed (digitsLoop dustThreshold maxOutputAllowed s) =
        none := by
  induction s using digitsLoop.induct dustThreshold maxOutputAllowed with
  | case1 s hnone =>
      rw [digitsLoop, hnone]
      exact ⟨hs, hnone⟩
  | case2 s s' hstep ih =>
      rw [digitsLoop, hstep]
      exact ih (digitStep_account hamount hs hstep)

theorem digitStep_few {s s' : Digits} (h : digitStep dustThreshold maxOutputAllowed s = some s') :
    chunkCount s'.pieces ≤ chunkCount s.pieces + 1 := by
  obtain ⟨-, -, ⟨-, rfl⟩ | ⟨-, rfl⟩⟩ := digitStep_cases h
  · exact Nat.le_add_right _ _
  · have hdust : chunkCount s.takeDigit.handleDust.pieces = chunkCount s.pieces := by
      rw [Digits.handleDust]
      split
      · simp [Digits.takeDigit]
      · rfl
    rw [Digits.handleChunk]
    split
    · simp only [chunkCount_append, chunkCount_chunk, hdust, le_refl]
    · rw [hdust]
      exact Nat.le_add_right _ _

/-- The first loop hands out at most one chunk for each decimal digit. -/
theorem digitsLoop_few {digits : Nat} {s : Digits} (hs : s.amount < 10 ^ digits) :
    chunkCount (digitsLoop dustThreshold maxOutputAllowed s).pieces ≤
      chunkCount s.pieces + digits := by
  induction s using digitsLoop.induct dustThreshold maxOutputAllowed generalizing digits with
  | case1 s hnone =>
      rw [digitsLoop, hnone]
      exact Nat.le_add_right _ _
  | case2 s s' hstep ih =>
      rw [digitsLoop, hstep]
      obtain ⟨hne, hdiv⟩ := digitStep_amount hstep
      cases digits with
      | zero => exact absurd (Nat.lt_one_iff.mp hs) hne
      | succ digits =>
          have hless : s'.amount < 10 ^ digits := by
            rw [hdiv]
            apply Nat.div_lt_of_lt_mul
            calc s.amount < 10 ^ (digits + 1) := hs
              _ = 10 * 10 ^ digits := by rw [pow_succ, Nat.mul_comm]
          have hrest := ih hless
          have hstep' := digitStep_few hstep
          change chunkCount (digitsLoop dustThreshold maxOutputAllowed s').pieces ≤ _
          omega

/-- The variables at the beginning of a call. -/
def Digits.start (amount outsCount : Nat) : Digits where
  amount
  multiplier := 1
  dust := 0
  isDustHandled := false
  outsCount
  pieces := []

theorem start_account (amount outsCount dustThreshold maxOutputAllowed : Nat) :
    Account amount outsCount dustThreshold maxOutputAllowed (Digits.start amount outsCount) where
  whole := by simp [Digits.start]
  fits := by simp [Digits.start]
  multiplier _ := Nat.one_pos
  handled h := by cases h
  dust := Nat.zero_le _
  counted := rfl
  within := ⟨fun _ h => (List.not_mem_nil h).elim, fun _ h => (List.not_mem_nil h).elim⟩

/-! ## What the second loop keeps -/

/-- The second loop hands out what it takes; it goes on to less than the largest output, or stops
when it has handed out as many chunks as are allowed. -/
structure SplitAccount (dustThreshold maxOutputAllowed maxOutsCount left outsCount : Nat)
    (pieces : List Piece) (after : Split) : Prop where
  whole : after.amountMultiplied + total after.pieces = left + total pieces
  through : after.stopped = false → after.amountMultiplied < maxOutputAllowed
  stopped : after.stopped = true → maxOutsCount ≤ after.outsCount ∧ after.amountMultiplied ≠ 0
  counted : after.outsCount + chunkCount pieces = outsCount + chunkCount after.pieces
  taken : left + maxOutputAllowed * outsCount =
    after.amountMultiplied + maxOutputAllowed * after.outsCount
  few : chunkCount after.pieces ≤ chunkCount pieces + left / maxOutputAllowed
  within : Within dustThreshold maxOutputAllowed pieces →
    Within dustThreshold maxOutputAllowed after.pieces

theorem splitLoop_account {maxOutsCount : Nat} (hmax : 0 < maxOutputAllowed) (left outsCount : Nat)
    (pieces : List Piece) :
    SplitAccount dustThreshold maxOutputAllowed maxOutsCount left outsCount pieces
      (splitLoop maxOutputAllowed maxOutsCount left outsCount pieces) := by
  induction left, outsCount, pieces using splitLoop.induct maxOutputAllowed maxOutsCount with
  | case1 left outsCount pieces hend =>
      rw [splitLoop, if_pos hend]
      exact {
        whole := rfl
        through := fun _ => hend.resolve_left hmax.ne'
        stopped := fun h => by cases h
        counted := Nat.add_comm _ _ ▸ rfl
        taken := rfl
        few := Nat.le_add_right _ _
        within := id }
  | case2 left outsCount pieces hgoes rest pieces' hcheck ih =>
      rw [splitLoop, if_neg hgoes]
      simp only
      rw [if_pos hcheck]
      have hwhole := ih.whole
      have hcounted := ih.counted
      have htaken := ih.taken
      have hfew := ih.few
      have hquotient : left / maxOutputAllowed = (left - maxOutputAllowed) / maxOutputAllowed + 1 :=
        Nat.div_eq_sub_div hmax (by omega)
      simp only [pieces', rest, total_append, total_singleton, Piece.amount, chunkCount_append,
        chunkCount_chunk, Nat.mul_succ] at hwhole hcounted htaken hfew
      exact {
        whole := by omega
        through := ih.through
        stopped := ih.stopped
        counted := by omega
        taken := by omega
        few := by omega
        within := fun h => ih.within (h.append_chunk le_rfl) }
  | case3 left outsCount pieces hgoes rest hcheck =>
      rw [splitLoop, if_neg hgoes]
      simp only
      rw [if_neg hcheck]
      rw [not_or, not_lt] at hcheck
      exact {
        whole := by
          simp only [total_append, total_singleton, Piece.amount]
          omega
        through := fun h => by cases h
        stopped := fun _ => hcheck
        counted := by
          simp only [chunkCount_append, chunkCount_chunk]
          omega
        taken := by
          simp only [Nat.mul_succ]
          omega
        few := by
          have hquotient := Nat.div_pos (show maxOutputAllowed ≤ left by omega) hmax
          simp only [chunkCount_append, chunkCount_chunk]
          omega
        within := fun h => h.append_chunk le_rfl }

/-- What the second loop starts from. -/
theorem rest_eq (hamount : amount < 2 ^ 64) {s : Digits}
    (hs : Account amount outsCount dustThreshold maxOutputAllowed s) :
    s.amount * s.multiplier % 2 ^ 64 = s.amount * s.multiplier := by
  have hfits := hs.fits
  exact Nat.mod_eq_of_lt (by omega)

/-- When the first loop leaves something, that is more than the largest output. -/
theorem max_lt_rest (hamount : amount < 2 ^ 64) {s : Digits}
    (hs : Account amount outsCount dustThreshold maxOutputAllowed s)
    (hend : digitStep dustThreshold maxOutputAllowed s = none) (hne : s.amount ≠ 0) :
    maxOutputAllowed < s.amount * s.multiplier := by
  obtain ⟨-, hproduct, -⟩ := takeDigit_account hamount hs
  rw [digitStep, if_neg hne] at hend
  split at hend
  · omega
  · split at hend <;> cases hend

/-- The further call has a smaller amount. -/
theorem splitLoop_lt {maxOutsCount : Nat} (hmax : maxOutputAllowed ≠ 0) {amount : UInt64}
    (hne : (digitsLoop dustThreshold maxOutputAllowed
      (Digits.start amount.toNat outsCount)).amount ≠ 0)
    {splitPieces : List Piece} {splitOuts : Nat}
    (hthrough : (splitLoop maxOutputAllowed maxOutsCount
      ((digitsLoop dustThreshold maxOutputAllowed (Digits.start amount.toNat outsCount)).amount *
        (digitsLoop dustThreshold maxOutputAllowed
          (Digits.start amount.toNat outsCount)).multiplier % 2 ^ 64)
      splitOuts splitPieces).stopped = false) :
    (splitLoop maxOutputAllowed maxOutsCount
      ((digitsLoop dustThreshold maxOutputAllowed (Digits.start amount.toNat outsCount)).amount *
        (digitsLoop dustThreshold maxOutputAllowed
          (Digits.start amount.toNat outsCount)).multiplier % 2 ^ 64)
      splitOuts splitPieces).amountMultiplied < amount.toNat := by
  obtain ⟨hs, hend⟩ := digitsLoop_account amount.toNat_lt
    (start_account amount.toNat outsCount dustThreshold maxOutputAllowed)
  have hrest := max_lt_rest amount.toNat_lt hs hend hne
  have hfits := hs.fits
  have hafter := (@splitLoop_account dustThreshold _ maxOutsCount (Nat.pos_of_ne_zero hmax)
    ((digitsLoop dustThreshold maxOutputAllowed (Digits.start amount.toNat outsCount)).amount *
      (digitsLoop dustThreshold maxOutputAllowed
        (Digits.start amount.toNat outsCount)).multiplier % 2 ^ 64)
    splitOuts splitPieces).through hthrough
  omega

end

/-! ## The whole call -/

/-- The pieces that a call hands out, in this order, and how it ends. -/
structure Decomposition where
  pieces : List Piece
  ending : Ending
deriving DecidableEq, Repr

/-- `decompose_amount_into_digits`. -/
def decomposeAmountIntoDigits (dustThreshold maxOutputAllowed maxOutsCount : Nat) (amount : UInt64)
    (outsCount : Nat) : Defined Decomposition :=
  if amount = 0 then .ok ⟨[], .zeroAmount⟩
  else if hmax : maxOutputAllowed = 0 then .error .divisionByZero
  else if amount.toNat / maxOutputAllowed > maxOutsCount then .ok ⟨[], .tooBigAmount⟩
  else
    let s := digitsLoop dustThreshold maxOutputAllowed (Digits.start amount.toNat outsCount)
    if hne : s.amount = 0 then .ok ⟨s.handleDust.pieces, .complete⟩
    else if s.multiplier = 0 then .ok ⟨s.pieces, .multiplierZero⟩
    else
      let split := splitLoop maxOutputAllowed maxOutsCount (s.amount * s.multiplier % 2 ^ 64)
        s.outsCount s.pieces
      if _hstopped : split.stopped then .ok ⟨split.pieces, .tooManyOutputs⟩
      else if split.amountMultiplied = 0 then
        .ok ⟨{ s with pieces := split.pieces }.handleDust.pieces, .complete⟩
      else do
        let inner ← decomposeAmountIntoDigits dustThreshold maxOutputAllowed maxOutsCount
          (UInt64.ofNat split.amountMultiplied) split.outsCount
        return ⟨{ s with pieces := split.pieces ++ inner.pieces }.handleDust.pieces, inner.ending⟩
termination_by amount.toNat
decreasing_by
  have hlt := splitLoop_lt hmax hne (Bool.eq_false_of_not_eq_true _hstopped)
  rw [UInt64.toNat_ofNat']
  exact lt_of_le_of_lt (Nat.mod_le _ _) hlt

section

variable {dustThreshold maxOutputAllowed maxOutsCount outsCount : Nat} {amount : UInt64}

/-- The endings at which a call gives up a part of the amount. -/
def Ending.Refuses (e : Ending) : Prop := e = .tooBigAmount ∨ e = .tooManyOutputs

/-- What a call promises. -/
structure Conserves (dustThreshold maxOutputAllowed maxOutsCount amount outsCount : Nat)
    (d : Decomposition) : Prop where
  ending : d.ending ≠ .multiplierZero
  le : total d.pieces ≤ amount
  whole : ¬ d.ending.Refuses → total d.pieces = amount
  within : Within dustThreshold maxOutputAllowed d.pieces
  few : chunkCount d.pieces ≤ maxOutsCount + 40
  tooBig : d.ending = .tooBigAmount → maxOutsCount < amount / maxOutputAllowed ∧ d.pieces = []
  /-- The limit is used up, and the rest is less than what one output for each digit can take. -/
  tooMany : d.ending = .tooManyOutputs → maxOutsCount ≤ outsCount + chunkCount d.pieces ∧
    total d.pieces < amount ∧
    amount < total d.pieces + maxOutputAllowed * (outsCount + 21) + dustThreshold

/-- A call that goes to its end promises all. -/
theorem conserves_complete {amount : Nat} {pieces : List Piece} (htotal : total pieces = amount)
    (hwithin : Within dustThreshold maxOutputAllowed pieces)
    (hfew : chunkCount pieces ≤ maxOutsCount + 40) :
    Conserves dustThreshold maxOutputAllowed maxOutsCount amount outsCount ⟨pieces, .complete⟩ where
  ending h := by cases h
  le := htotal.le
  whole _ := htotal
  within := hwithin
  few := hfew
  tooBig h := by cases h
  tooMany h := by cases h

theorem amount_lt_digits (amount : UInt64) : amount.toNat < 10 ^ 20 :=
  lt_trans amount.toNat_lt (by decide)

/-- Up to the largest output a call is one loop over the digits. -/
theorem decompose_in_one_loop (hne : amount ≠ 0) (hle : amount.toNat ≤ maxOutputAllowed)
    (houts : amount.toNat / maxOutputAllowed ≤ maxOutsCount) :
    ∃ pieces, decomposeAmountIntoDigits dustThreshold maxOutputAllowed maxOutsCount amount outsCount =
        .ok ⟨pieces, .complete⟩ ∧
      total pieces = amount.toNat ∧ chunkCount pieces ≤ 20 ∧
      Within dustThreshold maxOutputAllowed pieces := by
  obtain ⟨hs, hend⟩ := digitsLoop_account amount.toNat_lt
    (start_account amount.toNat outsCount dustThreshold maxOutputAllowed)
  have hfew := @digitsLoop_few dustThreshold maxOutputAllowed 20
    (Digits.start amount.toNat outsCount) (amount_lt_digits amount)
  have hzero : (digitsLoop dustThreshold maxOutputAllowed
      (Digits.start amount.toNat outsCount)).amount = 0 := by
    by_contra hne
    have hrest := max_lt_rest amount.toNat_lt hs hend hne
    have hfits := hs.fits
    omega
  have hpos : maxOutputAllowed ≠ 0 := by
    rintro rfl
    exact hne (UInt64.toNat_inj.mp (Nat.le_zero.mp hle))
  obtain ⟨htotal, hcount, hwithin⟩ := handleDust_pieces _ hs.dust hs.within
  have hwhole := hs.whole
  rw [hzero, Nat.zero_mul] at hwhole
  refine ⟨_, ?_, htotal.trans (by omega), ?_, hwithin⟩
  · rw [decomposeAmountIntoDigits, if_neg hne, dif_neg hpos, if_neg (not_lt.mpr houts)]
    exact dif_pos hzero
  · rw [hcount]
    exact le_trans hfew (by simp [Digits.start, chunkCount])

theorem decompose_small (hne : amount ≠ 0) (hlt : amount.toNat < maxOutputAllowed) :
    ∃ pieces, decomposeAmountIntoDigits dustThreshold maxOutputAllowed maxOutsCount amount outsCount =
        .ok ⟨pieces, .complete⟩ ∧
      total pieces = amount.toNat ∧ chunkCount pieces ≤ 20 ∧
      Within dustThreshold maxOutputAllowed pieces :=
  decompose_in_one_loop hne hlt.le (by rw [Nat.div_eq_of_lt hlt]; exact Nat.zero_le _)

theorem Within.append {xs ys : List Piece} (hxs : Within dustThreshold maxOutputAllowed xs)
    (hys : Within dustThreshold maxOutputAllowed ys) :
    Within dustThreshold maxOutputAllowed (xs ++ ys) where
  chunks n hn := (List.mem_append.mp hn).elim (hxs.chunks n) (hys.chunks n)
  dusts n hn := (List.mem_append.mp hn).elim (hxs.dusts n) (hys.dusts n)

theorem ofNat_value {n : Nat} (hne : n ≠ 0) (hlt : n < 2 ^ 64) :
    (UInt64.ofNat n).toNat = n ∧ UInt64.ofNat n ≠ 0 := by
  have hvalue : (UInt64.ofNat n).toNat = n := UInt64.toNat_ofNat_of_lt' hlt
  refine ⟨hvalue, fun h => hne ?_⟩
  rw [← hvalue, h]
  rfl

/-- A call with a largest output above zero ends, and what it hands out is accounted for. -/
theorem decompose_conserves (hmax : 0 < maxOutputAllowed) :
    ∃ d, decomposeAmountIntoDigits dustThreshold maxOutputAllowed maxOutsCount amount outsCount =
        .ok d ∧
      Conserves dustThreshold maxOutputAllowed maxOutsCount amount.toNat outsCount d := by
  by_cases hzero : amount = 0
  · refine ⟨⟨[], .zeroAmount⟩, by rw [decomposeAmountIntoDigits, if_pos hzero], ?_⟩
    subst hzero
    exact {
      ending := by decide
      le := le_rfl
      whole := fun _ => rfl
      within := ⟨fun _ h => (List.not_mem_nil h).elim, fun _ h => (List.not_mem_nil h).elim⟩
      few := Nat.zero_le _
      tooBig := fun h => by cases h
      tooMany := fun h => by cases h }
  by_cases hbig : amount.toNat / maxOutputAllowed > maxOutsCount
  · refine ⟨⟨[], .tooBigAmount⟩, by
      rw [decomposeAmountIntoDigits, if_neg hzero, dif_neg hmax.ne', if_pos hbig], ?_⟩
    exact {
      ending := by decide
      le := Nat.zero_le _
      whole := fun h => absurd (.inl rfl) h
      within := ⟨fun _ h => (List.not_mem_nil h).elim, fun _ h => (List.not_mem_nil h).elim⟩
      few := Nat.zero_le _
      tooBig := fun _ => ⟨hbig, rfl⟩
      tooMany := fun h => by cases h }
  obtain ⟨hs, hend⟩ := digitsLoop_account amount.toNat_lt
    (start_account amount.toNat outsCount dustThreshold maxOutputAllowed)
  have hfew := @digitsLoop_few dustThreshold maxOutputAllowed 20
    (Digits.start amount.toNat outsCount) (amount_lt_digits amount)
  have hstart : chunkCount (Digits.start amount.toNat outsCount).pieces = 0 := rfl
  rw [decomposeAmountIntoDigits, if_neg hzero, dif_neg hmax.ne', if_neg hbig]
  simp only
  generalize digitsLoop dustThreshold maxOutputAllowed (Digits.start amount.toNat outsCount) = s
    at hs hend hfew ⊢
  have hwhole := hs.whole
  by_cases hdone : s.amount = 0
  · obtain ⟨htotal, hcount, hwithin⟩ := handleDust_pieces s hs.dust hs.within
    rw [hdone, Nat.zero_mul] at hwhole
    rw [dif_pos hdone]
    exact ⟨_, rfl, conserves_complete (htotal.trans (by omega)) hwithin (hcount.trans_le (by omega))⟩
  have hrest := rest_eq amount.toNat_lt hs
  have hmultiplier := hs.multiplier hdone
  have hcounted := hs.counted
  have hfits := hs.fits
  have hquotient : s.amount * s.multiplier / maxOutputAllowed ≤ maxOutsCount := by
    calc s.amount * s.multiplier / maxOutputAllowed
      _ ≤ amount.toNat / maxOutputAllowed := Nat.div_le_div_right (by omega)
      _ ≤ maxOutsCount := not_lt.mp hbig
  have hafter := @splitLoop_account dustThreshold maxOutputAllowed maxOutsCount hmax
    (s.amount * s.multiplier) s.outsCount s.pieces
  rw [dif_neg hdone, if_neg hmultiplier.ne', hrest]
  generalize splitLoop maxOutputAllowed maxOutsCount (s.amount * s.multiplier) s.outsCount
    s.pieces = split at hafter ⊢
  have hsplit := hafter.whole
  have houts := hafter.counted
  have hsplitFew := hafter.few
  have hpieces := hafter.within hs.within
  by_cases hstopped : split.stopped = true
  · obtain ⟨hcheck, hleft⟩ := hafter.stopped hstopped
    have htaken := hafter.taken
    have hwaits : (if s.isDustHandled then 0 else s.dust) ≤ dustThreshold := by
      have hdust := hs.dust
      split <;> omega
    have hlimit : s.amount * s.multiplier < maxOutputAllowed * (split.outsCount + 1) := by
      rw [Nat.mul_comm maxOutputAllowed]
      exact (Nat.div_lt_iff_lt_mul hmax).mp (by omega)
    have hdigits : maxOutputAllowed * (s.outsCount + 1) ≤ maxOutputAllowed * (outsCount + 21) :=
      Nat.mul_le_mul_left _ (by omega)
    rw [Nat.mul_succ] at hlimit hdigits
    rw [dif_pos hstopped]
    refine ⟨_, rfl, ?_⟩
    exact {
      ending := fun h => by cases h
      le := by
        simp only
        omega
      whole := fun h => absurd (.inr rfl) h
      within := hpieces
      few := by
        simp only
        omega
      tooBig := fun h => by cases h
      tooMany := fun _ => by
        simp only
        exact ⟨by omega, by omega, by omega⟩ }
  rw [dif_neg hstopped]
  by_cases hnothing : split.amountMultiplied = 0
  · obtain ⟨htotal, hcount, hwithin⟩ := @handleDust_pieces dustThreshold maxOutputAllowed
      { s with pieces := split.pieces } hs.dust hpieces
    simp only at htotal hcount
    rw [if_pos hnothing]
    exact ⟨_, rfl, conserves_complete (htotal.trans (by omega)) hwithin (hcount.trans_le (by omega))⟩
  · -- the further call is below the largest output
    have hthrough := hafter.through (Bool.eq_false_of_not_eq_true hstopped)
    obtain ⟨hvalue, hne⟩ := ofNat_value hnothing
      (lt_of_le_of_lt (show split.amountMultiplied ≤ amount.toNat by omega) amount.toNat_lt)
    obtain ⟨inner, hinner, hinnerTotal, hinnerFew, hinnerWithin⟩ :=
      @decompose_small dustThreshold maxOutputAllowed maxOutsCount split.outsCount _ hne
        (by rwa [hvalue])
    obtain ⟨htotal, hcount, hwithin⟩ := @handleDust_pieces dustThreshold maxOutputAllowed
      { s with pieces := split.pieces ++ inner } hs.dust (hpieces.append hinnerWithin)
    simp only [total_append, chunkCount_append] at htotal hcount
    rw [if_neg hnothing, hinner, ok_bind]
    exact ⟨_, rfl, conserves_complete (htotal.trans (by omega)) hwithin (hcount.trans_le (by omega))⟩

/-- Without a largest output above zero the guard divides by zero. -/
theorem decompose_zero_max (hne : amount ≠ 0) :
    decomposeAmountIntoDigits dustThreshold 0 maxOutsCount amount outsCount =
      .error .divisionByZero := by
  rw [decomposeAmountIntoDigits, if_neg hne, dif_pos rfl]

theorem decompose_conserves_sample :
    ∃ d, decomposeAmountIntoDigits 0 1000000 2000 5023000 0 = .ok d ∧
      Conserves 0 1000000 2000 5023000 0 d :=
  @decompose_conserves 0 1000000 2000 0 5023000 (by decide)

/-- With a limit of 3 and a largest output of 10 the call for 39 stops after 29; with the same limit
the digits of 12345 are five outputs; and below a threshold of 1000 the dust of 555 is above a
largest output of 500. -/
theorem decompose_does_not_conserve :
    decomposeAmountIntoDigits 0 10 3 39 0 =
      .ok ⟨[.chunk 9, .chunk 10, .chunk 10], .tooManyOutputs⟩ ∧
    decomposeAmountIntoDigits 0 100000 3 12345 0 =
      .ok ⟨[.chunk 5, .chunk 40, .chunk 300, .chunk 2000, .chunk 10000], .complete⟩ ∧
    decomposeAmountIntoDigits 1000 500 3 555 0 = .ok ⟨[.dust 555], .complete⟩ := by
  decide +kernel

end

end Chinet
