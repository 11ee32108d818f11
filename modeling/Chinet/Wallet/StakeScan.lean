import Mathlib.Data.List.Nodup
import Chinet.FormatUtils
import Chinet.Lib.OrderedSearch
import Chinet.Lib.PartialSteps
import Chinet.Difficulty

/-!
# The wallet's scan for a stake

`wallet2::scan_pos` looks for a stake entry and a timestamp whose kernel meets the difficulty.  For
each entry it goes outward from the middle of the interval, a step into the past and one into
the future, as far as the window reaches.

The window is the smaller one of the two distances from the middle to the ends.  The middle is
rounded down, so that the window ends at the last timestamp only when the interval has an even
number of steps: otherwise no kernel of the last timestamp is tried (`lastScanned`).
-/

namespace Chinet

open OrderedSearch PartialSteps

/-! ## The scan -/

structure PosEntry where
  amount : UInt64
  index : Nat
  keyimage : KeyImage
  blockTimestamp : Nat
  stakeUnlockTime : Nat
  walletIndex : Nat
deriving DecidableEq

/-- What the scan reads of `mining_context`. -/
structure MiningContext where
  posEntries : List PosEntry
  starterTimestamp : UInt64
  basicDiff : WideDifficulty
  sm : StakeModifier

/-- At which turns the callback, when the clock calls it, or `stop` end the scan. -/
structure ScanSignals where
  idle : Nat → Bool
  stop : Nat → Bool

def ScanSignals.none : ScanSignals := ⟨fun _ => false, fun _ => false⟩

/-- The kernel of an entry, as both programs build it. -/
def PosEntry.buildKernel (pe : PosEntry) (stakeModifier : StakeModifier) (timestamp : Nat) :
    StakeKernel where
  stakeModifier
  blockTimestamp := timestamp
  kimage := pe.keyimage

/-- The kernel meets the difficulty of the entry's amount. -/
def kernelPasses (crypto : CryptoPrimitives) (basicDiff : WideDifficulty) (sm : StakeModifier)
    (pe : PosEntry) (ts : Nat) : Bool :=
  checkHash (crypto.kernelHash (pe.buildKernel sm ts)) (basicDiff / BitVec.ofNat 128 pe.amount.toNat)

/-- One try; the difficulty is divided by the amount. -/
def tryKernel (crypto : CryptoPrimitives) (basicDiff : WideDifficulty) (sm : StakeModifier)
    (pe : PosEntry) (ts : Nat) : Defined Bool :=
  if pe.amount = 0 then .error .divisionByZero else .ok (kernelPasses crypto basicDiff sm pe ts)

/-- The kernel of an entry passes; without an amount there is no difficulty to meet. -/
def entryPasses (crypto : CryptoPrimitives) (basicDiff : WideDifficulty) (sm : StakeModifier)
    (pe : PosEntry) (ts : Nat) : Bool :=
  pe.amount ≠ 0 && kernelPasses crypto basicDiff sm pe ts

/-- The numbers of the scan, in words of 64 bits. -/
structure ScanBounds where
  tsFrom : Nat
  tsTo : Nat
  tsMiddle : Nat
  tsWindow : Nat
deriving DecidableEq, Repr

def scanFrom (starterTimestamp : UInt64) : Nat :=
  (starterTimestamp.toNat - starterTimestamp.toNat % posScanStep + posScanStep) % 2 ^ 64

def scanTo (coreTime : UInt64) : Nat :=
  let tsTo := (coreTime.toNat + currencyPosBlockFutureTimeLimit - 5) % 2 ^ 64
  tsTo - tsTo % posScanStep

/-- The middle of an interval, rounded down to the step, and the smaller distance from it. -/
def ScanBounds.of (tsFrom tsTo : Nat) : ScanBounds :=
  let tsMiddle := (tsTo + tsFrom) % 2 ^ 64 / 2
  let tsMiddle := tsMiddle - tsMiddle % posScanStep
  { tsFrom
    tsTo
    tsMiddle
    tsWindow := min ((tsMiddle + 2 ^ 64 - tsFrom) % 2 ^ 64) ((tsTo + 2 ^ 64 - tsMiddle) % 2 ^ 64) }

/-- `step` and `go_past`. -/
structure ScanTurn where
  step : Nat
  goPast : Bool
deriving DecidableEq, Repr

namespace ScanTurn

def start : ScanTurn := ⟨0, true⟩

/-- `next_turn`.  The step does not wrap: no window ends at the last word (`tsWindow_lt`). -/
def nextTurn (s : ScanTurn) : ScanTurn :=
  if s.step = 0 then { s with step := s.step + posScanStep }
  else if s.goPast then { s with goPast := false }
  else ⟨s.step + posScanStep, true⟩

def ts (s : ScanTurn) (tsMiddle : Nat) : Nat :=
  if s.goPast then (tsMiddle + 2 ^ 64 - s.step) % 2 ^ 64 else (tsMiddle + s.step) % 2 ^ 64

/-- The turns that are left grow less. -/
def rank (s : ScanTurn) (tsWindow : Nat) : Nat :=
  2 * (tsWindow + posScanStep - s.step) + s.goPast.toNat

theorem rank_nextTurn {s : ScanTurn} {tsWindow : Nat} (h : s.step ≤ tsWindow) :
    s.nextTurn.rank tsWindow < s.rank tsWindow := by
  rw [nextTurn, rank, rank, posScanStep]
  split
  · simp only
    omega
  · split
    · rename_i hpast
      simp only [hpast, Bool.toNat_true, Bool.toNat_false]
      omega
    · simp only [Bool.toNat_true]
      omega

end ScanTurn

/-- How the turns for one entry end. -/
inductive EntryScan
  | found (ts : Nat)
  | interrupted
  | exhausted
deriving DecidableEq, Repr

/-- The end of an entry's turns, their number so far, and the timestamps that were tried. -/
structure ScannedEntry where
  outcome : EntryScan
  turns : Nat
  tried : List Nat
deriving DecidableEq, Repr

/-- The turns for one entry. -/
def scanEntry (kernel : Nat → Defined Bool) (signals : ScanSignals) (b : ScanBounds) (s : ScanTurn)
    (turns : Nat) (tried : List Nat) : Defined ScannedEntry :=
  if _hstep : s.step ≤ b.tsWindow then
    if signals.idle turns then .ok ⟨.interrupted, turns, tried⟩
    else if s.ts b.tsMiddle < b.tsFrom ∨ b.tsTo < s.ts b.tsMiddle then
      scanEntry kernel signals b s.nextTurn (turns + 1) tried
    else if signals.stop turns then .ok ⟨.interrupted, turns, tried⟩
    else
      match kernel (s.ts b.tsMiddle) with
      | .error e => .error e
      | .ok true => .ok ⟨.found (s.ts b.tsMiddle), turns + 1, tried ++ [s.ts b.tsMiddle]⟩
      | .ok false =>
          scanEntry kernel signals b s.nextTurn (turns + 1) (tried ++ [s.ts b.tsMiddle])
  else .ok ⟨.exhausted, turns, tried⟩
termination_by s.rank b.tsWindow
decreasing_by
  · exact ScanTurn.rank_nextTurn _hstep
  · exact ScanTurn.rank_nextTurn _hstep

/-- The response: index and timestamp of a found kernel, and every try in its order, whose number
is `iterations_processed`. -/
structure ScanResponse where
  found : Option (Nat × Nat)
  tried : List (Nat × Nat)
deriving DecidableEq, Repr

/-- The loop over the entries. -/
def scanEntries (kernel : PosEntry → Nat → Defined Bool) (signals : ScanSignals) (b : ScanBounds) :
    List PosEntry → Nat → Nat → List (Nat × Nat) → Defined ScanResponse
  | [], _, _, tried => .ok ⟨none, tried⟩
  | pe :: entries, i, turns, tried =>
      match scanEntry (kernel pe) signals b .start turns [] with
      | .error e => .error e
      | .ok scanned =>
          let tried := tried ++ scanned.tried.map fun ts => (i, ts)
          match scanned.outcome with
          | .found ts => .ok ⟨some (i, ts), tried⟩
          | .interrupted => .ok ⟨none, tried⟩
          | .exhausted => scanEntries kernel signals b entries (i + 1) scanned.turns tried

/-- `wallet2::scan_pos`; an interval without a step is refused. -/
def walletScanPos (crypto : CryptoPrimitives) (cxt : MiningContext) (signals : ScanSignals)
    (coreTime : UInt64) : Defined ScanResponse :=
  let tsFrom := scanFrom cxt.starterTimestamp
  let tsTo := scanTo coreTime
  if tsTo ≤ tsFrom then .ok ⟨none, []⟩
  else
    scanEntries (tryKernel crypto cxt.basicDiff cxt.sm) signals (.of tsFrom tsTo) cxt.posEntries 0 0 []

/-! ## The timestamps of the turns -/

section

variable {b : ScanBounds}

/-- The timestamp of a number of steps into the past. -/
def ScanBounds.past (b : ScanBounds) (k : Nat) : Nat :=
  (b.tsMiddle + 2 ^ 64 - posScanStep * k) % 2 ^ 64

def ScanBounds.future (b : ScanBounds) (k : Nat) : Nat := (b.tsMiddle + posScanStep * k) % 2 ^ 64

def ScanBounds.inside (b : ScanBounds) (ts : Nat) : Bool := b.tsFrom ≤ ts ∧ ts ≤ b.tsTo

/-- The timestamps that are tried at a distance: the middle has only one. -/
def ScanBounds.stepTimes (b : ScanBounds) (k : Nat) : List Nat :=
  (b.past k :: if k = 0 then [] else [b.future k]).filter b.inside

/-- The number of distances in the window. -/
def ScanBounds.steps (b : ScanBounds) : Nat := b.tsWindow / posScanStep + 1

/-- The timestamps from a distance on, in the order of their turns. -/
def ScanBounds.timesFrom (b : ScanBounds) (k : Nat) : List Nat :=
  (List.range' k (b.steps - k)).flatMap b.stepTimes

theorem ScanBounds.timesFrom_succ {k : Nat} (h : k < b.steps) :
    b.timesFrom k = b.stepTimes k ++ b.timesFrom (k + 1) := by
  have hcount : b.steps - k = b.steps - (k + 1) + 1 := by omega
  rw [timesFrom, timesFrom, hcount, List.range'_succ, List.flatMap_cons]

theorem ScanBounds.timesFrom_end {k : Nat} (h : b.steps ≤ k) : b.timesFrom k = [] := by
  rw [timesFrom, Nat.sub_eq_zero_of_le h]
  rfl

theorem ScanBounds.lt_steps {k : Nat} : k < b.steps ↔ posScanStep * k ≤ b.tsWindow := by
  rw [steps, posScanStep]
  omega

/-- The timestamps that a turn still has before it. -/
def ScanBounds.timesAt (b : ScanBounds) (s : ScanTurn) : List Nat :=
  if s.goPast then b.timesFrom (s.step / posScanStep)
  else [b.future (s.step / posScanStep)].filter b.inside ++ b.timesFrom (s.step / posScanStep + 1)

/-- A turn has a whole number of steps, none in the middle but the first, and one into the future
only after one into the past. -/
structure ScanTurn.Regular (b : ScanBounds) (s : ScanTurn) : Prop where
  step : posScanStep ∣ s.step
  middle : s.step = 0 → s.goPast = true
  future : s.goPast = false → s.step ≤ b.tsWindow

theorem ScanTurn.Regular.nextTurn {s : ScanTurn} (h : s.Regular b) (hin : s.step ≤ b.tsWindow) :
    s.nextTurn.Regular b := by
  have hnext : posScanStep ∣ s.step + posScanStep := Nat.dvd_add h.step (Nat.dvd_refl _)
  have hpos : s.step + posScanStep ≠ 0 := Nat.succ_ne_zero _
  rw [ScanTurn.nextTurn]
  split
  · rename_i hzero
    refine ⟨hnext, fun h' => absurd h' hpos, fun hfuture => ?_⟩
    rw [h.middle hzero] at hfuture
    cases hfuture
  · rename_i hne
    split
    · exact ⟨h.step, fun hzero => absurd hzero hne, fun _ => hin⟩
    · exact ⟨hnext, fun _ => rfl, fun hfuture => by cases hfuture⟩

theorem ScanTurn.start_regular : ScanTurn.start.Regular b :=
  ⟨Nat.dvd_zero _, fun _ => rfl, fun h => by cases h⟩

@[simp] theorem step_quotient (k : Nat) : posScanStep * k / posScanStep = k :=
  Nat.mul_div_cancel_left k (by decide)

theorem ScanBounds.timesAt_past (k : Nat) : b.timesAt ⟨posScanStep * k, true⟩ = b.timesFrom k := by
  rw [timesAt, if_pos rfl, step_quotient]

theorem ScanBounds.timesAt_future (k : Nat) :
    b.timesAt ⟨posScanStep * k, false⟩ = [b.future k].filter b.inside ++ b.timesFrom (k + 1) := by
  rw [timesAt, if_neg Bool.false_ne_true, step_quotient]

/-- A turn in the window tries its timestamp, if that is inside, and goes on to the rest. -/
theorem ScanBounds.timesAt_turn {s : ScanTurn} (hs : s.Regular b) (h : s.step ≤ b.tsWindow) :
    b.timesAt s = [s.ts b.tsMiddle].filter b.inside ++ b.timesAt s.nextTurn := by
  obtain ⟨k, hk⟩ := hs.step
  obtain ⟨step, goPast⟩ := s
  obtain rfl : step = posScanStep * k := hk
  have hin : k < b.steps := lt_steps.mpr h
  cases goPast with
  | false =>
      -- the other way was tried before: on to the next step
      have hmiddle : posScanStep * k ≠ 0 := fun hzero => Bool.false_ne_true (hs.middle hzero)
      have hts : ScanTurn.ts ⟨posScanStep * k, false⟩ b.tsMiddle = b.future k := by
        rw [ScanTurn.ts, if_neg Bool.false_ne_true, future]
      rw [ScanTurn.nextTurn, if_neg hmiddle, if_neg Bool.false_ne_true, ← Nat.mul_succ, timesAt_past,
        timesAt_future, hts]
  | true =>
      have hts : ScanTurn.ts ⟨posScanStep * k, true⟩ b.tsMiddle = b.past k := by
        rw [ScanTurn.ts, if_pos rfl, past]
      rw [timesAt_past, timesFrom_succ hin, stepTimes, hts]
      by_cases hzero : k = 0
      · subst hzero
        have hnext : ScanTurn.nextTurn ⟨posScanStep * 0, true⟩ = ⟨posScanStep * 1, true⟩ := rfl
        rw [if_pos rfl, hnext, timesAt_past]
      · have hstep : posScanStep * k ≠ 0 := Nat.mul_ne_zero (by decide) hzero
        rw [ScanTurn.nextTurn, if_neg hzero, if_neg hstep, if_pos rfl, timesAt_future,
          ← List.append_assoc, ← List.filter_append, List.singleton_append]

theorem ScanTurn.filter_outside (s : ScanTurn)
    (h : s.ts b.tsMiddle < b.tsFrom ∨ b.tsTo < s.ts b.tsMiddle) :
    [s.ts b.tsMiddle].filter b.inside = [] := by
  rw [List.filter_cons_of_neg, List.filter_nil]
  rw [ScanBounds.inside, decide_eq_true_eq]
  omega

theorem ScanTurn.filter_inside (s : ScanTurn)
    (h : ¬ (s.ts b.tsMiddle < b.tsFrom ∨ b.tsTo < s.ts b.tsMiddle)) :
    [s.ts b.tsMiddle].filter b.inside = [s.ts b.tsMiddle] := by
  rw [List.filter_cons_of_pos, List.filter_nil]
  rw [ScanBounds.inside, decide_eq_true_eq]
  omega

/-- A turn behind the window has nothing before it. -/
theorem ScanTurn.Regular.timesAt_end {s : ScanTurn} (hs : s.Regular b) (h : ¬ s.step ≤ b.tsWindow) :
    b.timesAt s = [] := by
  obtain ⟨k, hk⟩ := hs.step
  obtain ⟨step, goPast⟩ := s
  obtain rfl : step = posScanStep * k := hk
  have hend : b.steps ≤ k := not_lt.mp fun hlt => h (ScanBounds.lt_steps.mp hlt)
  cases goPast with
  | false => exact absurd (hs.future rfl) h
  | true => rw [ScanBounds.timesAt_past, ScanBounds.timesFrom_end hend]

/-! ## One entry -/

/-- A turn at which the scan can be ended from outside. -/
def ScanSignals.Interrupts (signals : ScanSignals) : Prop :=
  ∃ turn, signals.idle turn = true ∨ signals.stop turn = true

theorem ScanSignals.none_not_interrupts : ¬ ScanSignals.none.Interrupts := by
  rintro ⟨turn, h | h⟩
  · cases h
  · cases h

def EntryScan.ofSearch : Option Nat → EntryScan
  | none => .exhausted
  | some ts => .found ts

/-- The turns for an entry search its timestamps in their order, if nothing interrupts them. -/
theorem scanEntry_search {kernel : Nat → Defined Bool} {signals : ScanSignals} {s : ScanTurn}
    (hs : s.Regular b) (turns : Nat) (tried : List Nat) :
    (scanEntry kernel signals b s turns tried).map ScannedEntry.outcome =
        (search kernel (b.timesAt s)).map EntryScan.ofSearch ∨
      (signals.Interrupts ∧ ∃ scanned, scanEntry kernel signals b s turns tried = .ok scanned ∧
        scanned.outcome = .interrupted) := by
  induction s, turns, tried using scanEntry.induct kernel signals b with
  | case1 s turns tried hstep hidle =>
      rw [scanEntry, dif_pos hstep, if_pos hidle]
      exact .inr ⟨⟨turns, .inl hidle⟩, _, rfl, rfl⟩
  | case2 s turns tried hstep hidle houtside ih =>
      rw [scanEntry, dif_pos hstep, if_neg hidle, if_pos houtside, ScanBounds.timesAt_turn hs hstep,
        s.filter_outside houtside, List.nil_append]
      exact ih (hs.nextTurn hstep)
  | case3 s turns tried hstep hidle hinside hstop =>
      rw [scanEntry, dif_pos hstep, if_neg hidle, if_neg hinside, if_pos hstop]
      exact .inr ⟨⟨turns, .inr hstop⟩, _, rfl, rfl⟩
  | case4 s turns tried hstep hidle hinside hstop e he =>
      rw [scanEntry, dif_pos hstep, if_neg hidle, if_neg hinside, if_neg hstop, he,
        ScanBounds.timesAt_turn hs hstep, s.filter_inside hinside, List.singleton_append, search, he]
      exact .inl rfl
  | case5 s turns tried hstep hidle hinside hstop hfound =>
      rw [scanEntry, dif_pos hstep, if_neg hidle, if_neg hinside, if_neg hstop, hfound,
        ScanBounds.timesAt_turn hs hstep, s.filter_inside hinside, List.singleton_append, search,
        hfound]
      exact .inl rfl
  | case6 s turns tried hstep hidle hinside hstop hnot ih =>
      rw [scanEntry, dif_pos hstep, if_neg hidle, if_neg hinside, if_neg hstop, hnot,
        ScanBounds.timesAt_turn hs hstep, s.filter_inside hinside, List.singleton_append, search,
        hnot]
      exact ih (hs.nextTurn hstep)
  | case7 s turns tried hstep =>
      rw [scanEntry, dif_neg hstep, hs.timesAt_end hstep]
      exact .inl rfl

/-- What the turns for an entry try is a first part of its timestamps. -/
theorem scanEntry_tried {kernel : Nat → Defined Bool} {signals : ScanSignals} {s : ScanTurn}
    (hs : s.Regular b) {turns : Nat} {tried : List Nat} {scanned : ScannedEntry}
    (h : scanEntry kernel signals b s turns tried = .ok scanned) :
    ∃ new, scanned.tried = tried ++ new ∧ new <+: b.timesAt s := by
  induction s, turns, tried using scanEntry.induct kernel signals b with
  | case1 s turns tried hstep hidle =>
      rw [scanEntry, dif_pos hstep, if_pos hidle] at h
      cases h
      exact ⟨[], (List.append_nil _).symm, List.nil_prefix⟩
  | case2 s turns tried hstep hidle houtside ih =>
      rw [scanEntry, dif_pos hstep, if_neg hidle, if_pos houtside] at h
      rw [ScanBounds.timesAt_turn hs hstep, s.filter_outside houtside, List.nil_append]
      exact ih (hs.nextTurn hstep) h
  | case3 s turns tried hstep hidle hinside hstop =>
      rw [scanEntry, dif_pos hstep, if_neg hidle, if_neg hinside, if_pos hstop] at h
      cases h
      exact ⟨[], (List.append_nil _).symm, List.nil_prefix⟩
  | case4 s turns tried hstep hidle hinside hstop e he =>
      rw [scanEntry, dif_pos hstep, if_neg hidle, if_neg hinside, if_neg hstop, he] at h
      cases h
  | case5 s turns tried hstep hidle hinside hstop hfound =>
      rw [scanEntry, dif_pos hstep, if_neg hidle, if_neg hinside, if_neg hstop, hfound] at h
      cases h
      rw [ScanBounds.timesAt_turn hs hstep, s.filter_inside hinside]
      exact ⟨[s.ts b.tsMiddle], rfl, List.prefix_append _ _⟩
  | case6 s turns tried hstep hidle hinside hstop hnot ih =>
      rw [scanEntry, dif_pos hstep, if_neg hidle, if_neg hinside, if_neg hstop, hnot] at h
      obtain ⟨new, hnew, hpart⟩ := ih (hs.nextTurn hstep) h
      rw [ScanBounds.timesAt_turn hs hstep, s.filter_inside hinside]
      refine ⟨s.ts b.tsMiddle :: new, ?_, (List.prefix_cons_inj _).mpr hpart⟩
      rw [hnew, List.append_assoc, List.singleton_append]
  | case7 s turns tried hstep =>
      rw [scanEntry, dif_neg hstep] at h
      cases h
      exact ⟨[], (List.append_nil _).symm, List.nil_prefix⟩

/-! ## All entries -/

theorem scanEntries_search {kernel : PosEntry → Nat → Defined Bool} {signals : ScanSignals}
    {entries : List PosEntry} (i turns : Nat) (tried : List (Nat × Nat)) :
    (scanEntries kernel signals b entries i turns tried).map ScanResponse.found =
        searchAll kernel (b.timesAt .start) i entries ∨
      (signals.Interrupts ∧ ∃ r, scanEntries kernel signals b entries i turns tried = .ok r ∧
        r.found = none) := by
  induction entries generalizing i turns tried with
  | nil => exact .inl rfl
  | cons pe entries ih =>
      rw [scanEntries, searchAll]
      obtain hentry | ⟨hsignal, scanned, hscanned, hinterrupted⟩ :=
        @scanEntry_search b (kernel pe) signals .start ScanTurn.start_regular turns []
      · cases hsearch : search (kernel pe) (b.timesAt .start) with
        | error e =>
            rw [hsearch] at hentry
            rw [map_eq_error_iff.mp hentry]
            exact .inl rfl
        | ok found =>
            rw [hsearch] at hentry
            obtain ⟨scanned, hscan, houtcome⟩ := map_eq_ok_iff.mp hentry
            rw [hscan]
            dsimp only
            rw [houtcome]
            cases found with
            | none => exact ih (i + 1) scanned.turns _
            | some ts => exact .inl rfl
      · rw [hscanned]
        dsimp only
        rw [hinterrupted]
        exact .inr ⟨hsignal, _, rfl, rfl⟩

theorem scanEntries_uninterrupted (kernel : PosEntry → Nat → Defined Bool) (entries : List PosEntry)
    (i turns : Nat) (tried : List (Nat × Nat)) :
    (scanEntries kernel .none b entries i turns tried).map ScanResponse.found =
      searchAll kernel (b.timesAt .start) i entries :=
  (scanEntries_search i turns tried).resolve_right fun h =>
    ScanSignals.none_not_interrupts h.1

/-- Tries for entries from a number on, each at one of the timestamps and none made twice. -/
structure TriesFrom (times : List Nat) (i : Nat) (new : List (Nat × Nat)) : Prop where
  range : ∀ p ∈ new, i ≤ p.1 ∧ p.2 ∈ times
  nodup : new.Nodup

theorem scanEntries_tried {kernel : PosEntry → Nat → Defined Bool} {signals : ScanSignals}
    (hnodup : (b.timesAt .start).Nodup) {entries : List PosEntry} {i turns : Nat}
    {tried : List (Nat × Nat)} {r : ScanResponse}
    (h : scanEntries kernel signals b entries i turns tried = .ok r) :
    ∃ new, r.tried = tried ++ new ∧ TriesFrom (b.timesAt .start) i new := by
  induction entries generalizing i turns tried with
  | nil =>
      cases h
      exact ⟨[], (List.append_nil _).symm, List.forall_mem_nil _, List.nodup_nil⟩
  | cons pe entries ih =>
      rw [scanEntries] at h
      split at h
      · cases h
      · rename_i scanned hscanned
        obtain ⟨new, hnew, hpart⟩ := scanEntry_tried ScanTurn.start_regular hscanned
        rw [List.nil_append] at hnew
        have hfirst : ∀ p ∈ scanned.tried.map fun ts => (i, ts),
            p.1 = i ∧ p.2 ∈ b.timesAt .start := by
          intro p hp
          obtain ⟨ts, hts, rfl⟩ := List.mem_map.mp hp
          exact ⟨rfl, hpart.subset (hnew ▸ hts)⟩
        have hfirstNodup : (scanned.tried.map fun ts => (i, ts)).Nodup := by
          rw [hnew]
          exact (hpart.sublist.nodup hnodup).map fun ts ts' heq => congrArg Prod.snd heq
        have hone : TriesFrom (b.timesAt .start) i (scanned.tried.map fun ts => (i, ts)) :=
          ⟨fun p hp => ⟨(hfirst p hp).1.ge, (hfirst p hp).2⟩, hfirstNodup⟩
        simp only at h
        split at h
        · cases h
          exact ⟨_, rfl, hone⟩
        · cases h
          exact ⟨_, rfl, hone⟩
        · obtain ⟨later, hr, hlater⟩ := ih h
          refine ⟨_, hr.trans (List.append_assoc _ _ _), fun p hp => ?_, ?_⟩
          · rcases List.mem_append.mp hp with hp | hp
            · exact hone.range p hp
            · exact ⟨(Nat.le_succ i).trans (hlater.range p hp).1, (hlater.range p hp).2⟩
          · -- the tries for later entries carry later numbers
            rw [List.nodup_append']
            refine ⟨hfirstNodup, hlater.nodup, fun p hp hp' => ?_⟩
            have hnumber := (hfirst p hp).1
            have hafter := (hlater.range p hp').1
            omega

/-! ## Entries without an amount -/

/-- The kernels of the entries, which are not defined for those without an amount. -/
structure KernelOf (kernel : PosEntry → Nat → Defined Bool) (f : PosEntry → Nat → Bool) : Prop where
  defined : ∀ pe, pe.amount ≠ 0 → ∀ ts, kernel pe ts = .ok (f pe ts)
  undefined : ∀ pe, pe.amount = 0 → ∀ ts, kernel pe ts = .error .divisionByZero

theorem KernelOf.eq_ok {kernel : PosEntry → Nat → Defined Bool} {f : PosEntry → Nat → Bool}
    (hkernel : KernelOf kernel f) {pe : PosEntry} {ts : Nat} {passes : Bool}
    (h : kernel pe ts = .ok passes) : pe.amount ≠ 0 ∧ f pe ts = passes := by
  have hamount : pe.amount ≠ 0 := fun hzero => by
    rw [hkernel.undefined pe hzero] at h
    cases h
  rw [hkernel.defined pe hamount] at h
  exact ⟨hamount, Except.ok.inj h⟩

/-- Before an entry without an amount stands one that passes at one of the timestamps. -/
def PassesBeforeZero (f : PosEntry → Nat → Bool) (times : List Nat) (entries : List PosEntry) :
    Prop :=
  ∀ before pe after, entries = before ++ pe :: after → pe.amount = 0 →
    ∃ pe' ∈ before, ∃ ts ∈ times, f pe' ts = true

/-- A search throws when it comes to an entry without an amount. -/
theorem searchAll_isOk_iff {kernel : PosEntry → Nat → Defined Bool} {f : PosEntry → Nat → Bool}
    (hkernel : KernelOf kernel f) {times : List Nat} (htimes : times ≠ []) {i : Nat}
    {entries : List PosEntry} :
    (∃ found, searchAll kernel times i entries = .ok found) ↔ PassesBeforeZero f times entries := by
  constructor
  · rintro ⟨found, hfound⟩ before zero after rfl hzero
    have hnever {ts : Nat} {passes : Bool} (h : kernel zero ts = .ok passes) : False :=
      (hkernel.eq_ok h).1 hzero
    obtain ⟨ts, hts⟩ := List.exists_mem_of_ne_nil times htimes
    cases found with
    | none =>
        have hmem : zero ∈ before ++ zero :: after := List.mem_append_right _ List.mem_cons_self
        exact (hnever (searchAll_eq_none_iff.mp hfound zero hmem ts hts)).elim
    | some p =>
        obtain ⟨k, pe, -, first, rest, hsplit, -, hfailed, hfirst⟩ :=
          searchAll_eq_some_iff.mp hfound
        have hpasses := hfirst.passes
        -- the entry that passes is before the one without an amount
        have hmem : pe ∈ before := by
          obtain ⟨l, rfl, hl⟩ | ⟨l, rfl, hl⟩ := List.append_eq_append_iff.mp hsplit
          · cases l with
            | nil =>
                cases hl
                exact (hnever hpasses).elim
            | cons x l =>
                cases hl
                have hbefore : zero ∈ before ++ zero :: l :=
                  List.mem_append_right before List.mem_cons_self
                exact (hnever (hfailed zero hbefore ts hts)).elim
          · cases l with
            | nil =>
                cases hl
                exact (hnever hpasses).elim
            | cons x l =>
                cases hl
                exact List.mem_append_right _ List.mem_cons_self
        exact ⟨pe, hmem, p.2, hfirst.mem, (hkernel.eq_ok hpasses).2⟩
  · intro hbefore
    cases hsearch : searchAll kernel times i entries with
    | ok found => exact ⟨found, rfl⟩
    | error e =>
        obtain ⟨before, zero, after, hentries, hfailed, ts, -, herror⟩ :=
          exists_of_searchAll_eq_error hsearch
        have hzero : zero.amount = 0 := by
          by_contra hamount
          rw [hkernel.defined zero hamount] at herror
          cases herror
        obtain ⟨pe, hpe, ts, hts, hf⟩ := hbefore before zero after hentries hzero
        rw [(hkernel.eq_ok (hfailed pe hpe ts hts)).2] at hf
        cases hf

/-! ## Which timestamps are tried -/

theorem mem_timesAt_start {ts : Nat} :
    ts ∈ b.timesAt .start ↔ (b.tsFrom ≤ ts ∧ ts ≤ b.tsTo) ∧
      ∃ k, posScanStep * k ≤ b.tsWindow ∧ (ts = b.past k ∨ ts = b.future k) := by
  have hstart : ScanTurn.start = ⟨posScanStep * 0, true⟩ := rfl
  rw [hstart, ScanBounds.timesAt_past, ScanBounds.timesFrom, List.mem_flatMap]
  constructor
  · rintro ⟨k, hk, hts⟩
    obtain ⟨hmem, hinside⟩ := List.mem_filter.mp hts
    rw [ScanBounds.inside, decide_eq_true_eq] at hinside
    have hlt : k < b.steps := by
      have hrange := (List.mem_range'_1.mp hk).2
      omega
    refine ⟨hinside, k, ScanBounds.lt_steps.mp hlt, ?_⟩
    rcases List.mem_cons.mp hmem with hpast | hfuture
    · exact .inl hpast
    · split at hfuture
      · cases hfuture
      · exact .inr (List.mem_singleton.mp hfuture)
  · rintro ⟨hinside, k, hk, hts⟩
    refine ⟨k, ?_, List.mem_filter.mpr ⟨?_, ?_⟩⟩
    · have hlt := ScanBounds.lt_steps.mpr hk
      exact List.mem_range'_1.mpr ⟨Nat.zero_le k, by omega⟩
    · rcases hts with hpast | hfuture
      · exact hpast ▸ List.mem_cons_self
      · by_cases hzero : k = 0
        · -- both ways are the middle at first
          have hsame : b.future 0 = b.past 0 := by
            rw [ScanBounds.future, ScanBounds.past, Nat.mul_zero, Nat.sub_zero, Nat.add_zero,
              Nat.add_mod_right]
          rw [hfuture, hzero, hsame]
          exact List.mem_cons_self
        · rw [if_neg hzero, hfuture]
          exact List.mem_cons_of_mem _ (List.mem_singleton_self _)
    · rw [ScanBounds.inside, decide_eq_true_eq]
      exact hinside

theorem past_injective {m x y : Nat} (hx : x < 2 ^ 64) (hy : y < 2 ^ 64)
    (h : (m + 2 ^ 64 - x) % 2 ^ 64 = (m + 2 ^ 64 - y) % 2 ^ 64) : x = y := by
  omega

theorem future_injective {m x y : Nat} (hx : x < 2 ^ 64) (hy : y < 2 ^ 64)
    (h : (m + x) % 2 ^ 64 = (m + y) % 2 ^ 64) : x = y := by
  omega

/-- A distance into the past and one into the future meet in the middle or around the words. -/
theorem past_eq_future {m x y : Nat} (hx : x < 2 ^ 64) (hy : y < 2 ^ 64)
    (h : (m + 2 ^ 64 - x) % 2 ^ 64 = (m + y) % 2 ^ 64) : x + y = 0 ∨ x + y = 2 ^ 64 := by
  omega

/-- Fifteen does not divide `2 ^ 64`. -/
theorem steps_ne_words {j k : Nat}
    (h : posScanStep * j + posScanStep * k = 0 ∨ posScanStep * j + posScanStep * k = 2 ^ 64) :
    j = 0 ∧ k = 0 := by
  rw [posScanStep] at h
  omega

/-- No timestamp is tried twice: two distances cannot be a whole turn of the words apart. -/
theorem timesAt_start_nodup (hwindow : b.tsWindow < 2 ^ 64) : (b.timesAt .start).Nodup := by
  have hstart : ScanTurn.start = ⟨posScanStep * 0, true⟩ := rfl
  have hstep (k : Nat) (hk : k ∈ List.range' 0 (b.steps - 0)) : posScanStep * k < 2 ^ 64 := by
    have hrange := (List.mem_range'_1.mp hk).2
    exact lt_of_le_of_lt (ScanBounds.lt_steps.mp (by omega)) hwindow
  have hpast {j k : Nat} (hj : posScanStep * j < 2 ^ 64) (hk : posScanStep * k < 2 ^ 64)
      (h : b.past j = b.past k) : j = k :=
    Nat.eq_of_mul_eq_mul_left (by decide) (past_injective hj hk h)
  have hfuture {j k : Nat} (hj : posScanStep * j < 2 ^ 64) (hk : posScanStep * k < 2 ^ 64)
      (h : b.future j = b.future k) : j = k :=
    Nat.eq_of_mul_eq_mul_left (by decide) (future_injective hj hk h)
  have hboth {j k : Nat} (hj : posScanStep * j < 2 ^ 64) (hk : posScanStep * k < 2 ^ 64)
      (h : b.past j = b.future k) : j = 0 ∧ k = 0 :=
    steps_ne_words (past_eq_future hj hk h)
  rw [hstart, ScanBounds.timesAt_past, ScanBounds.timesFrom, List.nodup_flatMap]
  constructor
  · intro k hk
    have hlt := hstep k hk
    apply List.Nodup.filter
    split
    · exact List.nodup_singleton _
    · rename_i hne
      rw [List.nodup_cons]
      refine ⟨fun hmem => ?_, List.nodup_singleton _⟩
      exact hne (hboth hlt hlt (List.mem_singleton.mp hmem)).1
  · apply List.Pairwise.imp_of_mem _ List.pairwise_lt_range'
    intro j k hj hk hless ts htsj htsk
    have hltj := hstep j hj
    have hltk := hstep k hk
    have hmemj := (List.mem_filter.mp htsj).1
    have hmemk := (List.mem_filter.mp htsk).1
    have hne : k ≠ 0 := by omega
    rw [if_neg hne, List.mem_cons, List.mem_singleton] at hmemk
    rcases List.mem_cons.mp hmemj with hj' | hj'
    · rcases hmemk with hk' | hk'
      · exact hless.ne (hpast hltj hltk (hj'.symm.trans hk'))
      · exact hne (hboth hltj hltk (hj'.symm.trans hk')).2
    · split at hj'
      · cases hj'
      · rename_i hnej
        rw [List.mem_singleton] at hj'
        rcases hmemk with hk' | hk'
        · exact hnej (hboth hltk hltj (hk'.symm.trans hj')).2
        · exact hless.ne (hfuture hltj hltk (hj'.symm.trans hk'))

end

/-! ## The reach of the window -/

/-- The last timestamp in reach of the window.  In an interval of whole steps it is the end when
their number is even, and the timestamp a step before it when that is odd. -/
def lastScanned (tsFrom tsTo : Nat) : Nat :=
  if tsFrom + tsTo < 2 ^ 64 then
    if tsTo = tsFrom + 1 then tsTo else (tsFrom + tsTo) / 30 * 30 - tsFrom
  else (tsFrom + tsTo - 2 ^ 64) / 30 * 30 + 2 ^ 64 - tsFrom

section

variable {tsFrom tsTo : Nat}

/-- An interval that passes the check: it begins at a multiple of the step, or at 14, where the
first word behind the last multiple wraps to. -/
structure ScanInterval (tsFrom tsTo : Nat) : Prop where
  first : tsFrom % 15 = 0 ∨ tsFrom = 14
  last : tsTo % 15 = 0
  lt : tsFrom < tsTo
  words : tsTo < 2 ^ 64

theorem scanInterval_of (starterTimestamp coreTime : UInt64)
    (h : scanFrom starterTimestamp < scanTo coreTime) :
    ScanInterval (scanFrom starterTimestamp) (scanTo coreTime) := by
  have hstarter := starterTimestamp.toNat_lt
  have hlast : scanTo coreTime % 15 = 0 ∧ scanTo coreTime < 2 ^ 64 := by
    rw [scanTo, posScanStep]
    omega
  refine ⟨?_, hlast.1, h, hlast.2⟩
  rw [scanFrom, posScanStep]
  rcases Nat.lt_or_ge (starterTimestamp.toNat - starterTimestamp.toNat % 15 + 15) (2 ^ 64) with
    hwhole | hwraps
  · rw [Nat.mod_eq_of_lt hwhole]
    omega
  · have hstart : starterTimestamp.toNat = 2 ^ 64 - 1 := by omega
    rw [hstart]
    decide

/-- The middle and the window of an interval, when its ends do not wrap and when they do. -/
theorem scanBounds_cases (h : ScanInterval tsFrom tsTo) :
    (tsFrom + tsTo < 2 ^ 64 ∧ tsTo ≠ tsFrom + 1 ∧ tsFrom ≤ (ScanBounds.of tsFrom tsTo).tsMiddle ∧
        (ScanBounds.of tsFrom tsTo).tsMiddle = (tsFrom + tsTo) / 30 * 15 ∧
        (ScanBounds.of tsFrom tsTo).tsWindow = (ScanBounds.of tsFrom tsTo).tsMiddle - tsFrom) ∨
      (tsFrom = 14 ∧ tsTo = 15 ∧ (ScanBounds.of tsFrom tsTo).tsMiddle = 0 ∧
        (ScanBounds.of tsFrom tsTo).tsWindow = 15) ∨
      (2 ^ 64 ≤ tsFrom + tsTo ∧ (ScanBounds.of tsFrom tsTo).tsMiddle < tsFrom ∧
        (ScanBounds.of tsFrom tsTo).tsMiddle = (tsFrom + tsTo - 2 ^ 64) / 30 * 15 ∧
        (ScanBounds.of tsFrom tsTo).tsWindow =
          2 ^ 64 + (ScanBounds.of tsFrom tsTo).tsMiddle - tsFrom) := by
  obtain ⟨hfirst, hlast, hlt, hwords⟩ := h
  have hmiddle : (ScanBounds.of tsFrom tsTo).tsMiddle =
      (tsTo + tsFrom) % 2 ^ 64 / 2 - (tsTo + tsFrom) % 2 ^ 64 / 2 % 15 := rfl
  have hwindow : (ScanBounds.of tsFrom tsTo).tsWindow =
      min (((ScanBounds.of tsFrom tsTo).tsMiddle + 2 ^ 64 - tsFrom) % 2 ^ 64)
        ((tsTo + 2 ^ 64 - (ScanBounds.of tsFrom tsTo).tsMiddle) % 2 ^ 64) := rfl
  generalize (ScanBounds.of tsFrom tsTo).tsMiddle = middle at hmiddle hwindow ⊢
  generalize (ScanBounds.of tsFrom tsTo).tsWindow = window at hwindow ⊢
  by_cases hsum : tsFrom + tsTo < 2 ^ 64
  · have hhalf : middle = (tsFrom + tsTo) / 30 * 15 := by omega
    by_cases hle : tsFrom ≤ middle
    · left
      omega
    · right
      left
      omega
  · have hhalf : middle = (tsFrom + tsTo - 2 ^ 64) / 30 * 15 := by omega
    right
    right
    omega

theorem tsWindow_lt (h : ScanInterval tsFrom tsTo) :
    (ScanBounds.of tsFrom tsTo).tsWindow + 1 < 2 ^ 64 := by
  have hwords := h.words
  have hlt := h.lt
  have hfirst := h.first
  obtain ⟨-, -, hle, hmiddle, hwindow⟩ | ⟨-, -, -, hwindow⟩ |
    ⟨-, hless, hmiddle, hwindow⟩ := scanBounds_cases h
  · omega
  · omega
  · omega

/-- The timestamps that are tried: the multiples of the step up to the last one in reach and, when
the ends wrap, those next to a multiple. -/
def Tried (tsFrom tsTo ts : Nat) : Prop :=
  ts % 15 = 0 ∧ ts ≤ lastScanned tsFrom tsTo ∨ 2 ^ 64 ≤ tsFrom + tsTo ∧ ts % 15 = 1

theorem mem_times_iff (h : ScanInterval tsFrom tsTo) {ts : Nat} :
    ts ∈ (ScanBounds.of tsFrom tsTo).timesAt .start ↔
      tsFrom ≤ ts ∧ ts ≤ tsTo ∧ Tried tsFrom tsTo ts := by
  unfold Tried
  have hcases := scanBounds_cases h
  obtain ⟨hfirst, hlast, hlt, hwords⟩ := h
  rw [mem_timesAt_start]
  have hends : (ScanBounds.of tsFrom tsTo).tsFrom = tsFrom ∧
      (ScanBounds.of tsFrom tsTo).tsTo = tsTo := ⟨rfl, rfl⟩
  rw [hends.1, hends.2, and_assoc]
  simp only [ScanBounds.past, ScanBounds.future, posScanStep, lastScanned]
  generalize (ScanBounds.of tsFrom tsTo).tsMiddle = middle at hcases ⊢
  generalize (ScanBounds.of tsFrom tsTo).tsWindow = window at hcases ⊢
  apply and_congr_right
  intro hge
  apply and_congr_right
  intro hle
  obtain ⟨hsum, hlong, hmiddleLe, hmiddle, hwindow⟩ | ⟨rfl, rfl, rfl, rfl⟩ |
    ⟨hsum, hless, hmiddle, hwindow⟩ := hcases
  · -- the window reaches the first timestamp, and as far on the other side
    have hpast {k : Nat} (hk : 15 * k ≤ window) :
        (middle + 2 ^ 64 - 15 * k) % 2 ^ 64 = middle - 15 * k := by
      omega
    have hfuture {k : Nat} (hk : 15 * k ≤ window) :
        (middle + 15 * k) % 2 ^ 64 = middle + 15 * k := by
      omega
    rw [if_pos hsum, if_neg hlong]
    constructor
    · rintro ⟨k, hk, hts⟩
      rw [hpast hk, hfuture hk] at hts
      left
      omega
    · rintro (⟨hstep, hreach⟩ | ⟨hwraps, -⟩)
      · rcases Nat.le_total ts middle with hbefore | hbehind
        · have hk : 15 * ((middle - ts) / 15) ≤ window := by omega
          refine ⟨(middle - ts) / 15, hk, .inl ?_⟩
          rw [hpast hk]
          omega
        · have hk : 15 * ((ts - middle) / 15) ≤ window := by omega
          refine ⟨(ts - middle) / 15, hk, .inr ?_⟩
          rw [hfuture hk]
          omega
      · omega
  · constructor
    · rintro ⟨k, hk, hts⟩
      left
      rw [if_pos (by decide), if_pos (by decide)]
      obtain rfl | rfl : k = 0 ∨ k = 1 := by omega
      · omega
      · omega
    · rintro (⟨hstep, -⟩ | ⟨hwraps, -⟩)
      · exact ⟨1, by omega, .inr (by omega)⟩
      · omega
  · -- into the past the timestamps go around the words, and miss the multiples by one
    have hfuture {k : Nat} (hk : 15 * k ≤ window) :
        (middle + 15 * k) % 2 ^ 64 = middle + 15 * k := by
      omega
    have hpast {k : Nat} (hmore : middle < 15 * k) :
        (middle + 2 ^ 64 - 15 * k) % 2 ^ 64 = middle + 2 ^ 64 - 15 * k := by
      apply Nat.mod_eq_of_lt
      omega
    have hnear {k : Nat} (hfew : 15 * k ≤ middle) :
        (middle + 2 ^ 64 - 15 * k) % 2 ^ 64 = middle - 15 * k := by
      have hparts : middle + 2 ^ 64 - 15 * k = middle - 15 * k + 2 ^ 64 := by omega
      rw [hparts, Nat.add_mod_right]
      apply Nat.mod_eq_of_lt
      omega
    rw [if_neg (by omega)]
    constructor
    · rintro ⟨k, hk, hts | hts⟩
      · rcases Nat.lt_or_ge middle (15 * k) with hmore | hfew
        · rw [hpast hmore] at hts
          right
          omega
        · rw [hnear hfew] at hts
          omega
      · rw [hfuture hk] at hts
        left
        omega
    · rintro (⟨hstep, hreach⟩ | ⟨-, hstep⟩)
      · have hk : 15 * ((ts - middle) / 15) ≤ window := by omega
        refine ⟨(ts - middle) / 15, hk, .inr ?_⟩
        rw [hfuture hk]
        omega
      · have hk : 15 * ((middle + 2 ^ 64 - ts) / 15) ≤ window := by omega
        refine ⟨(middle + 2 ^ 64 - ts) / 15, hk, .inl ?_⟩
        rw [hpast (by omega)]
        omega

theorem times_ne_nil (h : ScanInterval tsFrom tsTo) :
    (ScanBounds.of tsFrom tsTo).timesAt .start ≠ [] := by
  have hcases := scanBounds_cases h
  have hmem (ts : Nat) (hts : tsFrom ≤ ts ∧ ts ≤ tsTo ∧ Tried tsFrom tsTo ts) :
      (ScanBounds.of tsFrom tsTo).timesAt .start ≠ [] :=
    List.ne_nil_of_mem ((mem_times_iff h).mpr hts)
  unfold Tried lastScanned at hmem
  obtain ⟨hfirst, hlast, hlt, hwords⟩ := h
  obtain ⟨hsum, hlong, hle, hmiddle, -⟩ | ⟨rfl, rfl, -, -⟩ | ⟨hsum, -, -, -⟩ := hcases
  · refine hmem ((tsFrom + tsTo) / 30 * 15) ⟨by omega, by omega, .inl ⟨by omega, ?_⟩⟩
    rw [if_pos hsum, if_neg hlong]
    omega
  · exact hmem 15 ⟨by decide, by decide, .inl ⟨by decide, by decide⟩⟩
  · -- the first timestamp behind a multiple
    exact hmem ((tsFrom + 13) / 15 * 15 + 1) ⟨by omega, by omega, .inr ⟨hsum, by omega⟩⟩

end

/-! ## The whole scan -/

/-- Some entry passes at a timestamp of the interval with a property. -/
def PassesAt (f : PosEntry → Nat → Bool) (entries : List PosEntry) (tsFrom tsTo : Nat)
    (P : Nat → Prop) : Prop :=
  ∃ pe ∈ entries, ∃ ts, tsFrom ≤ ts ∧ ts ≤ tsTo ∧ P ts ∧ f pe ts = true

/-- A scan is exhaustive: it finds a kernel when some entry passes at a multiple of the step, and
tries each entry and timestamp once, inside the interval. -/
structure ExhaustiveScan (f : PosEntry → Nat → Bool) (entries : List PosEntry) (tsFrom tsTo : Nat)
    (r : ScanResponse) : Prop where
  found_iff : r.found.isSome = true ↔
    PassesAt f entries tsFrom tsTo fun ts => ts % posScanStep = 0
  once : r.tried.Nodup
  inside : ∀ p ∈ r.tried, tsFrom ≤ p.2 ∧ p.2 ≤ tsTo

/-- Kernels that pass only behind the last timestamp in reach are not found, nor those that come
after an entry without an amount; where the ends wrap, neither may a kernel pass only next to the
multiples. -/
structure InReach (f : PosEntry → Nat → Bool) (entries : List PosEntry) (tsFrom tsTo : Nat) :
    Prop where
  behind : PassesAt f entries tsFrom tsTo (fun ts => ts % 15 = 0 ∧ lastScanned tsFrom tsTo < ts) →
    PassesAt f entries tsFrom tsTo (Tried tsFrom tsTo)
  next : PassesAt f entries tsFrom tsTo (fun ts => 2 ^ 64 ≤ tsFrom + tsTo ∧ ts % 15 = 1) →
    PassesAt f entries tsFrom tsTo fun ts => ts % 15 = 0
  zero : ∀ before pe after, entries = before ++ pe :: after → pe.amount = 0 →
    PassesAt f before tsFrom tsTo (Tried tsFrom tsTo)

theorem PassesAt.imp {f : PosEntry → Nat → Bool} {entries : List PosEntry} {tsFrom tsTo : Nat}
    {P Q : Nat → Prop} (hPQ : ∀ ts, P ts → Q ts) (h : PassesAt f entries tsFrom tsTo P) :
    PassesAt f entries tsFrom tsTo Q := by
  obtain ⟨pe, hpe, ts, hge, hle, hP, hf⟩ := h
  exact ⟨pe, hpe, ts, hge, hle, hPQ ts hP, hf⟩

/-- What is tried passes just when some multiple does, and nothing else decides. -/
theorem inReach_iff {f : PosEntry → Nat → Bool} {entries : List PosEntry} {tsFrom tsTo : Nat} :
    InReach f entries tsFrom tsTo ↔
      (∀ before pe after, entries = before ++ pe :: after → pe.amount = 0 →
          PassesAt f before tsFrom tsTo (Tried tsFrom tsTo)) ∧
        (PassesAt f entries tsFrom tsTo (Tried tsFrom tsTo) ↔
          PassesAt f entries tsFrom tsTo fun ts => ts % 15 = 0) := by
  constructor
  · rintro ⟨hmissed, hnext, hzero⟩
    refine ⟨hzero, ?_, ?_⟩
    · rintro ⟨pe, hpe, ts, hge, hle, ⟨hstep, -⟩ | hwraps, hf⟩
      · exact ⟨pe, hpe, ts, hge, hle, hstep, hf⟩
      · exact hnext ⟨pe, hpe, ts, hge, hle, hwraps, hf⟩
    · rintro ⟨pe, hpe, ts, hge, hle, hstep, hf⟩
      rcases Nat.lt_or_ge (lastScanned tsFrom tsTo) ts with hbehind | hreach
      · exact hmissed ⟨pe, hpe, ts, hge, hle, ⟨hstep, hbehind⟩, hf⟩
      · exact ⟨pe, hpe, ts, hge, hle, .inl ⟨hstep, hreach⟩, hf⟩
  · rintro ⟨hzero, h⟩
    refine ⟨?_, ?_, hzero⟩
    · intro hmissed
      exact h.mpr (hmissed.imp fun _ hts => hts.1)
    · intro hnext
      exact h.mp (hnext.imp fun _ hts => .inr hts)

theorem passesBeforeZero_iff {f : PosEntry → Nat → Bool} {entries : List PosEntry}
    {tsFrom tsTo : Nat} (h : ScanInterval tsFrom tsTo) :
    PassesBeforeZero f ((ScanBounds.of tsFrom tsTo).timesAt .start) entries ↔
      ∀ before pe after, entries = before ++ pe :: after → pe.amount = 0 →
        PassesAt f before tsFrom tsTo (Tried tsFrom tsTo) := by
  unfold PassesBeforeZero PassesAt
  simp only [mem_times_iff h, and_assoc]

theorem kernelOf_tryKernel (crypto : CryptoPrimitives) (basicDiff : WideDifficulty)
    (sm : StakeModifier) :
    KernelOf (tryKernel crypto basicDiff sm) (entryPasses crypto basicDiff sm) where
  defined pe hamount ts := by
    rw [tryKernel, entryPasses, if_neg hamount, decide_eq_true hamount, Bool.true_and]
  undefined pe hzero ts := if_pos hzero

/-- A scan of an interval that passes the check searches its timestamps, each tried once. -/
theorem walletScanPos_search {crypto : CryptoPrimitives} {cxt : MiningContext} {coreTime : UInt64}
    (hcheck : scanFrom cxt.starterTimestamp < scanTo coreTime) :
    (walletScanPos crypto cxt .none coreTime).map ScanResponse.found =
        searchAll (tryKernel crypto cxt.basicDiff cxt.sm)
          ((ScanBounds.of (scanFrom cxt.starterTimestamp) (scanTo coreTime)).timesAt .start) 0
          cxt.posEntries ∧
      ∀ r, walletScanPos crypto cxt .none coreTime = .ok r →
        TriesFrom ((ScanBounds.of (scanFrom cxt.starterTimestamp) (scanTo coreTime)).timesAt .start)
          0 r.tried := by
  have hwindow := tsWindow_lt (scanInterval_of cxt.starterTimestamp coreTime hcheck)
  rw [walletScanPos, if_neg (not_le.mpr hcheck)]
  refine ⟨scanEntries_uninterrupted _ _ 0 0 [], fun r hr => ?_⟩
  obtain ⟨new, hnew, htries⟩ :=
    scanEntries_tried (timesAt_start_nodup (Nat.lt_of_succ_lt hwindow)) hr
  rw [hnew]
  exact htries

/-- What a search finds is what is tried and passes. -/
theorem searchAll_isSome_iff {kernel : PosEntry → Nat → Defined Bool} {f : PosEntry → Nat → Bool}
    (hkernel : KernelOf kernel f) {tsFrom tsTo : Nat} (hinterval : ScanInterval tsFrom tsTo)
    {entries : List PosEntry} {found : Option (Nat × Nat)}
    (h : searchAll kernel ((ScanBounds.of tsFrom tsTo).timesAt .start) 0 entries = .ok found) :
    found.isSome = true ↔ PassesAt f entries tsFrom tsTo (Tried tsFrom tsTo) := by
  cases found with
  | none =>
      refine iff_of_false Bool.false_ne_true ?_
      rintro ⟨pe, hpe, ts, hge, hle, htried, hf⟩
      have hmissed := searchAll_eq_none_iff.mp h pe hpe ts
        ((mem_times_iff hinterval).mpr ⟨hge, hle, htried⟩)
      rw [(hkernel.eq_ok hmissed).2] at hf
      cases hf
  | some p =>
      refine iff_of_true rfl ?_
      obtain ⟨k, pe, -, hfirst⟩ := searchAll_eq_some_iff.mp h
      obtain ⟨hge, hle, htried⟩ := (mem_times_iff hinterval).mp hfirst.isFirst.mem
      exact ⟨pe, List.mem_of_getElem? hfirst.entry, p.2, hge, hle, htried,
        (hkernel.eq_ok hfirst.isFirst.passes).2⟩

/-- A scan without interruption is exhaustive just when the kernels that pass are in reach. -/
theorem walletScanPos_exhaustive_iff (crypto : CryptoPrimitives) (cxt : MiningContext)
    (coreTime : UInt64) (hcheck : scanFrom cxt.starterTimestamp < scanTo coreTime) :
    (∃ r, walletScanPos crypto cxt .none coreTime = .ok r ∧
      ExhaustiveScan (entryPasses crypto cxt.basicDiff cxt.sm) cxt.posEntries
        (scanFrom cxt.starterTimestamp) (scanTo coreTime) r) ↔
      InReach (entryPasses crypto cxt.basicDiff cxt.sm) cxt.posEntries
        (scanFrom cxt.starterTimestamp) (scanTo coreTime) := by
  have hinterval := scanInterval_of cxt.starterTimestamp coreTime hcheck
  have hkernel := kernelOf_tryKernel crypto cxt.basicDiff cxt.sm
  obtain ⟨hsearch, htries⟩ := @walletScanPos_search crypto cxt coreTime hcheck
  rw [inReach_iff, ← passesBeforeZero_iff hinterval,
    ← searchAll_isOk_iff (i := 0) hkernel (times_ne_nil hinterval)]
  constructor
  · rintro ⟨r, hr, hexhaustive⟩
    rw [hr] at hsearch
    refine ⟨⟨r.found, hsearch.symm⟩, ?_⟩
    rw [← searchAll_isSome_iff hkernel hinterval hsearch.symm]
    exact hexhaustive.found_iff
  · rintro ⟨⟨found, hfound⟩, hiff⟩
    rw [hfound] at hsearch
    obtain ⟨r, hr, rfl⟩ := map_eq_ok_iff.mp hsearch
    refine ⟨r, hr, (searchAll_isSome_iff hkernel hinterval hfound).trans hiff, (htries r hr).nodup,
      fun p hp => ?_⟩
    obtain ⟨hge, hle, -⟩ := (mem_times_iff hinterval).mp ((htries r hr).range p hp).2
    exact ⟨hge, hle⟩

/-! ## A kernel at the last timestamp -/

/-- Primitives under which the kernel of one timestamp has the hash zero, and all others the
largest one. -/
def oneKernelCrypto (ts : Nat) : CryptoPrimitives where
  prefixHash _ := 0
  getBlockHash _ := 0
  getBlockLonghash _ := 0
  getObjectBlobsize _ := 0
  multisigIdHash _ _ := 0
  kernelHash kernel := if kernel.blockTimestamp = ts then 0 else BitVec.allOnes 256
  getSignBuffHashForAliasUpdate _ := 0
  attachmentBlob _ := (0, 0)
  checkKey _ := true
  validateKeyImage _ := true
  checkSignature _ _ _ := true
  checkRingSignature _ _ _ _ := true
  sha256Hash _ := 0
  ripemd160Hash _ := 0

def onePosEntry : PosEntry where
  amount := 1
  index := 0
  keyimage := 7
  blockTimestamp := 0
  stakeUnlockTime := 0
  walletIndex := 0

/-- A context whose interval at the time 20 goes from 1140 to 1215: five steps. -/
def fiveStepsContext : MiningContext where
  posEntries := [onePosEntry]
  starterTimestamp := 1125
  basicDiff := 1000
  sm := ⟨0, 0⟩

/-- Its only kernel that passes is the one of 1215, which is not tried. -/
theorem fiveSteps_not_exhaustive :
    walletScanPos (oneKernelCrypto 1215) fiveStepsContext .none 20 =
        .ok ⟨none, [(0, 1170), (0, 1155), (0, 1185), (0, 1140), (0, 1200)]⟩ ∧
      ¬ ∃ r, walletScanPos (oneKernelCrypto 1215) fiveStepsContext .none 20 = .ok r ∧
        ExhaustiveScan (entryPasses (oneKernelCrypto 1215) fiveStepsContext.basicDiff
          fiveStepsContext.sm) fiveStepsContext.posEntries
          (scanFrom fiveStepsContext.starterTimestamp) (scanTo 20) r := by
  have hscan : walletScanPos (oneKernelCrypto 1215) fiveStepsContext .none 20 =
      .ok ⟨none, [(0, 1170), (0, 1155), (0, 1185), (0, 1140), (0, 1200)]⟩ := by
    decide +kernel
  refine ⟨hscan, ?_⟩
  rintro ⟨r, hr, h⟩
  obtain rfl := Except.ok.inj (hscan.symm.trans hr)
  have hsome := h.found_iff.mpr ⟨onePosEntry, List.mem_singleton_self _, 1215, by decide, by decide,
    by decide, by decide +kernel⟩
  cases hsome

/-- An entry without an amount, behind the one that passes. -/
def zeroBehindContext : MiningContext :=
  { fiveStepsContext with posEntries := [onePosEntry, { onePosEntry with amount := 0 }] }

/-- A kernel a step earlier is found. -/
theorem walletScanPos_exhaustive_sample :
    ∃ r, walletScanPos (oneKernelCrypto 1200) zeroBehindContext .none 20 = .ok r ∧
      ExhaustiveScan (entryPasses (oneKernelCrypto 1200) zeroBehindContext.basicDiff
        zeroBehindContext.sm) zeroBehindContext.posEntries
        (scanFrom zeroBehindContext.starterTimestamp) (scanTo 20) r := by
  apply (walletScanPos_exhaustive_iff (oneKernelCrypto 1200) zeroBehindContext 20 (by decide)).mpr
  have hpasses : entryPasses (oneKernelCrypto 1200) zeroBehindContext.basicDiff zeroBehindContext.sm
      onePosEntry 1200 = true := by decide +kernel
  refine ⟨fun _ => ?_, fun _ => ?_, ?_⟩
  · exact ⟨onePosEntry, List.mem_cons_self, 1200, by decide, by decide,
      .inl ⟨by decide, by decide⟩, hpasses⟩
  · exact ⟨onePosEntry, List.mem_cons_self, 1200, by decide, by decide, by decide, hpasses⟩
  · intro before pe after hentries hzero
    cases before with
    | nil =>
        cases hentries
        exact absurd hzero (by decide)
    | cons first before =>
        obtain ⟨rfl, -⟩ := List.cons.inj hentries
        exact ⟨onePosEntry, List.mem_cons_self, 1200, by decide, by decide,
          .inl ⟨by decide, by decide⟩, hpasses⟩

end Chinet
