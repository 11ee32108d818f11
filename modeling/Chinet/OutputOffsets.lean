import Mathlib.Data.List.Rotate
import Chinet.FormatUtils
import Chinet.Lib.SortContract

/-!
# Output offsets, relative and absolute

The references of an input are stored with their global indexes as differences.
`absolute_output_offsets_to_relative` sorts them first, with a `std::sort` that puts the global
indexes in order and holds all references by id equal; `relative_output_offsets_to_absolute` adds
the differences up again.

`roundTrip_of_sorted` is the round trip from the sorted list on: it comes back as it was sorted,
nothing throws and nothing wraps.  The references by id keep their order only with a stable sort,
which `std::sort` does not promise, so a list that is already in order comes back the same exactly
when its references by id are all alike (`offsets_round_trip`).
-/

namespace Chinet

open SortContract

/-! ## `absolute_output_offsets_to_relative` -/

def TxoutRef.isRefById : TxoutRef → Bool
  | .globalIndex _ => false
  | .refById _ _ => true

def TxoutRef.globalIndex? : TxoutRef → Option UInt64
  | .globalIndex n => some n
  | .refById _ _ => none

/-- The comparison of the sort; "don't change the order of ref_by_id elements". -/
def txoutRefLess : TxoutRef → TxoutRef → Bool
  | .globalIndex lft, .globalIndex rght => lft < rght
  | .globalIndex _, .refById _ _ => true
  | .refById _ _, _ => false

/-- `boost::get<uint64_t>(res[i])`. -/
def getGlobalIndex (res : List TxoutRef) (i : Nat) : Except Failure UInt64 :=
  match res[i]? with
  | some (.globalIndex n) => .ok n
  | _ => .error .thrown

/-- "find starter index - skip ref_by_id entries". -/
def starterIndex (res : List TxoutRef) : Nat → Nat
  | 0 => 0
  | i + 1 =>
      match res[i + 1]? with
      | some (.refById _ _) => starterIndex res i
      | _ => i + 1

/-- The differences, from the starter index down. -/
def subtractDown (res : List TxoutRef) : Nat → Except Failure (List TxoutRef)
  | 0 => .ok res
  | i + 1 => do
      let cur ← getGlobalIndex res (i + 1)
      let prev ← getGlobalIndex res i
      subtractDown (res.set (i + 1) (.globalIndex (cur - prev))) i

/-- The sort is the argument: `std::sort` promises the order and no more. -/
def absoluteOutputOffsetsToRelative (sort : List TxoutRef → List TxoutRef)
    (off : List TxoutRef) : Except Failure (List TxoutRef) :=
  if off.length < 2 then .ok off
  else subtractDown (sort off) (starterIndex (sort off) ((sort off).length - 1))

/-! ## Differences -/

def differencesFrom (prev : UInt64) : List UInt64 → List UInt64
  | [] => []
  | n :: rest => (n - prev) :: differencesFrom n rest

theorem differencesFrom_concat (prev : UInt64) (ns : List UInt64) (b a : UInt64) :
    differencesFrom prev (ns ++ [b] ++ [a]) = differencesFrom prev (ns ++ [b]) ++ [a - b] := by
  induction ns generalizing prev with
  | nil => rfl
  | cons n ns ih =>
      rw [List.cons_append, List.cons_append, differencesFrom, ih]
      rfl

/-- No difference of indexes in order wraps: as numbers they add up to the last. -/
theorem sum_differencesFrom {prev : UInt64} {ns : List UInt64}
    (h : (prev :: ns).Pairwise (· ≤ ·)) :
    prev.toNat + ((differencesFrom prev ns).map UInt64.toNat).sum = (ns.getLastD prev).toNat := by
  induction ns generalizing prev with
  | nil => simp [differencesFrom]
  | cons n ns ih =>
      obtain ⟨hprev, hns⟩ := List.pairwise_cons.mp h
      have hle := hprev n List.mem_cons_self
      have hrest := ih hns
      rw [differencesFrom, List.map_cons, List.sum_cons, UInt64.toNat_sub_of_le _ _ hle,
        List.getLastD_cons]
      rw [UInt64.le_iff_toNat_le] at hle
      omega

theorem starterIndex_inOrder {indexes : List UInt64} {refs : List TxoutRef}
    (hrefs : ∀ ref ∈ refs, ref.isRefById = true) {j : Nat} (hle : indexes.length - 1 ≤ j)
    (hlt : j < indexes.length + refs.length) :
    starterIndex (indexes.map .globalIndex ++ refs) j = indexes.length - 1 := by
  induction j with
  | zero => exact (Nat.le_zero.mp hle).symm
  | succ j ih =>
      by_cases hbehind : indexes.length ≤ j + 1
      · -- a reference by id is skipped
        have hget : (indexes.map TxoutRef.globalIndex ++ refs)[j + 1]? =
            refs[j + 1 - indexes.length]? := by
          rw [List.getElem?_append_right (by simpa using hbehind), List.length_map]
        have hmem := List.getElem?_eq_getElem (show j + 1 - indexes.length < refs.length by omega)
        have href := hrefs _ (List.getElem_mem (show j + 1 - indexes.length < refs.length by omega))
        rw [starterIndex, hget, hmem]
        cases hkind : refs[j + 1 - indexes.length] with
        | globalIndex n =>
            rw [hkind] at href
            cases href
        | refById txId n => exact ih (by omega) (by omega)
      · have hinside : j + 1 < indexes.length := not_le.mp hbehind
        have hget : (indexes.map TxoutRef.globalIndex ++ refs)[j + 1]? =
            some (.globalIndex indexes[j + 1]) := by
          rw [List.getElem?_append_left (by simpa using hinside), List.getElem?_map,
            List.getElem?_eq_getElem hinside]
          rfl
        rw [starterIndex, hget]
        simp only
        omega

theorem subtractDown_inOrder (ns : List UInt64) (a : UInt64) (rest : List TxoutRef) :
    subtractDown ((ns ++ [a]).map .globalIndex ++ rest) ns.length =
      .ok ((differencesFrom 0 (ns ++ [a])).map .globalIndex ++ rest) := by
  induction ns using List.reverseRecOn generalizing a rest with
  | nil => simp [subtractDown, differencesFrom]
  | append_singleton ns b ih =>
      have hcur : getGlobalIndex ((ns ++ [b] ++ [a]).map .globalIndex ++ rest) (ns.length + 1) =
          .ok a := by
        simp [getGlobalIndex]
      have hprev : getGlobalIndex ((ns ++ [b] ++ [a]).map .globalIndex ++ rest) ns.length = .ok b := by
        simp [getGlobalIndex]
      have hset : ((ns ++ [b] ++ [a]).map TxoutRef.globalIndex ++ rest).set (ns.length + 1)
          (.globalIndex (a - b)) =
          (ns ++ [b]).map .globalIndex ++ (.globalIndex (a - b) :: rest) := by
        simp
      rw [List.length_append, List.length_singleton, subtractDown, hcur, hprev]
      change subtractDown _ ns.length = _
      rw [hset, ih, differencesFrom_concat]
      simp

theorem absoluteOffsetsFrom_differences (prev : UInt64) (ns : List UInt64) {refs : List TxoutRef}
    (hrefs : ∀ ref ∈ refs, ref.isRefById = true) :
    absoluteOffsetsFrom (.globalIndex prev) ((differencesFrom prev ns).map .globalIndex ++ refs) =
      .ok (ns.map .globalIndex ++ refs) := by
  induction ns generalizing prev with
  | nil =>
      cases refs with
      | nil => rfl
      | cons ref refs =>
          cases ref with
          | globalIndex n => exact absurd (hrefs _ List.mem_cons_self) (by simp [TxoutRef.isRefById])
          | refById txId n => rfl
  | cons n ns ih =>
      have hback : n - prev + prev = n := UInt64.sub_add_cancel n prev
      rw [differencesFrom, List.map_cons, List.cons_append, absoluteOffsetsFrom, hback, ih]
      rfl

/-- Behind a reference by id there are only such references, which stay as they are. -/
theorem absoluteOffsetsFrom_refs (txId : Hash) (n : Nat) {refs : List TxoutRef}
    (hrefs : ∀ ref ∈ refs, ref.isRefById = true) :
    absoluteOffsetsFrom (.refById txId n) refs = .ok refs := by
  cases refs with
  | nil => rfl
  | cons ref refs =>
      cases ref with
      | globalIndex n => exact absurd (hrefs _ List.mem_cons_self) (by simp [TxoutRef.isRefById])
      | refById txId n => rfl

theorem relativeOutputOffsetsToAbsolute_differences (ns : List UInt64) {refs : List TxoutRef}
    (hrefs : ∀ ref ∈ refs, ref.isRefById = true) :
    relativeOutputOffsetsToAbsolute ((differencesFrom 0 ns).map .globalIndex ++ refs) =
      .ok (ns.map .globalIndex ++ refs) := by
  cases ns with
  | nil =>
      cases refs with
      | nil => rfl
      | cons ref refs =>
          have hrest : ∀ r ∈ refs, r.isRefById = true := fun r hr =>
            hrefs r (List.mem_cons_of_mem _ hr)
          cases ref with
          | globalIndex n => exact absurd (hrefs _ List.mem_cons_self) (by simp [TxoutRef.isRefById])
          | refById txId n =>
              change (do
                let tail ← absoluteOffsetsFrom (.refById txId n) refs
                return TxoutRef.refById txId n :: tail) = _
              rw [absoluteOffsetsFrom_refs txId n hrest]
              rfl
  | cons n ns =>
      have hfirst : n - 0 = n := UInt64.sub_zero n
      rw [differencesFrom, hfirst, List.map_cons, List.cons_append, relativeOutputOffsetsToAbsolute,
        absoluteOffsetsFrom_differences n ns hrefs]
      rfl

/-! ## The round trip -/

/-- The global indexes of a list of references. -/
def globalIndexes (off : List TxoutRef) : List UInt64 := off.filterMap TxoutRef.globalIndex?

def refsById (off : List TxoutRef) : List TxoutRef := off.filter TxoutRef.isRefById

/-- A list as the functions leave it: the global indexes in order, then the references by id. -/
structure Canonical (off : List TxoutRef) : Prop where
  parts : off = (globalIndexes off).map .globalIndex ++ refsById off
  ascending : (globalIndexes off).Pairwise (· ≤ ·)

theorem refsById_isRefById (off : List TxoutRef) : ∀ ref ∈ refsById off, ref.isRefById = true :=
  fun _ h => (List.mem_filter.mp h).2

theorem globalIndexes_parts (ns : List UInt64) {refs : List TxoutRef}
    (hrefs : ∀ ref ∈ refs, ref.isRefById = true) :
    globalIndexes (ns.map .globalIndex ++ refs) = ns := by
  have hnone : refs.filterMap TxoutRef.globalIndex? = [] := by
    apply List.filterMap_eq_nil_iff.mpr
    intro ref href
    have hkind := hrefs ref href
    cases ref with
    | globalIndex n => cases hkind
    | refById txId n => rfl
  rw [globalIndexes, List.filterMap_append, hnone, List.append_nil, List.filterMap_map]
  exact List.filterMap_some

theorem refsById_parts (ns : List UInt64) {refs : List TxoutRef}
    (hrefs : ∀ ref ∈ refs, ref.isRefById = true) :
    refsById (ns.map .globalIndex ++ refs) = refs := by
  have hnone : (ns.map TxoutRef.globalIndex).filter TxoutRef.isRefById = [] := by
    apply List.filter_eq_nil_iff.mpr
    intro ref href
    obtain ⟨n, -, rfl⟩ := List.mem_map.mp href
    simp [TxoutRef.isRefById]
  rw [refsById, List.filter_append, hnone, List.nil_append, List.filter_eq_self.mpr hrefs]

theorem canonical_parts {ns : List UInt64} {refs : List TxoutRef}
    (hns : ns.Pairwise (· ≤ ·)) (hrefs : ∀ ref ∈ refs, ref.isRefById = true) :
    Canonical (ns.map .globalIndex ++ refs) where
  parts := by rw [globalIndexes_parts ns hrefs, refsById_parts ns hrefs]
  ascending := by rwa [globalIndexes_parts ns hrefs]

theorem filter_not_isRefById (off : List TxoutRef) :
    off.filter (fun ref => !ref.isRefById) = (globalIndexes off).map .globalIndex := by
  induction off with
  | nil => rfl
  | cons ref off ih =>
      cases ref with
      | globalIndex n =>
          rw [List.filter_cons_of_pos rfl, ih]
          rfl
      | refById txId n =>
          rw [List.filter_cons_of_neg (by simp [TxoutRef.isRefById]), ih]
          rfl

theorem txoutRefLess_last : Last txoutRefLess TxoutRef.isRefById where
  behind a b ha hb := by
    cases a with
    | refById txId n => cases ha
    | globalIndex n =>
        cases b with
        | globalIndex m => cases hb
        | refById txId m => rfl

/-- What the sort leaves is canonical. -/
theorem canonical_of_ordered {off : List TxoutRef} (h : Ordered txoutRefLess off) :
    Canonical off where
  parts := by
    have hsplit := h.split txoutRefLess_last
    rwa [filter_not_isRefById] at hsplit
  ascending := by
    apply List.Pairwise.filterMap _ _ h
    intro a b hless n hn m hm
    cases a with
    | refById txId k => cases hn
    | globalIndex k =>
        cases b with
        | refById txId l => cases hm
        | globalIndex l =>
            cases hn
            cases hm
            simpa [txoutRefLess, UInt64.not_lt] using hless

/-- From two entries on, the differences of the sorted list add up to it again. -/
theorem roundTrip_of_sorted {sort : List TxoutRef → List TxoutRef} (hsort : Sorts txoutRefLess sort)
    {off : List TxoutRef} (htwo : 2 ≤ off.length) :
    absoluteOutputOffsetsToRelative sort off =
        .ok ((differencesFrom 0 (globalIndexes (sort off))).map .globalIndex ++
          refsById (sort off)) ∧
      relativeOutputOffsetsToAbsolute ((differencesFrom 0 (globalIndexes (sort off))).map
        .globalIndex ++ refsById (sort off)) = .ok (sort off) := by
  have hcanonical := canonical_of_ordered (hsort.ordered off)
  have hlength := (hsort.perm off).length_eq
  have hrefs := refsById_isRefById (sort off)
  constructor
  · rw [absoluteOutputOffsetsToRelative, if_neg (by omega)]
    have hparts := hcanonical.parts
    generalize globalIndexes (sort off) = ns at hparts ⊢
    generalize refsById (sort off) = refs at hparts hrefs ⊢
    rw [hparts] at hlength ⊢
    rw [List.length_append, List.length_map] at hlength
    rw [List.length_append, List.length_map, starterIndex_inOrder hrefs (by omega) (by omega)]
    cases ns using List.reverseRecOn with
    | nil => rfl
    | append_singleton ns a =>
        rw [List.length_append, List.length_singleton, Nat.add_sub_cancel]
        exact subtractDown_inOrder ns a refs
  · rw [relativeOutputOffsetsToAbsolute_differences _ hrefs]
    exact congrArg _ hcanonical.parts.symm

/-- What a list of references makes of the two functions behind each other: neither throws, the
result has the same entries and is canonical, the differences are exact (as numbers they add up to
the largest index, so nothing wraps), and a canonical list is left as it is. -/
def RoundTrips (sort : List TxoutRef → List TxoutRef) (off : List TxoutRef) : Prop :=
  ∃ relative absolute, absoluteOutputOffsetsToRelative sort off = .ok relative ∧
    relativeOutputOffsetsToAbsolute relative = .ok absolute ∧
    absolute.Perm off ∧ Canonical absolute ∧
    ((globalIndexes relative).map UInt64.toNat).sum =
      ((globalIndexes absolute).getLastD 0).toNat ∧
    (Canonical off → absolute = off)

theorem canonical_of_length_lt_two {off : List TxoutRef} (h : off.length < 2) : Canonical off := by
  apply canonical_of_ordered
  match off, h with
  | [], _ => exact .nil
  | [ref], _ => exact List.pairwise_singleton _ _

theorem roundTrips_of_length_lt_two (sort : List TxoutRef → List TxoutRef) {off : List TxoutRef}
    (h : off.length < 2) : RoundTrips sort off := by
  have hcanonical := canonical_of_length_lt_two h
  refine ⟨off, off, by rw [absoluteOutputOffsetsToRelative, if_pos h], ?_, .refl off, hcanonical,
    ?_, fun _ => rfl⟩
  · match off, h with
    | [], _ => rfl
    | [ref], _ => rfl
  · match off, h with
    | [], _ => rfl
    | [.globalIndex n], _ => simp [globalIndexes, TxoutRef.globalIndex?]
    | [.refById txId n], _ => rfl

/-- From two entries on the round trip is as good as the order in which the sort leaves a canonical
list. -/
theorem roundTrips_iff {sort : List TxoutRef → List TxoutRef} (hsort : Sorts txoutRefLess sort)
    {off : List TxoutRef} (htwo : 2 ≤ off.length) :
    RoundTrips sort off ↔ (Canonical off → sort off = off) := by
  obtain ⟨hrelative, habsolute⟩ := roundTrip_of_sorted hsort htwo
  have hcanonical := canonical_of_ordered (hsort.ordered off)
  constructor
  · rintro ⟨relative, absolute, hrel, habs, -, -, -, hsame⟩
    cases hrelative.symm.trans hrel
    cases habsolute.symm.trans habs
    exact hsame
  · intro hsame
    refine ⟨_, _, hrelative, habsolute, hsort.perm off, hcanonical, ?_, hsame⟩
    rw [globalIndexes_parts _ (refsById_isRefById _)]
    have hsum := @sum_differencesFrom 0 (globalIndexes (sort off))
      (List.pairwise_cons.mpr ⟨fun _ _ => UInt64.zero_le, hcanonical.ascending⟩)
    simpa using hsum

/-! ## The references by id -/

/-- All references by id of the list are the same one. -/
def RefsAlike (off : List TxoutRef) : Prop :=
  ∀ ref ∈ refsById off, ∀ ref' ∈ refsById off, ref = ref'

/-- A sort with the comparison that moves the first reference by id behind the others. -/
def rotatingSort (off : List TxoutRef) : List TxoutRef :=
  ((globalIndexes off).insertionSort (· ≤ ·)).map .globalIndex ++ (refsById off).rotate 1

theorem rotatingSort_refs (off : List TxoutRef) :
    ∀ ref ∈ (refsById off).rotate 1, ref.isRefById = true := by
  intro ref href
  exact refsById_isRefById off ref (List.mem_rotate.mp href)

theorem ordered_of_canonical {off : List TxoutRef} (h : Canonical off) :
    Ordered txoutRefLess off := by
  have hrefs := refsById_isRefById off
  rw [Ordered, h.parts]
  have hascending := h.ascending
  generalize globalIndexes off = ns at hascending ⊢
  generalize refsById off = refs at hrefs ⊢
  apply List.pairwise_append.mpr
  refine ⟨?_, ?_, ?_⟩
  · apply List.pairwise_map.mpr
    exact hascending.imp fun {a b} hle => by simpa [txoutRefLess, UInt64.not_lt] using hle
  · apply List.pairwise_of_forall_mem_list
    intro a _ b hb
    cases b with
    | globalIndex n => exact absurd (hrefs _ hb) (by simp [TxoutRef.isRefById])
    | refById txId n => rfl
  · intro a _ b hb
    cases b with
    | globalIndex n => exact absurd (hrefs _ hb) (by simp [TxoutRef.isRefById])
    | refById txId n => rfl

theorem sorts_rotatingSort : Sorts txoutRefLess rotatingSort where
  perm off := by
    have hsorted : ((globalIndexes off).insertionSort (· ≤ ·)).Perm (globalIndexes off) :=
      List.perm_insertionSort _ _
    have hparts : (rotatingSort off).Perm
        ((globalIndexes off).map .globalIndex ++ refsById off) :=
      (hsorted.map TxoutRef.globalIndex).append (List.rotate_perm (refsById off) 1)
    apply hparts.trans
    rw [← filter_not_isRefById]
    exact List.perm_append_comm.trans (List.filter_append_perm _ off)
  ordered off := by
    apply ordered_of_canonical
    apply canonical_parts _ (rotatingSort_refs off)
    exact List.pairwise_insertionSort _ _

/-- Two canonical lists of the same entries differ at most in the order of the references by id. -/
theorem canonical_unique {off off' : List TxoutRef} (hperm : off'.Perm off) (h : Canonical off)
    (h' : Canonical off') (halike : RefsAlike off) : off' = off := by
  have hindexes : globalIndexes off' = globalIndexes off :=
    (hperm.filterMap _).eq_of_pairwise' h'.ascending h.ascending
  have hrefsPerm : (refsById off').Perm (refsById off) := hperm.filter _
  have hany (refs : List TxoutRef) : refs.Pairwise fun _ _ => True :=
    List.pairwise_of_forall fun _ _ => trivial
  have hrefs : refsById off' = refsById off :=
    List.Perm.eq_of_pairwise (fun a b ha hb _ _ => halike a (hrefsPerm.mem_iff.mp ha) b hb)
      (hany _) (hany _) hrefsPerm
  rw [h'.parts, h.parts, hindexes, hrefs]

/-- Whatever `std::sort` makes of equal elements, a list goes through both functions, comes back
canonical with the same entries, and is left as it is if it was canonical: this holds exactly of the
lists that are not canonical or whose references by id are all alike. -/
theorem offsets_round_trip (off : List TxoutRef) :
    (∀ sort, Sorts txoutRefLess sort → RoundTrips sort off) ↔ (Canonical off → RefsAlike off) := by
  by_cases htwo : 2 ≤ off.length
  · constructor
    · intro htrips hcanonical
      have hsame := (roundTrips_iff sorts_rotatingSort htwo).mp (htrips _ sorts_rotatingSort)
        hcanonical
      have hrefs := congrArg refsById hsame
      rw [rotatingSort, refsById_parts _ (rotatingSort_refs off)] at hrefs
      have : Nonempty TxoutRef := ⟨.globalIndex 0⟩
      obtain ⟨ref, href⟩ := List.rotate_one_eq_self_iff_eq_replicate.mp hrefs
      intro a ha b hb
      rw [href] at ha hb
      rw [List.eq_of_mem_replicate ha, List.eq_of_mem_replicate hb]
    · intro halike sort hsort
      apply (roundTrips_iff hsort htwo).mpr
      intro hcanonical
      exact canonical_unique (hsort.perm off) hcanonical (canonical_of_ordered (hsort.ordered off))
        (halike hcanonical)
  · constructor
    · intro _ _ a ha b hb
      have hle : (refsById off).length ≤ 1 := by
        have hfilter := List.length_filter_le TxoutRef.isRefById off
        rw [refsById]
        omega
      match hlist : refsById off with
      | [] =>
          rw [hlist] at ha
          cases ha
      | [ref] =>
          rw [hlist] at ha hb
          rw [List.mem_singleton.mp ha, List.mem_singleton.mp hb]
      | _ :: _ :: _ =>
          rw [hlist] at hle
          simp at hle
    · intro _ sort _
      exact roundTrips_of_length_lt_two sort (by omega)

/-- A canonical list with two references by id that the sort need not leave in their order. -/
theorem offsets_do_not_round_trip :
    ∃ sort, Sorts txoutRefLess sort ∧
      (do relativeOutputOffsetsToAbsolute
            (← absoluteOutputOffsetsToRelative sort [.globalIndex 3, .refById 1 0, .refById 2 0])) =
        .ok [.globalIndex 3, .refById 2 0, .refById 1 0] :=
  ⟨rotatingSort, sorts_rotatingSort, by decide⟩

end Chinet
