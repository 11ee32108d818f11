import Mathlib.Data.List.DropRight
import Mathlib.Data.List.Nodup
import Mathlib.Order.Lattice

/-!
# Records of a list

The records of a list of keyed entries are the entries whose key is not below any key before
them; of several records with one key the last one counts.  The list of records rises strictly
and ends with the largest key.  A list of bounded length that takes records in and drops its
first entry when it is full holds the last of them.
-/

namespace Records

variable {κ α : Type} [LinearOrder κ]

/-- The records after one more entry. -/
def add (rs : List (κ × α)) (x : κ × α) : List (κ × α) :=
  match rs.getLast? with
  | none => [x]
  | some last =>
      if x.1 < last.1 then rs
      else if x.1 = last.1 then rs.dropLast ++ [x]
      else rs ++ [x]

def records (xs : List (κ × α)) : List (κ × α) := xs.foldl add []

@[simp] theorem records_nil : records ([] : List (κ × α)) = [] := rfl

theorem records_concat (xs : List (κ × α)) (x : κ × α) :
    records (xs ++ [x]) = add (records xs) x := by
  rw [records, List.foldl_concat]
  rfl

@[simp] theorem add_nil (x : κ × α) : add [] x = [x] := rfl

/-- What one more entry does to records that end with `last`. -/
theorem add_concat (rs : List (κ × α)) (last x : κ × α) :
    add (rs ++ [last]) x =
      if x.1 < last.1 then rs ++ [last]
      else if x.1 = last.1 then rs ++ [x]
      else rs ++ [last] ++ [x] := by
  simp [add]

/-- Strictly rising keys. -/
def Rising (rs : List (κ × α)) : Prop := rs.Pairwise fun a b => a.1 < b.1

theorem rising_concat {rs : List (κ × α)} {last : κ × α} :
    Rising (rs ++ [last]) ↔ Rising rs ∧ ∀ r ∈ rs, r.1 < last.1 := by
  rw [Rising, List.pairwise_append]
  simp [Rising]

theorem rising_injective {rs : List (κ × α)} (h : Rising rs) {a b : κ × α} (ha : a ∈ rs)
    (hb : b ∈ rs) (heq : a.1 = b.1) : a = b := by
  have hkeys : (rs.map Prod.fst).Nodup := List.pairwise_map.mpr (h.imp fun hlt => hlt.ne)
  exact List.inj_on_of_nodup_map hkeys ha hb heq

theorem add_rising {rs : List (κ × α)} (h : Rising rs) (x : κ × α) : Rising (add rs x) := by
  cases rs using List.reverseRecOn with
  | nil => exact List.pairwise_singleton _ _
  | append_singleton rs last =>
      obtain ⟨hrs, hlast⟩ := rising_concat.mp h
      rw [add_concat]
      split
      · exact h
      · rename_i hge
        split
        · rename_i heq
          exact rising_concat.mpr ⟨hrs, fun r hr => heq ▸ hlast r hr⟩
        · rename_i hne
          have hlt : last.1 < x.1 := lt_of_le_of_ne (not_lt.mp hge) (Ne.symm hne)
          refine rising_concat.mpr ⟨h, ?_⟩
          intro r hr
          rcases List.mem_append.mp hr with hr | hr
          · exact (hlast r hr).trans hlt
          · rwa [List.mem_singleton.mp hr]

theorem records_rising (xs : List (κ × α)) : Rising (records xs) := by
  induction xs using List.reverseRecOn with
  | nil => exact .nil
  | append_singleton xs x ih =>
      rw [records_concat]
      exact add_rising ih x

theorem add_ne_nil (rs : List (κ × α)) (x : κ × α) : add rs x ≠ [] := by
  cases rs using List.reverseRecOn with
  | nil => simp
  | append_singleton rs last =>
      rw [add_concat]
      split
      · simp
      · split <;> simp

theorem records_ne_nil {xs : List (κ × α)} (h : xs ≠ []) : records xs ≠ [] := by
  cases xs using List.reverseRecOn with
  | nil => exact absurd rfl h
  | append_singleton xs x =>
      rw [records_concat]
      exact add_ne_nil _ x

theorem exists_mem_add_ge (rs : List (κ × α)) (x : κ × α) : ∃ r ∈ add rs x, x.1 ≤ r.1 := by
  cases rs using List.reverseRecOn with
  | nil => exact ⟨x, by simp, le_rfl⟩
  | append_singleton rs last =>
      rw [add_concat]
      split
      · rename_i hlt
        exact ⟨last, by simp, hlt.le⟩
      · split <;> exact ⟨x, by simp, le_rfl⟩

theorem exists_mem_add_of_mem {rs : List (κ × α)} (x : κ × α) {r : κ × α} (hr : r ∈ rs) :
    ∃ r' ∈ add rs x, r.1 ≤ r'.1 := by
  cases rs using List.reverseRecOn with
  | nil => cases hr
  | append_singleton rs last =>
      rw [add_concat]
      split
      · exact ⟨r, hr, le_rfl⟩
      · split
        · rename_i heq
          rcases List.mem_append.mp hr with hr | hr
          · exact ⟨r, List.mem_append_left _ hr, le_rfl⟩
          · rw [List.mem_singleton.mp hr]
            exact ⟨x, by simp, heq.ge⟩
        · exact ⟨r, List.mem_append_left _ hr, le_rfl⟩

/-- No key is above all records. -/
theorem exists_record_ge {xs : List (κ × α)} {x : κ × α} (hx : x ∈ xs) :
    ∃ r ∈ records xs, x.1 ≤ r.1 := by
  induction xs using List.reverseRecOn with
  | nil => cases hx
  | append_singleton xs y ih =>
      rw [records_concat]
      rcases List.mem_append.mp hx with hx | hx
      · obtain ⟨r, hr, hle⟩ := ih hx
        obtain ⟨r', hr', hle'⟩ := exists_mem_add_of_mem y hr
        exact ⟨r', hr', hle.trans hle'⟩
      · rw [List.mem_singleton.mp hx]
        exact exists_mem_add_ge _ y

theorem mem_add {rs : List (κ × α)} (hrs : Rising rs) {x r : κ × α} (h : r ∈ add rs x) :
    r ∈ rs ∨ r = x ∧ ∀ r' ∈ rs, r'.1 ≤ x.1 := by
  cases rs using List.reverseRecOn with
  | nil => exact .inr ⟨by simpa using h, fun r' hr' => by cases hr'⟩
  | append_singleton rs last =>
      obtain ⟨-, hlast⟩ := rising_concat.mp hrs
      have hall (hle : last.1 ≤ x.1) : ∀ r' ∈ rs ++ [last], r'.1 ≤ x.1 := by
        intro r' hr'
        rcases List.mem_append.mp hr' with hr' | hr'
        · exact (hlast r' hr').le.trans hle
        · rwa [List.mem_singleton.mp hr']
      rw [add_concat] at h
      split at h
      · exact .inl h
      · rename_i hge
        split at h
        all_goals
          rcases List.mem_append.mp h with h | h
        · exact .inl (List.mem_append_left _ h)
        · exact .inr ⟨List.mem_singleton.mp h, hall (not_lt.mp hge)⟩
        · exact .inl h
        · exact .inr ⟨List.mem_singleton.mp h, hall (not_lt.mp hge)⟩

/-- A record stands in the list behind keys that are not above its own. -/
theorem record_position {xs : List (κ × α)} {r : κ × α} (hr : r ∈ records xs) :
    ∃ us vs, xs = us ++ r :: vs ∧ ∀ u ∈ us, u.1 ≤ r.1 := by
  induction xs using List.reverseRecOn with
  | nil => cases hr
  | append_singleton xs x ih =>
      rw [records_concat] at hr
      rcases mem_add (records_rising xs) hr with hr | ⟨rfl, hle⟩
      · obtain ⟨us, vs, rfl, hus⟩ := ih hr
        exact ⟨us, vs ++ [x], by simp, hus⟩
      · refine ⟨xs, [], rfl, ?_⟩
        intro u hu
        obtain ⟨r', hr', hur⟩ := exists_record_ge hu
        exact hur.trans (hle r' hr')

theorem mem_of_mem_records {xs : List (κ × α)} {r : κ × α} (hr : r ∈ records xs) : r ∈ xs := by
  obtain ⟨us, vs, rfl, -⟩ := record_position hr
  exact List.mem_append_right _ List.mem_cons_self

/-- Where the keys rise every entry is a record. -/
theorem records_of_rising {xs : List (κ × α)} (h : Rising xs) : records xs = xs := by
  induction xs using List.reverseRecOn with
  | nil => rfl
  | append_singleton xs x ih =>
      obtain ⟨hxs, hx⟩ := rising_concat.mp h
      rw [records_concat, ih hxs]
      cases xs using List.reverseRecOn with
      | nil => rfl
      | append_singleton xs last =>
          have hlt := hx last (by simp)
          rw [add_concat, if_neg hlt.not_gt, if_neg hlt.ne']

/-- Of the entries that share the largest key at the end only the last is a record. -/
theorem records_of_plateau {ys zs : List (κ × α)} {z : κ × α} (hys : Rising (ys ++ [z]))
    (hzs : ∀ z' ∈ zs, z'.1 = z.1) : records (ys ++ zs ++ [z]) = ys ++ [z] := by
  induction zs using List.reverseRecOn generalizing z with
  | nil =>
      rw [List.append_nil]
      exact records_of_rising hys
  | append_singleton zs z' ih =>
      have hsame : z'.1 = z.1 := hzs z' (by simp)
      obtain ⟨hrising, hlast⟩ := rising_concat.mp hys
      have hprev := @ih z' (rising_concat.mpr ⟨hrising, fun r hr => hsame ▸ hlast r hr⟩)
        fun w hw => (hzs w (List.mem_append_left _ hw)).trans hsame.symm
      rw [records_concat, ← List.append_assoc, hprev, add_concat, if_neg hsame.symm.not_lt,
        if_pos hsame.symm]

/-! ## The last records -/

/-- The last entries of a list, at most `c` of them. -/
def newest (c : Nat) (rs : List (κ × α)) : List (κ × α) := rs.rtake c

/-- A list of at most `c` entries takes one more in, and drops its first entry if it is too
long. -/
def note (c : Nat) (rs : List (κ × α)) (x : κ × α) : List (κ × α) :=
  if (add rs x).length > c then (add rs x).tail else add rs x

omit [LinearOrder κ] in
theorem length_newest (c : Nat) (rs : List (κ × α)) : (newest c rs).length = min c rs.length := by
  rw [newest, List.rtake, List.length_drop]
  omega

omit [LinearOrder κ] in
theorem newest_of_length_le {c : Nat} {rs : List (κ × α)} (h : rs.length ≤ c) :
    newest c rs = rs := by
  rw [newest, List.rtake, Nat.sub_eq_zero_of_le h, List.drop_zero]

omit [LinearOrder κ] in
theorem newest_concat {c : Nat} (rs : List (κ × α)) (x : κ × α) :
    newest (c + 1) (rs ++ [x]) = newest c rs ++ [x] := List.rtake_concat_succ _ _ _

omit [LinearOrder κ] in
/-- The last entries with one more behind them, cut to the same length. -/
theorem cut_newest {c : Nat} (hc : 0 < c) (rs : List (κ × α)) (x : κ × α) :
    (if (newest c rs ++ [x]).length > c then (newest c rs ++ [x]).tail else newest c rs ++ [x]) =
      newest c (rs ++ [x]) := by
  have hlength := length_newest c rs
  rw [List.length_append, List.length_singleton]
  by_cases hfull : c ≤ rs.length
  · rw [if_pos (by omega), newest, newest, List.rtake, List.rtake, List.length_append,
      List.length_singleton, List.tail_append_of_ne_nil, List.tail_drop,
      List.drop_append_of_le_length (by omega)]
    · congr 2
      omega
    · rw [Ne, List.drop_eq_nil_iff]
      omega
  · rw [if_neg (by omega), newest, newest, List.rtake, List.rtake, List.length_append,
      List.length_singleton, Nat.sub_eq_zero_of_le (by omega : rs.length ≤ c),
      Nat.sub_eq_zero_of_le (by omega : rs.length + 1 ≤ c)]
    rfl

theorem note_newest {c : Nat} (hc : 0 < c) (rs : List (κ × α)) (x : κ × α) :
    note c (newest c rs) x = newest c (add rs x) := by
  cases rs using List.reverseRecOn with
  | nil =>
      have hcut := @cut_newest κ α c hc [] x
      simpa [newest, List.rtake, note] using hcut
  | append_singleton rs last =>
      obtain ⟨c, rfl⟩ := Nat.exists_eq_succ_of_ne_zero hc.ne'
      have hlength := length_newest c rs
      have hcut := cut_newest hc (rs ++ [last]) x
      rw [newest_concat] at hcut
      rw [note, newest_concat, add_concat, add_concat]
      split
      · rw [if_neg (by rw [List.length_append, List.length_singleton]; omega), newest_concat]
      · split
        · rw [if_neg (by rw [List.length_append, List.length_singleton]; omega), newest_concat]
        · exact hcut

/-- Noting entry after entry leaves the last records. -/
theorem foldl_note {c : Nat} (hc : 0 < c) (xs : List (κ × α)) :
    xs.foldl (note c) [] = newest c (records xs) := by
  induction xs using List.reverseRecOn with
  | nil => simp [newest, List.rtake]
  | append_singleton xs x ih => rw [List.foldl_concat, ih, note_newest hc, records_concat]

omit [LinearOrder κ] in
theorem mem_newest {c : Nat} {rs : List (κ × α)} {r : κ × α} (h : r ∈ newest c rs) : r ∈ rs :=
  List.mem_of_mem_drop h

/-! ## When only the largest key is left -/

/-- Behind an entry there is no record with a smaller key. -/
theorem not_record_behind {as bs : List (κ × α)} {h r : κ × α} (hr : r ∈ records (as ++ h :: bs))
    (hlt : r.1 < h.1) : r ∈ as := by
  induction bs using List.reverseRecOn with
  | nil =>
      rw [records_concat] at hr
      rcases mem_add (records_rising as) hr with hr | ⟨rfl, -⟩
      · exact mem_of_mem_records hr
      · exact absurd hlt (lt_irrefl _)
  | append_singleton bs x ih =>
      rw [← List.cons_append, ← List.append_assoc, records_concat] at hr
      rcases mem_add (records_rising _) hr with hr | ⟨rfl, hle⟩
      · exact ih hr
      · obtain ⟨r', hr', hge⟩ := exists_record_ge (show h ∈ as ++ h :: bs by simp)
        exact absurd hlt (not_lt.mpr (hge.trans (hle r' hr')))

/-- If no record has a key as large as that of one among the last `c` without being one of them,
there are at most `c` records. -/
theorem length_records_le {c : Nat} (hc : 0 < c) {xs : List (κ × α)}
    (hrest : ∀ x ∈ xs, x ∉ newest c (records xs) → ∀ r ∈ newest c (records xs), r.1 ≤ x.1) :
    (records xs).length ≤ c := by
  have hrising := records_rising xs
  by_contra hlong
  have hlength := length_newest c (records xs)
  -- the first record is not among the last ones, which all lie above it
  obtain ⟨first, others, hrs⟩ : ∃ first others, records xs = first :: others := by
    cases hrs : records xs with
    | nil => simp [hrs] at hlong
    | cons first others => exact ⟨first, others, rfl⟩
  obtain ⟨hfirst, -⟩ := List.pairwise_cons.mp (hrs ▸ hrising)
  have hbehind : ∀ r ∈ newest c (records xs), r ∈ others := by
    intro r hr
    rw [newest, List.rtake, hrs] at hr
    rw [hrs, List.length_cons] at hlong
    rw [List.length_cons, Nat.succ_sub (by omega), List.drop_succ_cons] at hr
    exact List.mem_of_mem_drop hr
  have hnot : first ∉ newest c (records xs) := fun hin =>
    absurd (hfirst first (hbehind first hin)) (lt_irrefl _)
  have hfirstMem : first ∈ xs := mem_of_mem_records (by rw [hrs]; exact List.mem_cons_self)
  obtain ⟨r, hr⟩ : ∃ r, r ∈ newest c (records xs) :=
    List.exists_mem_of_length_pos (by omega)
  exact absurd (hrest first hfirstMem hnot r hr) (not_le.mpr (hfirst r (hbehind r hr)))

/-- A list is pairwise related if each entry is related to those behind it. -/
theorem pairwise_of_splits {β : Type} {R : β → β → Prop} {xs : List β}
    (h : ∀ as a bs, xs = as ++ a :: bs → ∀ b ∈ bs, R a b) : xs.Pairwise R := by
  induction xs with
  | nil => exact .nil
  | cons x xs ih =>
      apply List.pairwise_cons.mpr
      refine ⟨h [] x xs rfl, ih ?_⟩
      rintro as a bs rfl
      exact h (x :: as) a bs rfl

/-- If each entry that is not among the last records has a key as large as theirs, the list rises
up to its largest key and stays there. -/
theorem plateau_of_newest {c : Nat} (hc : 0 < c) {xs : List (κ × α)} (hxs : xs ≠ [])
    (hnodup : xs.Nodup)
    (hrest : ∀ x ∈ xs, x ∉ newest c (records xs) → ∀ r ∈ newest c (records xs), r.1 ≤ x.1) :
    ∃ ys zs z, xs = ys ++ zs ++ [z] ∧ Rising (ys ++ [z]) ∧ ∀ z' ∈ zs, z'.1 = z.1 := by
  obtain ⟨rs, top, htop⟩ : ∃ rs top, records xs = rs ++ [top] := by
    have hne := records_ne_nil hxs
    exact ⟨_, _, (List.dropLast_append_getLast hne).symm⟩
  have hrising := records_rising xs
  have hmax : ∀ x ∈ xs, x.1 ≤ top.1 := by
    intro x hx
    obtain ⟨r, hr, hle⟩ := exists_record_ge hx
    rw [htop] at hr hrising
    rcases List.mem_append.mp hr with hr | hr
    · exact hle.trans ((rising_concat.mp hrising).2 r hr).le
    · rwa [← List.mem_singleton.mp hr]
  have htopRemoved : top ∈ newest c (records xs) := by
    obtain ⟨d, rfl⟩ := Nat.exists_eq_succ_of_ne_zero hc.ne'
    rw [htop, newest_concat]
    exact List.mem_append_right _ List.mem_cons_self
  -- an entry below the largest key is a record
  have hsmall : ∀ x ∈ xs, x.1 < top.1 → x ∈ records xs := by
    intro x hx hlt
    by_contra hno
    have hge := hrest x hx (fun hin => hno (mem_newest hin)) top htopRemoved
    exact absurd hlt (not_lt.mpr hge)
  have hsplit : xs = xs.takeWhile (fun x => decide (x.1 < top.1)) ++
      xs.dropWhile (fun x => decide (x.1 < top.1)) := (List.takeWhile_append_dropWhile ..).symm
  generalize hys : xs.takeWhile (fun x => decide (x.1 < top.1)) = ys at hsplit
  generalize hzs : xs.dropWhile (fun x => decide (x.1 < top.1)) = tail at hsplit
  have hysSmall : ∀ y ∈ ys, y.1 < top.1 := by
    intro y hy
    rw [← hys] at hy
    simpa using List.mem_takeWhile_imp hy
  have htopXs : top ∈ xs := mem_of_mem_records (by rw [htop]; simp)
  cases tail with
  | nil =>
      rw [List.append_nil] at hsplit
      exact absurd (hysSmall top (hsplit ▸ htopXs)) (lt_irrefl _)
  | cons h tail =>
      have hhead : h.1 = top.1 := by
        have hhx : h ∈ xs := by rw [hsplit]; simp
        refine le_antisymm (hmax h hhx) (not_lt.mp ?_)
        have hfirst := List.head?_dropWhile_not (fun x : κ × α => decide (x.1 < top.1)) xs
        rw [hzs] at hfirst
        simpa using hfirst
      have htail : ∀ w ∈ h :: tail, w.1 = top.1 := by
        intro w hw
        rcases List.mem_cons.mp hw with rfl | hw
        · exact hhead
        · have hwx : w ∈ xs := by rw [hsplit]; simp [hw]
          refine le_antisymm (hmax w hwx) (not_lt.mp fun hlt => ?_)
          have hrecord := hsmall w hwx hlt
          rw [hsplit] at hrecord hnodup
          have hin := not_record_behind hrecord (hhead ▸ hlt)
          exact (List.nodup_append.mp hnodup).2.2 w hin w (List.mem_cons_of_mem _ hw) rfl
      have hysRising : Rising ys := by
        apply pairwise_of_splits
        rintro as a bs rfl b hb
        have hax : a ∈ xs := by rw [hsplit]; simp
        have hbx : b ∈ xs := by rw [hsplit]; simp [hb]
        have hbrecord := hsmall b hbx (hysSmall b (by simp [hb]))
        rcases lt_trichotomy a.1 b.1 with hlt | heq | hgt
        · exact hlt
        · -- of two records with one key the first is not one
          have harecord := hsmall a hax (hysSmall a (by simp))
          have hne : a ≠ b := by
            rintro rfl
            rw [hsplit] at hnodup
            have hys := (List.nodup_append.mp (List.nodup_append.mp hnodup).1).2.1
            exact (List.nodup_cons.mp hys).1 hb
          exact absurd (rising_injective hrising harecord hbrecord heq) hne
        · -- a record does not stand behind an entry with a larger key
          rw [hsplit] at hbrecord hnodup
          rw [List.append_assoc, List.cons_append] at hbrecord
          have hin := not_record_behind hbrecord hgt
          have hys := List.nodup_append.mp (List.nodup_append.mp hnodup).1
          exact absurd rfl (hys.2.2 b hin b (List.mem_cons_of_mem _ hb))
      obtain ⟨zs, z, hz⟩ : ∃ zs z, h :: tail = zs ++ [z] :=
        ⟨(h :: tail).dropLast, (h :: tail).getLast (by simp), (List.dropLast_append_getLast _).symm⟩
      rw [hz] at htail hsplit
      have hzkey := htail z (by simp)
      refine ⟨ys, zs, z, by rw [hsplit, List.append_assoc], rising_concat.mpr ⟨hysRising, ?_⟩, ?_⟩
      · intro y hy
        rw [hzkey]
        exact hysSmall y hy
      · intro z' hz'
        rw [htail z' (by simp [hz']), hzkey]

end Records
