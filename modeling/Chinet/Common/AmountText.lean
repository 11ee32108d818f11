import Chinet.CurrencyBasic
import Chinet.Lib.SplitJoin
import Mathlib.Algebra.Order.Field.Rat
import Mathlib.Data.List.DropRight
import Mathlib.Tactic.FieldSimp
import Mathlib.Tactic.Ring

/-!
# Amounts as text

`print_money` and `parse_amount`.  An amount counts units of `10 ^ -12`; its text has a
decimal point.  The parser takes the point out and fills the decimals up with zeros, and
leaves the characters and the range to `get_xtype_from_string`.
-/

namespace Chinet

def currencyDisplayDecimalPoint : Nat := 12

/-- `std::to_string` -/
def toDecimal (n : Nat) : ByteString := (Nat.toDigits 10 n).map fun c => UInt8.ofNat c.toNat

/-- The number that decimal digits write. -/
def decimalValue (str : ByteString) : Nat :=
  str.foldl (fun n digit => 10 * n + (digit.toNat - 48)) 0

/-- `print_fixed_decimal_point`. -/
def printFixedDecimalPoint (amount decimalPoint : Nat) : ByteString :=
  let s := toDecimal amount
  let s := if s.length < decimalPoint + 1 then
      List.replicate (decimalPoint + 1 - s.length) 48 ++ s
    else s
  s.take (s.length - decimalPoint) ++ 46 :: s.drop (s.length - decimalPoint)

def printMoney (amount : UInt64) : ByteString :=
  printFixedDecimalPoint amount.toNat currencyDisplayDecimalPoint

/-- `boost::lexical_cast` to a `uint64_t`; nothing for `bad_lexical_cast`.  It takes a sign,
and negates modulo `2 ^ 64`. -/
def lexicalCast (str : ByteString) : Option UInt64 :=
  let digits : ByteString := if str.head? = some 45 ∨ str.head? = some 43 then str.drop 1 else str
  if digits = [] ∨ ¬ digits.all isDigit ∨ 2 ^ 64 ≤ decimalValue digits then none
  else if str.head? = some 45 then some (0 - UInt64.ofNat (decimalValue digits))
  else some (UInt64.ofNat (decimalValue digits))

/-- `get_xtype_from_string` at `uint64_t`, an unsigned type. -/
def getXtypeFromString (strId : ByteString) : Option UInt64 :=
  if strId.all isDigit then lexicalCast strId else none

/-- The loop of `parse_amount` over the trailing zeros, with what it leaves of `str_amount` and
of `fraction_size`. -/
def dropZeros (strAmount : ByteString) : (fractionSize : Nat) → ByteString × Nat
  | 0 => (strAmount, 0)
  | fractionSize + 1 =>
      if currencyDisplayDecimalPoint < fractionSize + 1 ∧ strAmount.getLast? = some 48 then
        dropZeros strAmount.dropLast fractionSize
      else (strAmount, fractionSize + 1)

/-- The first half of `parse_amount`: the text without its point, and `fraction_size`. -/
def removePoint (strAmount : ByteString) : Option (ByteString × Nat) :=
  match strAmount.findIdx? (· == 46) with
  | some pointIndex =>
      let (strAmount, fractionSize) := dropZeros strAmount (strAmount.length - pointIndex - 1)
      if currencyDisplayDecimalPoint < fractionSize then none
      else some (strAmount.eraseIdx pointIndex, fractionSize)
  | none => some (strAmount, 0)

def parseAmount (strAmount : ByteString) : Option UInt64 :=
  match removePoint (SplitJoin.trim isSpace strAmount) with
  | none => none
  | some (strAmount, fractionSize) =>
      if strAmount = [] then none
      else if fractionSize < currencyDisplayDecimalPoint then
        getXtypeFromString
          (strAmount ++ List.replicate (currencyDisplayDecimalPoint - fractionSize) 48)
      else getXtypeFromString strAmount

/-! ## Decimal digits -/

@[simp] theorem decimalValue_nil : decimalValue [] = 0 := rfl

@[simp] theorem decimalValue_concat (str : ByteString) (c : UInt8) :
    decimalValue (str ++ [c]) = 10 * decimalValue str + (c.toNat - 48) := by
  simp [decimalValue]

/-- A zero at the end multiplies by ten. -/
@[simp] theorem decimalValue_append_zeros (str : ByteString) (k : Nat) :
    decimalValue (str ++ List.replicate k 48) = decimalValue str * 10 ^ k := by
  induction k with
  | zero => simp
  | succ k ih =>
      rw [List.replicate_succ', ← List.append_assoc, decimalValue_concat, ih, pow_succ]
      change 10 * (decimalValue str * 10 ^ k) + 0 = decimalValue str * (10 ^ k * 10)
      ring

/-- A zero in front does not count. -/
@[simp] theorem decimalValue_zeros_append (k : Nat) (str : ByteString) :
    decimalValue (List.replicate k 48 ++ str) = decimalValue str := by
  induction str using List.reverseRecOn with
  | nil =>
      have hzeros := decimalValue_append_zeros [] k
      simpa using hzeros
  | append_singleton str c ih => rw [← List.append_assoc, decimalValue_concat, ih,
      decimalValue_concat]

theorem toNat_ofNat_toNat_of_isDigit {c : Char} (hc : c.isDigit) :
    (UInt8.ofNat c.toNat).toNat = c.toNat ∧ 48 ≤ c.toNat ∧ c.toNat ≤ 57 := by
  have hrange : 48 ≤ c.toNat ∧ c.toNat ≤ 57 := by
    rw [Char.isDigit, Bool.and_eq_true, decide_eq_true_eq, decide_eq_true_eq] at hc
    exact ⟨hc.1, hc.2⟩
  exact ⟨UInt8.toNat_ofNat_of_lt' (by change c.toNat < 256; omega), hrange⟩

theorem isDigit_of_mem_toDecimal {n : Nat} {c : UInt8} (hc : c ∈ toDecimal n) : isDigit c := by
  obtain ⟨d, hd, rfl⟩ := List.mem_map.mp hc
  obtain ⟨hvalue, hlow, hhigh⟩ :=
    toNat_ofNat_toNat_of_isDigit (Nat.isDigit_of_mem_toDigits (by decide) (by decide) hd)
  rw [isDigit, Bool.and_eq_true, decide_eq_true_eq, decide_eq_true_eq, UInt8.le_iff_toNat_le,
    UInt8.le_iff_toNat_le, hvalue]
  exact ⟨hlow, hhigh⟩

/-- Printing a number and evaluating its digits gives it back. -/
theorem decimalValue_toDecimal (n : Nat) : decimalValue (toDecimal n) = n := by
  have hfold : ∀ (digits : List Char) (init : Nat), (∀ c ∈ digits, c.isDigit) →
      (digits.map fun c => UInt8.ofNat c.toNat).foldl
        (fun n digit => 10 * n + (digit.toNat - 48)) init = Nat.ofDigitChars 10 digits init := by
    intro digits
    induction digits with
    | nil => simp
    | cons c digits ih =>
        intro init hdigits
        have hc := toNat_ofNat_toNat_of_isDigit (hdigits c List.mem_cons_self)
        rw [List.map_cons, List.foldl_cons, hc.1, Nat.ofDigitChars_cons,
          ih _ fun d hd => hdigits d (List.mem_cons_of_mem c hd)]
        rfl
  calc decimalValue (toDecimal n) = Nat.ofDigitChars 10 (Nat.toDigits 10 n) 0 :=
        hfold _ 0 fun c hc => Nat.isDigit_of_mem_toDigits (by decide) (by decide) hc
    _ = n := Nat.ofDigitChars_ten_toDigits

/-! ## The conversion -/

theorem head?_ne_sign {str : ByteString} (hdigits : ∀ c ∈ str, isDigit c) :
    str.head? ≠ some 45 ∧ str.head? ≠ some 43 := by
  cases str with
  | nil => simp
  | cons c str =>
      have hc := hdigits c List.mem_cons_self
      constructor
      · intro hsign
        rw [List.head?_cons, Option.some.injEq] at hsign
        rw [hsign] at hc
        cases hc
      · intro hsign
        rw [List.head?_cons, Option.some.injEq] at hsign
        rw [hsign] at hc
        cases hc

/-- No sign is taken: the characters are checked before the cast. -/
theorem getXtypeFromString_eq_some_iff {str : ByteString} {val : UInt64} :
    getXtypeFromString str = some val ↔
      str ≠ [] ∧ (∀ c ∈ str, isDigit c) ∧ decimalValue str = val.toNat := by
  by_cases hdigits : ∀ c ∈ str, isDigit c
  · obtain ⟨hminus, hplus⟩ := head?_ne_sign hdigits
    have hall : str.all isDigit = true := List.all_eq_true.mpr hdigits
    have hsign : ¬ (str.head? = some 45 ∨ str.head? = some 43) := by tauto
    rw [getXtypeFromString, if_pos hall]
    simp only [lexicalCast, if_neg hsign]
    by_cases hrefused : str = [] ∨ ¬ str.all isDigit ∨ 2 ^ 64 ≤ decimalValue str
    · rw [if_pos hrefused]
      have hval := val.toNat_lt
      have hnot : ¬ (str ≠ [] ∧ decimalValue str = val.toNat) := by
        rcases hrefused with hempty | hchar | hlarge
        · tauto
        · tauto
        · omega
      tauto
    · have hbound : decimalValue str < 2 ^ 64 := by
        by_contra hlarge
        exact hrefused (.inr (.inr (by omega)))
      have hne : str ≠ [] := fun hempty => hrefused (.inl hempty)
      rw [if_neg hrefused, if_neg hminus, Option.some.injEq, ← UInt64.toNat_inj,
        UInt64.toNat_ofNat_of_lt' hbound]
      tauto
  · have hall : ¬ str.all isDigit = true := fun hall => hdigits (List.all_eq_true.mp hall)
    rw [getXtypeFromString, if_neg hall]
    simp [hdigits]

/-! ## The trailing zeros -/

/-- `left` is what the loop over the trailing zeros leaves of the decimals. -/
structure Stripped (fraction left : ByteString) : Prop where
  zeros : ∃ k, fraction = left ++ List.replicate k 48 ∧
    (k = 0 ∨ currencyDisplayDecimalPoint ≤ left.length)
  stopped : left.length ≤ currencyDisplayDecimalPoint ∨ left.rdropWhile (· == 48) = left

/-- The loop works at the end of the text and leaves what is before the decimals alone. -/
theorem dropZeros_append (str fraction : ByteString) :
    ∃ left, Stripped fraction left ∧
      dropZeros (str ++ fraction) fraction.length = (str ++ left, left.length) := by
  induction fraction using List.reverseRecOn with
  | nil => exact ⟨[], ⟨⟨0, rfl, .inl rfl⟩, .inl (Nat.zero_le _)⟩, rfl⟩
  | append_singleton fraction c ih =>
      have hlast : (str ++ (fraction ++ [c])).getLast? = some c := by simp
      have hinit : (str ++ (fraction ++ [c])).dropLast = str ++ fraction := by
        rw [← List.append_assoc, List.dropLast_concat]
      rw [List.length_append, List.length_singleton, dropZeros, hlast, hinit]
      by_cases hdrop : currencyDisplayDecimalPoint < fraction.length + 1 ∧ some c = some 48
      · -- A zero beyond the last place: the loop goes on with what is before it.
        obtain ⟨left, ⟨⟨k, hzeros, hk⟩, hstopped⟩, hloop⟩ := ih
        rw [if_pos hdrop]
        refine ⟨left, ⟨⟨k + 1, ?_, .inr ?_⟩, hstopped⟩, hloop⟩
        · rw [Option.some.inj hdrop.2, List.replicate_succ', ← List.append_assoc, ← hzeros]
        · rcases hk with rfl | hk
          · rw [hzeros, List.replicate_zero, List.append_nil] at hdrop
            omega
          · exact hk
      · rw [if_neg hdrop]
        refine ⟨fraction ++ [c], ⟨⟨0, by simp, .inl rfl⟩, ?_⟩, by simp⟩
        rw [List.length_append, List.length_singleton]
        by_cases hc : c = 48
        · left
          rw [hc] at hdrop
          simpa using hdrop
        · right
          exact List.rdropWhile_concat_neg _ _ _ (by simpa using hc)

namespace Stripped

variable {fraction left : ByteString}

theorem length_le_iff (h : Stripped fraction left) :
    left.length ≤ currencyDisplayDecimalPoint ↔
      (fraction.rdropWhile (· == 48)).length ≤ currencyDisplayDecimalPoint := by
  obtain ⟨k, rfl, -⟩ := h.zeros
  have hzeros : (left ++ List.replicate k 48).rdropWhile (· == 48) =
      left.rdropWhile (· == 48) := by
    clear h
    induction k with
    | zero => rw [List.replicate_zero, List.append_nil]
    | succ k ih =>
        rw [List.replicate_succ', ← List.append_assoc, List.rdropWhile_concat_pos _ _ _ (by simp),
          ih]
  have hprefix : (left.rdropWhile (· == 48)).length ≤ left.length :=
    (List.rdropWhile_prefix (fun c : UInt8 => c == 48) _).length_le
  rw [hzeros]
  rcases h.stopped with hshort | hlast
  · omega
  · rw [hlast]

theorem append_eq_nil_iff (h : Stripped fraction left) (whole : ByteString) :
    whole ++ left = [] ↔ whole ++ fraction = [] := by
  obtain ⟨k, rfl, hk⟩ := h.zeros
  rcases hk with rfl | hk
  · rw [List.replicate_zero, List.append_nil]
  · have hne : left ≠ [] := by
      rintro rfl
      cases hk
    simp [hne]

theorem digits_iff (h : Stripped fraction left) (whole : ByteString) (k : Nat) :
    (∀ c ∈ whole ++ left ++ List.replicate k 48, isDigit c) ↔
      ∀ c ∈ whole ++ fraction, isDigit c := by
  obtain ⟨k', rfl, -⟩ := h.zeros
  have hzeros : ∀ j, ∀ c ∈ List.replicate j (48 : UInt8), isDigit c := by
    intro j c hc
    rw [List.eq_of_mem_replicate hc]
    rfl
  simp only [← List.append_assoc, List.forall_mem_append]
  exact and_congr_right fun _ => iff_of_true (hzeros k) (hzeros k')

/-- Filling the decimals up to the last place multiplies the value by `10 ^ 12`. -/
theorem decimalValue_fill (h : Stripped fraction left) (whole : ByteString)
    (hshort : left.length ≤ currencyDisplayDecimalPoint) :
    (decimalValue (whole ++ left ++
        List.replicate (currencyDisplayDecimalPoint - left.length) 48) : ℚ) =
      decimalValue (whole ++ fraction) / 10 ^ fraction.length *
        10 ^ currencyDisplayDecimalPoint := by
  obtain ⟨k, rfl, -⟩ := h.zeros
  have hsplit : (10 : ℚ) ^ currencyDisplayDecimalPoint =
      10 ^ left.length * 10 ^ (currencyDisplayDecimalPoint - left.length) := by
    rw [← pow_add, Nat.add_sub_cancel' hshort]
  rw [← List.append_assoc, decimalValue_append_zeros, decimalValue_append_zeros,
    List.length_append, List.length_replicate, hsplit, pow_add]
  push_cast
  field_simp

end Stripped

/-! ## The point -/

theorem findIdx?_eq_none {text : ByteString} (hpoint : 46 ∉ text) :
    text.findIdx? (· == 46) = none := by
  rw [List.findIdx?_eq_none_iff]
  intro c hc
  rw [beq_eq_false_iff_ne]
  rintro rfl
  exact hpoint hc

/-- The first point of a text is found, and taken out. -/
theorem removePoint_point {whole : ByteString} (fraction : ByteString) (hwhole : 46 ∉ whole) :
    ∃ left, Stripped fraction left ∧ removePoint (whole ++ 46 :: fraction) =
      if currencyDisplayDecimalPoint < left.length then none
      else some (whole ++ left, left.length) := by
  obtain ⟨left, hleft, hloop⟩ := dropZeros_append (whole ++ [46]) fraction
  have hfind : (whole ++ 46 :: fraction).findIdx? (· == 46) = some whole.length := by
    rw [List.findIdx?_append, findIdx?_eq_none hwhole]
    simp [List.findIdx?_cons]
  have hsize : (whole ++ 46 :: fraction).length - whole.length - 1 = fraction.length := by
    rw [List.length_append, List.length_cons]
    omega
  have hsplit : whole ++ 46 :: fraction = whole ++ [46] ++ fraction := by simp
  have herase : (whole ++ [46] ++ left).eraseIdx whole.length = whole ++ left := by
    simp [List.eraseIdx_append_of_length_le]
  refine ⟨left, hleft, ?_⟩
  simp only [removePoint, hfind, hsize]
  rw [hsplit, hloop]
  simp only [herase]

theorem removePoint_of_not_mem {text : ByteString} (hpoint : 46 ∉ text) :
    removePoint text = some (text, 0) := by
  rw [removePoint, findIdx?_eq_none hpoint]

/-! ## Amounts and their texts -/

/-- Decimal digits before and after a point, no more than twelve of them behind it but for
trailing zeros. -/
structure AmountNumeral where
  whole : ByteString
  fraction : ByteString
  digits : ∀ c ∈ whole ++ fraction, isDigit c
  nonempty : whole ++ fraction ≠ []
  decimals : (fraction.rdropWhile (· == 48)).length ≤ currencyDisplayDecimalPoint

namespace AmountNumeral

/-- The texts of a numeral: the point may stay away when no digit is behind it. -/
def Writes (n : AmountNumeral) (text : ByteString) : Prop :=
  text = n.whole ++ 46 :: n.fraction ∨ n.fraction = [] ∧ text = n.whole

def value (n : AmountNumeral) : ℚ :=
  decimalValue (n.whole ++ n.fraction) / 10 ^ n.fraction.length

theorem not_mem_whole (n : AmountNumeral) : 46 ∉ n.whole := by
  intro hpoint
  have hdigit := n.digits 46 (List.mem_append_left _ hpoint)
  cases hdigit

theorem writes_point_iff {whole fraction : ByteString} (hwhole : 46 ∉ whole) (n : AmountNumeral) :
    n.Writes (whole ++ 46 :: fraction) ↔ n.whole = whole ∧ n.fraction = fraction := by
  constructor
  · rintro (htext | ⟨-, htext⟩)
    · have hindex := congrArg (List.findIdx? (· == 46)) htext
      rw [List.findIdx?_append, List.findIdx?_append, findIdx?_eq_none hwhole,
        findIdx?_eq_none n.not_mem_whole] at hindex
      have hlength : whole.length = n.whole.length := by
        simpa [List.findIdx?_cons] using hindex
      obtain ⟨hw, hf⟩ := List.append_inj htext hlength
      exact ⟨hw.symm, (List.cons.inj hf).2.symm⟩
    · exact absurd (htext ▸ by simp : 46 ∈ n.whole) n.not_mem_whole
  · rintro ⟨rfl, rfl⟩
    exact .inl rfl

theorem writes_iff_of_not_mem {text : ByteString} (hpoint : 46 ∉ text) (n : AmountNumeral) :
    n.Writes text ↔ n.whole = text ∧ n.fraction = [] := by
  constructor
  · rintro (rfl | ⟨hfraction, rfl⟩)
    · exact absurd (by simp) hpoint
    · exact ⟨rfl, hfraction⟩
  · rintro ⟨rfl, hfraction⟩
    exact .inr ⟨hfraction, rfl⟩

/-- A text is written by one numeral. -/
theorem value_eq {n m : AmountNumeral} {text : ByteString} (hn : n.Writes text)
    (hm : m.Writes text) : n.value = m.value := by
  by_cases hpoint : 46 ∈ text
  · obtain ⟨whole, fraction, rfl, hwhole⟩ := List.eq_append_cons_of_mem hpoint
    rw [writes_point_iff hwhole] at hn hm
    rw [value, value, hn.1, hn.2, hm.1, hm.2]
  · rw [writes_iff_of_not_mem hpoint] at hn hm
    rw [value, value, hn.1, hn.2, hm.1, hm.2]

/-- With no more than twelve decimals, the value is a number of units. -/
theorem exists_units (n : AmountNumeral) :
    ∃ units : Nat, n.value * 10 ^ currencyDisplayDecimalPoint = units := by
  obtain ⟨left, hleft, -⟩ := dropZeros_append [] n.fraction
  exact ⟨_, (hleft.decimalValue_fill n.whole (hleft.length_le_iff.mpr n.decimals)).symm⟩

end AmountNumeral

/-- What is read once the point is out: the value of the numeral, in units. -/
theorem parseAmount_eq_some_iff_of_removePoint {str whole fraction left : ByteString}
    (hleft : Stripped fraction left)
    (hremove : removePoint (SplitJoin.trim isSpace str) =
      if currencyDisplayDecimalPoint < left.length then none
      else some (whole ++ left, left.length)) (amount : UInt64) :
    parseAmount str = some amount ↔
      ∃ n : AmountNumeral, n.whole = whole ∧ n.fraction = fraction ∧
        n.value * 10 ^ currencyDisplayDecimalPoint = amount.toNat := by
  by_cases hshort : left.length ≤ currencyDisplayDecimalPoint
  · have hfill : (if left.length < currencyDisplayDecimalPoint then
          getXtypeFromString (whole ++ left ++
            List.replicate (currencyDisplayDecimalPoint - left.length) 48)
        else getXtypeFromString (whole ++ left)) =
        getXtypeFromString (whole ++ left ++
          List.replicate (currencyDisplayDecimalPoint - left.length) 48) := by
      split
      · rfl
      · rw [show currencyDisplayDecimalPoint - left.length = 0 by omega, List.replicate_zero,
          List.append_nil]
    have hparse : parseAmount str = some amount ↔ whole ++ left ≠ [] ∧
        getXtypeFromString (whole ++ left ++
          List.replicate (currencyDisplayDecimalPoint - left.length) 48) = some amount := by
      rw [parseAmount, hremove, if_neg (by omega)]
      simp only [hfill]
      split <;> simp [*]
    rw [hparse, getXtypeFromString_eq_some_iff, hleft.digits_iff, Ne,
      hleft.append_eq_nil_iff]
    constructor
    · rintro ⟨hne, -, hdigits, hvalue⟩
      refine ⟨⟨whole, fraction, hdigits, hne, hleft.length_le_iff.mp hshort⟩, rfl, rfl, ?_⟩
      rw [AmountNumeral.value, ← hleft.decimalValue_fill whole hshort, hvalue]
    · rintro ⟨n, rfl, rfl, hvalue⟩
      rw [AmountNumeral.value, ← hleft.decimalValue_fill n.whole hshort] at hvalue
      have hleftNe := mt (hleft.append_eq_nil_iff n.whole).mp n.nonempty
      exact ⟨n.nonempty, List.append_ne_nil_of_left_ne_nil hleftNe _, n.digits,
        by exact_mod_cast hvalue⟩
  · have hparse : parseAmount str = none := by
      rw [parseAmount, hremove, if_pos (by omega)]
    rw [hparse]
    refine iff_of_false (by simp) ?_
    rintro ⟨n, -, rfl, -⟩
    exact hshort (hleft.length_le_iff.mpr n.decimals)

/-- `parse_amount` accepts the texts of the numerals whose value fits, and returns the value. -/
theorem parseAmount_eq_some_iff {str : ByteString} {amount : UInt64} :
    parseAmount str = some amount ↔
      ∃ n : AmountNumeral, n.Writes (SplitJoin.trim isSpace str) ∧
        n.value * 10 ^ currencyDisplayDecimalPoint = amount.toNat := by
  by_cases hpoint : 46 ∈ SplitJoin.trim isSpace str
  · obtain ⟨whole, fraction, htext, hwhole⟩ := List.eq_append_cons_of_mem hpoint
    obtain ⟨left, hleft, hremove⟩ := removePoint_point fraction hwhole
    rw [parseAmount_eq_some_iff_of_removePoint hleft (htext ▸ hremove), htext]
    simp only [AmountNumeral.writes_point_iff hwhole, and_assoc]
  · have hleft : Stripped [] [] := ⟨⟨0, rfl, .inl rfl⟩, .inl (Nat.zero_le _)⟩
    have hremove := removePoint_of_not_mem hpoint
    rw [parseAmount_eq_some_iff_of_removePoint hleft (by rw [hremove, List.append_nil]; rfl)]
    simp only [AmountNumeral.writes_iff_of_not_mem hpoint, and_assoc]

/-! ## Printing -/

/-- The number is printed with at least one digit more than there are decimals, and the point
is put in front of the decimals. -/
theorem printFixedDecimalPoint_eq (amount decimalPoint : Nat) :
    ∃ whole fraction, printFixedDecimalPoint amount decimalPoint = whole ++ 46 :: fraction ∧
      (∀ c ∈ whole ++ fraction, isDigit c) ∧ whole ≠ [] ∧ fraction.length = decimalPoint ∧
      decimalValue (whole ++ fraction) = amount := by
  obtain ⟨k, hpadded, hlength⟩ : ∃ k,
      (if (toDecimal amount).length < decimalPoint + 1 then
          List.replicate (decimalPoint + 1 - (toDecimal amount).length) 48 ++ toDecimal amount
        else toDecimal amount) = List.replicate k 48 ++ toDecimal amount ∧
      decimalPoint < k + (toDecimal amount).length := by
    split
    · exact ⟨_, rfl, by omega⟩
    · exact ⟨0, rfl, by omega⟩
  have hdigits : ∀ c ∈ List.replicate k 48 ++ toDecimal amount, isDigit c := by
    intro c hc
    rcases List.mem_append.mp hc with hc | hc
    · rw [List.eq_of_mem_replicate hc]
      rfl
    · exact isDigit_of_mem_toDecimal hc
  have hvalue : decimalValue (List.replicate k 48 ++ toDecimal amount) = amount := by
    rw [decimalValue_zeros_append, decimalValue_toDecimal]
  rw [← List.length_replicate (n := k) (a := (48 : UInt8)), ← List.length_append] at hlength
  simp only [printFixedDecimalPoint, hpadded]
  generalize List.replicate k 48 ++ toDecimal amount = s at *
  have hjoin := List.take_append_drop (s.length - decimalPoint) s
  refine ⟨_, _, rfl, hjoin.symm ▸ hdigits, ?_, ?_, hjoin.symm ▸ hvalue⟩
  · apply List.ne_nil_of_length_pos
    rw [List.length_take]
    omega
  · rw [List.length_drop]
    omega

theorem isSpace_of_isDigit {c : UInt8} (hc : isDigit c) : isSpace c = false := by
  simp only [isDigit, isSpace, Bool.and_eq_true, decide_eq_true_eq, Bool.or_eq_false_iff,
    beq_eq_false_iff_ne, Bool.and_eq_false_iff, decide_eq_false_iff_not,
    UInt8.le_iff_toNat_le, ← UInt8.toNat_inj, Ne] at hc ⊢
  simp only [UInt8.reduceToNat] at hc ⊢
  omega

/-- Nothing is trimmed from a text that begins and ends with a digit. -/
theorem trim_digits {whole fraction : ByteString} (hdigits : ∀ c ∈ whole ++ fraction, isDigit c)
    (hwhole : whole ≠ []) (hfraction : fraction ≠ []) :
    SplitJoin.trim isSpace (whole ++ 46 :: fraction) = whole ++ 46 :: fraction := by
  apply SplitJoin.trim_eq_self
  · intro c hc
    rw [List.head?_append_of_ne_nil _ hwhole] at hc
    exact isSpace_of_isDigit (hdigits c (List.mem_append_left _ (List.mem_of_mem_head? hc)))
  · intro c hc
    rw [List.getLast?_append_of_ne_nil _ (List.cons_ne_nil _ _),
      List.getLast?_cons_of_ne_nil hfraction] at hc
    exact isSpace_of_isDigit (hdigits c (List.mem_append_right _ (List.mem_of_getLast? hc)))

theorem parseAmount_printMoney (x : UInt64) : parseAmount (printMoney x) = some x := by
  obtain ⟨whole, fraction, hprint, hdigits, hwhole, hlength, hvalue⟩ :=
    printFixedDecimalPoint_eq x.toNat currencyDisplayDecimalPoint
  have hfraction : fraction ≠ [] := by
    rintro rfl
    cases hlength
  have hdecimals : (fraction.rdropWhile (· == 48)).length ≤ currencyDisplayDecimalPoint := by
    rw [← hlength]
    exact (List.rdropWhile_prefix (fun c : UInt8 => c == 48) _).length_le
  have hnonempty : whole ++ fraction ≠ [] := List.append_ne_nil_of_left_ne_nil hwhole _
  rw [parseAmount_eq_some_iff, printMoney, hprint, trim_digits hdigits hwhole hfraction]
  refine ⟨⟨whole, fraction, hdigits, hnonempty, hdecimals⟩, .inl rfl, ?_⟩
  rw [AmountNumeral.value, hlength, hvalue]
  field_simp

/-- Amount text and amount correspond. -/
theorem amount_text_corresponds :
    (∀ x, parseAmount (printMoney x) = some x) ∧
      ∀ str,
        ((∃ amount, parseAmount str = some amount) ↔
          ∃ n : AmountNumeral, n.Writes (SplitJoin.trim isSpace str) ∧
            n.value * 10 ^ currencyDisplayDecimalPoint < 2 ^ 64) ∧
        ∀ amount, parseAmount str = some amount →
          ∀ n : AmountNumeral, n.Writes (SplitJoin.trim isSpace str) →
            n.value * 10 ^ currencyDisplayDecimalPoint = amount.toNat := by
  refine ⟨parseAmount_printMoney, fun str => ⟨⟨?_, ?_⟩, ?_⟩⟩
  · intro ⟨amount, hparse⟩
    obtain ⟨n, hn, hvalue⟩ := parseAmount_eq_some_iff.mp hparse
    exact ⟨n, hn, by rw [hvalue]; exact_mod_cast amount.toNat_lt⟩
  · intro ⟨n, hn, hbound⟩
    obtain ⟨units, hunits⟩ := n.exists_units
    have hlt : units < 2 ^ 64 := by
      rw [hunits] at hbound
      exact_mod_cast hbound
    refine ⟨UInt64.ofNat units, parseAmount_eq_some_iff.mpr ⟨n, hn, ?_⟩⟩
    rw [hunits, UInt64.toNat_ofNat_of_lt' hlt]
  · intro amount hparse n hn
    obtain ⟨m, hm, hvalue⟩ := parseAmount_eq_some_iff.mp hparse
    rw [AmountNumeral.value_eq hn hm, hvalue]

end Chinet
