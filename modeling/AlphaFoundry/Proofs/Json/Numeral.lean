/-
# AlphaFoundry.Proofs.Json.Numeral -- numbers are read back from JSON text

A number is written with the digits of its shortest decimal, laid out in one of four ways: a whole
number, one with a point among the digits, one with zeros behind the point, one with an exponent.
Each is a JSON numeral whose digits and exponent make up this decimal again, so it is read as the
number that was written.
-/
import Mathlib
import AlphaFoundry.Json.Printer
import AlphaFoundry.Json.Reader
import AlphaFoundry.Proofs.Number.Shortest

namespace AlphaFoundry

set_option autoImplicit false

/-! ## Digits -/

namespace Number

theorem toList_take (s : String) (n : ℕ) : (s.take n).toString.toList = s.toList.take n := by
  have splits := String.Slice.splits_nextn_startPos s.toSlice n
  show ((s.toSlice.take n).copy).toList = _
  rw [String.Slice.take_eq_sliceTo, splits.copy_sliceTo_eq]
  simp

theorem toList_drop (s : String) (n : ℕ) : (s.drop n).toString.toList = s.toList.drop n := by
  have splits := String.Slice.splits_nextn_startPos s.toSlice n
  show ((s.toSlice.drop n).copy).toList = _
  rw [String.Slice.drop_eq_sliceFrom, splits.copy_sliceFrom_eq]
  simp

theorem toList_zeros (n : ℕ) : (zeros n).toList = List.replicate n '0' :=
  String.toList_ofList

theorem natOfDigits_eq (cs : List Char) : natOfDigits cs = Nat.ofDigitChars 10 cs 0 :=
  rfl

theorem natOfDigits_toString (n : ℕ) : natOfDigits (toString n).toList = n := by
  rw [Nat.toString_eq_ofList_toDigits, String.toList_ofList, natOfDigits_eq,
    Nat.ofDigitChars_ten_toDigits]

theorem natOfDigits_append_zeros (cs : List Char) (n : ℕ) :
    natOfDigits (cs ++ List.replicate n '0') = natOfDigits cs * 10 ^ n := by
  rw [natOfDigits_eq, Nat.ofDigitChars_append, Nat.ofDigitChars_replicate_zero, mul_comm]
  rfl

theorem natOfDigits_zeros_append (cs : List Char) (n : ℕ) :
    natOfDigits (List.replicate n '0' ++ cs) = natOfDigits cs := by
  rw [natOfDigits_eq, Nat.ofDigitChars_append, Nat.ofDigitChars_replicate_zero, mul_zero]
  rfl

theorem isDigit_toString {n : ℕ} {c : Char} (member : c ∈ (toString n).toList) :
    c.isDigit = true := by
  rw [Nat.toString_eq_ofList_toDigits, String.toList_ofList] at member
  exact Nat.isDigit_of_mem_toDigits (by norm_num) le_rfl member

theorem toString_ne_nil (n : ℕ) : (toString n).toList ≠ [] := by
  rw [Nat.toString_eq_ofList_toDigits, String.toList_ofList]
  exact Nat.toDigits_ne_nil

/-- Digits that no zero leads. -/
structure Significant (ds : List Char) : Prop where
  digits : ∀ c ∈ ds, c.isDigit = true
  head : ∃ c, ds.head? = some c ∧ c ≠ '0'

theorem significant_toString {n : ℕ} (positive : 0 < n) : Significant (toString n).toList := by
  refine ⟨fun _ => isDigit_toString, ?_⟩
  rw [Nat.toString_eq_ofList_toDigits, String.toList_ofList]
  induction n using Nat.strongRecOn with
  | ind n ih =>
      rcases lt_or_ge n 10 with short | long
      · rw [Nat.toDigits_of_lt_base short]
        refine ⟨_, rfl, ?_⟩
        interval_cases n <;> decide
      · obtain ⟨c, head, plain⟩ := ih (n / 10) (by omega) (by omega)
        rw [Nat.toDigits_of_base_le (by norm_num) long]
        exact ⟨c, by rw [List.head?_append, head]; rfl, plain⟩

/-- What can stand in front of a point: digits that no zero leads, or a zero alone. -/
def IsWhole (cs : List Char) : Prop :=
  cs = ['0'] ∨ Significant cs

theorem IsWhole.digits {cs : List Char} : IsWhole cs → ∀ c ∈ cs, c.isDigit = true
  | .inl zero => by rw [zero]; exact List.forall_mem_singleton.2 rfl
  | .inr significant => significant.digits

/-- The reader's own test of what stands in front of a point. -/
theorem IsWhole.admitted {cs : List Char} (whole : IsWhole cs) :
    ¬(cs.isEmpty || (cs.head? == some '0' && decide (cs.length > 1))) = true := by
  rcases whole with rfl | ⟨-, c, head, plain⟩
  · decide
  · cases cs with
    | nil => cases head
    | cons d ds =>
        obtain rfl := Option.some.inj head
        simp [plain]

theorem isDigit_zeros {n : ℕ} {c : Char} (member : c ∈ List.replicate n '0') :
    c.isDigit = true := by
  rw [List.eq_of_mem_replicate member]
  rfl

/-- A text that no digit begins. -/
def NoDigit (rest : List Char) : Prop :=
  ∀ c ∈ rest.head?, c.isDigit = false

theorem spanDigits_eq {cs ds rest : List Char} (cut : spanDigits cs = (ds, rest)) :
    cs = ds ++ rest ∧ ∀ c ∈ ds, c.isDigit = true := by
  rw [spanDigits, List.span_eq_takeWhile_dropWhile] at cut
  obtain ⟨rfl, rfl⟩ := Prod.mk.inj cut
  exact ⟨List.takeWhile_append_dropWhile.symm, fun c => List.mem_takeWhile_imp⟩

theorem spanDigits_append {ds rest : List Char} (digits : ∀ c ∈ ds, c.isDigit = true)
    (ends : NoDigit rest) : spanDigits (ds ++ rest) = (ds, rest) := by
  have none : rest.takeWhile Char.isDigit = [] := by
    cases rest with
    | nil => rfl
    | cons c cs => exact List.takeWhile_cons_of_neg (by rw [ends c rfl]; exact Bool.false_ne_true)
  rw [spanDigits, List.span_eq_takeWhile_dropWhile, List.takeWhile_append_of_pos digits,
    List.dropWhile_append_of_pos digits, none, List.append_nil]
  refine Prod.ext rfl ?_
  have whole := List.takeWhile_append_dropWhile (p := Char.isDigit) (l := rest)
  rwa [none, List.nil_append] at whole

theorem exponentOf?_unsigned {n : ℕ} {rest : List Char} (ends : NoDigit rest) :
    exponentOf?.unsigned? ((toString n).toList ++ rest) = some (n, rest) := by
  unfold exponentOf?.unsigned?
  rw [spanDigits_append (fun _ => isDigit_toString) ends]
  split
  · rename_i same
    exact absurd (Prod.mk.inj same).1 (toString_ne_nil n)
  · rename_i ds r _ same
    obtain ⟨rfl, rfl⟩ := Prod.mk.inj same
    rw [natOfDigits_toString]

end Number

/-! ## Numerals -/

namespace Json

open Number

/-- A text that does not go on with a numeral. -/
def EndsNumeral (rest : List Char) : Prop :=
  ∀ c ∈ rest.head?, c.isDigit = false ∧ c ≠ '.' ∧ c ≠ 'e' ∧ c ≠ 'E'

theorem EndsNumeral.noDigit {rest : List Char} (ends : EndsNumeral rest) : NoDigit rest :=
  fun c head => (ends c head).1

theorem EndsNumeral.noPoint {rest : List Char} (ends : EndsNumeral rest) :
    rest.head? ≠ some '.' :=
  fun head => (ends '.' head).2.1 rfl

theorem readExponent_none {rest : List Char} (ends : EndsNumeral rest) :
    readExponent rest = some (0, rest) := by
  cases rest with
  | nil => rfl
  | cons c cs =>
      obtain ⟨-, -, low, high⟩ := ends c rfl
      unfold readExponent
      simp [low, high]

/-- The mark of an exponent. -/
def mark (e : ℤ) : List Char :=
  (if e < 0 then "e-" else "e+").toList ++ (toString e.natAbs).toList

theorem readExponent_mark (e : ℤ) {rest : List Char} (ends : NoDigit rest) :
    readExponent (mark e ++ rest) = some (e, rest) := by
  unfold mark
  rcases lt_or_ge e 0 with negative | nonneg
  · have exponent : -(e.natAbs : ℤ) = e := by omega
    rw [if_pos negative]
    show (exponentOf?.unsigned? ((toString e.natAbs).toList ++ rest)).map _ = _
    rw [exponentOf?_unsigned ends, Option.map_some]
    exact congrArg (fun e => some (e, rest)) exponent
  · have exponent : (e.natAbs : ℤ) = e := by omega
    rw [if_neg (not_lt.2 nonneg)]
    show (exponentOf?.unsigned? ((toString e.natAbs).toList ++ rest)).map _ = _
    rw [exponentOf?_unsigned ends, Option.map_some]
    exact congrArg (fun e => some (e, rest)) exponent

section Unsigned

variable {whole fraction rest rest' : List Char} {e : ℤ} (plain : IsWhole whole)
  (ends : NoDigit rest) (exponent : readExponent rest = some (e, rest'))

include plain ends exponent

theorem readUnsigned_whole (point : rest.head? ≠ some '.') :
    readUnsigned (whole ++ rest) = some (assemble whole [] e, rest') := by
  unfold readUnsigned
  rw [spanDigits_append plain.digits ends]
  dsimp only
  rw [if_neg plain.admitted]
  split
  · exact absurd rfl point
  · rw [exponent]
    rfl

theorem readUnsigned_point (digits : ∀ c ∈ fraction, c.isDigit = true)
    (nonempty : fraction ≠ []) :
    readUnsigned (whole ++ '.' :: (fraction ++ rest)) = some (assemble whole fraction e, rest') := by
  have point : NoDigit ('.' :: (fraction ++ rest)) := by
    rintro c ⟨⟩
    rfl
  unfold readUnsigned
  rw [spanDigits_append plain.digits point]
  dsimp only
  rw [if_neg plain.admitted]
  show (if (spanDigits (fraction ++ rest)).1.isEmpty = true then none
    else (readExponent (spanDigits (fraction ++ rest)).2).map _) = _
  rw [spanDigits_append digits ends]
  dsimp only
  rw [if_neg (by simpa using nonempty), exponent]
  rfl

end Unsigned

/-! ## The four ways of writing a decimal -/

section Layout

variable {ds rest : List Char} (significant : Significant ds) (ends : EndsNumeral rest)

include significant ends

theorem readUnsigned_integer (k : ℕ) :
    readUnsigned (ds ++ List.replicate k '0' ++ rest)
      = some (decimal (natOfDigits ds * 10 ^ k) 0, rest) := by
  obtain ⟨digits, c, head, plain⟩ := significant
  have whole : Significant (ds ++ List.replicate k '0') := by
    refine ⟨fun c member => ?_, c, by rw [List.head?_append, head]; rfl, plain⟩
    exact (List.mem_append.1 member).elim (digits c) isDigit_zeros
  rw [readUnsigned_whole (.inr whole) ends.noDigit (readExponent_none ends) ends.noPoint, assemble,
    List.append_nil, natOfDigits_append_zeros]
  rfl

theorem readUnsigned_split {p : ℕ} (positive : 0 < p) (within : p < ds.length) :
    readUnsigned (ds.take p ++ '.' :: (ds.drop p ++ rest))
      = some (decimal (natOfDigits ds) (p - ds.length), rest) := by
  obtain ⟨digits, c, head, plain⟩ := significant
  have whole : Significant (ds.take p) := by
    refine ⟨fun c member => digits c (List.mem_of_mem_take member), c, ?_, plain⟩
    rw [List.head?_take, if_neg positive.ne', head]
  have fraction : ds.drop p ≠ [] := by
    rw [ne_eq, List.drop_eq_nil_iff]
    omega
  have exponent : (0 : ℤ) - (ds.length - p : ℕ) = p - ds.length := by omega
  rw [readUnsigned_point (.inr whole) ends.noDigit (readExponent_none ends)
    (fun c member => digits c (List.mem_of_mem_drop member)) fraction, assemble,
    List.take_append_drop, List.length_drop, exponent]

theorem readUnsigned_fraction (p : ℕ) :
    readUnsigned ('0' :: '.' :: (List.replicate p '0' ++ ds ++ rest))
      = some (decimal (natOfDigits ds) (-p - ds.length), rest) := by
  obtain ⟨digits, c, head, plain⟩ := significant
  have fraction : List.replicate p '0' ++ ds ≠ [] := by
    intro none
    rw [(List.append_eq_nil_iff.1 none).2] at head
    cases head
  have exponent : (0 : ℤ) - (p + ds.length : ℕ) = -p - ds.length := by omega
  have read := readUnsigned_point (.inl rfl) ends.noDigit (readExponent_none ends)
    (fun c member => (List.mem_append.1 member).elim isDigit_zeros (digits c)) fraction
  rw [assemble, List.length_append, List.length_replicate, exponent] at read
  rw [← natOfDigits_zeros_append ds p, ← natOfDigits_zeros_append (_ ++ ds) 1]
  exact read

theorem readUnsigned_marked (e : ℤ) :
    readUnsigned (ds.take 1 ++ (if ds.length = 1 then [] else '.' :: ds.drop 1) ++ (mark e ++ rest))
      = some (decimal (natOfDigits ds) (e + 1 - ds.length), rest) := by
  have exponent := readExponent_mark e ends.noDigit
  have marked : NoDigit (mark e ++ rest) := by
    rw [mark]
    split <;> (rintro c ⟨⟩; rfl)
  have pointless : (mark e ++ rest).head? ≠ some '.' := by
    rw [mark]
    split <;> (intro same; cases same)
  obtain ⟨digits, c, head, plain⟩ := significant
  have some_digits : 0 < ds.length := by
    cases ds with
    | nil => cases head
    | cons d ds => exact Nat.succ_pos _
  have whole : Significant (ds.take 1) := by
    refine ⟨fun c member => digits c (List.mem_of_mem_take member), c, ?_, plain⟩
    rw [List.head?_take, if_neg one_ne_zero, head]
  split
  · rename_i alone
    have places : e - ([] : List Char).length = e + 1 - ds.length := by
      rw [List.length_nil]
      omega
    rw [List.append_nil, readUnsigned_whole (.inr whole) marked exponent pointless, assemble,
      List.append_nil, List.take_of_length_le alone.le, places]
  · have fraction : ds.drop 1 ≠ [] := by
      rw [ne_eq, List.drop_eq_nil_iff]
      omega
    have places : e - (ds.length - 1 : ℕ) = e + 1 - ds.length := by omega
    rw [List.append_assoc, List.cons_append, readUnsigned_point (.inr whole) marked exponent
      (fun c member => digits c (List.mem_of_mem_drop member)) fraction, assemble,
      List.take_append_drop, List.length_drop, places]

end Layout

/-- The text of a decimal is a numeral of the same value. -/
theorem readUnsigned_layout {n : ℕ} (positive : 0 < n) (point : ℤ) {rest : List Char}
    (ends : EndsNumeral rest) :
    ∃ m k, readUnsigned ((layout (toString n) point).toList ++ rest) = some (decimal m k, rest) ∧
      (m : ℝ) * 10 ^ k = n * 10 ^ (point - (toString n).length) ∧
      (k = 0 ∨ k = point - (toString n).length) := by
  have significant := significant_toString positive
  have value := natOfDigits_toString n
  unfold layout
  dsimp only
  generalize toString n = text at *
  rw [← String.length_toList]
  split
  · rename_i whole
    have whole : (text.toList.length : ℤ) ≤ point ∧ point ≤ 21 := by simpa using whole
    obtain ⟨k, rfl⟩ := Int.le.dest whole.1
    have zeros : (text.toList.length + k : ℤ).toNat - text.toList.length = k := by omega
    refine ⟨n * 10 ^ k, 0, ?_, ?_, .inl rfl⟩
    · rw [String.toList_append, toList_zeros, zeros, readUnsigned_integer significant ends, value]
    · rw [add_sub_cancel_left]
      push_cast
      simp
  split
  · rename_i inside
    have inside : 0 < point ∧ point ≤ 21 := by simpa using inside
    obtain ⟨p, rfl⟩ := Int.eq_ofNat_of_zero_le inside.1.le
    have within : p < text.toList.length := by simp_all
    refine ⟨n, p - text.toList.length, ?_, rfl, .inr rfl⟩
    simp only [String.toList_append, toList_take, toList_drop, Int.toNat_natCast]
    rw [List.append_assoc, List.append_assoc, ← value]
    exact readUnsigned_split significant ends (by omega) within
  split
  · rename_i small
    have small : -6 < point ∧ point ≤ 0 := by simpa using small
    obtain ⟨p, rfl⟩ := Int.exists_eq_neg_ofNat small.2
    refine ⟨n, -p - text.toList.length, ?_, rfl, .inr rfl⟩
    simp only [String.toList_append, toList_zeros, neg_neg, Int.toNat_natCast]
    rw [List.append_assoc _ (List.replicate p '0'), List.append_assoc, ← value]
    exact readUnsigned_fraction significant ends p
  · refine ⟨n, point - text.toList.length, ?_, rfl, .inr rfl⟩
    have read := readUnsigned_marked significant ends (point - 1)
    rw [sub_add_cancel, value] at read
    rw [← read]
    congr 1
    simp only [String.toList_append, mark, List.append_assoc, beq_iff_eq]
    split
    · rw [toList_take]
      rfl
    · rw [String.toList_append, String.toList_append, toList_take, toList_drop]
      simp

/-! ## Doubles -/

theorem eq_zero_of_mantissa {x : Float} {b : Binary} (form : Binary.ofFloat? x = some b)
    (zero : b.mantissa = 0) : x = 0 ∨ x = -0.0 := by
  rw [ofFloat?_eq] at form
  cases unpacked : x.toModel.unpack with
  | notANumber => rw [unpacked] at form; cases form
  | infinity s => rw [unpacked] at form; cases form
  | zero s =>
      cases s with
      | positive => exact .inl (eq_of_unpack unpacked)
      | negative => exact .inr (eq_of_unpack unpacked)
  | finite s m e pos =>
      rw [unpacked] at form
      obtain rfl := Option.some.inj form
      exact absurd zero pos.ne'

theorem readNumber_of_readUnsigned {cs : List Char} {r : Float × List Char}
    (read : readUnsigned cs = some r) : readNumber cs = some r := by
  unfold readNumber
  split
  · cases read
  · exact read

theorem readNumber_negative {cs rest : List Char} {y : Float}
    (read : readUnsigned cs = some (y, rest)) : readNumber ('-' :: cs) = some (-y, rest) := by
  show (readUnsigned cs).map (fun r => (-r.1, r.2)) = _
  rw [read, Option.map_some]

/-- The digits and the exponent of a double's text make up its absolute value. -/
theorem readUnsigned_shortest {b : Binary} (formed : b.Formed) {rest : List Char}
    (ends : EndsNumeral rest) : ∃ y, value? y = some (b.size : EReal) ∧
      readUnsigned ((layout (toString b.shortest.digits)
        (b.shortest.exponent + (toString b.shortest.digits).length)).toList ++ rest)
          = some (y, rest) := by
  obtain ⟨covers, least⟩ := formed.shortest
  have positive : 0 < b.shortest.digits := by
    have lowest := formed.le_lowest.trans covers.bounds.1
    have tiny : (0 : ℝ) < 2 ^ (-1075 : ℤ) := by positivity
    refine Nat.pos_of_ne_zero fun none => ?_
    rw [Decimal.value, none, Nat.cast_zero, zero_mul] at lowest
    linarith
  obtain ⟨m, k, read, same, places⟩ := readUnsigned_layout positive
    (b.shortest.exponent + (toString b.shortest.digits).length) ends
  rw [add_sub_cancel_right] at same places
  refine ⟨decimal m k, formed.value?_decimal (by omega) ?_, read⟩
  rw [same]
  exact covers

/-- A finite double other than negative zero is read back from its text. -/
theorem readNumber_text {x : Float} (finite : x.isFinite = true) (plain : x ≠ -0.0)
    {rest : List Char} (ends : EndsNumeral rest) :
    readNumber ((text x).toList ++ rest) = some (x, rest) := by
  obtain ⟨r, value⟩ := isFinite_iff.1 finite
  obtain ⟨b, form, rfl⟩ := exists_ofFloat?_of_value? value
  unfold text
  rw [form]
  dsimp only
  split
  · rename_i zero
    obtain rfl := (eq_zero_of_mantissa form (by simpa using zero)).resolve_right plain
    exact readNumber_of_readUnsigned
      (readUnsigned_whole (.inl rfl) ends.noDigit (readExponent_none ends) ends.noPoint)
  · rename_i nonzero
    have formed := Binary.formed_of_ofFloat? form (by simpa using nonzero)
    have positive : 0 < b.size := scaled_pos _ formed.positive
    obtain ⟨y, size, read⟩ := readUnsigned_shortest formed ends
    split
    · rename_i negative
      have same : -y = x := by
        refine eq_of_value? (value?_neg size) ?_ (neg_ne_zero.2 positive.ne')
        rw [value, b.value_eq_size, if_pos negative]
      have dash : "-".toList = ['-'] := rfl
      rw [← same, String.toList_append, dash, List.cons_append, List.nil_append, List.cons_append]
      exact readNumber_negative read
    · rename_i nonneg
      have same : y = x := by
        refine eq_of_value? size ?_ positive.ne'
        rw [value, b.value_eq_size, if_neg nonneg]
      rw [← same]
      exact readNumber_of_readUnsigned read

end Json

end AlphaFoundry
