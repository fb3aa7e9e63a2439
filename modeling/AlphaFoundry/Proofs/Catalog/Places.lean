/-
# AlphaFoundry.Proofs.Catalog.Places -- templates as pieces

A template is read from left to right, and a place takes several characters at once.  What a place
is can be told from how it is written (`place?_eq_some_iff`); where the reading can be cut takes
more.  A character that no place has behind its opening brace ends every place that was begun before
it (`pieces_append`).  An opening brace is such a character, so wherever a place stands in a template
it is found, whatever is written before it (`pieces_place`).
-/
import Mathlib
import AlphaFoundry.Catalog.Template
import AlphaFoundry.Proofs.Json.Numeral

namespace AlphaFoundry.Template

set_option autoImplicit false

/-! ## Places -/

theorem windowName_eq : windowName = ['w', 'i', 'n', 'd', 'o', 'w', '\x7d'] := rfl

/-- The piece as a template writes it. -/
def Piece.source : Piece → List Char
  | .char c => [c]
  | .argument ds => '\x7b' :: ds ++ ['\x7d']
  | .window => '\x7b' :: windowName

/-- A place that can be written: an argument is numbered by digits. -/
def Piece.IsPlace : Piece → Prop
  | .char _ => False
  | .argument ds => ds ≠ [] ∧ ∀ d ∈ ds, d.isDigit = true
  | .window => True

/-- A place begins with a brace. -/
theorem Piece.IsPlace.braced {piece : Piece} (place : piece.IsPlace) :
    ∃ inner, piece.source = '\x7b' :: inner := by
  cases piece with
  | char c => exact place.elim
  | argument ds => exact ⟨_, rfl⟩
  | window => exact ⟨_, rfl⟩

/-- Behind an opening brace a place is read, whatever follows it. -/
theorem place?_eq_some_iff {cs rest : List Char} {piece : Piece} :
    place? cs = some (piece, rest) ↔ piece.IsPlace ∧ piece.source ++ rest = '\x7b' :: cs := by
  constructor
  · intro found
    unfold place? at found
    split at found
    · rename_i named
      obtain ⟨behind, rfl⟩ := List.isPrefixOf_iff_prefix.1 named
      rw [List.drop_left] at found
      obtain ⟨rfl, rfl⟩ := Prod.mk.inj (Option.some.inj found)
      exact ⟨trivial, rfl⟩
    · split at found
      · cases found
      · rename_i ds behind nonempty cut
        obtain ⟨rfl, rfl⟩ := Prod.mk.inj (Option.some.inj found)
        obtain ⟨rfl, digits⟩ := Number.spanDigits_eq cut
        exact ⟨⟨nonempty, digits⟩, by simp [Piece.source]⟩
      · cases found
  · rintro ⟨place, written⟩
    cases piece with
    | char c => exact place.elim
    | argument ds =>
        obtain ⟨nonempty, digits⟩ := place
        obtain ⟨d, ds, rfl⟩ := List.exists_cons_of_ne_nil nonempty
        have written : d :: ds ++ '\x7d' :: rest = cs := by
          simpa [Piece.source] using written
        have digit : d.isDigit = true := digits d List.mem_cons_self
        have unnamed : windowName.isPrefixOf (d :: ds ++ '\x7d' :: rest) = false := by
          have other : 'w' ≠ d := by
            rintro rfl
            exact absurd digit (by decide)
          simp [windowName_eq, List.isPrefixOf, other]
        have behind : Number.NoDigit ('\x7d' :: rest) := by simp [Number.NoDigit]
        have cut := Number.spanDigits_append digits behind
        rw [← written, place?, unnamed, if_neg Bool.false_ne_true, cut]
        rfl
    | window =>
        have written : windowName ++ rest = cs := (List.cons.inj written).2
        have named : windowName.isPrefixOf (windowName ++ rest) = true :=
          List.isPrefixOf_iff_prefix.2 (List.prefix_append _ _)
        rw [← written, place?, if_pos named, List.drop_left]

theorem place?_length {cs rest : List Char} {piece : Piece}
    (found : place? cs = some (piece, rest)) : rest.length ≤ cs.length := by
  obtain ⟨place, written⟩ := place?_eq_some_iff.1 found
  obtain ⟨inner, braced⟩ := place.braced
  rw [braced, List.cons_append, List.cons.injEq] at written
  rw [← written.2, List.length_append]
  exact Nat.le_add_left ..

/-- A text whose number is read is a place alone. -/
theorem argument?_eq_some {text : List Char} {i : ℕ} (number : argument? text = some i) :
    ∃ ds, (Piece.argument ds).IsPlace ∧ Number.natOfDigits ds = i ∧
      text = (Piece.argument ds).source := by
  unfold argument? at number
  split at number
  · rename_i cs
    split at number
    · cases number
    · rename_i ds nonempty cut
      obtain ⟨rfl, digits⟩ := Number.spanDigits_eq cut
      exact ⟨ds, ⟨nonempty, digits⟩, Option.some.inj number, rfl⟩
    · cases number
  · cases number

/-! ## Cutting a template -/

/-- A character that does not occur in places. -/
def IsOutside (c : Char) : Prop :=
  c ≠ '\x7b' ∧ c ∉ windowName ∧ c.isDigit = false

instance (c : Char) : Decidable (IsOutside c) :=
  inferInstanceAs (Decidable (_ ∧ _ ∧ _))

theorem IsOutside.of_blank {c : Char} (blank : Text.isBlank c = true) : IsOutside c := by
  refine ⟨?_, ?_, ?_⟩
  · rintro rfl
    exact absurd blank (by decide)
  · intro member
    rw [windowName_eq] at member
    fin_cases member <;> exact absurd blank (by decide)
  · by_contra digit
    have digits := Char.isDigit_iff_toNat.1 (Bool.not_eq_false _ ▸ digit)
    obtain ⟨range, among, low, high⟩ : ∃ r ∈ Text.blankRanges, r.1 ≤ c.toNat ∧ c.toNat ≤ r.2 := by
      simpa [Text.isBlank] using blank
    have apart : ∀ r ∈ Text.blankRanges, r.2 < '0'.toNat ∨ '9'.toNat < r.1 := by decide
    rcases apart range among with below | above <;> omega

theorem isPrefixOf_append_cons {c : Char} (ys : List Char) :
    ∀ (w xs : List Char), c ∉ w → w.isPrefixOf (xs ++ c :: ys) = w.isPrefixOf xs
  | [], _, _ => by rw [List.isPrefixOf_nil_left, List.isPrefixOf_nil_left]
  | a :: w, [], out => by
      have other : a ≠ c := fun same => out (same ▸ List.mem_cons_self)
      simp [List.isPrefixOf, other]
  | a :: w, x :: xs, out => by
      rw [List.cons_append, List.isPrefixOf, List.isPrefixOf,
        isPrefixOf_append_cons ys w xs (List.not_mem_of_not_mem_cons out)]

theorem spanDigits_append_cons {c : Char} (out : c.isDigit = false) (xs ys : List Char) :
    Number.spanDigits (xs ++ c :: ys)
      = ((Number.spanDigits xs).1, (Number.spanDigits xs).2 ++ c :: ys) := by
  simp only [Number.spanDigits, List.span_eq_takeWhile_dropWhile]
  induction xs with
  | nil => simp [out]
  | cons x xs ih =>
      cases digit : x.isDigit
      · simp [digit]
      · simpa [digit] using ih

/-- What is behind a character that no place has inside has no part in a place before it. -/
theorem place?_append_cons {c : Char} (out : c ∉ windowName) (noDigit : c.isDigit = false)
    (xs ys : List Char) :
    place? (xs ++ c :: ys) = (place? xs).map fun found => (found.1, found.2 ++ c :: ys) := by
  unfold place?
  rw [isPrefixOf_append_cons ys _ _ out, spanDigits_append_cons noDigit]
  split
  · rename_i window
    have short := (List.isPrefixOf_iff_prefix.1 window).length_le
    rw [List.drop_append_of_le_length short]
    rfl
  · rcases Number.spanDigits xs with ⟨_ | ⟨d, ds⟩, rest⟩
    · rfl
    · have close : c ≠ '\x7d' := fun same => out (by rw [same]; decide)
      cases rest with
      | nil => simp [close]
      | cons r rest =>
          rcases eq_or_ne r '\x7d' with rfl | other
          · rfl
          · simp [other]

/-- Fuel that suffices makes no difference. -/
theorem scan_eq : ∀ {n m : ℕ} {cs : List Char}, cs.length ≤ n → cs.length ≤ m →
    scan n cs = scan m cs
  | 0, 0, [], _, _ => rfl
  | 0, _ + 1, [], _, _ => rfl
  | _ + 1, 0, [], _, _ => rfl
  | _ + 1, _ + 1, [], _, _ => rfl
  | n + 1, m + 1, c :: cs, enough, enough' => by
      have enough := Nat.succ_le_succ_iff.1 enough
      have enough' := Nat.succ_le_succ_iff.1 enough'
      rw [scan, scan, scan_eq enough enough']
      split
      · split
        · rename_i found
          have shorter := place?_length found
          rw [scan_eq (shorter.trans enough) (shorter.trans enough')]
        · rfl
      · rfl

/-- The pieces of a text, by its first character. -/
theorem pieces_cons (c : Char) (cs : List Char) :
    pieces (c :: cs) = if c == '\x7b' then
        match place? cs with
        | some (piece, rest) => piece :: pieces rest
        | none => .char c :: pieces cs
      else .char c :: pieces cs := by
  rw [pieces, List.length_cons, scan]
  rcases found : place? cs with _ | ⟨piece, rest⟩
  · rfl
  · simp only [scan_eq (place?_length found) (le_refl rest.length)]
    rfl

theorem pieces_append {c : Char} (out : c ∉ windowName) (noDigit : c.isDigit = false)
    (xs ys : List Char) : pieces (xs ++ c :: ys) = pieces xs ++ pieces (c :: ys) := by
  -- On the length, since a place takes several characters at once.
  induction length : xs.length using Nat.strong_induction_on generalizing xs with
  | _ n ih =>
      cases xs with
      | nil => rfl
      | cons x xs =>
          subst length
          have tail := ih _ (Nat.lt_succ_self _) xs rfl
          rw [List.cons_append, pieces_cons x, pieces_cons x, place?_append_cons out noDigit, tail]
          split
          · cases found : place? xs with
            | none => rfl
            | some place =>
                obtain ⟨piece, rest⟩ := place
                have shorter := Nat.lt_succ_of_le (place?_length found)
                simp [ih _ shorter rest rfl]
          · rfl

theorem pieces_append_cons {c : Char} (out : IsOutside c) (xs ys : List Char) :
    pieces (xs ++ c :: ys) = pieces xs ++ .char c :: pieces ys := by
  rw [pieces_append out.2.1 out.2.2, pieces_cons, if_neg (by simpa using out.1)]

/-- Text without an opening brace has no place in it. -/
theorem pieces_of_not_mem {cs : List Char} (out : '\x7b' ∉ cs) : pieces cs = cs.map .char := by
  induction cs with
  | nil => rfl
  | cons c cs ih =>
      rw [List.mem_cons, not_or] at out
      have other : (c == '\x7b') = false := beq_eq_false_iff_ne.2 (Ne.symm out.1)
      rw [pieces_cons, other, ih out.2]
      rfl

/-! ## Pieces and places -/

/-- The pieces of a template are what is written in it, in order. -/
theorem flatMap_source (cs : List Char) : (pieces cs).flatMap Piece.source = cs := by
  induction length : cs.length using Nat.strong_induction_on generalizing cs with
  | _ n ih =>
      subst length
      cases cs with
      | nil => rfl
      | cons c cs =>
          have tail := ih _ (Nat.lt_succ_self _) cs rfl
          rw [pieces_cons]
          split
          · rename_i brace
            split
            · rename_i piece rest found
              have shorter := Nat.lt_succ_of_le (place?_length found)
              rw [List.flatMap_cons, ih _ shorter rest rfl, (place?_eq_some_iff.1 found).2,
                eq_of_beq brace]
            · rw [List.flatMap_cons, tail, Piece.source, List.singleton_append]
          · rw [List.flatMap_cons, tail, Piece.source, List.singleton_append]

/-- A piece is a character or a place that can be written. -/
theorem isPlace_of_mem_pieces {cs : List Char} {piece : Piece} (member : piece ∈ pieces cs) :
    piece.IsPlace ∨ ∃ c, piece = .char c := by
  induction length : cs.length using Nat.strong_induction_on generalizing cs with
  | _ n ih =>
      subst length
      cases cs with
      | nil => cases member
      | cons c cs =>
          have shorter := Nat.lt_succ_self cs.length
          rw [pieces_cons] at member
          split at member
          · split at member
            · rename_i found
              rcases List.mem_cons.1 member with rfl | member
              · exact .inl (place?_eq_some_iff.1 found).1
              · exact ih _ (Nat.lt_succ_of_le (place?_length found)) member rfl
            · rcases List.mem_cons.1 member with rfl | member
              · exact .inr ⟨c, rfl⟩
              · exact ih _ shorter member rfl
          · rcases List.mem_cons.1 member with rfl | member
            · exact .inr ⟨c, rfl⟩
            · exact ih _ shorter member rfl

/-- A place is found wherever it is written. -/
theorem pieces_place {piece : Piece} (place : piece.IsPlace) (before after : List Char) :
    pieces (before ++ (piece.source ++ after)) = pieces before ++ piece :: pieces after := by
  obtain ⟨inner, braced⟩ := place.braced
  have found : place? (inner ++ after) = some (piece, after) :=
    place?_eq_some_iff.2 ⟨place, by rw [braced]; rfl⟩
  rw [braced, List.cons_append, pieces_append (by decide) (by decide), pieces_cons,
    if_pos (beq_self_eq_true _), found]

theorem pieces_source {piece : Piece} (place : piece.IsPlace) : pieces piece.source = [piece] := by
  rw [← List.append_nil piece.source, ← List.nil_append (_ ++ _), pieces_place place]
  rfl

/-! ## Filled templates -/

variable (arguments : List (List Char)) (window : Option (List Char))

theorem fill_append_cons {c : Char} (out : IsOutside c) (xs ys : List Char) :
    fill (xs ++ c :: ys) arguments window
      = fill xs arguments window ++ c :: fill ys arguments window := by
  simp [fill, pieces_append_cons out, Piece.fill]

theorem fill_of_plain {cs : List Char} (plain : pieces cs = cs.map .char) :
    fill cs arguments window = cs := by
  simp [fill, plain, List.flatMap_map, Piece.fill]

theorem fill_blanks {blanks : List Char} (blank : ∀ c ∈ blanks, Text.isBlank c = true)
    (cs : List Char) : fill (blanks ++ cs) arguments window = blanks ++ fill cs arguments window := by
  induction blanks with
  | nil => rfl
  | cons c blanks ih =>
      rw [List.forall_mem_cons] at blank
      rw [List.cons_append, ← List.nil_append (c :: _),
        fill_append_cons arguments window (.of_blank blank.1), ih blank.2]
      rfl

end AlphaFoundry.Template
