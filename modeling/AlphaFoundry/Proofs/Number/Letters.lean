/-
# AlphaFoundry.Proofs.Number.Letters -- the characters of written numbers

Whatever a double holds, its text has digits, a point, signs, the mark of an exponent, and the
letters of `NaN` and `Infinity`.
-/
import Mathlib
import AlphaFoundry.Expr.Render
import AlphaFoundry.Proofs.Json.Numeral

namespace AlphaFoundry.Number

set_option autoImplicit false

/-- A character of written numbers. -/
def isLetter (c : Char) : Bool :=
  c.isDigit || ['.', '+', '-', 'e', 'N', 'a', 'I', 'n', 'f', 'i', 't', 'y'].contains c

/-- A text with no other characters. -/
def Lettered (cs : List Char) : Prop :=
  ∀ c ∈ cs, isLetter c = true

instance (cs : List Char) : Decidable (Lettered cs) :=
  decidable_of_iff (cs.all isLetter = true) List.all_eq_true

theorem Lettered.append {cs ds : List Char} (left : Lettered cs) (right : Lettered ds) :
    Lettered (cs ++ ds) :=
  List.forall_mem_append.2 ⟨left, right⟩

theorem lettered_of_digits {cs : List Char} (digits : ∀ c ∈ cs, c.isDigit = true) : Lettered cs :=
  fun c member => by rw [isLetter, digits c member, Bool.true_or]

theorem lettered_toString (n : ℕ) : Lettered (toString n).toList :=
  lettered_of_digits fun _ => isDigit_toString

theorem lettered_zeros (n : ℕ) : Lettered (zeros n).toList := by
  rw [toList_zeros]
  exact lettered_of_digits fun _ => isDigit_zeros

theorem lettered_take {s : String} (lettered : Lettered s.toList) (n : ℕ) :
    Lettered (s.take n).toString.toList := by
  rw [toList_take]
  exact fun c member => lettered c (List.mem_of_mem_take member)

theorem lettered_drop {s : String} (lettered : Lettered s.toList) (n : ℕ) :
    Lettered (s.drop n).toString.toList := by
  rw [toList_drop]
  exact fun c member => lettered c (List.mem_of_mem_drop member)

theorem lettered_layout {digits : String} (lettered : Lettered digits.toList) (point : ℤ) :
    Lettered (layout digits point).toList := by
  unfold layout
  dsimp only
  split
  · rw [String.toList_append]
    exact lettered.append (lettered_zeros _)
  · split
    · rw [String.toList_append, String.toList_append]
      exact ((lettered_take lettered _).append (by decide)).append (lettered_drop lettered _)
    · split
      · rw [String.toList_append, String.toList_append]
        exact (Lettered.append (by decide) (lettered_zeros _)).append lettered
      · have mark (e : ℤ) : Lettered (if e < 0 then "e-" else "e+").toList := by
          split <;> decide
        rw [String.toList_append, String.toList_append]
        refine Lettered.append (Lettered.append ?_ (mark _)) (lettered_toString _)
        split
        · exact lettered_take lettered 1
        · rw [String.toList_append, String.toList_append]
          exact ((lettered_take lettered 1).append (by decide)).append (lettered_drop lettered 1)

theorem lettered_text (x : Float) : Lettered (text x).toList := by
  unfold text
  split
  · split
    · decide
    · split <;> decide
  · split
    · decide
    · have body (point : ℤ) (n : ℕ) := lettered_layout (lettered_toString n) point
      dsimp only
      split
      · rw [String.toList_append]
        exact Lettered.append (by decide) (body _ _)
      · exact body _ _

/-- What is not a character of written numbers is not in one. -/
theorem notMem_text {c : Char} (other : isLetter c = false) (x : Float) : c ∉ (text x).toList := by
  intro member
  rw [lettered_text x c member] at other
  cases other

end AlphaFoundry.Number
