/-
# AlphaFoundry.Proofs.Expr.Reading -- written formulas read in one way

A written formula starts with a word, which ends at the first parenthesis or comma.  The word of a
call names its operator, and with it the number of arguments; the word of a leaf is a field id or a
numeral, but not both.  So two formulas that are written alike, each with something behind it that
ends an argument, are the same formula and the same remainder.  The induction is on one of them.
-/
import Mathlib
import AlphaFoundry.Catalog.Bundled
import AlphaFoundry.Proofs.Expr.Spelling
import AlphaFoundry.Proofs.Number.Digits

namespace AlphaFoundry

set_option autoImplicit false

/-! ## Words -/

/-- The characters that end a word. -/
def isMark (c : Char) : Bool :=
  ['(', ',', ')'].contains c

/-- Characters that none of the words ends at. -/
def IsWord (cs : List Char) : Prop :=
  ∀ c ∈ cs, isMark c = false

instance (cs : List Char) : Decidable (IsWord cs) :=
  decidable_of_iff (cs.all (!isMark ·) = true) (by simp [IsWord])

/-- What can follow an argument, or the whole formula. -/
def EndsArgument (cs : List Char) : Prop :=
  ∀ c ∈ cs.head?, c = ',' ∨ c = ')'

theorem endsArgument_nil : EndsArgument [] :=
  nofun

theorem endsArgument_close (cs : List Char) : EndsArgument (')' :: cs) := by
  rintro _ ⟨⟩
  exact .inr rfl

theorem endsArgument_comma (cs : List Char) : EndsArgument (',' :: cs) := by
  rintro _ ⟨⟩
  exact .inl rfl

/-- A word and what follows it can be told apart. -/
theorem IsWord.append_inj {v w r s : List Char} (left : IsWord v) (right : IsWord w)
    (behind : ∀ c ∈ r.head?, isMark c = true) (behind' : ∀ c ∈ s.head?, isMark c = true)
    (same : v ++ r = w ++ s) : v = w ∧ r = s := by
  have cut {v r : List Char} (word : IsWord v) (behind : ∀ c ∈ r.head?, isMark c = true) :
      (v ++ r).takeWhile (!isMark ·) = v := by
    have stop : r.takeWhile (!isMark ·) = [] := by
      cases r with
      | nil => rfl
      | cons c r => simp [behind c rfl]
    rw [List.takeWhile_append_of_pos (by simpa [IsWord] using word), stop, List.append_nil]
  have words := congrArg (List.takeWhile (!isMark ·)) same
  rw [cut left behind, cut right behind'] at words
  subst words
  exact ⟨rfl, List.append_cancel_left same⟩

theorem isWord_of_numeric {cs : List Char} (numeric : ∀ c ∈ cs, Number.isNumeric c = true) :
    IsWord cs := by
  intro c member
  have letter := numeric c member
  by_contra mark
  rw [Bool.not_eq_false, isMark, List.contains_iff_mem] at mark
  fin_cases mark <;> exact absurd letter (by decide)

/-! ## Calls -/

/-- Texts with commas, the first one with a comma before it. -/
def listed (texts : List (List Char)) : List Char :=
  texts.flatMap fun text => ", ".toList ++ text

theorem append_intercalate (text : List Char) (texts : List (List Char)) :
    ", ".toList ++ ", ".toList.intercalate (text :: texts) = listed (text :: texts) := by
  induction texts generalizing text with
  | nil => simp [listed, List.intercalate]
  | cons next texts ih =>
      have step : ", ".toList.intercalate (text :: next :: texts)
          = text ++ (", ".toList ++ ", ".toList.intercalate (next :: texts)) := by
        simp [List.intercalate]
      rw [step, ih]
      simp [listed]

theorem endsArgument_listed (texts : List (List Char)) (cs : List Char) :
    EndsArgument (listed texts ++ ')' :: cs) := by
  cases texts with
  | nil => exact endsArgument_close cs
  | cons text texts =>
      rw [listed, List.flatMap_cons]
      exact endsArgument_comma _

namespace Template

/-- The places of a call, with what stands between them. -/
def places : Arity → List Piece
  | .unary => [.argument ['0']]
  | .binary => [.argument ['0'], .char ',', .char ' ', .argument ['1']]
  | .windowed => [.argument ['0'], .char ',', .char ' ', .window]

/-- A template that is the call of an operator with its arguments, and its window, in order. -/
def IsCall (op : Operator) : Prop :=
  pieces op.template.toList
    = op.id.toList.map .char ++ .char '(' :: places op.arity ++ [.char ')']

instance (op : Operator) : Decidable (IsCall op) :=
  inferInstanceAs (Decidable (_ = _))

theorem fill_call {op : Operator} {arguments : List (List Char)} {window : Option (List Char)}
    (call : IsCall op) (count : arguments.length = op.arity.childCount)
    (windowed : window.isSome ↔ op.arity = .windowed) :
    fill op.template.toList arguments window = Expr.unknownCall op.id arguments window := by
  have plain (cs : List Char) :
      (cs.map Piece.char).flatMap (Piece.fill arguments window) = cs := by
    simp [List.flatMap_map, Piece.fill]
  have zero : Number.natOfDigits ['0'] = 0 := by decide
  have one : Number.natOfDigits ['1'] = 1 := by decide
  rw [fill, call, List.flatMap_append, List.flatMap_append, plain, Expr.unknownCall]
  cases arity : op.arity with
  | unary =>
      rw [arity] at count windowed
      obtain ⟨text, rfl⟩ := List.length_eq_one_iff.1 count
      obtain rfl : window = none := by simpa using windowed
      simp [places, Piece.fill, List.intercalate, zero]
  | binary =>
      rw [arity] at count windowed
      obtain ⟨first, second, rfl⟩ := List.length_eq_two.1 count
      obtain rfl : window = none := by simpa using windowed
      simp [places, Piece.fill, List.intercalate, zero, one]
  | windowed =>
      rw [arity] at count windowed
      obtain ⟨text, rfl⟩ := List.length_eq_one_iff.1 count
      obtain ⟨days, rfl⟩ := Option.isSome_iff_exists.1 (windowed.2 rfl)
      simp [places, Piece.fill, List.intercalate, zero]

end Template

/-! ## Catalogs -/

/-- What is written in the terms of a catalog can be told apart: ids are words, no field is called
like a numeral, operators are written as calls, and windows are days within a year. -/
structure Catalog.Legible (c : Catalog) : Prop where
  fields : ∀ f ∈ c.fields, IsWord f.id.toList ∧ (Number.unsignedDecimal? f.id.toList).isNone = true
  operators : ∀ op ∈ c.operators, IsWord op.id.toList ∧ Template.IsCall op
  windows : ∀ op ∈ c.operators, ∀ ends ∈ op.window.bind WindowRange.bounds?,
    1 ≤ ends.1 ∧ ends.2 ≤ 252

namespace Catalog.Bundled

theorem legible : catalog.Legible where
  fields := by decide +kernel
  operators := by decide +kernel
  windows := by decide +kernel

end Catalog.Bundled

/-! ## Formulas -/

namespace Expr

/-- A literal is a number of two decimal places from 0 to 1. -/
def TwoPlaced : Expr → Prop
  | .literal value => Number.IsHundredth value
  | _ => True

/-- The word that a written formula starts with. -/
def word : Expr → List Char
  | .field id => id.toList
  | .literal value => (literalText value).toList
  | .apply operator _ _ => operator.toList

/-- A window as an argument that follows the others. -/
def windowTexts (window : Option Float) : List (List Char) :=
  (window.map fun w => (Number.text w).toList).toList

/-- What follows the word. -/
def behind (c : Catalog) : Expr → List Char
  | .apply _ es window =>
    '(' :: (", ".toList.intercalate (renderAll c es ++ windowTexts window) ++ [')'])
  | _ => []

variable {c : Catalog} {e e' : Expr}

theorem renderChars_eq (legible : c.Legible) (inOrder : e.InOrder c) :
    renderChars c e = e.word ++ e.behind c := by
  cases e with
  | field id => simp [renderChars, word, behind]
  | literal value => simp [renderChars, word, behind]
  | apply operator es window =>
      obtain ⟨op, known, count, fits⟩ := inOrder
      obtain ⟨member, rfl⟩ := Catalog.operator?_eq_some.1 known
      rw [renderChars, known]
      dsimp only
      rw [Template.fill_call (legible.operators op member).2
        (by rw [renderAll_eq_map, List.length_map, count]) (by rw [Option.isSome_map, fits.1])]
      simp [unknownCall, windowTexts, word, behind]

theorem isWord_word (legible : c.Legible) (inOrder : e.InOrder c) (placed : e.TwoPlaced) :
    IsWord e.word := by
  cases e with
  | field id =>
      obtain ⟨f, known⟩ := inOrder
      obtain ⟨member, rfl⟩ := Catalog.field?_eq_some.1 known
      exact (legible.fields f member).1
  | literal value =>
      exact isWord_of_numeric (Number.numeric_of_unsignedDecimal? (Number.IsHundredth.read placed))
  | apply operator es window =>
      obtain ⟨op, known, -⟩ := inOrder
      obtain ⟨member, rfl⟩ := Catalog.operator?_eq_some.1 known
      exact (legible.operators op member).1

theorem head_behind {cs : List Char} (ends : EndsArgument cs) :
    ∀ m ∈ (e.behind c ++ cs).head?, isMark m = true := by
  have mark : ∀ m ∈ cs.head?, isMark m = true := by
    intro m first
    rcases ends m first with rfl | rfl <;> decide
  cases e with
  | field id => exact mark
  | literal value => exact mark
  | apply operator es window =>
      rintro _ ⟨⟩
      decide

/-! ## One reading -/

/-- Two formulas that are written alike, whatever follows them, are the same. -/
def ReadsApart (c : Catalog) (e e' : Expr) : Prop :=
  ∀ cs cs', EndsArgument cs → EndsArgument cs' →
    renderChars c e ++ cs = renderChars c e' ++ cs' → e = e' ∧ cs = cs'

theorem windowText_inj (legible : c.Legible) {op : Operator} (member : op ∈ c.operators)
    {w w' : Float} (fits : op.WindowFits (some w)) (fits' : op.WindowFits (some w')) :
    IsWord (Number.text w).toList ∧
      ((Number.text w).toList = (Number.text w').toList → w = w') := by
  -- The numeral reader tells the days, and the days tell the window.
  have days {w : Float} (fits : op.WindowFits (some w)) :
      ∃ n : ℕ, w = Float.ofNat n ∧
        Number.exponentOf? (Number.text w).toList = some ((n : ℤ), []) := by
    obtain ⟨range, low, high, n, ranged, ends, whole, least, most⟩ := fits.2 w rfl
    obtain ⟨one, year⟩ := legible.windows op member (low, high) (by
      rw [ranged]
      exact ends)
    have one : 1 ≤ low := one
    have year : high ≤ 252 := year
    obtain ⟨m, rfl⟩ := Int.eq_ofNat_of_zero_le (by omega : 0 ≤ n)
    exact ⟨m, Number.eq_ofNat_of_toInt? whole (by omega) (by omega),
      Number.exponentOf?_text whole (by omega) (by omega)⟩
  obtain ⟨n, whole, read⟩ := days fits
  obtain ⟨m, whole', read'⟩ := days fits'
  refine ⟨isWord_of_numeric (Number.numeric_of_exponentOf? read), fun same => ?_⟩
  rw [same, read', Option.some.injEq, Prod.mk.injEq, Nat.cast_inj] at read
  rw [whole, whole', read.1]

theorem windowTexts_inj (legible : c.Legible) {op : Operator} (member : op ∈ c.operators)
    {window window' : Option Float} (fits : op.WindowFits window) (fits' : op.WindowFits window')
    {cs cs' : List Char} (same : listed (windowTexts window) ++ ')' :: cs
      = listed (windowTexts window') ++ ')' :: cs') : window = window' ∧ cs = cs' := by
  have close (cs : List Char) : ∀ m ∈ (')' :: cs).head?, isMark m = true := by
    rintro _ ⟨⟩
    decide
  have windowed : window.isSome ↔ window'.isSome := fits.1.trans fits'.1.symm
  cases window with
  | none =>
      obtain rfl : window' = none := by simpa using windowed
      exact ⟨rfl, (List.cons.inj same).2⟩
  | some w =>
      obtain ⟨w', rfl⟩ := Option.isSome_iff_exists.1 (windowed.1 rfl)
      obtain ⟨word, injective⟩ := windowText_inj legible member fits fits'
      obtain ⟨word', -⟩ := windowText_inj legible member fits' fits
      simp only [listed, windowTexts, Option.map_some, Option.toList_some, List.flatMap_cons,
        List.flatMap_nil, List.append_nil, List.append_assoc, List.append_cancel_left_eq] at same
      obtain ⟨text, rest⟩ := word.append_inj word' (close cs) (close cs') same
      exact ⟨congrArg some (injective text), (List.cons.inj rest).2⟩

/-- As many arguments on both sides, one after the other, and then the windows. -/
theorem arguments_inj {windows windows' : List (List Char)} {Q : Prop} {cs cs' : List Char}
    (last : listed windows ++ ')' :: cs = listed windows' ++ ')' :: cs' → Q) :
    ∀ {es es' : List Expr}, (∀ e ∈ es, ∀ e' ∈ es', ReadsApart c e e') → es.length = es'.length →
      listed (renderAll c es ++ windows) ++ ')' :: cs
        = listed (renderAll c es' ++ windows') ++ ')' :: cs' → es = es' ∧ Q
  | [], [], _, _, same => ⟨rfl, last same⟩
  | e :: es, e' :: es', each, count, same => by
      simp only [renderAll, List.cons_append, listed, List.flatMap_cons, List.append_assoc,
        List.append_cancel_left_eq] at same
      obtain ⟨rfl, rest⟩ := each e List.mem_cons_self e' List.mem_cons_self _ _
        (endsArgument_listed _ cs) (endsArgument_listed _ cs') same
      obtain ⟨rfl, last⟩ := arguments_inj last
        (fun e member e' member' =>
          each e (List.mem_cons_of_mem _ member) e' (List.mem_cons_of_mem _ member'))
        (Nat.succ.inj count) rest
      exact ⟨rfl, last⟩

theorem field_ne_literal (legible : c.Legible) {id : String} {value : Float}
    (known : (field id).InOrder c) (placed : (literal value).TwoPlaced) :
    (field id).word ≠ (literal value).word := by
  intro same
  obtain ⟨f, found⟩ := known
  obtain ⟨member, rfl⟩ := Catalog.field?_eq_some.1 found
  have unread := (legible.fields f member).2
  have same : f.id.toList = (literalText value).toList := same
  rw [same, Number.IsHundredth.read placed] at unread
  cases unread

theorem leaf_ne_call {operator : String} {es : List Expr} {window : Option Float}
    {cs cs' : List Char} (ends : EndsArgument cs)
    (same : cs = (apply operator es window).behind c ++ cs') : False := by
  rw [same] at ends
  rcases ends '(' rfl with other | other <;> cases other

/-- The arguments of a call, read from what follows its word. -/
theorem listed_arguments {operator : String} {es : List Expr} {window : Option Float}
    {cs : List Char} (inOrder : (apply operator es window).InOrder c) :
    listed (renderAll c es ++ windowTexts window) ++ ')' :: cs
      = ", ".toList ++ ((apply operator es window).behind c ++ cs).tail := by
  obtain ⟨op, -, count, -⟩ := inOrder
  cases es with
  | nil => cases arity : op.arity <;> rw [arity] at count <;> cases count
  | cons e es =>
      simp only [renderAll, List.cons_append, behind, List.tail_cons, List.append_assoc,
        List.nil_append]
      rw [← List.append_assoc, append_intercalate]

/-- The words of two formulas that are written alike are the same, and so is what follows. -/
theorem word_eq (legible : c.Legible) (inOrder : e.InOrder c) (placed : e.TwoPlaced)
    (inOrder' : e'.InOrder c) (placed' : e'.TwoPlaced) {cs cs' : List Char}
    (ends : EndsArgument cs) (ends' : EndsArgument cs')
    (same : renderChars c e ++ cs = renderChars c e' ++ cs') :
    e.word = e'.word ∧ e.behind c ++ cs = e'.behind c ++ cs' := by
  rw [renderChars_eq legible inOrder, renderChars_eq legible inOrder', List.append_assoc,
    List.append_assoc] at same
  exact (isWord_word legible inOrder placed).append_inj (isWord_word legible inOrder' placed')
    (head_behind ends) (head_behind ends') same

/-- Unique readability: two formulas that are written alike, whatever ends them, are the same. -/
theorem readsApart (legible : c.Legible) (ordered : e.All (InOrder c)) (placed : e.All TwoPlaced)
    (ordered' : e'.All (InOrder c)) (placed' : e'.All TwoPlaced) : ReadsApart c e e' := by
  induction e using Expr.induction generalizing e' with
  | field id =>
      intro cs cs' ends ends' same
      obtain ⟨word, rest⟩ :=
        word_eq legible ordered.root placed.root ordered'.root placed'.root ends ends' same
      cases e' with
      | field id' =>
          obtain rfl := String.toList_inj.1 word
          exact ⟨rfl, rest⟩
      | literal value => exact absurd word (field_ne_literal legible ordered.root placed'.root)
      | apply operator es window => exact (leaf_ne_call ends rest).elim
  | literal value =>
      intro cs cs' ends ends' same
      obtain ⟨word, rest⟩ :=
        word_eq legible ordered.root placed.root ordered'.root placed'.root ends ends' same
      cases e' with
      | field id => exact absurd word.symm (field_ne_literal legible ordered'.root placed.root)
      | literal value' =>
          have read := Number.IsHundredth.read placed.root
          have word : (literalText value).toList = (literalText value').toList := word
          rw [word, Number.IsHundredth.read placed'.root] at read
          obtain rfl := Option.some.inj read
          exact ⟨rfl, rest⟩
      | apply operator es window => exact (leaf_ne_call ends rest).elim
  | apply operator es window ih =>
      intro cs cs' ends ends' same
      obtain ⟨word, rest⟩ :=
        word_eq legible ordered.root placed.root ordered'.root placed'.root ends ends' same
      cases e' with
      | field id => exact (leaf_ne_call ends' rest.symm).elim
      | literal value => exact (leaf_ne_call ends' rest.symm).elim
      | apply operator' es' window' =>
          obtain rfl := String.toList_inj.1 word
          obtain ⟨⟨op, known, count, fits⟩, below⟩ := all_apply.1 ordered
          obtain ⟨⟨op', known', count', fits'⟩, below'⟩ := all_apply.1 ordered'
          obtain rfl := Option.some.inj (known.symm.trans known')
          have member := (Catalog.operator?_eq_some.1 known).1
          have each : ∀ e ∈ es, ∀ e' ∈ es', ReadsApart c e e' := fun e inside e' inside' =>
            ih e inside (below e inside) ((all_apply.1 placed).2 e inside) (below' e' inside')
              ((all_apply.1 placed').2 e' inside')
          have texts : listed (renderAll c es ++ windowTexts window) ++ ')' :: cs
              = listed (renderAll c es' ++ windowTexts window') ++ ')' :: cs' := by
            rw [listed_arguments ordered.root, listed_arguments ordered'.root, rest]
          obtain ⟨rfl, rfl, rfl⟩ := arguments_inj
            (windowTexts_inj legible member fits fits') each (count.trans count'.symm) texts
          exact ⟨rfl, rfl⟩

/-- A formula that can be told from its written form. -/
structure Readable (c : Catalog) (e : Expr) : Prop where
  ordered : e.All (InOrder c)
  placed : e.All TwoPlaced

theorem render_injOn (legible : c.Legible) : Set.InjOn (render c) {e | e.Readable c} := by
  intro e readable e' readable' same
  refine (readsApart legible readable.ordered readable.placed readable'.ordered readable'.placed
    [] [] endsArgument_nil endsArgument_nil ?_).1
  rw [List.append_nil, List.append_nil]
  exact String.ofList_inj.1 same

end Expr

end AlphaFoundry
