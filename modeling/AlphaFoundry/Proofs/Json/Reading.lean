/-
# AlphaFoundry.Proofs.Json.Reading -- documents are read back from their text

The reader undoes the printer, spread out or not, on every document whose numbers JSON can write and
whose objects have each key once (`Writable`).  What is read at any place is the text of a value
with a rest behind it; the rest must not go on with a numeral, and never does inside a document:
what follows a value is a comma, a bracket or a line break.
-/
import Mathlib
import AlphaFoundry.Json.Printer
import AlphaFoundry.Json.Reader
import AlphaFoundry.Proofs.Json.Numeral

namespace AlphaFoundry.Json

set_option autoImplicit false

/-- A document that its text tells in full: JSON has no infinite numbers and none that is no number,
and writes the negative zero like the other one. -/
inductive Writable : Json → Prop
  | null : Writable .null
  | bool (b : Bool) : Writable (.bool b)
  | num {x : Float} (finite : x.isFinite = true) (plain : x ≠ -0.0) : Writable (.num x)
  | str (s : String) : Writable (.str s)
  | arr {items : List Json} (each : ∀ item ∈ items, Writable item) : Writable (.arr items)
  | obj {members : List (String × Json)} (distinct : (members.map Prod.fst).Nodup)
      (each : ∀ m ∈ members, Writable m.2) : Writable (.obj members)

/-! ## Texts between quotes -/

theorem hex4?_hexDigit :
    ∀ n < 0x20, hex4? '0' '0' (hexDigit (n / 16)) (hexDigit (n % 16)) = some n := by
  decide

/-- The escape of a control character stands for it. -/
theorem escaped?_control {c : Char} (control : c.toNat < 0x20) (rest : List Char) :
    escaped? ('u' :: '0' :: '0' :: hexDigit (c.toNat / 16) :: hexDigit (c.toNat % 16) :: rest)
      = some (c, rest) := by
  have high : Text.isHighHalf c.toNat = false := by
    simp only [Text.isHighHalf, Bool.and_eq_false_imp, decide_eq_true_eq, decide_eq_false_iff_not]
    omega
  have low : Text.isLowHalf c.toNat = false := by
    simp only [Text.isLowHalf, Bool.and_eq_false_imp, decide_eq_true_eq, decide_eq_false_iff_not]
    omega
  rw [escaped?, hex4?_hexDigit _ control, Option.map_some, high, low]
  simp

theorem readChars_escape (fuel : ℕ) (c : Char) (cs : List Char) :
    readChars (fuel + 1) (escape c ++ cs) = (readChars fuel cs).map fun r => (c :: r.1, r.2) := by
  unfold escape
  split
  case h_8 quote backslash _ _ _ _ _ =>
    split
    · rename_i control
      show readChars (fuel + 1) ('\\' :: 'u' :: '0' :: '0' :: _ :: _ :: cs) = _
      rw [readChars, escaped?_control control]
    · rename_i control
      show readChars (fuel + 1) (c :: cs) = _
      rw [readChars]
      · rw [if_neg control]
      · exact quote
      · exact backslash
  all_goals rfl

theorem readChars_flatMap (s : List Char) {fuel : ℕ} (enough : s.length < fuel) (rest : List Char) :
    readChars fuel (s.flatMap escape ++ '"' :: rest) = some (s, rest) := by
  induction s generalizing fuel with
  | nil =>
      obtain ⟨fuel, rfl⟩ := Nat.exists_eq_add_one_of_ne_zero (Nat.ne_zero_of_lt enough)
      rfl
  | cons c s ih =>
      obtain ⟨fuel, rfl⟩ := Nat.exists_eq_add_one_of_ne_zero (Nat.ne_zero_of_lt enough)
      rw [List.flatMap_cons, List.append_assoc, readChars_escape, ih (Nat.lt_of_succ_lt_succ enough)]
      rfl

theorem length_le_escape (c : Char) : 1 ≤ (escape c).length := by
  unfold escape
  split
  case h_8 => split <;> simp
  all_goals simp

theorem length_le_flatMap_escape (s : List Char) : s.length ≤ (s.flatMap escape).length := by
  induction s with
  | nil => exact le_rfl
  | cons c s ih =>
      have := length_le_escape c
      rw [List.flatMap_cons, List.length_append, List.length_cons]
      omega

/-! ## Blanks -/

theorem skipBlanks_replicate (n : ℕ) (cs : List Char) :
    skipBlanks (List.replicate n ' ' ++ cs) = skipBlanks cs := by
  induction n with
  | zero => rfl
  | succ n ih => exact ih

theorem skipBlanks_breakLine (spread : Bool) (level : ℕ) (cs : List Char) :
    skipBlanks (breakLine spread level ++ cs) = skipBlanks cs := by
  cases spread
  · rfl
  · exact skipBlanks_replicate _ cs

theorem readValue_congr {cs ds : List Char} (same : skipBlanks cs = skipBlanks ds) (fuel : ℕ) :
    readValue fuel cs = readValue fuel ds := by
  cases fuel with
  | zero => rfl
  | succ fuel => rw [readValue, same, readValue]

theorem readItems_congr {cs ds : List Char} (same : skipBlanks cs = skipBlanks ds) (fuel : ℕ) :
    readItems fuel cs = readItems fuel ds := by
  cases fuel with
  | zero => rfl
  | succ fuel => rw [readItems, readValue_congr same, readItems]

theorem readMembers_congr {cs ds : List Char} (same : skipBlanks cs = skipBlanks ds) (fuel : ℕ) :
    readMembers fuel cs = readMembers fuel ds := by
  cases fuel with
  | zero => rfl
  | succ fuel => rw [readMembers, same, readMembers]

/-! ## Values -/

theorem readNumber_eq_none {c : Char} (unsigned : c ≠ '-') (digit : c.isDigit = false)
    (cs : List Char) : readNumber (c :: cs) = none := by
  have none : Number.NoDigit (c :: cs) := by
    rintro d ⟨⟩
    exact digit
  rw [readNumber, readUnsigned]
  · have span := @Number.spanDigits_append [] _ (fun d absent => nomatch absent) none
    rw [List.nil_append] at span
    rw [span]
    rfl
  · exact fun ds same => unsigned (List.cons.inj same).1

/-- What can begin a value: no blank and no closing bracket. -/
def Opens (cs : List Char) : Prop :=
  skipBlanks cs = cs ∧ cs.head? ≠ some ']'

theorem starts_of_readNumber {cs : List Char} {r : Float × List Char}
    (read : readNumber cs = some r) : ∃ c ds, cs = c :: ds ∧ (c = '-' ∨ c.isDigit = true) := by
  cases cs with
  | nil => cases read
  | cons c ds =>
      refine ⟨c, ds, rfl, or_iff_not_imp_left.2 fun unsigned => ?_⟩
      by_contra digit
      rw [readNumber_eq_none unsigned (Bool.eq_false_iff.2 digit)] at read
      cases read

theorem opens_of_start {c : Char} (start : c = '-' ∨ c.isDigit = true) (cs : List Char) :
    Opens (c :: cs) := by
  refine ⟨?_, fun same => ?_⟩
  · unfold skipBlanks
    split
    case h_5 => rfl
    all_goals
      rename_i same
      cases same
      exact absurd start (by decide)
  · cases same
    exact absurd start (by decide)

theorem readValue_number {cs : List Char} {r : Float × List Char} (read : readNumber cs = some r)
    (fuel : ℕ) : readValue (fuel + 1) cs = some (.num r.1, r.2) := by
  obtain ⟨c, ds, rfl, start⟩ := starts_of_readNumber read
  rw [readValue, (opens_of_start start ds).1]
  split
  case h_7 =>
    rw [read]
    rfl
  all_goals
    rename_i same
    cases same
    exact absurd start (by decide)

variable {spread : Bool}

/-- The text of a document is read as the document. -/
def Reads (spread : Bool) (j : Json) : Prop :=
  ∀ (level fuel : ℕ) (rest : List Char), (write spread level j).length < fuel → EndsNumeral rest →
    readValue fuel (write spread level j ++ rest) = some (j, rest)

theorem endsNumeral_cons {c : Char} (ends : c.isDigit = false ∧ c ≠ '.' ∧ c ≠ 'e' ∧ c ≠ 'E')
    (cs : List Char) : EndsNumeral (c :: cs) := by
  rintro d ⟨⟩
  exact ends

theorem endsNumeral_breakLine (level : ℕ) {c : Char}
    (ends : c.isDigit = false ∧ c ≠ '.' ∧ c ≠ 'e' ∧ c ≠ 'E') (cs : List Char) :
    EndsNumeral (breakLine spread level ++ c :: cs) := by
  cases spread
  · exact endsNumeral_cons ends cs
  · exact endsNumeral_cons (by decide) _

/-! ### Lists -/

theorem readItems_write {items : List Json} (each : ∀ item ∈ items, Reads spread item) {item : Json}
    (first : Reads spread item) {level below fuel : ℕ} {rest : List Char}
    (enough : (write spread level item).length + (writeItems spread level items).length + 1
      < fuel) :
    readItems fuel (write spread level item
        ++ (writeItems spread level items ++ (breakLine spread below ++ ']' :: rest)))
      = some (item :: items, rest) := by
  obtain ⟨fuel, rfl⟩ := Nat.exists_eq_add_one_of_ne_zero (Nat.ne_zero_of_lt enough)
  induction items generalizing item fuel with
  | nil =>
      rw [writeItems, List.nil_append, readItems,
        first level fuel _ (by omega) (endsNumeral_breakLine below (by decide) rest)]
      dsimp only
      rw [skipBlanks_breakLine]
      rfl
  | cons next items ih =>
      rw [writeItems, List.length_append, List.length_append, List.length_cons] at enough
      obtain ⟨fuel, rfl⟩ := Nat.exists_eq_add_one_of_ne_zero (show fuel ≠ 0 by omega)
      rw [writeItems, List.cons_append, List.cons_append, List.cons_append, readItems,
        first level (fuel + 1) _ (by omega) (endsNumeral_cons (by decide) _)]
      show (readItems (fuel + 1) _).map _ = _
      rw [List.append_assoc, List.append_assoc, readItems_congr (skipBlanks_breakLine ..),
        ih (fun item member => each item (.tail _ member)) (each next (.head _)) fuel (by omega)]
      rfl

/-! ### Members -/

theorem writeMember_append (spread : Bool) (level : ℕ) (m : String × Json) (rest : List Char) :
    writeMember spread level m ++ rest = '"' :: (m.1.toList.flatMap escape ++ '"' ::
      ((if spread then [':', ' '] else [':']) ++ (write spread level m.2 ++ rest))) := by
  obtain ⟨key, value⟩ := m
  simp [writeMember, quote]

theorem length_writeMember (spread : Bool) (level : ℕ) (m : String × Json) :
    m.1.toList.length + (write spread level m.2).length + 3
      ≤ (writeMember spread level m).length := by
  have key := length_le_flatMap_escape m.1.toList
  have gap : 1 ≤ (if spread then [':', ' '] else [':']).length := by cases spread <;> decide
  have whole := congrArg List.length (writeMember_append spread level m [])
  simp only [List.append_nil, List.length_append, List.length_cons] at whole
  omega

/-- A member is read, and what stands behind it tells if there are more. -/
theorem readMembers_writeMember {m : String × Json} (read : Reads spread m.2) {level fuel : ℕ}
    {rest : List Char} (enough : (writeMember spread level m).length ≤ fuel)
    (ends : EndsNumeral rest) :
    (∀ more, skipBlanks rest = ',' :: more →
      readMembers (fuel + 1) (writeMember spread level m ++ rest)
        = (readMembers fuel more).map fun r => (m :: r.1, r.2)) ∧
    ∀ more, skipBlanks rest = '\x7d' :: more →
      readMembers (fuel + 1) (writeMember spread level m ++ rest) = some ([m], more) := by
  have room := length_writeMember spread level m
  have quote (cs : List Char) : skipBlanks ('"' :: cs) = '"' :: cs := rfl
  have key (cs : List Char) : readChars fuel (m.1.toList.flatMap escape ++ '"' :: cs)
      = some (m.1.toList, cs) := readChars_flatMap m.1.toList (by omega) cs
  have colon (cs : List Char) : skipBlanks ((if spread then [':', ' '] else [':']) ++ cs)
      = ':' :: ((if spread then [' '] else []) ++ cs) := by cases spread <;> rfl
  have gap (cs : List Char) : skipBlanks ((if spread then [' '] else []) ++ cs)
      = skipBlanks cs := by cases spread <;> rfl
  have value : readValue fuel ((if spread then [' '] else []) ++ (write spread level m.2 ++ rest))
      = some (m.2, rest) := by
    rw [readValue_congr (gap _), read level fuel rest (by omega) ends]
  constructor <;> intro more next <;>
    simp only [writeMember_append, readMembers, quote, key, colon, value, next, String.ofList_toList]

theorem readMembers_write {members : List (String × Json)}
    (each : ∀ m ∈ members, Reads spread m.2) {m : String × Json} (first : Reads spread m.2)
    {level below fuel : ℕ} {rest : List Char}
    (enough : (writeMember spread level m).length + (writeMembers spread level members).length
      < fuel) :
    readMembers fuel (writeMember spread level m
        ++ (writeMembers spread level members ++ (breakLine spread below ++ '\x7d' :: rest)))
      = some (m :: members, rest) := by
  obtain ⟨fuel, rfl⟩ := Nat.exists_eq_add_one_of_ne_zero (Nat.ne_zero_of_lt enough)
  induction members generalizing m fuel with
  | nil =>
      have ends : EndsNumeral (breakLine spread below ++ '\x7d' :: rest) :=
        endsNumeral_breakLine below (by decide) rest
      exact (readMembers_writeMember first (by omega) ends).2 rest (skipBlanks_breakLine ..)
  | cons next members ih =>
      rw [writeMembers, List.length_append, List.length_append, List.length_cons] at enough
      obtain ⟨fuel, rfl⟩ := Nat.exists_eq_add_one_of_ne_zero (show fuel ≠ 0 by omega)
      rw [writeMembers, List.cons_append, List.cons_append, List.cons_append,
        (readMembers_writeMember first (by omega) (endsNumeral_cons (by decide) _)).1 _ rfl,
        List.append_assoc, List.append_assoc, readMembers_congr (skipBlanks_breakLine ..),
        ih (fun m member => each m (.tail _ member)) (each next (.head _)) fuel (by omega)]
      rfl

theorem put_of_notMem {key : String} (value : Json) {members : List (String × Json)}
    (fresh : key ∉ members.map Prod.fst) : put key value members = members ++ [(key, value)] := by
  induction members with
  | nil => rfl
  | cons m members ih =>
      rw [List.map_cons, List.mem_cons, not_or] at fresh
      rw [put, if_neg (by simpa using Ne.symm fresh.1), ih fresh.2]
      rfl

theorem ofMembers_of_nodup {members : List (String × Json)}
    (distinct : (members.map Prod.fst).Nodup) : ofMembers members = .obj members := by
  suffices ∀ seen : List (String × Json), ((seen ++ members).map Prod.fst).Nodup →
      members.foldl (fun acc m => put m.1 m.2 acc) seen = seen ++ members from
    congrArg Json.obj (this [] distinct)
  intro seen apart
  induction members generalizing seen with
  | nil => rw [List.append_nil, List.foldl_nil]
  | cons m members ih =>
      have fresh : m.1 ∉ seen.map Prod.fst := fun member => by
        rw [List.map_append, List.nodup_append] at apart
        exact apart.2.2 m.1 member m.1 (.head _) rfl
      rw [List.append_cons seen m members] at apart
      rw [List.foldl_cons, put_of_notMem m.2 fresh, ih (List.nodup_cons.1 distinct).2 _ apart,
        List.append_cons seen m members]

/-! ## Documents -/

theorem write_opens {j : Json} (writable : Writable j) (level : ℕ) (rest : List Char) :
    Opens (write spread level j ++ rest) := by
  cases writable with
  | null => exact ⟨rfl, nofun⟩
  | bool b => cases b <;> exact ⟨rfl, nofun⟩
  | @num x finite plain =>
      obtain ⟨c, ds, same, start⟩ := starts_of_readNumber (@readNumber_text x finite plain [] nofun)
      rw [List.append_nil] at same
      rw [write, number, if_pos finite, same]
      exact opens_of_start start _
  | str s => exact ⟨rfl, nofun⟩
  | @arr items each => cases items <;> exact ⟨rfl, nofun⟩
  | @obj members distinct each => cases members <;> exact ⟨rfl, nofun⟩

theorem readValue_items {cs : List Char} (opens : Opens cs) (level fuel : ℕ) :
    readValue (fuel + 1) ('[' :: (breakLine spread level ++ cs))
      = (readItems fuel cs).map fun r => (Json.arr r.1, r.2) := by
  have bracket (cs : List Char) : skipBlanks ('[' :: cs) = '[' :: cs := rfl
  simp only [readValue, bracket, skipBlanks_breakLine, opens.1]
  split
  · exact absurd rfl opens.2
  · rfl

theorem readValue_members (cs : List Char) (level fuel : ℕ) :
    readValue (fuel + 1) ('\x7b' :: (breakLine spread level ++ '"' :: cs))
      = (readMembers fuel ('"' :: cs)).map fun r => (ofMembers r.1, r.2) := by
  have brace (cs : List Char) : skipBlanks ('\x7b' :: cs) = '\x7b' :: cs := rfl
  have quote (cs : List Char) : skipBlanks ('"' :: cs) = '"' :: cs := rfl
  simp only [readValue, brace, skipBlanks_breakLine, quote]
  split
  · rename_i same
    cases same
  · rfl

/-- The reader undoes the printer at any level of nesting and with any rest behind. -/
theorem reads_of_writable {j : Json} (writable : Writable j) : Reads spread j := by
  induction writable with
  | null =>
      intro level fuel rest enough _
      obtain ⟨fuel, rfl⟩ := Nat.exists_eq_add_one_of_ne_zero (Nat.ne_zero_of_lt enough)
      rfl
  | bool b =>
      intro level fuel rest enough _
      obtain ⟨fuel, rfl⟩ := Nat.exists_eq_add_one_of_ne_zero (Nat.ne_zero_of_lt enough)
      cases b <;> rfl
  | @num x finite plain =>
      intro level fuel rest enough ends
      obtain ⟨fuel, rfl⟩ := Nat.exists_eq_add_one_of_ne_zero (Nat.ne_zero_of_lt enough)
      rw [write, number, if_pos finite, readValue_number (readNumber_text finite plain ends)]
  | str s =>
      intro level fuel rest enough _
      obtain ⟨fuel, rfl⟩ := Nat.exists_eq_add_one_of_ne_zero (Nat.ne_zero_of_lt enough)
      have room := length_le_flatMap_escape s.toList
      simp only [write, quote, List.cons_append, List.length_cons, List.length_append] at enough
      rw [write, quote, List.cons_append, List.cons_append, List.append_assoc, readValue]
      show (readChars fuel (_ ++ '"' :: rest)).map _ = _
      rw [readChars_flatMap _ (by omega), Option.map_some, String.ofList_toList]
  | @arr items each ih =>
      intro level fuel rest enough ends
      obtain ⟨fuel, rfl⟩ := Nat.exists_eq_add_one_of_ne_zero (Nat.ne_zero_of_lt enough)
      cases items with
      | nil => rfl
      | cons item items =>
          simp only [write, List.length_cons, List.length_append] at enough
          simp only [write, List.append_assoc, List.cons_append, List.nil_append]
          rw [readValue_items (write_opens (each item (.head _)) _ _),
            readItems_write (fun item member => ih item (.tail _ member)) (ih item (.head _))
              (by omega)]
          rfl
  | @obj members distinct each ih =>
      intro level fuel rest enough ends
      obtain ⟨fuel, rfl⟩ := Nat.exists_eq_add_one_of_ne_zero (Nat.ne_zero_of_lt enough)
      cases members with
      | nil => rfl
      | cons m members =>
          simp only [write, List.length_cons, List.length_append] at enough
          have read := @readMembers_write spread members (fun m member => ih m (.tail _ member)) m
            (ih m (.head _)) (level + 1) level fuel rest (by omega)
          simp only [write, List.append_assoc, List.cons_append, List.nil_append]
          rw [writeMember_append] at read ⊢
          rw [readValue_members, read, Option.map_some, ofMembers_of_nodup distinct]

/-! ## Whole texts -/

theorem endsNumeral_of_blank {tail : List Char} (blank : skipBlanks tail = []) :
    EndsNumeral tail := by
  unfold skipBlanks at blank
  split at blank
  case h_5 => rw [blank]; nofun
  all_goals exact endsNumeral_cons (by decide) _

/-- A writable document is read back from its text, blanks behind it aside. -/
theorem read?_write {j : Json} (writable : Writable j) (spread : Bool) {tail : List Char}
    (blank : skipBlanks tail = []) : read? (String.ofList (write spread 0 j ++ tail)) = some j := by
  have room : (write spread 0 j).length < 2 * (write spread 0 j ++ tail).length + 2 := by
    rw [List.length_append]
    omega
  rw [read?, String.toList_ofList,
    reads_of_writable writable 0 _ tail room (endsNumeral_of_blank blank)]
  show (if (skipBlanks tail).isEmpty then some j else none) = _
  rw [blank]
  rfl

end AlphaFoundry.Json
