/-
# AlphaFoundry.Proofs.Expr.Lines -- the lines of a formula that is laid out

`layoutAt` makes one text of a formula, and whether a call fits is settled where nothing is known of
the comma that may follow.  `linesAt` keeps the lines apart, each with what it holds; put together
they are the text (`toList_layoutAt`).  Every line shows one node, and `Shows` says at which level
and under which condition a node gets which lines.  What is true of lines is read off its cases:
that none has a line end in it, so that they are found again when the text is cut, and that a call
stays on one line only where it fits.
-/
import Mathlib
import AlphaFoundry.Proofs.Expr.Layout
import AlphaFoundry.Proofs.Number.Letters

namespace AlphaFoundry

set_option autoImplicit false

theorem Text.width_append (s t : String) : Text.width (s ++ t) = Text.width s + Text.width t := by
  simp [width, units]

namespace Expr

/-! ## Lines -/

/-- What a line holds behind its indentation. -/
inductive Holding where
  /-- A formula on one line. -/
  | whole (e : Expr)
  /-- The name of a call whose arguments are on lines of their own. -/
  | opening (name : List Char)
  /-- What a template has beside its arguments. -/
  | plain (text : String)
  | closing

structure Line where
  level : ℕ
  holding : Holding
  /-- A comma follows. -/
  comma : Bool := false

def Holding.text (c : Catalog) : Holding → String
  | whole e => render c e
  | opening name => String.ofList name ++ "("
  | plain text => text
  | closing => ")"

namespace Line

variable (c : Catalog) (page : Page)

/-- A line without the comma that follows. -/
def bare (l : Line) : String :=
  page.pad l.level ++ l.holding.text c

def text (l : Line) : String :=
  l.bare c page ++ if l.comma then "," else ""

/-- A comma behind the last line. -/
def ended : List Line → List Line
  | [] => []
  | [l] => [{ l with comma := true }]
  | l :: next :: ls => l :: ended (next :: ls)

/-- Blocks of lines with commas between them. -/
def separated : List (List Line) → List Line
  | [] => []
  | [block] => block
  | block :: next :: blocks => ended block ++ separated (next :: blocks)

end Line

/-- The lines of an argument that a template writes. -/
def blockOf (level : ℕ) (laid : List (List Line)) (window : Option Float) (text : List Char) :
    List Line :=
  match (Template.argument? text).bind fun i => laid[i]? with
  | some block => block
  | none => [⟨level + 1, .plain (plainArgument window text), false⟩]

mutual

/-- The lines of a formula at a level. -/
def linesAt (c : Catalog) (page : Page) (level : ℕ) : Expr → List Line
  | .field id => [⟨level, .whole (.field id), false⟩]
  | .literal value => [⟨level, .whole (.literal value), false⟩]
  | .apply operator es window =>
    let call := apply operator es window
    if page.fits level (render c call) then [⟨level, .whole call, false⟩]
    else
      match (c.operator? operator).bind fun op => Template.call? op.template.toList with
      | none => [⟨level, .whole call, false⟩]
      | some (name, texts) =>
        let laid := linesAll c page (level + 1) es
        ⟨level, .opening name, false⟩
          :: Line.separated (texts.map (blockOf level laid window)) ++ [⟨level, .closing, false⟩]

def linesAll (c : Catalog) (page : Page) (level : ℕ) : List Expr → List (List Line)
  | [] => []
  | e :: es => linesAt c page level e :: linesAll c page level es

end

variable {c : Catalog} {page : Page}

/-! ## Lines put together -/

namespace Line

variable (c page)

/-- Lines one below the other. -/
def joined (ls : List Line) : List Char :=
  ['\n'].intercalate (ls.map fun l => (l.text c page).toList)

variable {c page}

theorem joined_singleton (level : ℕ) (holding : Holding) :
    joined c page [⟨level, holding, false⟩] = (page.pad level ++ holding.text c).toList := by
  simp [joined, List.intercalate, text, bare]

theorem joined_cons (l : Line) {ls : List Line} (more : ls ≠ []) :
    joined c page (l :: ls) = (l.text c page).toList ++ '\n' :: joined c page ls := by
  obtain ⟨next, ls, rfl⟩ := List.exists_cons_of_ne_nil more
  simp [joined, List.intercalate_cons_cons]

theorem joined_append {ls ks : List Line} (some_line : ls ≠ []) (more : ks ≠ []) :
    joined c page (ls ++ ks) = joined c page ls ++ '\n' :: joined c page ks := by
  induction ls with
  | nil => exact absurd rfl some_line
  | cons l ls ih =>
      rcases eq_or_ne ls [] with rfl | inner
      · simpa [joined, List.intercalate] using joined_cons l more
      · rw [List.cons_append, joined_cons l (by simp [inner]), ih inner, joined_cons l inner]
        simp

/-- Lines to which a comma can be added: there is a last one, and no comma follows it. -/
def Unended (ls : List Line) : Prop :=
  ∃ init last, ls = init ++ [last] ∧ last.comma = false

theorem Unended.ne_nil {ls : List Line} : Unended ls → ls ≠ [] := by
  rintro ⟨init, last, rfl, -⟩
  simp

theorem unended_singleton (level : ℕ) (holding : Holding) : Unended [⟨level, holding, false⟩] :=
  ⟨[], _, rfl, rfl⟩

theorem ended_concat (init : List Line) (last : Line) :
    ended (init ++ [last]) = init ++ [{ last with comma := true }] := by
  induction init with
  | nil => rfl
  | cons l init ih =>
      obtain ⟨next, ls, cut⟩ := List.exists_cons_of_ne_nil (List.concat_ne_nil last init)
      rw [List.cons_append, cut, ended, ← cut, ih, List.cons_append]

theorem joined_ended {ls : List Line} (unended : Unended ls) :
    joined c page (ended ls) = joined c page ls ++ [','] := by
  obtain ⟨init, last, rfl, bare⟩ := unended
  have comma : joined c page [{ last with comma := true }] = joined c page [last] ++ [','] := by
    simp [joined, List.intercalate, text, Line.bare, bare]
  rw [ended_concat]
  rcases eq_or_ne init [] with rfl | inner
  · exact comma
  · rw [joined_append inner (by simp), joined_append inner (by simp), comma]
    simp

theorem separated_ne_nil {blocks : List (List Line)} (some_block : blocks ≠ [])
    (each : ∀ block ∈ blocks, Unended block) : separated blocks ≠ [] := by
  fun_cases separated blocks with
  | case1 => exact absurd rfl some_block
  | case2 block => exact (each block (by simp)).ne_nil
  | case3 block next blocks =>
      obtain ⟨init, last, rfl, -⟩ := each block (by simp)
      simp [ended_concat]

theorem joined_separated {blocks : List (List Line)} (some_block : blocks ≠ [])
    (each : ∀ block ∈ blocks, Unended block) :
    joined c page (separated blocks) = [',', '\n'].intercalate (blocks.map (joined c page)) := by
  fun_induction separated blocks with
  | case1 => exact absurd rfl some_block
  | case2 block => simp [List.intercalate]
  | case3 block next blocks ih =>
      obtain ⟨first, others⟩ := List.forall_mem_cons.1 each
      have more := separated_ne_nil (List.cons_ne_nil next blocks) others
      have some_line : ended block ≠ [] := by
        obtain ⟨init, last, rfl, -⟩ := first
        simp [ended_concat]
      rw [joined_append some_line more, joined_ended first, ih (List.cons_ne_nil _ _) others,
        List.map_cons, List.map_cons, List.map_cons, List.intercalate_cons_cons]
      simp

/-- Commas apart, the lines of blocks that are put together are the lines of the blocks. -/
theorem exists_of_mem_ended {l : Line} {ls : List Line} (member : l ∈ ended ls) :
    ∃ k ∈ ls, k.level = l.level ∧ k.holding = l.holding := by
  fun_induction ended ls with
  | case1 => cases member
  | case2 k =>
      obtain rfl := List.mem_singleton.1 member
      exact ⟨k, List.mem_cons_self, rfl, rfl⟩
  | case3 k next ls ih =>
      rcases List.mem_cons.1 member with rfl | member
      · exact ⟨l, List.mem_cons_self, rfl, rfl⟩
      · obtain ⟨k, among, same⟩ := ih member
        exact ⟨k, List.mem_cons_of_mem _ among, same⟩

theorem exists_of_mem_separated {l : Line} {blocks : List (List Line)}
    (member : l ∈ separated blocks) :
    ∃ block ∈ blocks, ∃ k ∈ block, k.level = l.level ∧ k.holding = l.holding := by
  fun_induction separated blocks with
  | case1 => cases member
  | case2 block => exact ⟨block, List.mem_cons_self, l, member, rfl, rfl⟩
  | case3 block next blocks ih =>
      rcases List.mem_append.1 member with member | member
      · exact ⟨block, List.mem_cons_self, exists_of_mem_ended member⟩
      · obtain ⟨among, found, same⟩ := ih member
        exact ⟨among, List.mem_cons_of_mem _ found, same⟩

end Line

/-! ## The text of the lines -/

theorem linesAll_eq_map (c : Catalog) (page : Page) (level : ℕ) (es : List Expr) :
    linesAll c page level es = es.map (linesAt c page level) := by
  induction es with
  | nil => rfl
  | cons e es ih => rw [linesAll, List.map_cons, ih]

theorem unended_linesAt (c : Catalog) (page : Page) (level : ℕ) (e : Expr) :
    Line.Unended (linesAt c page level e) := by
  cases e with
  | field id => exact Line.unended_singleton level _
  | literal value => exact Line.unended_singleton level _
  | apply operator es window =>
      rw [linesAt]
      dsimp only
      split
      · exact Line.unended_singleton level _
      · split
        · exact Line.unended_singleton level _
        · exact ⟨_, _, rfl, rfl⟩

theorem mem_blockOf {level : ℕ} {laid : List (List Line)} {window : Option Float}
    {text : List Char} {l : Line} (member : l ∈ blockOf level laid window text) :
    (∃ block ∈ laid, l ∈ block) ∨
      l = ⟨level + 1, .plain (plainArgument window text), false⟩ := by
  unfold blockOf at member
  split at member
  · rename_i block found
    obtain ⟨i, -, at_i⟩ := Option.bind_eq_some_iff.1 found
    exact .inl ⟨block, List.mem_of_getElem? at_i, member⟩
  · exact .inr (List.mem_singleton.1 member)

theorem unended_blocks (c : Catalog) (page : Page) (level : ℕ) (es : List Expr)
    (window : Option Float) (texts : List (List Char)) :
    ∀ block ∈ texts.map (blockOf level (linesAll c page (level + 1) es) window),
      Line.Unended block := by
  refine List.forall_mem_map.2 fun text _ => ?_
  unfold blockOf
  split
  · rename_i block found
    obtain ⟨i, -, at_i⟩ := Option.bind_eq_some_iff.1 found
    rw [linesAll_eq_map] at at_i
    obtain ⟨e, -, rfl⟩ := List.mem_map.1 (List.mem_of_getElem? at_i)
    exact unended_linesAt c page (level + 1) e
  · exact Line.unended_singleton _ _

theorem toList_lineOf {level : ℕ} {laid : List String} {blocks : List (List Line)}
    (alike : laid.map String.toList = blocks.map (Line.joined c page)) (window : Option Float)
    (text : List Char) : (lineOf page level laid window text).toList
      = Line.joined c page (blockOf level blocks window text) := by
  have plain : (page.pad (level + 1) ++ plainArgument window text).toList
      = Line.joined c page [⟨level + 1, .plain (plainArgument window text), false⟩] :=
    (Line.joined_singleton _ (.plain _)).symm
  unfold lineOf blockOf
  rcases Template.argument? text with _ | i
  · exact plain
  · have each : laid[i]?.map String.toList = blocks[i]?.map (Line.joined c page) := by
      rw [← List.getElem?_map, alike, List.getElem?_map]
    rw [Option.bind_some, Option.bind_some]
    rcases found : laid[i]? with _ | line <;> rcases found' : blocks[i]? with _ | block <;>
      rw [found, found'] at each
    · exact plain
    · cases each
    · cases each
    · exact Option.some.inj each

/-- A broken call has its name and its closing parenthesis on lines of their own. -/
theorem joined_broken (level : ℕ) (name : List Char) {blocks : List (List Line)}
    (some_block : blocks ≠ []) (each : ∀ block ∈ blocks, Line.Unended block) :
    Line.joined c page (⟨level, .opening name, false⟩ :: Line.separated blocks
        ++ [⟨level, .closing, false⟩])
      = (page.pad level ++ String.ofList name ++ "(\n").toList
        ++ [',', '\n'].intercalate (blocks.map (Line.joined c page))
          ++ ("\n" ++ page.pad level ++ ")").toList := by
  have more := Line.separated_ne_nil some_block each
  rw [List.cons_append, Line.joined_cons _ (by simp), Line.joined_append more (by simp),
    Line.joined_separated some_block each, Line.joined_singleton]
  simp [Line.text, Line.bare, Holding.text]

/-- The text of a formula over several lines is its lines, one below the other. -/
theorem toList_layoutAt (e : Expr) (level : ℕ) :
    (layoutAt c page level e).toList = Line.joined c page (linesAt c page level e) := by
  have whole (level : ℕ) (e : Expr) : (page.pad level ++ render c e).toList
      = Line.joined c page [⟨level, .whole e, false⟩] :=
    (Line.joined_singleton level (.whole e)).symm
  induction e using Expr.induction generalizing level with
  | field id =>
      rw [linesAt, ← whole, render, renderChars, String.ofList_toList]
      rfl
  | literal value =>
      rw [linesAt, ← whole, render, renderChars, String.ofList_toList]
      rfl
  | apply operator es window ih =>
      rw [layoutAt, linesAt]
      dsimp only
      by_cases fits : page.fits level (render c (.apply operator es window)) = true
      · rw [if_pos fits, if_pos fits, whole]
      · rw [if_neg fits, if_neg fits]
        rcases call : (c.operator? operator).bind fun op => Template.call? op.template.toList
          with _ | ⟨name, texts⟩
        · exact whole level _
        · obtain ⟨op, -, call⟩ := Option.bind_eq_some_iff.1 call
          obtain ⟨-, inner, -, rfl⟩ := Template.call?_eq_some call
          have some_text := Template.cutAtCommas_ne_nil false inner
          have laid : (layoutAll c page (level + 1) es).map String.toList
              = (linesAll c page (level + 1) es).map (Line.joined c page) := by
            rw [layoutAll_eq_map, linesAll_eq_map, List.map_map, List.map_map]
            exact List.map_congr_left fun e member => ih e member (level + 1)
          have each := unended_blocks c page level es window (Template.cutAtCommas false inner)
          have below : (Template.cutAtCommas false inner).map (fun text =>
                (lineOf page level (layoutAll c page (level + 1) es) window text).toList)
              = ((Template.cutAtCommas false inner).map
                (blockOf level (linesAll c page (level + 1) es) window)).map
                  (Line.joined c page) := by
            rw [List.map_map]
            exact List.map_congr_left fun text _ => toList_lineOf laid window text
          rw [joined_broken _ _ (mt List.map_eq_nil_iff.1 some_text) each, ← below]
          simp only [String.toList_append, String.toList_intercalate, List.map_map,
            List.append_assoc]
          rfl

/-! ## What a line shows -/

/-- An application that is broken at a level, by the name and the arguments in its template. -/
structure Broken (c : Catalog) (page : Page) (level : ℕ) (operator : String) (es : List Expr)
    (window : Option Float) (name : List Char) (texts : List (List Char)) : Prop where
  tooWide : page.fits level (render c (.apply operator es window)) = false
  call : ∃ op, c.operator? operator = some op ∧
    Template.call? op.template.toList = some (name, texts)

/-- The lines that a node at a depth has for itself, by level and content. -/
inductive Shows (c : Catalog) (page : Page) (depth : ℕ) : Expr → ℕ → Holding → Prop
  | field (id : String) : Shows c page depth (.field id) depth (.whole (.field id))
  | literal (value : Float) : Shows c page depth (.literal value) depth (.whole (.literal value))
  | fitting {operator es window}
      (fits : page.fits depth (render c (.apply operator es window)) = true) :
      Shows c page depth (.apply operator es window) depth (.whole (.apply operator es window))
  /-- A template that is no call cannot be broken. -/
  | uncalled {operator es window}
      (none : (c.operator? operator).bind (fun op => Template.call? op.template.toList) = none) :
      Shows c page depth (.apply operator es window) depth (.whole (.apply operator es window))
  | opening {operator es window name texts}
      (broken : Broken c page depth operator es window name texts) :
      Shows c page depth (.apply operator es window) depth (.opening name)
  | plain {operator es window name texts text}
      (broken : Broken c page depth operator es window name texts) (member : text ∈ texts) :
      Shows c page depth (.apply operator es window) (depth + 1)
        (.plain (plainArgument window text))
  | closing {operator es window name texts}
      (broken : Broken c page depth operator es window name texts) :
      Shows c page depth (.apply operator es window) depth .closing

/-- Every line shows a node, and the levels count how far the node is below the formula. -/
theorem shows_of_mem_linesAt {e : Expr} {level : ℕ} {l : Line}
    (member : l ∈ linesAt c page level e) : ∃ p n, e.nodeAt? p = some n ∧
      Shows c page (level + p.length) n l.level l.holding := by
  induction e using Expr.induction generalizing level l with
  | field id =>
      obtain rfl := List.mem_singleton.1 member
      exact ⟨[], _, rfl, .field id⟩
  | literal value =>
      obtain rfl := List.mem_singleton.1 member
      exact ⟨[], _, rfl, .literal value⟩
  | apply operator es window ih =>
      rw [linesAt] at member
      dsimp only at member
      split at member
      · rename_i fits
        obtain rfl := List.mem_singleton.1 member
        exact ⟨[], _, rfl, .fitting fits⟩
      · rename_i tooWide
        split at member
        · rename_i none
          obtain rfl := List.mem_singleton.1 member
          exact ⟨[], _, rfl, .uncalled none⟩
        · rename_i name texts call
          have broken : Broken c page level operator es window name texts :=
            ⟨Bool.eq_false_iff.2 tooWide, Option.bind_eq_some_iff.1 call⟩
          rw [List.cons_append, List.mem_cons, List.mem_append, List.mem_singleton] at member
          rcases member with rfl | member | rfl
          · exact ⟨[], _, rfl, .opening broken⟩
          · obtain ⟨block, among, k, found, sameLevel, sameHolding⟩ :=
              Line.exists_of_mem_separated member
            obtain ⟨text, written, rfl⟩ := List.mem_map.1 among
            rw [← sameLevel, ← sameHolding]
            rcases mem_blockOf found with ⟨block, laid, inside⟩ | rfl
            · rw [linesAll_eq_map] at laid
              obtain ⟨child, among, rfl⟩ := List.mem_map.1 laid
              obtain ⟨p, n, below, shows⟩ := ih child among inside
              obtain ⟨i, at_i⟩ := List.mem_iff_getElem?.1 among
              refine ⟨i :: p, n, ?_, ?_⟩
              · rw [nodeAt?_cons]
                exact Option.bind_eq_some_iff.2 ⟨child, at_i, below⟩
              · rwa [List.length_cons, Nat.add_comm p.length, ← Nat.add_assoc]
            · exact ⟨[], _, rfl, .plain broken written⟩
          · exact ⟨[], _, rfl, .closing broken⟩

/-! ## Line ends -/

/-- A character of no number, no field id and no template is in no formula. -/
theorem notMem_render {x : Char} (other : Number.isLetter x = false)
    (fields : ∀ f ∈ c.fields, x ∉ f.id.toList)
    (templates : ∀ op ∈ c.operators, x ∉ op.template.toList) {e : Expr}
    (ordered : e.All (InOrder c)) : x ∉ (render c e).toList := by
  refine render_induction (P := (x ∉ ·)) ordered (fun _ => id) fields (Number.notMem_text other) ?_
  intro operator es window op _ known each
  have written := templates op (Catalog.operator?_eq_some.1 known).1
  rw [← Template.flatMap_source op.template.toList, List.mem_flatMap] at written
  rw [spell_eq_flatMap, List.mem_flatMap]
  rintro ⟨piece, member, found⟩
  rcases has : placeText c es window piece with _ | text
  · rw [has] at found
    exact written ⟨piece, member, found⟩
  · rw [has] at found
    exact each piece text has found

theorem mem_of_mem_cutAtCommas {after : Bool} {cs text : List Char} {x : Char}
    (cut : text ∈ Template.cutAtCommas after cs) (member : x ∈ text) : x ∈ cs := by
  fun_induction Template.cutAtCommas after cs generalizing text <;> grind

theorem notMem_plainArgument {x : Char} (other : Number.isLetter x = false) {text : List Char}
    (bare : x ∉ text) (window : Option Float) : x ∉ (plainArgument window text).toList := by
  unfold plainArgument
  split
  · split
    · exact Number.notMem_text other _
    · rwa [String.toList_ofList]
  · rwa [String.toList_ofList]

/-- A catalog whose formulas are single lines, and can all be broken. -/
structure OneLine (c : Catalog) : Prop where
  fields : ∀ f ∈ c.fields, '\n' ∉ f.id.toList
  templates : ∀ op ∈ c.operators, '\n' ∉ op.template.toList
  calls : ∀ op ∈ c.operators, (Template.call? op.template.toList).isSome

/-- What a line holds has no line end in it. -/
theorem Shows.notMem_text (oneLine : OneLine c) {depth level : ℕ} {n : Expr} {holding : Holding}
    (shows : Shows c page depth n level holding) (ordered : n.All (InOrder c)) :
    '\n' ∉ (holding.text c).toList := by
  have whole := notMem_render (by decide) oneLine.fields oneLine.templates ordered
  cases shows with
  | field id => exact whole
  | literal value => exact whole
  | fitting fits => exact whole
  | uncalled none => exact whole
  | opening broken =>
      obtain ⟨op, known, call⟩ := broken.call
      obtain ⟨word, -⟩ := Template.call?_eq_some call
      rw [Holding.text, String.toList_append, String.toList_ofList, List.mem_append]
      rintro (named | paren)
      · exact absurd (word _ named) (by decide)
      · exact absurd paren (by decide)
  | plain broken member =>
      obtain ⟨op, known, call⟩ := broken.call
      obtain ⟨-, inner, written, rfl⟩ := Template.call?_eq_some call
      have bare := oneLine.templates op (Catalog.operator?_eq_some.1 known).1
      rw [written, List.mem_append, List.mem_cons, List.mem_append] at bare
      exact notMem_plainArgument (by decide)
        (fun ended => bare (.inr (.inr (.inl (mem_of_mem_cutAtCommas member ended))))) _
  | closing broken =>
      have paren : '\n' ∉ ")".toList := by decide
      exact paren

theorem Line.width_text (l : Line) :
    Text.width (l.text c page) = Text.width (l.bare c page) + l.comma.toNat := by
  have comma : Text.width "" = 0 ∧ Text.width "," = 1 := by decide
  rw [text, Text.width_append]
  cases l.comma
  · exact congrArg _ comma.1
  · exact congrArg _ comma.2

/-- The lines of a formula, as its text shows them. -/
structure Lined (c : Catalog) (page : Page) (e : Expr) : Prop where
  /-- They are the text, cut at its line ends. -/
  cut : (layout c page e).toList.splitOn '\n'
    = (linesAt c page 0 e).map fun l => (l.text c page).toList
  shows : ∀ l ∈ linesAt c page 0 e, ∃ p n, e.nodeAt? p = some n ∧
    Shows c page p.length n l.level l.holding
  /-- A call on one line fits, unless it is for the comma that follows it. -/
  within : ∀ l ∈ linesAt c page 0 e, ∀ operator es window,
    l.holding = .whole (.apply operator es window) →
      ∃ units width, Text.width (l.text c page) = units + l.comma.toNat ∧
        Number.value? page.width = some width ∧ ((units : ℝ) : EReal) ≤ width

/-- A call on one line fits: where all templates are calls, it would be broken otherwise. -/
theorem Shows.fits (oneLine : OneLine c) {depth level : ℕ} {n : Expr} {operator : String}
    {es : List Expr} {window : Option Float} (ordered : n.InOrder c)
    (shows : Shows c page depth n level (.whole (.apply operator es window))) :
    page.fits level (render c (.apply operator es window)) = true := by
  cases shows with
  | fitting fits => exact fits
  | uncalled none =>
      obtain ⟨op, known, -⟩ := ordered
      have called := oneLine.calls op (Catalog.operator?_eq_some.1 known).1
      rw [known, Option.bind_some] at none
      rw [none] at called
      cases called

theorem lined_of_inOrder (oneLine : OneLine c) (indent : '\n' ∉ page.indent.toList) {e : Expr}
    (ordered : e.All (InOrder c)) : Lined c page e := by
  have shows {l : Line} (member : l ∈ linesAt c page 0 e) :
      ∃ p n, e.nodeAt? p = some n ∧ Shows c page p.length n l.level l.holding := by
    simpa using shows_of_mem_linesAt member
  constructor
  case shows => exact fun l => shows
  case cut =>
    have single : ∀ l ∈ linesAt c page 0 e, '\n' ∉ (l.text c page).toList := by
      intro l member
      obtain ⟨p, n, found, shows⟩ := shows member
      have held := shows.notMem_text oneLine (All.below ordered found)
      have padded : '\n' ∉ (page.pad l.level).toList :=
        fun ended => indent (Text.mem_of_mem_times ended)
      rw [Line.text, Line.bare, String.toList_append, String.toList_append, List.mem_append,
        List.mem_append, not_or, not_or]
      refine ⟨⟨padded, held⟩, ?_⟩
      cases l.comma <;> decide
    rw [layout, toList_layoutAt, Line.joined,
      List.splitOn_intercalate _ (List.forall_mem_map.2 single)]
    exact mt List.map_eq_nil_iff.1 (unended_linesAt c page 0 e).ne_nil
  case within =>
    intro l member operator es window holding
    obtain ⟨p, n, found, shows⟩ := shows member
    rw [holding] at shows
    obtain ⟨width, value, most⟩ :=
      Number.countAtMost_iff.1 (shows.fits oneLine (ordered p n found))
    refine ⟨_, width, l.width_text, value, ?_⟩
    rwa [Line.bare, Text.width_append, holding]

end Expr

namespace Catalog

theorem Bundled.oneLine : Expr.OneLine Bundled.catalog := by
  constructor <;> decide +kernel

end Catalog

namespace Expr

/-- With the bundled catalog a call is on one line only if it fits in the width with its
indentation.  The comma that follows an argument is not counted. -/
theorem layout_lines {tier : Tier} {cap : Float} {page : Page} {e : Expr}
    (accepted : RuleId.check Catalog.Bundled.catalog tier cap e.survey .shape = [])
    (indent : '\n' ∉ page.indent.toList) : Lined Catalog.Bundled.catalog page e :=
  lined_of_inOrder Catalog.Bundled.oneLine indent
    (all_inOrder_of_nodeFits (e.survey_shows.shape_iff.1 accepted))

/-- A sum whose first argument fits behind its indentation, but not with a comma behind it. -/
def ranked : Expr :=
  .apply "add" [.apply "rank" [.field "close"] none, .apply "rank" [.field "open"] none] none

theorem layout_lines_ranked :
    RuleId.check Catalog.Bundled.catalog .basic defaultFieldCap ranked.survey .shape = [] ∧
      '\n' ∉ (⟨13, "  "⟩ : Page).indent.toList ∧ Lined Catalog.Bundled.catalog ⟨13, "  "⟩ ranked := by
  have accepted : RuleId.check Catalog.Bundled.catalog .basic defaultFieldCap ranked.survey .shape
      = [] := List.isEmpty_iff.1 (by decide +kernel)
  have indent : '\n' ∉ (⟨13, "  "⟩ : Page).indent.toList := by decide
  exact ⟨accepted, indent, layout_lines accepted indent⟩

/-- A call on one line, with the comma that follows it, is wider than the page. -/
theorem layout_exceeds :
    RuleId.check Catalog.Bundled.catalog .basic defaultFieldCap ranked.survey .shape = [] ∧
      ∃ line : String,
        line = "  " ++ render Catalog.Bundled.catalog (.apply "rank" [.field "close"] none) ++ "," ∧
          line.toList ∈ (layout Catalog.Bundled.catalog ⟨13, "  "⟩ ranked).toList.splitOn '\n' ∧
            Number.countAtMost (Text.width line) 13 = false :=
  ⟨List.isEmpty_iff.1 (by decide +kernel), "  rank(close),", by decide +kernel, by decide +kernel,
    by decide +kernel⟩

example : layout Catalog.Bundled.catalog ⟨13, "  "⟩ ranked
    = "add(\n  rank(close),\n  rank(open)\n)" := by
  decide +kernel

end Expr

end AlphaFoundry
