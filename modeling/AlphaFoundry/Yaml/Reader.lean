/-
# AlphaFoundry.Yaml.Reader -- documents from YAML text

`read?` accepts a text with one document of block and flow collections, plain and quoted scalars and
comments.  A text without a document is null.

The tokens say how the collections are nested; here it is decided whether each of them is well
formed: where tabs, line ends and comments may stand, which keys need a line of their own, that each
item is separated from the next, and that no key comes twice.
-/
import AlphaFoundry.Json.Printer
import AlphaFoundry.Number.Text
import AlphaFoundry.Yaml.Scalar
import AlphaFoundry.Yaml.Tree

namespace AlphaFoundry.Yaml

set_option autoImplicit false

/-! ## What stands in front of a node -/

/-- What is known of the tokens in front of a key or a value. -/
structure Lead where
  atNewline : Bool
  hasSpace : Bool
  hasNewline : Bool := false
  /-- The blank token just before, if a tab is in it. -/
  tab : Option Token := none
  comma : Bool := false
  /-- The mark of the key or the value. -/
  mark : Option Token := none

/-- Where a node stands. -/
structure Site where
  /-- The mark that may stand in front of it. -/
  mark : Kind
  isFlow : Bool := false
  /-- A line begins there, or something that counts as one. -/
  atNewline : Bool := false
  /-- The column of the collection around it. -/
  indent : Nat := 0
  next : Option Node := none

namespace Site

/-- Tabs do not indent.  In a flow collection they are blanks, and so in front of one that is the
whole document. -/
def refusesTabs (site : Site) : Bool :=
  match site.next with
  | some (.flow ..) => !site.isFlow && site.mark ≠ .documentStart
  | _ => !site.isFlow

def step (site : Site) (lead : Lead) (t : Token) : Option Lead :=
  let isIndented := lead.tab.isSome && lead.atNewline && t.kind ≠ .comment && t.kind ≠ .newline
  if isIndented then none
  else
    let lead := { lead with tab := none }
    if t.kind = site.mark then
      if lead.mark.isSome then none
      else
        let atNewline := site.mark = .dash || site.mark = .question
        some { lead with mark := some t, atNewline, hasSpace := false }
    else
      match t.kind with
      | .space =>
        let tab := if site.refusesTabs && t.text.contains '\t' then some t else none
        some { lead with tab, hasSpace := true }
      | .comment => if lead.hasSpace then some { lead with atNewline := false } else none
      | .newline => some { lead with atNewline := true, hasNewline := true, hasSpace := true }
      | .comma =>
        if site.isFlow && !lead.comma then
          some { lead with comma := true, atNewline := false, hasSpace := false }
        else none
      | _ => none

/-- Read the tokens in front of a node; nothing if one of them may not stand there. -/
def lead? (site : Site) (ts : List Token) : Option Lead := do
  let lead ← ts.foldlM site.step { atNewline := site.atNewline, hasSpace := site.atNewline }
  match lead.tab with
  | some tab =>
    let isIndented := lead.atNewline && tab.indent ≤ site.indent
    if isIndented || site.next.any Node.isBlock then none else some lead
  | none => some lead

end Site

/-! ## Keys -/

mutual

/-- A node takes more than one line.  Blocks always do. -/
def Node.spansLines : Node → Bool
  | .scalar token after => token.text.contains '\n' || hasKind .newline after
  | .flow _ items _ => itemsSpanLines items
  | .mapping .. | .sequence .. => true

def itemsSpanLines : List (Item Node) → Bool
  | [] => false
  | item :: items => itemSpansLines item || itemsSpanLines items

def itemSpansLines : Item Node → Bool
  | ⟨start, key, sep, value⟩ =>
    hasKind .newline start || sep.any (hasKind .newline) || partSpansLines key
      || partSpansLines value

def partSpansLines : Option Node → Bool
  | some node => node.spansLines
  | none => false

end

/-- Where a scalar or a flow collection begins. -/
def Node.offset? : Node → Option Nat
  | .scalar token _ => some token.offset
  | .flow opening .. => some opening.offset
  | _ => none

/-- A key of a mapping stands in its column; a sequence is no key without a question mark. -/
def Node.isAt (indent : Nat) : Node → Bool
  | .scalar token _ => token.indent == indent
  | .flow opening .. => opening.indent == indent
  | .mapping column _ => column == indent
  | .sequence .. => false

/-- The colon behind a key stands at most 1024 units behind its begin. -/
def isNear (key : Option Node) (colon : Token) : Bool :=
  match key.bind Node.offset? with
  | some offset => colon.offset ≤ offset + 1024
  | none => true

/-- Two keys are the same scalar.  A NaN is not the same as another one. -/
def sameKey : Json → Json → Bool
  | .null, .null => true
  | .bool a, .bool b => a == b
  | .num x, .num y => x == y
  | .str s, .str t => s == t
  | _, _ => false

/-- The text that a key is known by. -/
def keyText : Json → String
  | .null => ""
  | .bool b => if b then "true" else "false"
  | .num x => Number.text x
  | .str s => s
  | json => json.compact

/-- Add a member behind the others, which are in reverse order; a key must not come twice. -/
def addMember (members : List (Json × Json)) (key value : Json) : Option (List (Json × Json)) :=
  if members.any fun m => sameKey m.1 key then none else some ((key, value) :: members)

def ofMembers (members : List (Json × Json)) : Json :=
  Json.ofMembers (members.reverse.map fun m => (keyText m.1, m.2))

/-! ## Collections -/

/-- An item with what its key and its value stand for; nothing, if they are malformed. -/
structure Entry where
  item : Item Node
  key : Option Json
  value : Option Json

namespace Entry

/-- The member of a block mapping that an item is.  An item that consists of blanks only is none. -/
def member? (indent : Nat) (members : List (Json × Json)) (entry : Entry) :
    Option (List (Json × Json)) := do
  let ⟨start, key, sep, value⟩ := entry.item
  let lead ← Site.lead? { mark := .question, atNewline := true, indent, next := key } start
  let between : Site := { mark := .colon, atNewline := key.isNone, indent, next := value }
  match lead.mark with
  | none =>
    if key.any fun key => !key.isAt indent then none
    else
      match sep with
      | none => some members
      | some sep =>
        if key.any Node.spansLines then none
        else
          let behind ← between.lead? sep
          let colon ← behind.mark
          let isCompact := !behind.hasNewline && value.any Node.isMapping
          if isCompact || !isNear key colon then none
          else addMember members (← entry.key) (← entry.value)
  | some question =>
    if question.indent ≠ indent then none
    else
      let behind ← between.lead? (sep.getD [])
      addMember members (← entry.key) (← if behind.mark.isSome then entry.value else some .null)

/-- The item of a block sequence.  Without a dash there is nothing but blanks. -/
def element? (indent : Nat) (elements : List Json) (entry : Entry) : Option (List Json) := do
  let site : Site := { mark := .dash, atNewline := true, indent, next := entry.item.value }
  let lead ← site.lead? entry.item.start
  if lead.mark.isSome then return (← entry.value) :: elements
  else if entry.item.value.isSome then none
  else return elements

/-- A part of a flow collection. -/
inductive Part where
  | nothing
  | single (value : Json)
  | pair (key value : Json)

/-- What an item of a flow collection is.  `isFirst` and `isLast` say where it stands: a comma is in
front of every item but the first, and only the last may be empty. -/
def part? (isMapping isFirst isLast : Bool) (entry : Entry) : Option Part := do
  let ⟨start, key, sep, value⟩ := entry.item
  let lead ← Site.lead? { mark := .question, isFlow := true, next := key } start
  let isImplicit := lead.mark.isNone
  if isImplicit && sep.isNone && value.isNone then
    if (isFirst && lead.comma) || !isLast then none else return .nothing
  else if isImplicit && !isMapping && key.any Node.spansLines then none
  else if isFirst == lead.comma then none
  else if key.any Node.isBlock || value.any Node.isBlock then none
  else if isImplicit && !isMapping && sep.isNone then return .single (← entry.value)
  else
    let between := sep.getD []
    let behind ← Site.lead? { mark := .colon, isFlow := true, next := value } between
    match behind.mark with
    | some colon =>
      let isOnLine := !hasKind .newline (between.takeWhile fun t => t.kind ≠ .colon)
      if isImplicit && !isMapping && !(isOnLine && isNear key colon) then none
      else return .pair (← entry.key) (← entry.value)
    | none => if value.isSome then none else return .pair (← entry.key) .null

end Entry

def blockMapping? (indent : Nat) (entries : List Entry) : Option Json :=
  (entries.foldlM (Entry.member? indent) []).map ofMembers

def blockSequence? (indent : Nat) (entries : List Entry) : Option Json :=
  (entries.foldlM (Entry.element? indent) []).map fun elements => .arr elements.reverse

/-- The parts of a flow collection. -/
def parts? (isMapping : Bool) : (isFirst : Bool) → List Entry → Option (List Entry.Part)
  | _, [] => some []
  | isFirst, entry :: entries => do
    let part ← entry.part? isMapping isFirst entries.isEmpty
    return part :: (← parts? isMapping false entries)

/-- Each part is an element; a pair is a mapping with one member. -/
def elements (parts : List Entry.Part) : List Json :=
  parts.filterMap fun
    | .nothing => none
    | .single value => some value
    | .pair key value => some (ofMembers [(key, value)])

def members? (parts : List Entry.Part) : Option (List (Json × Json)) :=
  parts.foldlM (fun members part =>
    match part with
    | .pair key value => addMember members key value
    | _ => some members) []

/-- A flow collection ends with its own closing mark, and nothing but blanks behind it. -/
def flowCollection? (opening : Token) (closing : List Token) (entries : List Entry) :
    Option Json := do
  let isMapping := opening.kind = .opening true
  let parts ← parts? isMapping true entries
  match closing with
  | mark :: rest =>
    if mark.kind = .closing isMapping && isClean true rest then
      if isMapping then (members? parts).map ofMembers else return .arr (elements parts)
    else none
  | [] => none

/-! ## Documents -/

mutual

def Node.read? : Node → Option Json
  | .scalar token after => if isClean true after then scalar? token.kind token.text else none
  | .flow opening items closing => flowCollection? opening closing (entries items).reverse
  | .mapping indent items => blockMapping? indent (entries items).reverse
  | .sequence indent items => blockSequence? indent (entries items).reverse

def entries : List (Item Node) → List Entry
  | [] => []
  | item :: items => entry item :: entries items

def entry : Item Node → Entry
  | ⟨start, key, sep, value⟩ => ⟨⟨start, key, sep, value⟩, readPart? key, readPart? value⟩

/-- What is left out is null. -/
def readPart? : Option Node → Option Json
  | some node => node.read?
  | none => some .null

end

/-- A block does not begin on the line of the mark of the document's begin. -/
def Document.read? (document : Document) : Option Json := do
  let site : Site := { mark := .documentStart, atNewline := true, next := document.value }
  let lead ← site.lead? document.start
  let isOnMarkLine := lead.mark.isSome && !lead.hasNewline
  if isOnMarkLine && document.value.any Node.isBlock then none
  else if isClean false document.after then readPart? document.value
  else none

/-- The document that a text holds.  A text without one is null. -/
def read? (s : String) : Option Json := do
  match ← documents? (← tokens? s.toList) with
  | [] => return .null
  | [document] => document.read?
  | _ => none

end AlphaFoundry.Yaml
