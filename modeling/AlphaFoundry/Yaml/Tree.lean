/-
# AlphaFoundry.Yaml.Tree -- the collections that the tokens of a YAML text build

`documents?` reads token after token with a stack of frames, one for each document, collection or
scalar that is still open.  A token is put into the latest frame, opens a frame on top of it, or
closes it and is looked at again: a closed frame becomes a part of the one below.  To which block a
token belongs is decided by its column, and by whether a key stands on its line.

Every token is kept, blanks and comments too.  Whether they may stand where they do is not decided
here.
-/
import AlphaFoundry.Yaml.Token

namespace AlphaFoundry.Yaml

set_option autoImplicit false

/-- An item of a collection: in a sequence a value, else a key with a value. -/
structure Item (α : Type) where
  /-- What stands in front, the mark of the item included. -/
  start : List Token := []
  key : Option α := none
  /-- What stands between key and value, the colon included.  It is there, if empty, with a key. -/
  sep : Option (List Token) := none
  value : Option α := none

/-- The items of a collection are in reverse order. -/
inductive Node where
  | scalar (token : Token) (after : List Token)
  /-- `closing` begins with the closing mark. -/
  | flow (opening : Token) (items : List (Item Node)) (closing : List Token)
  | mapping (indent : Nat) (items : List (Item Node))
  | sequence (indent : Nat) (items : List (Item Node))

structure Document where
  start : List Token := []
  value : Option Node := none
  after : List Token := []

/-! ## Tokens in a list -/

def Kind.isBlank : Kind → Bool
  | .space | .newline | .comment => true
  | _ => false

def hasKind (kind : Kind) (ts : List Token) : Bool :=
  ts.any fun t => t.kind = kind

/-- A question mark says that a key follows, however it looks. -/
def Item.isExplicit (item : Item Node) : Bool :=
  hasKind .question item.start

namespace Node

def isBlock : Node → Bool
  | .mapping .. | .sequence .. => true
  | _ => false

def isMapping : Node → Bool
  | .mapping .. => true
  | _ => false

/-- What stands behind a node on its line, if it can still take a comment. -/
def after? : Node → Option (List Token)
  | .scalar _ after => if after.isEmpty then none else some after
  | .flow _ _ closing => some closing
  | _ => none

def append (ts : List Token) : Node → Node
  | .scalar token after => .scalar token (after ++ ts)
  | .flow opening items closing => .flow opening items (closing ++ ts)
  | node => node

end Node

/-! ## Finished collections -/

/-- In a flow sequence an item without a colon or a question mark is a value, not a key. -/
def Item.asValue (item : Item Node) : Item Node :=
  match item.sep with
  | none => item
  | some sep =>
    if item.value.isSome || item.isExplicit || hasKind .colon sep then item
    else
      match item.key with
      | some (.scalar token after) =>
        { start := item.start, value := some (.scalar token (after ++ sep)) }
      | some (.flow opening items closing) =>
        { start := item.start, value := some (.flow opening items (closing ++ sep)) }
      | key => { start := item.start ++ sep, value := key }

/-- A flow collection whose items are all read. -/
def Node.finished : Node → Node
  | .flow opening items closing =>
    .flow opening (if opening.kind = .opening false then items.map Item.asValue else items) closing
  | node => node

/-- Blank tokens behind the last item of a block belong to what is around the block, unless a
comment among them is indented to it. -/
def trailing (indent : Nat) : List (Item Node) → List (Item Node) × List Token
  | [] => ([], [])
  | last :: earlier =>
    let isBlank := last.sep.isNone && last.value.isNone && last.start.all (·.kind.isBlank)
    let isOutside := indent == 0 || last.start.all fun t => t.kind ≠ .comment || t.indent < indent
    if isBlank && isOutside && !last.start.isEmpty then (earlier, last.start)
    else (last :: earlier, [])

/-- A node without the blank tokens that belong to what is around it. -/
def Node.trimmed : Node → Node × List Token
  | .mapping indent items =>
    let (items, rest) := trailing indent items
    (.mapping indent items, rest)
  | .sequence indent items =>
    let (items, rest) := trailing indent items
    (.sequence indent items, rest)
  | node => (node, [])

/-! ## Frames -/

/-- An open block: its column and its items, the latest apart. -/
structure Block where
  indent : Nat
  last : Item Node := {}
  earlier : List (Item Node) := []

namespace Block

def items (block : Block) : List (Item Node) :=
  block.last :: block.earlier

def change (item : Item Node) (block : Block) : Block :=
  { block with last := item }

def next (item : Item Node) (block : Block) : Block :=
  { block with last := item, earlier := block.items }

/-- A value for the latest item, or a new one; blank tokens begin an item of their own. -/
def fill (node : Node) (block : Block) : Block :=
  let (node, rest) := node.trimmed
  let filled :=
    if block.last.value.isSome then block.next { value := some node }
    else block.change { block.last with value := some node }
  if rest.isEmpty then filled else filled.next { start := rest }

/-- A blank token, behind what the block holds so far.  A comment that is indented to the block
belongs to the line of the value before it. -/
def blank (t : Token) (block : Block) : Block :=
  match block.last.value, block.last.sep with
  | some value, _ =>
    if t.kind = .newline && value.after?.any (fun ts => ts.getLast?.any (·.kind = .comment)) then
      block.change { block.last with value := some (value.append [t]) }
    else block.next { start := [t] }
  | none, some sep => block.change { block.last with sep := some (sep ++ [t]) }
  | none, none =>
    let isIndented := t.kind = .comment && block.indent < t.indent
      && block.last.start.all fun t => t.kind = .newline || t.kind = .space
    match block.earlier with
    | previous :: earlier =>
      match previous.value with
      | some value =>
        if isIndented && value.after?.isSome then
          let value := value.append (block.last.start ++ [t])
          { block with last := { previous with value := some value }, earlier }
        else add
      | none => add
    | [] => add
where
  add : Block :=
    block.change { block.last with start := block.last.start ++ [t] }

end Block

inductive Frame where
  | document (document : Document)
  /-- Behind the mark of a document's end. -/
  | documentEnd (after : List Token)
  | scalar (token : Token) (after : List Token)
  | flow (opening : Token) (items : List (Item Node)) (closing : List Token)
  | mapping (block : Block)
  | sequence (block : Block)

structure Builder where
  /-- The latest frame first. -/
  stack : List Frame := []
  /-- A key stands on the line. -/
  onKeyLine : Bool := false
  /-- The documents that are closed, the latest first. -/
  documents : List Document := []

/-- Only blanks, line ends and comments.  If `apart`, the first comment stands behind a gap. -/
def isClean (apart : Bool) (ts : List Token) : Bool :=
  go (!apart) ts
where
  go : Bool → List Token → Bool
    | _, [] => true
    | gap, t :: ts =>
      match t.kind with
      | .space | .newline => go true ts
      | .comment => gap && go gap ts
      | _ => false

namespace Builder

def push (frame : Frame) (b : Builder) : Builder :=
  { b with stack := frame :: b.stack }

/-- Put a node into the latest frame. -/
def place (node : Node) (b : Builder) : Option Builder :=
  match b.stack with
  | .document document :: below =>
    let (node, rest) := node.trimmed
    some { b with
      stack := .document { document with value := some node, after := rest } :: below }
  | .mapping block :: below =>
    if block.last.value.isSome then
      let item := { key := some node, sep := some [] }
      some { b with stack := .mapping (block.next item) :: below, onKeyLine := true }
    else if block.last.sep.isSome then
      some { b with stack := .mapping (block.fill node) :: below }
    else
      let item := { block.last with key := some node, sep := some [] }
      some { b with
        stack := .mapping (block.change item) :: below, onKeyLine := !block.last.isExplicit }
  | .sequence block :: below => some { b with stack := .sequence (block.fill node) :: below }
  | .flow opening items closing :: below =>
    some { b with stack := .flow opening (inFlow items) closing :: below }
  | _ => none
where
  inFlow : List (Item Node) → List (Item Node)
    | [] => [{ key := some node, sep := some [] }]
    | last :: earlier =>
      if last.value.isSome then { key := some node, sep := some [] } :: last :: earlier
      else if last.sep.isSome then { last with value := some node } :: earlier
      else { last with key := some node, sep := some [] } :: earlier

/-- Close the latest frame. -/
def close (b : Builder) : Option Builder :=
  match b.stack with
  | [] => none
  | .document document :: below =>
    some { b with stack := below, documents := document :: b.documents }
  | .documentEnd after :: below =>
    if isClean true after then some { b with stack := below } else none
  | .scalar token after :: below => { b with stack := below }.place (.scalar token after)
  | .flow opening items closing :: below =>
    { b with stack := below }.place (Node.flow opening items closing).finished
  | .mapping block :: below => { b with stack := below }.place (.mapping block.indent block.items)
  | .sequence block :: below => { b with stack := below }.place (.sequence block.indent block.items)

/-- Close all frames.  The fuel is their number. -/
def closeAll : Nat → Builder → Option Builder
  | 0, b => some b
  | fuel + 1, b => b.close.bind (closeAll fuel)

end Builder

/-! ## One token -/

/-- What a token does to the latest frame. -/
inductive Turn where
  | taken (b : Builder)
  | closes

/-- The frame that a token begins. -/
def begun? (t : Token) : Option Frame :=
  match t.kind with
  | .plain | .single | .double => some (.scalar t [])
  | .opening _ => some (.flow t [] [])
  | .dash => some (.sequence { indent := t.indent, last := { start := [t] } })
  | .question => some (.mapping { indent := t.indent, last := { start := [t] } })
  | .colon => some (.mapping { indent := t.indent, last := { sep := some [t] } })
  | _ => none

/-- Begin a frame on top of the others. -/
def Builder.begin? (t : Token) (b : Builder) : Option Builder :=
  (begun? t).map fun frame =>
    { b.push frame with onKeyLine := b.onKeyLine || t.kind = .question || t.kind = .colon }

namespace Builder

/-- Behind a finished value; `put` puts a token there.  The line end closes it. -/
def behind (t : Token) (put : Builder) : Option Turn :=
  match t.kind with
  | .comma | .documentStart | .documentEnd | .closing _ | .colon => some .closes
  | .newline => { put with onKeyLine := false }.close.map .taken
  | _ => some (.taken put)

/-- A colon behind a scalar or a flow collection makes it the first key of a mapping. -/
def keyed (indent : Nat) (key : Node) (sep : List Token) (below : List Frame) (b : Builder) :
    Builder :=
  let block := { indent, last := { key := some key, sep := some sep } }
  { b with stack := .mapping block :: below, onKeyLine := true }

/-- Between documents. -/
def outside (t : Token) (b : Builder) : Option Turn :=
  match t.kind with
  | .space | .newline | .comment => some (.taken b)
  | .content => some (.taken (b.push (.document {})))
  | .documentStart => some (.taken (b.push (.document { start := [t] })))
  | _ => none

def inDocument (t : Token) (document : Document) (below : List Frame) (b : Builder) :
    Option Turn :=
  if document.value.isSome then
    let longer := { document with after := document.after ++ [t] }
    behind t { b with stack := .document longer :: below }
  else
    let longer := { document with start := document.start ++ [t] }
    let taken := Turn.taken { b with stack := .document longer :: below }
    match t.kind with
    | .documentStart =>
      some (if document.start.all (·.kind.isBlank) then taken else .closes)
    | .space | .newline | .comment => some taken
    | _ => (b.begin? t).map .taken

end Builder

/-! ### Blocks -/

/-- What stands between a key and the next one, cut in two: from the second line end on it belongs
to the next item, where marks and comments indented to the block do not count. -/
def splitGap (indent : Nat) (sep : List Token) : List Token × List Token :=
  match (breaks [] 0 sep)[1]? with
  | some i => sep.splitAt i
  | none => (sep, [])
where
  /-- The places of the line ends. -/
  breaks (found : List Nat) (here : Nat) : List Token → List Nat
    | [] => found
    | t :: ts =>
      let found :=
        match t.kind with
        | .newline => found ++ [here]
        | .space => found
        | .comment => if indent < t.indent then [] else found
        | _ => []
      breaks found (here + 1) ts

namespace Block

/-- A question mark: the frames that come instead of the block's. -/
def question (t : Token) (isNext : Bool) (start : List Token) (block : Block) : List Frame :=
  let last := block.last
  if last.sep.isNone && !last.isExplicit then
    [.mapping (block.change { last with start := last.start ++ [t] })]
  else if isNext || last.value.isSome then
    [.mapping (block.next { start := start ++ [t] })]
  else [.mapping { indent := t.indent, last := { start := [t] } }, .mapping block]

/-- A colon behind a key that a question mark stands in front of. -/
def explicitColon (t : Token) (start : List Token) (block : Block) : List Frame :=
  let last := block.last
  let nested (item : Item Node) : Frame := .mapping { indent := t.indent, last := item }
  match last.sep with
  | none =>
    if hasKind .newline last.start then [.mapping (block.change { last with sep := some [t] })]
    else [nested { sep := some [t] }, .mapping block]
  | some sep =>
    if last.value.isSome then [.mapping (block.next { sep := some [t] })]
    else if hasKind .colon sep then [nested { start, sep := some [t] }, .mapping block]
    else if isKey && !hasKind .newline sep then
      [nested { key := last.key, sep := some (sep ++ [t]) },
        .mapping (block.change { start := last.start })]
    else [.mapping (block.change { last with sep := some (sep ++ start ++ [t]) })]
where
  /-- The key can be the first one of a mapping. -/
  isKey : Bool :=
    block.last.key.any fun key => !key.isBlock

/-- A colon behind a key, or without one. -/
def colon (t : Token) (isNext : Bool) (start : List Token) (block : Block) : List Frame :=
  let last := block.last
  if last.isExplicit then block.explicitColon t start
  else
    match last.sep with
    | none => [.mapping (block.change { last with sep := some [t] })]
    | some sep =>
      if last.value.isSome || isNext then [.mapping (block.next { start, sep := some [t] })]
      else if hasKind .colon sep then
        [.mapping { indent := t.indent, last := { sep := some [t] } }, .mapping block]
      else [.mapping (block.change { last with sep := some (sep ++ [t]) })]

/-- A scalar is a key, or the begin of a value; the flag says which. -/
def scalar (t : Token) (isNext : Bool) (start : List Token) (block : Block) : List Frame × Bool :=
  let key := some (Node.scalar t [])
  if isNext || block.last.value.isSome then
    ([.mapping (block.next { start, key, sep := some [] })], true)
  else if block.last.sep.isSome then ([.scalar t [], .mapping block], false)
  else ([.mapping (block.change { block.last with key, sep := some [] })], true)

end Block

namespace Builder

def inMapping (t : Token) (block : Block) (below : List Frame) (b : Builder) : Option Turn :=
  if t.kind.isBlank then
    let stack := .mapping (block.blank t) :: below
    some (.taken { b with stack, onKeyLine := b.onKeyLine && t.kind ≠ .newline })
  else if t.indent < block.indent then some .closes
  else
    let isAligned := !b.onKeyLine && t.indent == block.indent
    let isNext := isAligned && (block.last.sep.isSome || block.last.isExplicit) && t.kind ≠ .dash
    let (block, start) :=
      match block.last.sep with
      | some sep =>
        if isNext && block.last.value.isNone then
          let (sep, start) := splitGap block.indent sep
          (block.change { block.last with sep := some sep }, start)
        else (block, [])
      | none => (block, [])
    let taken (frames : List Frame) (onKeyLine : Bool) : Option Turn :=
      some (.taken { b with stack := frames ++ below, onKeyLine })
    match t.kind with
    | .question => taken (block.question t isNext start) true
    | .colon => taken (block.colon t isNext start) true
    | .plain | .single | .double =>
      let (frames, isKey) := block.scalar t isNext start
      taken frames (b.onKeyLine || isKey)
    | .dash =>
      let isOnLine := block.last.sep.any fun sep => !hasKind .newline sep
      if isOnLine && !block.last.isExplicit then none
      else
        let sequence := { indent := t.indent, last := { start := [t] } }
        taken [.sequence sequence, .mapping block] b.onKeyLine
    | .opening _ =>
      let block := if isAligned then block.next { start } else block
      taken [.flow t [] [], .mapping block] b.onKeyLine
    | _ => some .closes

def inSequence (t : Token) (block : Block) (below : List Frame) (b : Builder) : Option Turn :=
  let taken (block : Block) : Option Turn :=
    some (.taken { b with stack := .sequence block :: below })
  let last := block.last
  if t.kind.isBlank then taken (block.blank t)
  else if t.kind = .dash && t.indent == block.indent then
    if last.value.isSome || hasKind .dash last.start then taken (block.next { start := [t] })
    else taken (block.change { last with start := last.start ++ [t] })
  else if block.indent < t.indent then
    match b.begin? t with
    | some b => some (.taken b)
    | none => some .closes
  else some .closes

/-! ### Flow collections -/

/-- In an open flow collection. -/
def inFlow (t : Token) (opening : Token) (items : List (Item Node)) (below : List Frame)
    (b : Builder) : Option Turn :=
  let taken (items : List (Item Node)) : Option Turn :=
    some (.taken { b with stack := .flow opening items [] :: below })
  match t.kind with
  | .comma | .question =>
    match items with
    | last :: earlier =>
      if last.sep.isSome then taken ({ start := [t] } :: items)
      else taken ({ last with start := last.start ++ [t] } :: earlier)
    | [] => taken [{ start := [t] }]
  | .colon =>
    match items with
    | last :: earlier =>
      if last.value.isSome then taken ({ sep := some [t] } :: items)
      else taken ({ last with sep := some (last.sep.getD [] ++ [t]) } :: earlier)
    | [] => taken [{ sep := some [t] }]
  | .space | .newline | .comment =>
    match items with
    | last :: earlier =>
      match last.value, last.sep with
      | some _, _ => taken ({ start := [t] } :: items)
      | none, some sep => taken ({ last with sep := some (sep ++ [t]) } :: earlier)
      | none, none => taken ({ last with start := last.start ++ [t] } :: earlier)
    | [] => taken [{ start := [t] }]
  | .plain | .single | .double =>
    let key := some (Node.scalar t [])
    match items with
    | last :: earlier =>
      if last.value.isSome then taken ({ key, sep := some [] } :: items)
      else if last.sep.isSome then some (.taken (b.push (.scalar t [])))
      else taken ({ last with key, sep := some [] } :: earlier)
    | [] => taken [{ key, sep := some [] }]
  | .opening _ => some (.taken (b.push (.flow t [] [])))
  | .closing _ => some (.taken { b with stack := .flow opening items [t] :: below })
  | _ => none

/-- Behind a flow collection. -/
def behindFlow (t : Token) (opening : Token) (items : List (Item Node)) (closing : List Token)
    (below : List Frame) (b : Builder) : Option Turn :=
  let isOver : Bool :=
    match below with
    | .mapping block :: _ =>
      (t.kind = .colon && block.indent == opening.indent)
        || (t.kind = .newline && block.last.sep.isNone)
    | _ => false
  let isNested : Bool :=
    match below with
    | .flow .. :: _ => true
    | _ => false
  if isOver then some .closes
  else if t.kind = .colon && !isNested then
    let key := (Node.flow opening items (closing.take 1)).finished
    some (.taken (b.keyed opening.indent key (closing.drop 1 ++ [t]) below))
  else behind t { b with stack := .flow opening items (closing ++ [t]) :: below }

/-! ## All tokens -/

def turn (t : Token) (b : Builder) : Option Turn :=
  match b.stack with
  | [] => b.outside t
  | .document document :: below => b.inDocument t document below
  | .documentEnd after :: below =>
    let longer := { b with stack := .documentEnd (after ++ [t]) :: below }
    match t.kind with
    | .content => some (.taken b)
    | .newline => longer.close.map .taken
    | _ => some (.taken longer)
  | .scalar token after :: below =>
    if t.kind = .colon then
      some (.taken (b.keyed token.indent (.scalar token []) (after ++ [t]) below))
    else behind t { b with stack := .scalar token (after ++ [t]) :: below }
  | .mapping block :: below => b.inMapping t block below
  | .sequence block :: below => b.inSequence t block below
  | .flow opening items closing :: below =>
    if closing.isEmpty then b.inFlow t opening items below
    else b.behindFlow t opening items closing below

/-- Close frames until one takes the token.  The fuel is above their number. -/
def settle (t : Token) : Nat → Builder → Option Builder
  | 0, _ => none
  | fuel + 1, b =>
    match b.turn t with
    | some (.taken b) => some b
    | some .closes => b.close.bind (settle t fuel)
    | none => none

def atDocumentEnd (b : Builder) : Bool :=
  match b.stack with
  | .documentEnd _ :: _ => true
  | _ => false

/-- The mark of a document's end closes everything. -/
def step (b : Builder) (t : Token) : Option Builder :=
  if t.kind = .documentEnd && !b.atDocumentEnd then
    (b.closeAll b.stack.length).map fun b => b.push (.documentEnd [])
  else b.settle t (b.stack.length + 1)

end Builder

/-- The documents that the tokens are. -/
def documents? (ts : List Token) : Option (List Document) := do
  let b ← ts.foldlM Builder.step {}
  let b ← b.closeAll b.stack.length
  return b.documents.reverse

end AlphaFoundry.Yaml
