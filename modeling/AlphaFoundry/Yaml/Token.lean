/-
# AlphaFoundry.Yaml.Token -- the pieces of a YAML text

`tokens?` cuts a text into marks, scalars, comments, blanks and line ends.  What a character means
depends on where it stands: in a block or in a flow collection, at the begin of a line or behind a
key.  A scalar is one token, over all its lines; how far it goes depends on the columns that its
further lines are indented to.

Anchors, aliases, tags, directives and block scalars are no part of the language that is read here.
-/
import AlphaFoundry.Text.Units

namespace AlphaFoundry.Yaml

set_option autoImplicit false

inductive Kind where
  | space
  | newline
  | comment
  | documentStart
  | documentEnd
  /-- A document begins here, without a mark; this token has no text. -/
  | content
  | dash
  | question
  | colon
  | comma
  | opening (mapping : Bool)
  | closing (mapping : Bool)
  | plain
  | single
  | double
deriving Repr, DecidableEq

structure Token where
  kind : Kind
  text : List Char
  /-- The 16-bit units in front of it. -/
  offset : Nat
  /-- The columns in front of what begins on its line. -/
  indent : Nat

/-! ## Characters and lines -/

def isSpace (c : Char) : Bool :=
  c == ' ' || c == '\t'

/-- A blank or a line end, or the end of the text. -/
def atGap : List Char → Bool
  | [] => true
  | c :: _ => isSpace c || c == '\n' || c == '\r'

def isFlowMark (c : Char) : Bool :=
  [',', '[', ']', '\x7b', '\x7d'].contains c

/-- The characters of the line end that a text begins with. -/
def lineEndLength : List Char → Nat
  | '\n' :: _ => 1
  | '\r' :: '\n' :: _ => 2
  | _ => 0

/-- The characters up to the line end. -/
def lineLength : List Char → Nat
  | [] => 0
  | c :: cs => if 0 < lineEndLength (c :: cs) then 0 else lineLength cs + 1

def atLineEnd (cs : List Char) : Bool :=
  cs.isEmpty || 0 < lineEndLength cs

/-- Three dashes or three dots with a gap behind them. -/
def documentMark? (cs : List Char) : Option Kind :=
  if !atGap (cs.drop 3) then none
  else if ['-', '-', '-'].isPrefixOf cs then some .documentStart
  else if ['.', '.', '.'].isPrefixOf cs then some .documentEnd
  else none

/-- What a line begins with, if it goes on with the scalar of the line before: the number of
characters that do not belong to the scalar.  It is indented to `least` columns, or empty; without
indentation it does not begin with a mark of a document. -/
def continued? (least : Nat) (cs : List Char) : Option Nat :=
  if least == 0 then
    if (documentMark? cs).isSome then none else some 0
  else
    let indent := (cs.takeWhile (· == ' ')).length
    match cs.drop indent with
    | '\n' :: _ => some indent
    | '\r' :: '\n' :: _ => some (indent + 1)
    | _ => if least ≤ indent then some indent else none

/-! ## The length of a scalar -/

/-- The length of a plain scalar.  `here` is the number of characters passed, `stop` the number of
those up to the last one that belongs to the scalar. -/
def plainFrom (flow : Bool) (least : Nat) : Nat → (here stop : Nat) → List Char → Nat
  | 0, _, stop, _ => stop
  | _, _, stop, [] => stop
  | fuel + 1, here, stop, '\r' :: '\n' :: cs => plainBreak fuel (here + 2) stop cs
  | fuel + 1, here, stop, '\n' :: cs => plainBreak fuel (here + 1) stop cs
  | fuel + 1, here, stop, c :: cs =>
    if isSpace c && !endsBehindGap cs then plainFrom flow least fuel (here + 1) stop cs
    else if isSpace c || endsAt c cs then stop
    else if c == '\r' && endsBehindGap cs then here + 1
    else plainFrom flow least fuel (here + 1) (here + 1) cs
where
  /-- A colon in front of a gap, or a mark of the flow collection that the scalar stands in. -/
  endsAt (c : Char) (cs : List Char) : Bool :=
    (c == ':' && (atGap cs || (flow && cs.head?.any isFlowMark))) || (flow && isFlowMark c)
  /-- A comment, or such a mark. -/
  endsBehindGap (cs : List Char) : Bool :=
    cs.head?.any fun c => c == '#' || (flow && isFlowMark c)
  /-- Behind a line end.  A blank in front of the line is left to see a comment behind it. -/
  plainBreak (fuel here stop : Nat) (cs : List Char) : Nat :=
    if endsBehindGap cs then stop
    else
      match continued? least cs with
      | none => stop
      | some indent => plainFrom flow least fuel (here + (indent - 1)) stop (cs.drop (indent - 1))

/-- The number of characters through the closing quote; a quote behind a backslash is none. -/
def doubleEnd? : List Char → Option Nat
  | [] | ['\\'] => none
  | '"' :: _ => some 1
  | '\\' :: _ :: cs => (doubleEnd? cs).map (· + 2)
  | _ :: cs => (doubleEnd? cs).map (· + 1)

/-- The number of characters through the closing quote; two quotes are none. -/
def singleEnd? : List Char → Option Nat
  | [] => none
  | '\'' :: '\'' :: cs => (singleEnd? cs).map (· + 2)
  | '\'' :: _ => some 1
  | _ :: cs => (singleEnd? cs).map (· + 1)

/-- The place of the first line end, within a number of characters, that the scalar does not go on
behind. -/
def brokenAt? (least : Nat) : (within here : Nat) → List Char → Option Nat
  | 0, _, _ | _, _, [] => none
  | within + 1, here, c :: cs =>
    if c == '\n' && (continued? least cs).isNone then some here
    else if c == '\r' && cs.head? == some '\n' && 0 < within
        && (continued? least (cs.drop 1)).isNone then some here
    else brokenAt? least within (here + 1) cs

/-- The length of a quoted scalar, from its opening quote on.  Without a closing one it takes the
rest of the text. -/
def quotedLength (least : Nat) (cs : List Char) : Nat :=
  let close? := if cs.head? == some '"' then doubleEnd? (cs.drop 1) else singleEnd? (cs.drop 1)
  match close? with
  | none => cs.length
  | some close => (brokenAt? least close 0 cs).getD (close + 1)

/-! ## Cutting -/

/-- What is known about the text that is left. -/
structure Cutter where
  rest : List Char
  /-- The number of characters left. -/
  left : Nat := rest.length
  offset : Nat := 0
  /-- The columns that the lines of a scalar are indented to. -/
  least : Nat := 0
  /-- The columns in front of what begins on the line, marks in front of it included. -/
  level : Nat := 0
  /-- The flow collections around. -/
  depth : Nat := 0
  /-- Behind a quoted key or a collection a colon needs no gap. -/
  behindKey : Bool := false
  atLineStart : Bool := true
  indent : Nat := 0
  /-- The tokens so far, the latest first. -/
  tokens : List Token := []

namespace Cutter

def inFlow (c : Cutter) : Bool :=
  0 < c.depth

/-- The indentation behind a token: blanks and marks at the begin of a line count. -/
def indentBehind (c : Cutter) (kind : Kind) (text : List Char) : Nat :=
  match kind with
  | .newline => 0
  | .space =>
    if c.atLineStart && text.head? == some ' ' then c.indent + text.length else c.indent
  | .dash | .question | .colon => if c.atLineStart then c.indent + 1 else c.indent
  | _ => c.indent

/-- Take a token of a number of characters. -/
def take (kind : Kind) (n : Nat) (c : Cutter) : Cutter :=
  let text := c.rest.take n
  { c with
    rest := c.rest.drop n
    left := c.left - n
    offset := c.offset + (Text.units text).length
    atLineStart := match kind with
      | .newline => true
      | .space | .dash | .question | .colon | .content => c.atLineStart
      | _ => false
    indent := c.indentBehind kind text
    tokens := ⟨kind, text, c.offset, c.indent⟩ :: c.tokens }

/-- Take a token, unless it is empty. -/
def takeSome (kind : Kind) (n : Nat) (c : Cutter) : Cutter :=
  if n == 0 then c else c.take kind n

/-- The number of blanks, or of spaces only, ahead. -/
def spacesAhead (c : Cutter) (tabs : Bool) : Nat :=
  (c.rest.takeWhile fun d => d == ' ' || (tabs && d == '\t')).length

def takeSpaces (tabs : Bool) (c : Cutter) : Cutter :=
  c.takeSome .space (c.spacesAhead tabs)

def takeLineEnd (c : Cutter) : Cutter :=
  c.takeSome .newline (lineEndLength c.rest)

/-- Take what is left of the line, a comment or nothing, and the line end. -/
def finishLine (c : Cutter) : Cutter :=
  (c.takeSome .comment (lineLength c.rest)).takeLineEnd

def markAhead? (c : Cutter) : Option Kind :=
  match c.rest with
  | '-' :: cs => if atMarkEnd cs then some .dash else none
  | '?' :: cs => if atMarkEnd cs then some .question else none
  | ':' :: cs => if atMarkEnd cs then some .colon else none
  | _ => none
where
  atMarkEnd (cs : List Char) : Bool :=
    atGap cs || (c.inFlow && cs.head?.any isFlowMark)

/-- Take the marks ahead, with the blanks behind them.  The fuel bounds their number. -/
def takeMarks : Nat → Cutter → Cutter
  | 0, c => c
  | fuel + 1, c =>
    match c.markAhead? with
    | none => c
    | some kind =>
      let c := if c.inFlow then { c with behindKey := false } else { c with least := c.level + 1 }
      takeMarks fuel ((c.take kind 1).takeSpaces true)

/-- Take the marks at the begin of a line; each one indents what is behind it. -/
def takeLineMarks : Nat → Cutter → Cutter
  | 0, c => c
  | fuel + 1, c =>
    match c.markAhead? with
    | none => c
    | some kind =>
      let marked := c.take kind 1
      let width := 1 + marked.spacesAhead true
      takeLineMarks fuel
        { marked.takeSpaces true with least := c.level + 1, level := c.level + width }

/-- Take the commas ahead, with the blanks behind them. -/
def takeCommas : Nat → Cutter → Cutter
  | 0, c => c
  | fuel + 1, c =>
    match c.rest with
    | ',' :: _ => takeCommas fuel { (c.take .comma 1).takeSpaces true with behindKey := false }
    | _ => c

def takePlain (c : Cutter) : Cutter :=
  c.take .plain (plainFrom c.inFlow c.least (c.left + 1) 0 0 c.rest)

def takeQuoted (c : Cutter) : Cutter :=
  let kind := if c.rest.head? == some '"' then Kind.double else .single
  c.take kind (quotedLength c.least c.rest)

def takeOpening (mapping : Bool) (c : Cutter) : Cutter :=
  { c.take (.opening mapping) 1 with behindKey := false, depth := c.depth + 1 }

def takeClosing (mapping : Bool) (c : Cutter) : Cutter :=
  { c.take (.closing mapping) 1 with behindKey := true, depth := c.depth - 1 }

/-- Take the blanks, and the line ends with the indentation behind them, in a flow collection.
With the indentation of the last line, if there is a line end. -/
def takeFlowGap : Nat → Option Nat → Cutter → Cutter × Option Nat
  | 0, indent, c => (c, indent)
  | fuel + 1, indent, c =>
    if 0 < lineEndLength c.rest then
      let c := c.takeLineEnd
      let n := c.spacesAhead false
      takeFlowGap fuel (some n) { (c.takeSpaces false).takeSpaces true with level := n }
    else
      let c := c.takeSpaces true
      if 0 < lineEndLength c.rest then takeFlowGap fuel indent c else (c, indent)

/-- A line in a flow collection is indented enough.  The mark that closes the outermost one may
stand a column before. -/
def isIndented (c : Cutter) (indent : Option Nat) : Bool :=
  match indent with
  | none => true
  | some n =>
    let enough := c.least ≤ n || c.rest.head? == some '#'
    let marked := n == 0 && (documentMark? c.rest).isSome
    let closes := c.rest.head? == some ']' || c.rest.head? == some '\x7d'
    (enough && !marked) || (n + 1 == c.least && c.depth == 1 && closes)

end Cutter

/-- Where the cutter is. -/
inductive Mode where
  /-- Between documents, at the begin of a line. -/
  | between
  | lineStart
  /-- On a line of a block. -/
  | block
  | flow

/-- Features that are not read begin with one of these. -/
def isForeign (c : Char) : Bool :=
  ['!', '&', '*'].contains c

namespace Cutter

/-- The mode behind a scalar or a collection. -/
def mode (c : Cutter) : Mode :=
  if c.inFlow then .flow else .block

/-- Pass over a byte-order mark.  What follows on its line is not indented. -/
def dropMark (c : Cutter) : Cutter :=
  { c with
    rest := c.rest.drop 1, left := c.left - 1, offset := c.offset + 1, atLineStart := false }

/-- Between documents there are empty lines and comments; anything else begins a document. -/
def betweenStep (c : Cutter) : Option (Mode × Cutter) :=
  let c := if c.rest.head? == some '\uFEFF' then c.dropMark else c
  let ahead := c.rest.drop (c.spacesAhead true)
  if c.rest.head? == some '%' then none
  else if atLineEnd ahead || ahead.head? == some '#' then
    some (.between, (c.takeSpaces true).finishLine)
  else some (.lineStart, c.take .content 0)

def lineStartStep (c : Cutter) : Mode × Cutter :=
  match documentMark? c.rest with
  | some kind =>
    (if kind = .documentStart then .block else .between,
      { c.take kind 3 with level := 0, least := 0 })
  | none =>
    let level := c.spacesAhead false
    let c := { c.takeSpaces false with level }
    let isShort := atGap (c.rest.drop 1)
    let c := if level < c.least && !isShort then { c with least := level } else c
    (.block, c.takeLineMarks c.left)

def blockStep (c : Cutter) : Option (Mode × Cutter) :=
  let c := c.takeSpaces true
  let c := c.takeMarks c.left
  match c.rest with
  | [] => some (.lineStart, c)
  | d :: _ =>
    if d == '#' || atLineEnd c.rest then some (.lineStart, c.finishLine)
    else if d == '[' || d == '\x7b' then some (.flow, c.takeOpening (d == '\x7b'))
    else if d == ']' || d == '\x7d' || d == '|' || d == '>' || isForeign d then none
    else if d == '"' || d == '\'' then some (c.mode, c.takeQuoted)
    else some (c.mode, c.takePlain)

def flowStep (c : Cutter) : Option (Mode × Cutter) :=
  let (c, indent) := c.takeFlowGap c.left none
  if !c.isIndented indent then none
  else
    let c := c.takeCommas c.left
    let c := c.takeMarks c.left
    match c.rest with
    | [] => some (.flow, c)
    | d :: _ =>
      if atLineEnd c.rest then some (.flow, c)
      else if d == '#' then some (.flow, c.takeSome .comment (lineLength c.rest))
      else if d == '[' || d == '\x7b' then some (.flow, c.takeOpening (d == '\x7b'))
      else if d == ']' || d == '\x7d' then
        let c := c.takeClosing (d == '\x7d')
        some (c.mode, c)
      else if isForeign d then none
      else if d == '"' || d == '\'' then some (.flow, { c.takeQuoted with behindKey := true })
      else if d == ':' && c.behindKey then
        some (.flow, { (c.take .colon 1).takeSpaces true with behindKey := false })
      else some (.flow, { c with behindKey := false }.takePlain)

def step (mode : Mode) (c : Cutter) : Option (Mode × Cutter) :=
  match mode with
  | .between => c.betweenStep
  | .lineStart => some c.lineStartStep
  | .block => c.blockStep
  | .flow => c.flowStep

/-- Cut what is left.  Of four steps one takes a character at least, which bounds the fuel. -/
def run : Nat → Mode → Cutter → Option (List Token)
  | 0, _, _ => none
  | fuel + 1, mode, c =>
    if c.rest.isEmpty then some c.tokens.reverse
    else (c.step mode).bind fun (mode, c) => run fuel mode c

end Cutter

/-- The tokens of a text; nothing if it cannot be cut. -/
def tokens? (cs : List Char) : Option (List Token) :=
  Cutter.run (4 * cs.length + 4) .between { rest := cs }

end AlphaFoundry.Yaml
