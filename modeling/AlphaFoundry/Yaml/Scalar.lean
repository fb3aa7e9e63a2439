/-
# AlphaFoundry.Yaml.Scalar -- what a scalar stands for

`resolve` is the core schema of YAML 1.2 for unquoted text: a null, a truth, a whole number in base
10, 8 or 16, a decimal, an infinity or NaN; any other text is itself.  Quoted text is always a text:
in single quotes a quote is written twice, in double quotes a backslash begins an escape.

A scalar over several lines is folded: the blanks around a line end do not count, a line end alone
is one space, and of several in a row all but the first stay.
-/
import AlphaFoundry.Json.Value
import AlphaFoundry.Number.Reading
import AlphaFoundry.Yaml.Token

namespace AlphaFoundry.Yaml

set_option autoImplicit false

/-! ## Unquoted text -/

def isNull (s : String) : Bool :=
  ["", "~", "null", "Null", "NULL"].contains s

def truth? (s : String) : Option Bool :=
  if ["true", "True", "TRUE"].contains s then some true
  else if ["false", "False", "FALSE"].contains s then some false
  else none

/-- The spellings of infinity, without a sign. -/
def isInfinity (cs : List Char) : Bool :=
  [".inf", ".Inf", ".INF"].contains (String.ofList cs)

def isNaN (cs : List Char) : Bool :=
  [".nan", ".NaN", ".NAN"].contains (String.ofList cs)

/-- A decimal or an infinity, without a sign. -/
def unsigned? (cs : List Char) : Option Float :=
  if isInfinity cs then some (1.0 / 0.0) else Number.unsignedDecimal? cs

def number? (cs : List Char) : Option Float :=
  match cs with
  | '0' :: 'o' :: ds => (Number.inBase? 8 ds).map fun n => Number.decimal n 0
  | '0' :: 'x' :: ds => (Number.inBase? 16 ds).map fun n => Number.decimal n 0
  | '-' :: ds => (unsigned? ds).map (-·)
  | '+' :: ds => unsigned? ds
  | _ => if isNaN cs then some (0.0 / 0.0) else unsigned? cs

def resolve (cs : List Char) : Json :=
  let s := String.ofList cs
  if isNull s then .null
  else
    match truth? s, number? cs with
    | some b, _ => .bool b
    | none, some x => .num x
    | none, none => .str s

/-! ## Lines -/

/-- The lines of a text, without their ends. -/
def lines : List Char → List (List Char)
  | [] => [[]]
  | '\r' :: '\n' :: cs | '\n' :: cs => [] :: lines cs
  | c :: cs =>
    match lines cs with
    | line :: rest => (c :: line) :: rest
    | [] => [[c]]

def trimLeft (cs : List Char) : List Char :=
  cs.dropWhile isSpace

def trimRight (cs : List Char) : List Char :=
  (cs.reverse.dropWhile isSpace).reverse

/-- Join the lines of a text.  A text of one line keeps its blanks. -/
def fold (cs : List Char) : List Char :=
  match lines cs with
  | first :: second :: rest => go (trimRight first) false (second :: rest)
  | _ => cs
where
  /-- `broken` says that an empty line stands in front. -/
  go (text : List Char) (broken : Bool) : List (List Char) → List Char
    | [] => text
    | [last] => text ++ (if broken then '\n' else ' ') :: trimLeft last
    | line :: rest =>
      match trimLeft (trimRight line) with
      | [] => if broken then go (text ++ ['\n']) true rest else go text true rest
      | c :: cs => go (text ++ (if broken then '\n' else ' ') :: c :: cs) false rest

/-! ## Quoted text -/

/-- The text behind an opening quote, if the mark ends it. -/
def quotedBy? (mark : Char) (cs : List Char) : Option (List Char) :=
  match cs with
  | _ :: c :: rest => if (c :: rest).getLast? == some mark then some (c :: rest) else none
  | _ => none

/-- Two quotes in a row are one. -/
def unpair : List Char → List Char
  | '\'' :: '\'' :: cs => '\'' :: unpair cs
  | c :: cs => c :: unpair cs
  | [] => []

/-- The code points of the letters that stand behind a backslash. -/
def escapes : List (Char × Nat) :=
  [('0', 0), ('a', 7), ('b', 8), ('e', 0x1B), ('f', 0x0C), ('n', 0x0A), ('r', 0x0D), ('t', 9),
    ('v', 0x0B), ('N', 0x85), ('_', 0xA0), ('L', 0x2028), ('P', 0x2029), (' ', 0x20),
    ('"', 0x22), ('/', 0x2F), ('\\', 0x5C), ('\t', 9)]

/-- The number of digits of a code point behind its letter. -/
def codeDigits : List (Char × Nat) :=
  [('x', 2), ('u', 4), ('U', 8)]

/-- The code point in a number of hexadecimal digits, and what is left. -/
def code? (digits : Nat) (cs : List Char) : Option (Nat × List Char) :=
  match Number.inBase? 16 (cs.take digits) with
  | some n =>
    if (cs.take digits).length == digits && n ≤ 0x10FFFF then some (n, cs.drop digits) else none
  | none => none

/-- The number of line ends in front of the next text, besides those already seen. -/
def passBreaks (breaks : Nat) : List Char → Nat × List Char
  | '\r' :: '\n' :: cs | '\n' :: cs => passBreaks (breaks + 1) cs
  | c :: cs => if isSpace c then passBreaks breaks cs else (breaks, c :: cs)
  | [] => (breaks, [])

/-- The code points behind an opening double quote; the last character is the closing one, and is
left out also where a backslash stands in front of what ends the text.  The fuel bounds the number
of characters. -/
def doubleCodes? : Nat → List Char → Option (List Nat)
  | _, [] | _, [_] | 0, _ => some []
  | fuel + 1, '\r' :: '\n' :: cs => doubleCodes? fuel ('\n' :: cs)
  | fuel + 1, '\n' :: cs =>
    let (breaks, cs) := passBreaks 0 cs
    (doubleCodes? fuel cs).map ((if breaks == 0 then [32] else List.replicate breaks 10) ++ ·)
  | fuel + 1, '\\' :: '\n' :: cs | fuel + 1, '\\' :: '\r' :: '\n' :: cs =>
    doubleCodes? fuel (trimLeft cs)
  | fuel + 1, '\\' :: c :: cs =>
    match escapes.lookup c, codeDigits.lookup c with
    | some n, _ => (doubleCodes? fuel cs).map (n :: ·)
    | none, some digits => do
      let (n, cs) ← code? digits cs
      return n :: (← doubleCodes? fuel cs)
    | none, none => none
  | fuel + 1, c :: cs =>
    if isSpace c then
      let blanks := (c :: cs).takeWhile isSpace
      let rest := (c :: cs).dropWhile isSpace
      let kept := if 0 < lineEndLength rest then [] else blanks.map Char.toNat
      (doubleCodes? fuel rest).map (kept ++ ·)
    else (doubleCodes? fuel cs).map (c.toNat :: ·)

/-- Characters that begin no plain scalar. -/
def isReserved (c : Char) : Bool :=
  ['\t', ',', '%', '|', '>', '@', '\x60'].contains c

/-- What a scalar stands for; nothing if it is malformed. -/
def scalar? (kind : Kind) (cs : List Char) : Option Json :=
  match kind with
  | .plain => if cs.head?.any isReserved then none else some (resolve (fold cs))
  | .single => (quotedBy? '\'' cs).map fun inner => text (unpair (fold inner.dropLast))
  | .double => do
    let inner ← quotedBy? '"' cs
    let codes ← doubleCodes? inner.length inner
    return text (Text.ofCodes codes)
  | _ => none
where
  text (cs : List Char) : Json :=
    .str (String.ofList cs)

end AlphaFoundry.Yaml
