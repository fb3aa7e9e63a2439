/-
# AlphaFoundry.Json.Reader -- documents from JSON text

`read?` accepts the JSON grammar and nothing else.  Each function takes what is left of the text
and gives back what it leaves.  The fuel is twice the length of the text: a step takes a character
or enters what one opened.
-/
import AlphaFoundry.Json.Value
import AlphaFoundry.Number.Reading
import AlphaFoundry.Text.Units

namespace AlphaFoundry.Json

set_option autoImplicit false

/-- The blanks of JSON: space, tab, line feed, carriage return. -/
def skipBlanks : List Char → List Char
  | ' ' :: cs | '\t' :: cs | '\n' :: cs | '\r' :: cs => skipBlanks cs
  | cs => cs

def hex4? (a b c d : Char) : Option Nat :=
  Number.inBase? 16 [a, b, c, d]

/-- The character that an escape stands for, without the backslash.  Escapes of both halves of a
pair make one character; a half that stands alone gives the replacement character. -/
def escaped? : List Char → Option (Char × List Char)
  | '"' :: cs => some ('"', cs)
  | '\\' :: cs => some ('\\', cs)
  | '/' :: cs => some ('/', cs)
  | 'b' :: cs => some ('\x08', cs)
  | 'f' :: cs => some ('\x0c', cs)
  | 'n' :: cs => some ('\n', cs)
  | 'r' :: cs => some ('\r', cs)
  | 't' :: cs => some ('\t', cs)
  | 'u' :: a :: b :: c :: d :: cs =>
    (hex4? a b c d).map fun n =>
      if Text.isHighHalf n then
        match lowHalf? cs with
        | some (low, rest) => (Text.ofHalves n low, rest)
        | none => ('\uFFFD', cs)
      else if Text.isLowHalf n then ('\uFFFD', cs)
      else (Char.ofNat n, cs)
  | _ => none
where
  lowHalf? : List Char → Option (Nat × List Char)
    | '\\' :: 'u' :: a :: b :: c :: d :: cs =>
      match hex4? a b c d with
      | some n => if Text.isLowHalf n then some (n, cs) else none
      | none => none
    | _ => none

/-- The characters up to the closing quote. -/
def readChars : Nat → List Char → Option (List Char × List Char)
  | 0, _ => none
  | _ + 1, [] => none
  | _ + 1, '"' :: cs => some ([], cs)
  | fuel + 1, '\\' :: cs =>
    match escaped? cs with
    | some (c, rest) => (readChars fuel rest).map fun r => (c :: r.1, r.2)
    | none => none
  | fuel + 1, c :: cs =>
    if c.toNat < 0x20 then none else (readChars fuel cs).map fun r => (c :: r.1, r.2)

/-- An exponent, if one is written. -/
def readExponent : List Char → Option (Int × List Char)
  | c :: cs =>
    if c == 'e' || c == 'E' then Number.exponentOf? cs else some (0, c :: cs)
  | [] => some (0, [])

/-- A number without its sign: no leading zero, digits on both sides of a point. -/
def readUnsigned (cs : List Char) : Option (Float × List Char) :=
  let (whole, rest) := Number.spanDigits cs
  if whole.isEmpty || (whole.head? == some '0' && whole.length > 1) then none
  else
    match rest with
    | '.' :: more =>
      let (fraction, rest) := Number.spanDigits more
      if fraction.isEmpty then none
      else (readExponent rest).map fun (e, r) => (Number.assemble whole fraction e, r)
    | _ => (readExponent rest).map fun (e, r) => (Number.assemble whole [] e, r)

def readNumber : List Char → Option (Float × List Char)
  | '-' :: cs => (readUnsigned cs).map fun r => (-r.1, r.2)
  | cs => readUnsigned cs

mutual

/-- A value, behind blanks. -/
def readValue : Nat → List Char → Option (Json × List Char)
  | 0, _ => none
  | fuel + 1, cs =>
    match skipBlanks cs with
    | 'n' :: 'u' :: 'l' :: 'l' :: rest => some (.null, rest)
    | 't' :: 'r' :: 'u' :: 'e' :: rest => some (.bool true, rest)
    | 'f' :: 'a' :: 'l' :: 's' :: 'e' :: rest => some (.bool false, rest)
    | '"' :: rest => (readChars fuel rest).map fun r => (.str (String.ofList r.1), r.2)
    | '[' :: rest =>
      match skipBlanks rest with
      | ']' :: rest => some (.arr [], rest)
      | rest => (readItems fuel rest).map fun r => (.arr r.1, r.2)
    | '\x7b' :: rest =>
      match skipBlanks rest with
      | '\x7d' :: rest => some (.obj [], rest)
      | rest => (readMembers fuel rest).map fun r => (ofMembers r.1, r.2)
    | rest => (readNumber rest).map fun r => (.num r.1, r.2)

/-- Items up to the closing bracket; at least one. -/
def readItems : Nat → List Char → Option (List Json × List Char)
  | 0, _ => none
  | fuel + 1, cs =>
    match readValue fuel cs with
    | none => none
    | some (item, rest) =>
      match skipBlanks rest with
      | ',' :: rest => (readItems fuel rest).map fun r => (item :: r.1, r.2)
      | ']' :: rest => some ([item], rest)
      | _ => none

/-- Members up to the closing brace; at least one. -/
def readMembers : Nat → List Char → Option (List (String × Json) × List Char)
  | 0, _ => none
  | fuel + 1, cs =>
    match skipBlanks cs with
    | '"' :: rest =>
      match readChars fuel rest with
      | none => none
      | some (key, rest) =>
        match skipBlanks rest with
        | ':' :: rest =>
          match readValue fuel rest with
          | none => none
          | some (value, rest) =>
            let m := (String.ofList key, value)
            match skipBlanks rest with
            | ',' :: rest => (readMembers fuel rest).map fun r => (m :: r.1, r.2)
            | '\x7d' :: rest => some ([m], rest)
            | _ => none
        | _ => none
    | _ => none

end

/-- The document that a text holds, blanks around it aside. -/
def read? (s : String) : Option Json :=
  let cs := s.toList
  match readValue (2 * cs.length + 2) cs with
  | some (j, rest) => if (skipBlanks rest).isEmpty then some j else none
  | none => none

end AlphaFoundry.Json
