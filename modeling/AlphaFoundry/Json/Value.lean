/-
# AlphaFoundry.Json.Value -- documents of nulls, truths, numbers, texts, lists and members

An object keeps its members in the order of arrival; a member written again keeps its place and
takes the later value.
-/

namespace AlphaFoundry

set_option autoImplicit false

inductive Json where
  | null
  | bool (b : Bool)
  | num (x : Float)
  | str (s : String)
  | arr (items : List Json)
  | obj (members : List (String × Json))
deriving Inhabited

namespace Json

/-- Add a member behind the others, or give a present one a new value. -/
def put (key : String) (value : Json) : List (String × Json) → List (String × Json)
  | [] => [(key, value)]
  | (k, v) :: rest => if k == key then (k, value) :: rest else (k, v) :: put key value rest

/-- The members in order of arrival, each key once. -/
def ofMembers (members : List (String × Json)) : Json :=
  .obj (members.foldl (fun acc m => put m.1 m.2 acc) [])

/-- The value of a member, if the document is an object that has it. -/
def get? (key : String) : Json → Option Json
  | .obj members => members.lookup key
  | _ => none

end Json

end AlphaFoundry
