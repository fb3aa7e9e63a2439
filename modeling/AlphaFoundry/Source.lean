/-
# AlphaFoundry.Source -- what is found at a path
-/

namespace AlphaFoundry

set_option autoImplicit false

inductive Source where
  | absent
  | unreadable (reason : String)
  | text (content : String)
deriving Repr, DecidableEq

namespace Source

/-- Reasons that messages give. -/
def absence : String := "no such file"

def nonsense : String := "the text is not well formed"

end Source

end AlphaFoundry
