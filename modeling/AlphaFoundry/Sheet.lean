/-
# AlphaFoundry.Sheet -- records as plain text for manual submission
-/
import AlphaFoundry.Record

namespace AlphaFoundry

set_option autoImplicit false

namespace Sheet

def width : Nat := 80

def doubleRule : String := Text.times width "═"

def singleRule : String := Text.times 40 "─"

/-- What is shown if there is no record. -/
def empty : String := "=== NO VALID ALPHAS GENERATED ==="

def steps : List String := [
  "Log in to the alpha research platform",
  "Open the alpha lab and create a new alpha",
  "Paste the expression",
  "Set neutralization to match the record (region, universe and delay as usual)",
  "Run a simulation and submit if the results look good"]

/-- A formula of the optimize tier says how it is wrapped. -/
def wrappingLines (r : Record) : List String :=
  if r.neutralization != "none" || r.normalization != "none" then
    [s!"neutralization={r.neutralization} | normalization={r.normalization}"]
  else []

/-- The part of one record, by its position. -/
def entry (r : Record) (i : Nat) : List String :=
  [s!"Alpha #{i + 1} ({r.id})", singleRule, r.expression, singleRule,
    s!"tier={r.tier.name} | skeleton={r.skeletonId} | score=" ++ Number.fixed 4 r.score
      ++ s!" | status={r.status.name}"]
    ++ wrappingLines r ++ [""]

/-- A path that is empty is not shown. -/
def savedLine (path : String) : List String :=
  if path.isEmpty then [] else [s!"Saved to: {path}"]

/-- The sheet of some records, with the file that they were saved to. -/
def ofRecords (rs : List Record) (path : String) : String :=
  if rs.isEmpty then empty
  else
    "\n".intercalate <|
      [doubleRule, "GENERATED ALPHAS", doubleRule, "",
        s!"Generated {rs.length} valid alpha expression(s) for manual submission."]
      ++ savedLine path ++ [""]
      ++ (rs.zipIdx.flatMap fun (r, i) => entry r i)
      ++ ["Instructions for manual submission:"]
      ++ (steps.zipIdx.map fun (step, i) => s!"{i + 1}. {step}")
      ++ [doubleRule]

def violationLine (v : Violation) : String :=
  s!"- [{v.severity.name}] {v.ruleId.name}: {v.reason}"

/-- The outcome of the rules for one record, a violation on each line. -/
def report (r : Record) : String :=
  "\n".intercalate <|
    s!"{r.id}: {r.status.name}"
      :: if r.violations.isEmpty then ["No violations."] else r.violations.map violationLine

end Sheet

end AlphaFoundry
