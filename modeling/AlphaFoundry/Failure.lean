/-
# AlphaFoundry.Failure -- everything that can go wrong, under one name
-/
import AlphaFoundry.Catalog.Basic
import AlphaFoundry.Config
import AlphaFoundry.Generation.Batch
import AlphaFoundry.Optimization.Search

namespace AlphaFoundry

set_option autoImplicit false

inductive Failure where
  | catalog (fault : Catalog.Fault)
  | generation (fault : Generation.Fault)
  | build (fault : Build.Fault)
  | optimization (fault : Search.Fault)
  | config (fault : Config.Fault)
  | noOptimizer
  /-- A list cannot hold so many candidates. -/
  | tooMany
  | alreadyStarted
  | notStarted

namespace Failure

/-- The kind of a failure, as logs show it. -/
def name : Failure → String
  | catalog _ => "CatalogError"
  | generation _ => "GenerationError"
  | build (.unavailable ..) => "SkeletonUnavailableError"
  | optimization _ => "OptimizationError"
  | config _ => "ConfigError"
  | tooMany => "RangeError"
  | _ => "Error"

def message : Failure → String
  | catalog fault => fault.message
  | generation fault => fault.message
  | build fault => fault.message
  | optimization fault => fault.message
  | config fault => fault.message
  | noOptimizer => "runPipeline: optimization requested without an optimizer"
  | tooMany => "Invalid array length"
  | alreadyStarted => "AlphaForge already started"
  | notStarted => "AlphaForge not started. Call start() first."

/-- A failure that its user can mend: a command ends with it, and logs it. -/
def isReported : Failure → Bool
  | catalog _ | generation _ | optimization _ | config _ => true
  | _ => false

def ofPlan : Generation.PlanFault → Failure
  | .request fault => generation fault
  | .build fault => build fault

end Failure

end AlphaFoundry
