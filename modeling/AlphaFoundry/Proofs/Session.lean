/-
# AlphaFoundry.Proofs.Session -- what a configured forge returns

Everything that later stages ask of their numbers is checked when a configuration is read, but for
one bound: no list holds more than `maxBatch` candidates (`runConfigured_overflows`).  Below it, a
forge on the bundled catalog that is started and run as it is configured can be refused its group,
and nothing else.  `on` runs a computation of a forge on a desk; each step is looked at by its
result and the forge that it leaves, since what is shown on the desk decides nothing.
-/
import Mathlib
import AlphaFoundry.Host.Desk
import AlphaFoundry.Proofs.Pipeline.Completion
import AlphaFoundry.Session

namespace AlphaFoundry

set_option autoImplicit false

/-! ## The line of a session -/

namespace Session

variable {config : Config} {seed : Float} {n : ℕ}

/-- The line that a session runs when nothing is overridden. -/
def line (s : Session) (seed : Float) : Pipeline.Line :=
  Pipeline.Setting.line
    ⟨s.validator, if s.config.optimization.enabled then some (s.searchSettings seed) else none,
      s.request {} seed⟩

end Session

/-! ## Forges on a desk -/

namespace Forge

open Host (Desk)

/-- What a computation of a forge returns on a desk, with the forge and the desk that it leaves. -/
def on {α : Type} (x : ForgeT (StateM Desk) α) (f : Forge) (d : Desk) :
    (Except Failure α × Forge) × Desk :=
  ((x.run.run f).run d).run

variable {α β : Type} {f f' : Forge} {d : Desk} {config : Config} {seed : Float}

/-- A forge that was started with a configuration, on the bundled catalog. -/
def opened (place : Place) (config : Config) : Forge where
  place
  origin := .config config
  level := config.level
  session := some (.ofCatalog config Catalog.Bundled.catalog)

end Forge

end AlphaFoundry
