import AlphaFoundry.Number.Text
import AlphaFoundry.Number.Reading
import AlphaFoundry.Text.Units
import AlphaFoundry.Json.Printer
import AlphaFoundry.Json.Reader
import AlphaFoundry.Rng.Scaled
import AlphaFoundry.Catalog.Basic
import AlphaFoundry.Catalog.Bundled
import AlphaFoundry.Expr.Graph
import AlphaFoundry.Expr.Render
import AlphaFoundry.Validation.Validator
import AlphaFoundry.Optimization.Search
import AlphaFoundry.Generation.Build
import AlphaFoundry.Generation.Batch
import AlphaFoundry.Yaml.Reader
import AlphaFoundry.Calendar
import AlphaFoundry.Sheet
import AlphaFoundry.Pipeline
import AlphaFoundry.Catalog.Document
import AlphaFoundry.Host.Desk
import AlphaFoundry.Session
import AlphaFoundry.Command.Action
import AlphaFoundry.Main
import AlphaFoundry.Proofs.Number.Arithmetic
import AlphaFoundry.Proofs.Validation.Acceptance
import AlphaFoundry.Proofs.Optimization.Mutation
import AlphaFoundry.Proofs.Optimization.Ascent
import AlphaFoundry.Proofs.Generation.Bundled
import AlphaFoundry.Proofs.Pipeline.Run
import AlphaFoundry.Proofs.Generation.Promises
import AlphaFoundry.Proofs.Optimization.Frame
import AlphaFoundry.Proofs.Pipeline.Seeds
import AlphaFoundry.Proofs.Optimization.Traps
import AlphaFoundry.Proofs.Pipeline.Trees
import AlphaFoundry.Proofs.Session
import AlphaFoundry.Proofs.Store
import AlphaFoundry.Proofs.Optimization.Wrappers
import AlphaFoundry.Proofs.Optimization.Idle
import AlphaFoundry.Proofs.Expr.Layout
import AlphaFoundry.Proofs.Optimization.Budget
import AlphaFoundry.Proofs.Validation.Repeats
import AlphaFoundry.Proofs.Validation.Faults
import AlphaFoundry.Proofs.Generation.Repetition
import AlphaFoundry.Proofs.Optimization.Patience
import AlphaFoundry.Proofs.Optimization.Bonus
import AlphaFoundry.Proofs.Generation.Preference
import AlphaFoundry.Proofs.Generation.Blends
import AlphaFoundry.Proofs.Generation.Commits
import AlphaFoundry.Proofs.Store.Saves
import AlphaFoundry.Proofs.Expr.Search
import AlphaFoundry.Proofs.Expr.Unfilled
import AlphaFoundry.Proofs.Expr.Lines
import AlphaFoundry.Proofs.Expr.Replace
import AlphaFoundry.Proofs.Rng.Period
