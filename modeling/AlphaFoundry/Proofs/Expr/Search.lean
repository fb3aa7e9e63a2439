/-
# AlphaFoundry.Proofs.Expr.Search -- the walk of a graph is a depth-first search

The walk is a loop over a stack.  Arguments go onto it unseen, and a node is looked up only when it
comes off again, so the stack holds nodes that have meanwhile been visited.  `Searches` is what the
loop stands for: the search by recursion, which skips a visited node where it meets it.

`Runs` is the loop without fuel, so that a derivation is a loop that ends.  A search that starts
from the top of a stack is carried over to the loop, whatever lies below on the stack: the loop
visits what the search finds and then goes on with the rest (`Searches.runs`).  The search ends,
since every visit leaves fewer nodes unseen; hence so does the loop.
-/
import Mathlib
import AlphaFoundry.Proofs.Expr.Reach

namespace AlphaFoundry

set_option autoImplicit false

namespace Graph

variable (g : Graph)

/-! ## The loop without fuel -/

/-- A loop that ends, with the stops that it visits. -/
inductive Runs : List (Stop g.size) → List (Fin g.size) → List (Stop g.size) → Prop
  | done {seen : List (Fin g.size)} : Runs [] seen []
  | skip {s : Stop g.size} {stack found : List (Stop g.size)} {seen : List (Fin g.size)}
      (old : s.node ∈ seen) (rest : Runs stack seen found) : Runs (s :: stack) seen found
  | visit {s : Stop g.size} {stack found : List (Stop g.size)} {seen : List (Fin g.size)}
      (new : s.node ∉ seen) (rest : Runs (g.stopsBelow s ++ stack) (s.node :: seen) found) :
      Runs (s :: stack) seen (s :: found)

variable {g}

/-- Every step takes one entry off the stack and puts on it edges that were ahead, so this fuel
lasts. -/
theorem Runs.stopsFrom_eq {stack found : List (Stop g.size)} {seen : List (Fin g.size)}
    (runs : g.Runs stack seen found) : ∀ {fuel : Nat},
      stack.length + g.edgesAhead seen ≤ fuel → g.stopsFrom fuel stack seen = found := by
  induction runs with
  | done =>
      rintro (_ | fuel) - <;> rfl
  | @skip s stack found seen old rest ih =>
      rintro (_ | fuel) enough <;> rw [List.length_cons] at enough
      · omega
      · rw [stopsFrom, if_pos (by simpa using old), ih (by omega)]
  | @visit s stack found seen new rest ih =>
      have fewer := edgesAhead_cons new
      rintro (_ | fuel) enough <;> rw [List.length_cons] at enough
      · omega
      · rw [stopsFrom, if_neg (by simpa using new),
          ih (by rw [List.length_append, length_stopsBelow]; omega)]

/-- No node is visited twice, nor one that was seen before. -/
theorem Runs.once {stack found : List (Stop g.size)} {seen : List (Fin g.size)}
    (runs : g.Runs stack seen found) :
    (found.map Stop.node).Nodup ∧ ∀ s ∈ found, s.node ∉ seen := by
  induction runs with
  | done => simp
  | skip old rest ih => exact ih
  | visit new rest ih =>
      obtain ⟨distinct, apart⟩ := ih
      simp only [List.mem_cons, not_or] at apart
      rw [List.map_cons, List.nodup_cons, List.forall_mem_cons]
      refine ⟨⟨fun again => ?_, distinct⟩, new, fun t later => (apart t later).2⟩
      obtain ⟨t, later, same⟩ := List.mem_map.1 again
      exact (apart t later).1 same

/-! ## The search -/

variable (g) in
/-- Depth-first search in pre-order from several stops, one after the other.  A stop at a node that
was seen is skipped; at any other, what lies below is searched before the next one.  The nodes seen
before and after are `seen` and `seen'`. -/
inductive Searches : List (Stop g.size) → List (Fin g.size) → List (Stop g.size) →
    List (Fin g.size) → Prop
  | done {seen : List (Fin g.size)} : Searches [] seen [] seen
  | skip {s : Stop g.size} {stops found : List (Stop g.size)} {seen seen' : List (Fin g.size)}
      (old : s.node ∈ seen) (rest : Searches stops seen found seen') :
      Searches (s :: stops) seen found seen'
  | visit {s : Stop g.size} {stops inner found : List (Stop g.size)}
      {seen seen' seen'' : List (Fin g.size)} (new : s.node ∉ seen)
      (below : Searches (g.stopsBelow s) (s.node :: seen) inner seen')
      (rest : Searches stops seen' found seen'') :
      Searches (s :: stops) seen (s :: (inner ++ found)) seen''

namespace Searches

variable {stops found : List (Stop g.size)} {seen seen' : List (Fin g.size)}

/-- A search finds one thing only. -/
theorem unique (search : g.Searches stops seen found seen') :
    ∀ {found' : List (Stop g.size)} {seen'' : List (Fin g.size)},
      g.Searches stops seen found' seen'' → found = found' ∧ seen' = seen'' := by
  induction search with
  | done =>
      rintro _ _ ⟨⟩
      exact ⟨rfl, rfl⟩
  | skip old rest ih =>
      intro _ _ other
      cases other with
      | skip _ rest' => exact ih rest'
      | visit new => exact absurd old new
  | visit new below rest ihBelow ihRest =>
      intro _ _ other
      cases other with
      | skip old => exact absurd old new
      | visit _ below' rest' =>
          obtain ⟨rfl, rfl⟩ := ihBelow below'
          obtain ⟨rfl, rfl⟩ := ihRest rest'
          exact ⟨rfl, rfl⟩

theorem keeps (search : g.Searches stops seen found seen') : ∀ i ∈ seen, i ∈ seen' := by
  induction search with
  | done => exact fun _ old => old
  | skip _ _ ih => exact ih
  | visit _ _ _ ihBelow ihRest =>
      exact fun i old => ihRest i (ihBelow i (List.mem_cons_of_mem _ old))

/-- A loop does what a search from the top of its stack does, and then the rest. -/
theorem runs (search : g.Searches stops seen found seen') :
    ∀ {stack later : List (Stop g.size)}, g.Runs stack seen' later →
      g.Runs (stops ++ stack) seen (found ++ later) := by
  induction search with
  | done => exact fun rest => rest
  | skip old _ ih => exact fun rest => .skip old (ih rest)
  | visit new _ _ ihBelow ihRest =>
      intro stack later rest
      rw [List.cons_append, List.cons_append, List.append_assoc]
      exact .visit new (ihBelow (ihRest rest))

end Searches

variable (g) in
/-- How many nodes are not yet seen. -/
def unseen (seen : List (Fin g.size)) : Nat :=
  seen.toFinsetᶜ.card

theorem unseen_le {seen seen' : List (Fin g.size)} (kept : ∀ i ∈ seen, i ∈ seen') :
    g.unseen seen' ≤ g.unseen seen :=
  Finset.card_le_card (Finset.compl_subset_compl.2 fun i => by simpa using kept i)

theorem unseen_cons_lt {i : Fin g.size} {seen : List (Fin g.size)} (new : i ∉ seen) :
    g.unseen (i :: seen) < g.unseen seen := by
  have more : seen.toFinset ⊂ (i :: seen).toFinset := by
    rw [List.toFinset_cons]
    exact Finset.ssubset_insert (by simpa using new)
  exact Finset.card_lt_card (Finset.compl_ssubset_compl.2 more)

/-- Every search ends: along the stops, and below a stop because fewer nodes are unseen there. -/
theorem exists_search (n : Nat) : ∀ (stops : List (Stop g.size)) (seen : List (Fin g.size)),
    g.unseen seen ≤ n → ∃ found seen', g.Searches stops seen found seen' := by
  induction n using Nat.strong_induction_on with
  | _ n smaller =>
      intro stops
      induction stops with
      | nil => exact fun seen _ => ⟨[], seen, .done⟩
      | cons s stops ih =>
          intro seen bound
          by_cases old : s.node ∈ seen
          · obtain ⟨found, seen', rest⟩ := ih seen bound
            exact ⟨found, seen', .skip old rest⟩
          · obtain ⟨inner, seen', below⟩ := smaller _ ((unseen_cons_lt old).trans_le bound)
              (g.stopsBelow s) (s.node :: seen) le_rfl
            have kept := unseen_le fun i old => below.keeps i (List.mem_cons_of_mem _ old)
            obtain ⟨found, seen'', rest⟩ := ih seen' (kept.trans bound)
            exact ⟨_, seen'', .visit old below rest⟩

/-! ## The walk -/

/-- The walk is a loop that ends, and it visits what the search finds. -/
theorem stops_found :
    g.Runs [g.start] [] g.stops ∧ ∃ seen, g.Searches [g.start] [] g.stops seen := by
  obtain ⟨found, seen, search⟩ := exists_search (g.unseen []) [g.start] [] le_rfl
  have runs : g.Runs [g.start] [] found := by simpa using search.runs .done
  have equal : g.stops = found :=
    runs.stopsFrom_eq (by rw [edgesAhead_nil, List.length_singleton, add_comm])
  rw [equal]
  exact ⟨runs, seen, search⟩

/-- More fuel makes no difference. -/
theorem stopsFrom_of_le {fuel : Nat} (enough : g.edgeCount + 1 ≤ fuel) :
    g.stopsFrom fuel [g.start] [] = g.stops :=
  stops_found.1.stopsFrom_eq (by rwa [edgesAhead_nil, List.length_singleton, add_comm])

/-- In a tree the walk is that of the formula: both see the same outline in the same order. -/
theorem walk_eq_visits (tree : g.OnePath) {e : Expr} (same : e.outline = g.outline) :
    g.walk = e.visits :=
  (walk_lists tree).eq_of_ordered (same ▸ e.visits_list) walk_ordered (e.visitsFrom_ordered [] none)

variable (g) in
/-- What the walk of a graph promises, shared nodes and cycles included. -/
structure DepthFirst : Prop where
  /-- The loop ends with an empty stack. -/
  ends : g.Runs [g.start] [] g.stops
  /-- The fuel plays no part. -/
  fueled : ∀ fuel, g.edgeCount + 1 ≤ fuel → g.stopsFrom fuel [g.start] [] = g.stops
  /-- The search by recursion finds one thing, which is the walk. -/
  searched : ∀ found, (∃ seen, g.Searches [g.start] [] found seen) ↔ found = g.stops
  once : (g.stops.map Stop.node).Nodup
  reached : ∀ i, i ∈ g.stops.map Stop.node ↔ ∃ p, g.below g.root p = some i
  located : ∀ s ∈ g.stops, g.Located s
  shown : g.walk.map (fun v => (v.path, v.depth)) = g.stops.map fun s => (s.path, s.depth)
  /-- In a tree the paths are all paths, in lexicographic order. -/
  ordered : g.OnePath → (g.stops.map Stop.path).Pairwise (· < ·) ∧
    ∀ p, p ∈ g.stops.map Stop.path ↔ (g.below g.root p).isSome
  /-- A formula that unfolds the tree has the same visits. -/
  unfolded : g.OnePath → ∀ e : Expr, e.outline = g.outline → g.walk = e.visits

variable (g) in
theorem walk_depthFirst : g.DepthFirst where
  ends := stops_found.1
  fueled _ enough := stopsFrom_of_le enough
  searched found := by
    obtain ⟨seen, search⟩ := (stops_found (g := g)).2
    constructor
    · rintro ⟨seen', other⟩
      exact (search.unique other).1.symm
    · rintro rfl
      exact ⟨seen, search⟩
  once := stops_found.1.once.1
  reached _ := mem_stops
  located := stops_located
  shown := by
    rw [walk, List.map_map]
    refine List.map_congr_left fun s member => ?_
    rw [(stops_located s member).depth]
    rfl
  ordered tree := by
    refine ⟨stops_ordered, fun p => ?_⟩
    rw [List.mem_map, Option.isSome_iff_exists]
    constructor
    · rintro ⟨s, member, rfl⟩
      exact ⟨s.node, (stops_located s member).arrives⟩
    · rintro ⟨i, arrives⟩
      exact exists_stop tree arrives
  unfolded tree _ same := walk_eq_visits tree same

/-- A node that is also below its sibling is visited there, before its own place on the stack. -/
example : (stops ⟨3, ![⟨.apply "add" none, [1, 2]⟩, ⟨.apply "rank" none, [2]⟩,
    ⟨.field "close", []⟩], 0⟩).map Stop.path = [[], [0], [0, 0]] := by
  decide

end Graph

end AlphaFoundry
