/-
# AlphaFoundry.Proofs.Expr.Reach -- which nodes the two traversals of a graph meet

A graph has an outline of its own: a path leads from the root to a node, and several paths may lead
to one.  If each node is reached by one path only, the graph is a tree; then every encounter is a
fresh one, and both the encounters and the walk show the outline.  Conversely, encounters that are
all fresh rule out a second path.

The walk keeps a stack.  What carries its completeness is that an argument of a seen node is seen or
still on the stack; its fuel suffices because the entries on the stack and the edges of unseen nodes
together get fewer with every step.
-/
import Mathlib
import AlphaFoundry.Proofs.Expr.Outline

namespace AlphaFoundry

set_option autoImplicit false

namespace Graph

variable (g : Graph)

/-- The node that a path leads to, seen from a node. -/
def below (i : Fin g.size) : Path → Option (Fin g.size)
  | [] => some i
  | n :: p => (g.childrenOf i)[n]?.bind fun k => below k p

def outline : Outline := fun p =>
  (g.below g.root p).map fun i => (g.node i).label

/-- No node is reached from the root in two ways. -/
def OnePath : Prop :=
  ∀ p q i, g.below g.root p = some i → g.below g.root q = some i → p = q

variable {g}

theorem below_cons {i : Fin g.size} {n : Nat} {p : Path} :
    g.below i (n :: p) = (g.childrenOf i)[n]?.bind fun k => g.below k p := rfl

theorem below_append (i : Fin g.size) (p q : Path) :
    g.below i (p ++ q) = (g.below i p).bind fun j => g.below j q := by
  induction p generalizing i with
  | nil => rfl
  | cons n p ih =>
      rw [List.cons_append, below_cons, below_cons, Option.bind_assoc]
      exact Option.bind_congr fun k _ => ih k

/-- What contains the arguments of its nodes contains everything below them. -/
theorem below_mem {closed : Set (Fin g.size)}
    (step : ∀ i ∈ closed, ∀ k ∈ g.childrenOf i, k ∈ closed) :
    ∀ {p : Path} {i j : Fin g.size}, i ∈ closed → g.below i p = some j → j ∈ closed := by
  intro p
  induction p with
  | nil =>
      rintro i j member ⟨⟩
      exact member
  | cons n p ih =>
      intro i j member arrives
      rw [below_cons, Option.bind_eq_some_iff] at arrives
      obtain ⟨k, child, arrives⟩ := arrives
      exact ih (step i member k (List.mem_of_getElem? child)) arrives

/-! ## Where a traversal stands -/

variable (g) in
/-- A path from the root to a node, with the operator above the node. -/
structure Leads (p : Path) (i : Fin g.size) (parent : Option String) : Prop where
  arrives : g.below g.root p = some i
  parent : parent = g.outline.above p

theorem leads_root : g.Leads [] g.root none :=
  ⟨rfl, by simp [Outline.above]⟩

theorem Leads.outline {p : Path} {i : Fin g.size} {parent : Option String}
    (leads : g.Leads p i parent) : g.outline p = some (g.node i).label := by
  rw [Graph.outline, leads.arrives, Option.map_some]

theorem Leads.child {p : Path} {i k : Fin g.size} {parent : Option String} {n : Nat}
    (leads : g.Leads p i parent) (child : (g.childrenOf i)[n]? = some k) :
    g.Leads (p ++ [n]) k (g.node i).label.operator? := by
  refine ⟨?_, ?_⟩
  · rw [below_append, leads.arrives, Option.bind_some, below_cons, child]
    rfl
  · rw [Outline.above, if_neg (by simp), List.dropLast_concat, leads.outline]
    rfl

theorem Leads.sees {p : Path} {i : Fin g.size} {parent : Option String}
    (leads : g.Leads p i parent) : g.outline.Sees (g.visitOf i p parent) where
  label := leads.outline
  children n := by
    show ((g.childrenOf i).map fun k => (g.node k).label)[n]? = g.outline (p ++ [n])
    rw [List.getElem?_map, Graph.outline, below_append, leads.arrives, Option.bind_some, below_cons]
    cases (g.childrenOf i)[n]? <;> rfl
  parent := leads.parent

/-! ## The walk -/

variable (g) in
/-- A stop is where its path leads, at the depth of the path and below the node before it. -/
structure Located (s : Stop g.size) : Prop where
  arrives : g.below g.root s.path = some s.node
  depth : s.depth = s.path.length + 1
  parent : s.parent = if s.path = [] then none else g.below g.root s.path.dropLast

theorem mem_stopsBelow {s t : Stop g.size} :
    t ∈ g.stopsBelow s ↔ ∃ n, (g.childrenOf s.node)[n]? = some t.node ∧ t.path = s.path ++ [n] ∧
      t.depth = s.depth + 1 ∧ t.parent = some s.node := by
  unfold stopsBelow
  simp only [List.mem_map, Prod.exists, List.mem_zipIdx_iff_getElem?]
  constructor
  · rintro ⟨k, n, child, rfl⟩
    exact ⟨n, child, rfl, rfl, rfl⟩
  · rintro ⟨n, child, path, depth, parent⟩
    exact ⟨t.node, n, child, by rw [← path, ← depth, ← parent]⟩

theorem length_stopsBelow (s : Stop g.size) :
    (g.stopsBelow s).length = (g.childrenOf s.node).length := by
  simp [stopsBelow]

theorem located_start : g.Located g.start :=
  ⟨rfl, rfl, rfl⟩

theorem Located.below {s : Stop g.size} (located : g.Located s) :
    ∀ t ∈ g.stopsBelow s, g.Located t := by
  intro t member
  obtain ⟨n, child, path, depth, parent⟩ := mem_stopsBelow.1 member
  refine ⟨?_, ?_, ?_⟩
  · rw [path, below_append, located.arrives, Option.bind_some, below_cons, child]
    rfl
  · rw [depth, path, located.depth, List.length_append, List.length_singleton]
  · rw [parent, path, if_neg (by simp), List.dropLast_concat, located.arrives]

theorem Located.leads {s : Stop g.size} (located : g.Located s) :
    g.Leads s.path s.node (s.parent.bind fun i => (g.node i).label.operator?) := by
  refine ⟨located.arrives, ?_⟩
  rw [located.parent, Outline.above, apply_ite (Option.bind · _), Graph.outline, Option.bind_map]
  rfl

/-- Every stop of the walk is where its path leads. -/
theorem stopsFrom_located : ∀ {fuel : Nat} {stack : List (Stop g.size)}
    {seen : List (Fin g.size)}, (∀ s ∈ stack, g.Located s) →
      ∀ s ∈ g.stopsFrom fuel stack seen, g.Located s
  | 0, _, _, _, s, stopped => by simp [stopsFrom] at stopped
  | _ + 1, [], _, _, s, stopped => by simp [stopsFrom] at stopped
  | fuel + 1, t :: stack, seen, located, s, stopped => by
      obtain ⟨first, others⟩ := List.forall_mem_cons.1 located
      rw [stopsFrom] at stopped
      split at stopped
      · exact stopsFrom_located others s stopped
      · rcases List.mem_cons.1 stopped with rfl | stopped
        · exact first
        · exact stopsFrom_located (List.forall_mem_append.2 ⟨first.below, others⟩) s stopped

theorem stops_located : ∀ s ∈ g.stops, g.Located s :=
  stopsFrom_located (List.forall_mem_singleton.2 located_start)

theorem stopsBelow_ordered (s : Stop g.size) :
    (g.stopsBelow s).Pairwise fun t u => t.path.LeftOf u.path := by
  rw [stopsBelow, List.pairwise_map]
  exact (zipIdx_ordered _).imp fun less => .of_lt s.path less

/-- The walk stops at what the stops of the stack lead to, one after the other. -/
theorem stopsFrom_ordered : ∀ {fuel : Nat} {stack : List (Stop g.size)}
    {seen : List (Fin g.size)}, (stack.Pairwise fun s t => s.path.LeftOf t.path) →
      ((g.stopsFrom fuel stack seen).map Stop.path).Pairwise (· < ·) ∧
        ∀ s ∈ g.stopsFrom fuel stack seen, ∃ t ∈ stack, t.path <+: s.path
  | 0, _, _, _ => by simp [stopsFrom]
  | _ + 1, [], _, _ => by simp [stopsFrom]
  | fuel + 1, t :: stack, seen, ordered => by
      obtain ⟨first, others⟩ := List.pairwise_cons.1 ordered
      rw [stopsFrom]
      split
      · obtain ⟨sorted, within⟩ := stopsFrom_ordered others
        refine ⟨sorted, fun s stopped => ?_⟩
        obtain ⟨u, member, longer⟩ := within s stopped
        exact ⟨u, List.mem_cons_of_mem _ member, longer⟩
      · have lower (u : Stop g.size) (member : u ∈ g.stopsBelow t) :
            ∃ n, u.path = t.path ++ [n] := by
          obtain ⟨n, -, path, -⟩ := mem_stopsBelow.1 member
          exact ⟨n, path⟩
        have next : (g.stopsBelow t ++ stack).Pairwise fun s u => s.path.LeftOf u.path := by
          refine List.pairwise_append.2 ⟨stopsBelow_ordered t, others, fun u below v member => ?_⟩
          obtain ⟨n, path⟩ := lower u below
          exact (first v member).mono (path ▸ List.prefix_append _ _) List.prefix_rfl
        have after (s : Stop g.size)
            (stopped : s ∈ g.stopsFrom fuel (g.stopsBelow t ++ stack) (t.node :: seen)) :
            t.path < s.path ∧ ∃ u ∈ t :: stack, u.path <+: s.path := by
          obtain ⟨u, member, longer⟩ := (stopsFrom_ordered next).2 s stopped
          rcases List.mem_append.1 member with below | member
          · obtain ⟨n, path⟩ := lower u below
            rw [path] at longer
            exact ⟨Path.lt_of_prefix longer, t, List.mem_cons_self,
              (List.prefix_append _ _).trans longer⟩
          · exact ⟨((first u member).mono List.prefix_rfl longer).lt, u,
              List.mem_cons_of_mem _ member, longer⟩
        refine ⟨?_, List.forall_mem_cons.2 ⟨⟨t, List.mem_cons_self, List.prefix_rfl⟩,
          fun s stopped => (after s stopped).2⟩⟩
        rw [List.map_cons, List.pairwise_cons]
        exact ⟨List.forall_mem_map.2 fun s stopped => (after s stopped).1,
          (stopsFrom_ordered next).1⟩

theorem stops_ordered : (g.stops.map Stop.path).Pairwise (· < ·) :=
  (stopsFrom_ordered (List.pairwise_singleton _ _)).1

variable (g) in
theorem walk_paths : g.walk.map Visit.path = g.stops.map Stop.path := by
  rw [walk, List.map_map]
  rfl

/-- The walk is in pre-order. -/
theorem walk_ordered : (g.walk.map Visit.path).Pairwise (· < ·) := by
  rw [walk_paths]
  exact stops_ordered

variable (g) in
/-- The edges of nodes that are not yet seen. -/
def edgesAhead (seen : List (Fin g.size)) : Nat :=
  ∑ i, if i ∈ seen then 0 else (g.childrenOf i).length

theorem edgesAhead_nil : g.edgesAhead [] = g.edgeCount := by
  unfold edgesAhead edgeCount
  rw [Fin.sum_univ_def, List.sum_eq_foldl, List.foldl_map]
  simp

theorem edgesAhead_cons {i : Fin g.size} {seen : List (Fin g.size)} (fresh : i ∉ seen) :
    g.edgesAhead seen = (g.childrenOf i).length + g.edgesAhead (i :: seen) := by
  unfold edgesAhead
  rw [← Finset.add_sum_erase _ _ (Finset.mem_univ i),
    ← Finset.add_sum_erase _ (fun j => if j ∈ i :: seen then 0 else _) (Finset.mem_univ i)]
  rw [if_neg fresh, if_pos List.mem_cons_self, zero_add]
  congr 1
  refine Finset.sum_congr rfl fun j other => ?_
  have other : j ≠ i := Finset.ne_of_mem_erase other
  simp [other]

variable (g) in
/-- The nodes seen before and those that the walk stops at contain, with a node, its arguments. -/
def Closes (fuel : Nat) (stack : List (Stop g.size)) (seen : List (Fin g.size)) : Prop :=
  ∃ closed : Set (Fin g.size), (∀ i ∈ seen, i ∈ closed) ∧ (∀ s ∈ stack, s.node ∈ closed) ∧
    (∀ i ∈ closed, ∀ k ∈ g.childrenOf i, k ∈ closed) ∧
    ∀ i ∈ closed, i ∈ seen ∨ i ∈ (g.stopsFrom fuel stack seen).map Stop.node

/-- An argument of a seen node is seen or on the stack. -/
def Frontier (stack : List (Stop g.size)) (seen : List (Fin g.size)) : Prop :=
  ∀ i ∈ seen, ∀ k ∈ g.childrenOf i, k ∈ seen ∨ ∃ s ∈ stack, s.node = k

theorem closes_nil {fuel : Nat} {seen : List (Fin g.size)} (frontier : Frontier [] seen) :
    g.Closes fuel [] seen :=
  ⟨{i | i ∈ seen}, fun _ old => old, by simp, fun i old k child => by
    simpa using frontier i old k child, fun _ old => .inl old⟩

theorem Frontier.skip {s : Stop g.size} {stack : List (Stop g.size)}
    {seen : List (Fin g.size)} (frontier : Frontier (s :: stack) seen) (old : s.node ∈ seen) :
    Frontier stack seen := by
  intro i member k child
  rcases frontier i member k child with seen | ⟨t, member, rfl⟩
  · exact .inl seen
  · rcases List.mem_cons.1 member with rfl | member
    · exact .inl old
    · exact .inr ⟨t, member, rfl⟩

theorem Frontier.visit {s : Stop g.size} {stack : List (Stop g.size)}
    {seen : List (Fin g.size)} (frontier : Frontier (s :: stack) seen) :
    Frontier (g.stopsBelow s ++ stack) (s.node :: seen) := by
  intro i member k child
  rcases List.mem_cons.1 member with rfl | member
  · obtain ⟨n, bound, rfl⟩ := List.getElem_of_mem child
    exact .inr ⟨⟨_, s.path ++ [n], s.depth + 1, some s.node⟩, List.mem_append_left _
      (mem_stopsBelow.2 ⟨n, List.getElem?_eq_getElem bound, rfl, rfl, rfl⟩), rfl⟩
  · rcases frontier i member k child with seen | ⟨t, member, rfl⟩
    · exact .inl (List.mem_cons_of_mem _ seen)
    · rcases List.mem_cons.1 member with rfl | member
      · exact .inl List.mem_cons_self
      · exact .inr ⟨t, List.mem_append_right _ member, rfl⟩

/-- With enough fuel the walk closes. -/
theorem stopsFrom_closes : ∀ {fuel : Nat} {stack : List (Stop g.size)} {seen : List (Fin g.size)},
    Frontier stack seen → stack.length + g.edgesAhead seen ≤ fuel → g.Closes fuel stack seen
  | _, [], seen, frontier, _ => closes_nil frontier
  | 0, s :: stack, seen, _, enough => by simp at enough
  | fuel + 1, s :: stack, seen, frontier, enough => by
      rw [List.length_cons] at enough
      unfold Closes
      rw [stopsFrom]
      split
      · rename_i old
        have old : s.node ∈ seen := by simpa using old
        have next : g.Closes fuel stack seen := stopsFrom_closes (frontier.skip old) (by omega)
        obtain ⟨closed, kept, stacked, step, stopped⟩ := next
        exact ⟨closed, kept, List.forall_mem_cons.2 ⟨kept _ old, stacked⟩, step, stopped⟩
      · rename_i fresh
        have fewer := edgesAhead_cons (show s.node ∉ seen by simpa using fresh)
        have next : g.Closes fuel (g.stopsBelow s ++ stack) (s.node :: seen) :=
          stopsFrom_closes frontier.visit (by rw [List.length_append, length_stopsBelow]; omega)
        obtain ⟨closed, kept, stacked, step, stopped⟩ := next
        obtain ⟨-, below⟩ := List.forall_mem_append.1 stacked
        refine ⟨closed, fun i old => kept i (List.mem_cons_of_mem _ old),
          List.forall_mem_cons.2 ⟨kept _ List.mem_cons_self, below⟩, step, fun i member => ?_⟩
        rw [List.map_cons]
        rcases stopped i member with old | later
        · rcases List.mem_cons.1 old with rfl | old
          · exact .inr List.mem_cons_self
          · exact .inl old
        · exact .inr (List.mem_cons_of_mem _ later)

/-- The walk stops at every node that a path leads to, and at no other. -/
theorem mem_stops {i : Fin g.size} :
    i ∈ g.stops.map Stop.node ↔ ∃ p, g.below g.root p = some i := by
  constructor
  · intro stopped
    obtain ⟨s, member, rfl⟩ := List.mem_map.1 stopped
    exact ⟨s.path, (stops_located s member).arrives⟩
  · rintro ⟨p, arrives⟩
    have all : g.Closes (g.edgeCount + 1) [g.start] [] :=
      stopsFrom_closes (by simp [Frontier])
        (by rw [edgesAhead_nil, List.length_singleton]; omega)
    obtain ⟨closed, -, root, step, stopped⟩ := all
    have member := below_mem step (root _ List.mem_cons_self) arrives
    exact (stopped i member).resolve_left List.not_mem_nil

/-- The walk of a tree stops at every path. -/
theorem exists_stop (tree : g.OnePath) {p : Path} {i : Fin g.size}
    (arrives : g.below g.root p = some i) : ∃ s ∈ g.stops, s.path = p := by
  obtain ⟨s, member, rfl⟩ := List.mem_map.1 (mem_stops.2 ⟨p, arrives⟩)
  exact ⟨s, member, tree _ _ _ (stops_located s member).arrives arrives⟩

/-- The walk of a tree lists its outline. -/
theorem walk_lists (tree : g.OnePath) : g.outline.ListedBy g.walk where
  sees v visited := by
    obtain ⟨s, member, rfl⟩ := List.mem_map.1 visited
    exact (stops_located s member).leads.sees
  covers p labelled := by
    rw [outline, Option.isSome_map] at labelled
    obtain ⟨i, arrives⟩ := Option.isSome_iff_exists.1 labelled
    obtain ⟨s, member, path⟩ := exists_stop tree arrives
    exact ⟨_, List.mem_map_of_mem member, path⟩
  once := walk_ordered.imp ne_of_lt

/-! ## The encounters -/

variable (g) in
/-- Follow several edges out of a node, one after the other. -/
def followAll (fuel : Nat) (path : Path) (parent : Option String) (above : List (Fin g.size)) :
    List (Fin g.size × Nat) → List (Fin g.size) → List Encounter × List (Fin g.size)
  | [], seen => ([], seen)
  | (k, n) :: edges, seen =>
    let (found, seen) := g.follow fuel k (path ++ [n]) parent above seen
    let (more, seen) := followAll fuel path parent above edges seen
    (found ++ more, seen)

theorem foldl_follow {fuel : Nat} {path : Path} {parent : Option String}
    {above : List (Fin g.size)} (edges : List (Fin g.size × Nat)) :
    ∀ (found : List Encounter) (seen : List (Fin g.size)),
      edges.foldl
        (fun (found, seen) (k, n) =>
          let (more, seen) := g.follow fuel k (path ++ [n]) parent above seen
          (found ++ more, seen))
        (found, seen) =
      (found ++ (g.followAll fuel path parent above edges seen).1,
        (g.followAll fuel path parent above edges seen).2) := by
  induction edges with
  | nil => simp [followAll]
  | cons edge edges ih =>
      obtain ⟨k, n⟩ := edge
      intro found seen
      rw [List.foldl_cons, ih, followAll]
      simp

/-- A node that is met again is a cycle or shared; any other is fresh, and its edges follow. -/
theorem follow_succ (fuel : Nat) (i : Fin g.size) (path : Path) (parent : Option String)
    (above seen : List (Fin g.size)) :
    g.follow (fuel + 1) i path parent above seen =
      if i ∈ above then ([.cycle path], seen)
      else if i ∈ seen then ([.shared path], seen)
      else
        let below := g.followAll fuel path (g.node i).label.operator? (i :: above)
          (g.childrenOf i).zipIdx (i :: seen)
        (.fresh (g.visitOf i path parent) :: below.1, below.2) := by
  rw [follow]
  simp only [List.contains_iff_mem, foldl_follow, List.singleton_append]

/-- Fresh encounters show the nodes that their paths lead to. -/
theorem follow_leads : ∀ {fuel : Nat} {i : Fin g.size} {path : Path} {parent : Option String}
    {above seen : List (Fin g.size)}, g.Leads path i parent →
      ∀ v, .fresh v ∈ (g.follow fuel i path parent above seen).1 → g.outline.Sees v
  | 0, _, _, _, _, _, _, v, met => by simp [follow] at met
  | fuel + 1, i, path, parent, above, seen, leads, v, met => by
      have all : ∀ (edges : List (Fin g.size × Nat)) (seen : List (Fin g.size)),
          (∀ edge ∈ edges, (g.childrenOf i)[edge.2]? = some edge.1) →
          .fresh v ∈ (g.followAll fuel path (g.node i).label.operator? (i :: above) edges seen).1 →
            g.outline.Sees v := by
        intro edges
        induction edges with
        | nil => intro seen _ met; simp [followAll] at met
        | cons edge edges ih =>
            obtain ⟨k, n⟩ := edge
            intro seen children met
            obtain ⟨child, others⟩ := List.forall_mem_cons.1 children
            rcases List.mem_append.1 met with first | later
            · exact follow_leads (leads.child child) v first
            · exact ih _ others later
      rw [follow_succ] at met
      split at met
      · simp at met
      · split at met
        · simp at met
        · rcases List.mem_cons.1 met with same | met
          · obtain rfl := Encounter.fresh.inj same
            exact leads.sees
          · exact all _ _ (fun edge member => List.mem_zipIdx_iff_getElem?.1 member) met

theorem followAll_grows {fuel : Nat} {path : Path} {parent : Option String}
    {above : List (Fin g.size)}
    (each : ∀ k p seen, ∀ j ∈ seen, j ∈ (g.follow fuel k p parent above seen).2) :
    ∀ (edges : List (Fin g.size × Nat)) (seen : List (Fin g.size)), ∀ j ∈ seen,
      j ∈ (g.followAll fuel path parent above edges seen).2
  | [], _, _, old => old
  | (k, n) :: edges, seen, j, old =>
      followAll_grows each edges _ j (each k (path ++ [n]) seen j old)

/-- Nothing that was seen is forgotten. -/
theorem follow_grows : ∀ {fuel : Nat} {i : Fin g.size} {path : Path} {parent : Option String}
    {above seen : List (Fin g.size)}, ∀ j ∈ seen,
      j ∈ (g.follow fuel i path parent above seen).2
  | 0, _, _, _, _, _, _, old => old
  | fuel + 1, i, path, parent, above, seen, j, old => by
      rw [follow_succ]
      split
      · exact old
      · split
        · exact old
        · exact followAll_grows (fun _ _ _ => follow_grows) _ _ j (List.mem_cons_of_mem _ old)

theorem followAll_adds {fuel : Nat} {path : Path} {parent : Option String}
    {above : List (Fin g.size)} {edges : List (Fin g.size × Nat)}
    (each : ∀ edge ∈ edges, ∀ seen,
      ∀ j ∈ (g.follow fuel edge.1 (path ++ [edge.2]) parent above seen).2,
        j ∈ seen ∨ ∃ q, path ++ [edge.2] <+: q ∧ g.below g.root q = some j) :
    ∀ seen, ∀ j ∈ (g.followAll fuel path parent above edges seen).2,
      j ∈ seen ∨ ∃ q, path <+: q ∧ g.below g.root q = some j := by
  induction edges with
  | nil => exact fun _ _ old => .inl old
  | cons edge edges ih =>
      obtain ⟨first, others⟩ := List.forall_mem_cons.1 each
      intro seen j added
      rcases ih others _ j added with early | found
      · rcases first seen j early with old | ⟨q, longer, arrives⟩
        · exact .inl old
        · exact .inr ⟨q, (List.prefix_append _ _).trans longer, arrives⟩
      · exact .inr found

/-- What is newly seen lies at paths that extend the current one. -/
theorem follow_adds : ∀ {fuel : Nat} {i : Fin g.size} {path : Path} {parent : Option String}
    {above seen : List (Fin g.size)}, g.Leads path i parent →
      ∀ j ∈ (g.follow fuel i path parent above seen).2,
        j ∈ seen ∨ ∃ q, path <+: q ∧ g.below g.root q = some j
  | 0, _, _, _, _, _, _, _, old => .inl old
  | fuel + 1, i, path, parent, above, seen, leads, j, added => by
      rw [follow_succ] at added
      split at added
      · exact .inl added
      · split at added
        · exact .inl added
        · rcases followAll_adds (fun edge member seen => follow_adds
            (leads.child (List.mem_zipIdx_iff_getElem?.1 member))) _ j added with old | found
          · rcases List.mem_cons.1 old with rfl | old
            · exact .inr ⟨path, List.prefix_rfl, leads.arrives⟩
            · exact .inl old
          · exact .inr found

theorem eq_of_prefixes {path q : Path} {m n : Nat} (left : path ++ [m] <+: q)
    (right : path ++ [n] <+: q) : m = n := by
  have equal := (List.prefix_of_prefix_length_le left right (by simp)).eq_of_length (by simp)
  simpa using equal

/-- Siblings are met afresh if each is: what lies below the first ones extends no path of the
others. -/
theorem followAll_fresh {fuel : Nat} {i : Fin g.size} {path : Path} {above : List (Fin g.size)}
    (each : ∀ {k : Fin g.size} {n : Nat} {seen : List (Fin g.size)},
      g.Leads (path ++ [n]) k (g.node i).label.operator? → (∀ j ∈ above, j ∈ seen) →
      (∀ j ∈ seen, ∃ q, g.below g.root q = some j ∧ ¬path ++ [n] <+: q) →
      ∀ e ∈ (g.follow fuel k (path ++ [n]) (g.node i).label.operator? above seen).1,
        ∃ v, e = .fresh v) :
    ∀ (edges : List (Fin g.size)) (m : Nat) (seen : List (Fin g.size)),
      (∀ edge ∈ edges.zipIdx m, g.Leads (path ++ [edge.2]) edge.1 (g.node i).label.operator?) →
      (∀ j ∈ above, j ∈ seen) →
      (∀ j ∈ seen, ∃ q, g.below g.root q = some j ∧ ∀ n, m ≤ n → ¬path ++ [n] <+: q) →
      ∀ e ∈ (g.followAll fuel path (g.node i).label.operator? above (edges.zipIdx m) seen).1,
        ∃ v, e = .fresh v := by
  intro edges
  induction edges with
  | nil => intro m seen _ _ _ e met; simp [followAll] at met
  | cons k ks ih =>
      intro m seen leads kept apart e met
      rw [List.zipIdx_cons] at leads met
      obtain ⟨child, others⟩ := List.forall_mem_cons.1 leads
      rcases List.mem_append.1 met with first | later
      · refine each child kept (fun j old => ?_) e first
        obtain ⟨q, arrives, other⟩ := apart j old
        exact ⟨q, arrives, other m le_rfl⟩
      · refine ih (m + 1) _ others (fun j old => follow_grows j (kept j old)) ?_ e later
        intro j added
        rcases follow_adds child j added with old | ⟨q, longer, arrives⟩
        · obtain ⟨q, arrives, other⟩ := apart j old
          exact ⟨q, arrives, fun n bound => other n (by omega)⟩
        · refine ⟨q, arrives, fun n bound again => ?_⟩
          have := eq_of_prefixes longer again
          omega

/-- In a tree no edge leads back: what was seen so far lies at paths that do not extend the current
one. -/
theorem follow_fresh (tree : g.OnePath) : ∀ {fuel : Nat} {i : Fin g.size} {path : Path}
    {parent : Option String} {above seen : List (Fin g.size)}, g.Leads path i parent →
      (∀ j ∈ above, j ∈ seen) →
      (∀ j ∈ seen, ∃ q, g.below g.root q = some j ∧ ¬path <+: q) →
        ∀ e ∈ (g.follow fuel i path parent above seen).1, ∃ v, e = .fresh v
  | 0, _, _, _, _, _, _, _, _, e, met => by simp [follow] at met
  | fuel + 1, i, path, parent, above, seen, leads, kept, apart, e, met => by
      have new : i ∉ seen := by
        intro old
        obtain ⟨q, arrives, other⟩ := apart i old
        exact other (tree q path i arrives leads.arrives ▸ List.prefix_rfl)
      rw [follow_succ, if_neg (fun old => new (kept i old)), if_neg new] at met
      rcases List.mem_cons.1 met with same | met
      · exact ⟨_, same⟩
      · refine followAll_fresh (follow_fresh tree) _ 0 _ (fun edge member => ?_) ?_ ?_ e met
        · exact leads.child (List.mem_zipIdx_iff_getElem?.1 member)
        · intro j old
          rcases List.mem_cons.1 old with rfl | old
          · exact List.mem_cons_self
          · exact List.mem_cons_of_mem _ (kept j old)
        · intro j old
          rcases List.mem_cons.1 old with rfl | old
          · refine ⟨path, leads.arrives, fun n _ longer => ?_⟩
            have := longer.length_le
            simp at this
          · obtain ⟨q, arrives, other⟩ := apart j old
            exact ⟨q, arrives, fun n _ longer => other ((List.prefix_append _ _).trans longer)⟩

variable (g) in
/-- The nodes below a node are all new, each met once and on its only path. -/
structure Clear (i : Fin g.size) (path : Path) (seen : List (Fin g.size))
    (out : List Encounter × List (Fin g.size)) : Prop where
  new : ∀ q j, g.below i q = some j → j ∉ seen
  kept : ∀ q j, g.below i q = some j → j ∈ out.2
  met : ∀ q j, g.below i q = some j → ∃ v, .fresh v ∈ out.1 ∧ v.path = path ++ q
  once : ∀ p q j, g.below i p = some j → g.below i q = some j → p = q

namespace Clear

variable {i : Fin g.size} {path : Path} {seen : List (Fin g.size)}
  {out : List Encounter × List (Fin g.size)}

/-- More encounters after or before, and less seen before, change nothing. -/
theorem mono (clear : g.Clear i path seen out) {fewer : List (Fin g.size)}
    {more : List Encounter × List (Fin g.size)} (less : ∀ j ∈ fewer, j ∈ seen)
    (met : ∀ e ∈ out.1, e ∈ more.1) (kept : ∀ j ∈ out.2, j ∈ more.2) :
    g.Clear i path fewer more where
  new q j arrives old := clear.new q j arrives (less j old)
  kept q j arrives := kept j (clear.kept q j arrives)
  met q j arrives := by
    obtain ⟨v, fresh, place⟩ := clear.met q j arrives
    exact ⟨v, met _ fresh, place⟩
  once := clear.once

/-- A node is clear if its children are, and nothing lies below two of them. -/
theorem of_children (new : i ∉ seen) (kept : i ∈ out.2)
    (met : ∃ v, .fresh v ∈ out.1 ∧ v.path = path)
    (clear : ∀ edge ∈ (g.childrenOf i).zipIdx,
      g.Clear edge.1 (path ++ [edge.2]) (i :: seen) out)
    (apart : ∀ left ∈ (g.childrenOf i).zipIdx, ∀ right ∈ (g.childrenOf i).zipIdx, ∀ p q j,
      g.below left.1 p = some j → g.below right.1 q = some j → left = right) :
    g.Clear i path seen out := by
  have step {n : Nat} {q : Path} {j : Fin g.size} (arrives : g.below i (n :: q) = some j) :
      ∃ k, (k, n) ∈ (g.childrenOf i).zipIdx ∧ g.below k q = some j := by
    rw [below_cons, Option.bind_eq_some_iff] at arrives
    obtain ⟨k, child, arrives⟩ := arrives
    exact ⟨k, List.mem_zipIdx_iff_getElem?.2 child, arrives⟩
  constructor
  case new =>
    rintro (_ | ⟨n, q⟩) j arrives
    · obtain rfl := Option.some.inj arrives
      exact new
    · obtain ⟨k, edge, arrives⟩ := step arrives
      exact fun old => (clear _ edge).new q j arrives (List.mem_cons_of_mem _ old)
  case kept =>
    rintro (_ | ⟨n, q⟩) j arrives
    · obtain rfl := Option.some.inj arrives
      exact kept
    · obtain ⟨k, edge, arrives⟩ := step arrives
      exact (clear _ edge).kept q j arrives
  case met =>
    rintro (_ | ⟨n, q⟩) j arrives
    · obtain ⟨v, fresh, place⟩ := met
      exact ⟨v, fresh, place.trans (List.append_nil path).symm⟩
    · obtain ⟨k, edge, arrives⟩ := step arrives
      obtain ⟨v, fresh, place⟩ := (clear _ edge).met q j arrives
      exact ⟨v, fresh, by rw [place, List.append_assoc]; rfl⟩
  case once =>
    rintro (_ | ⟨m, p⟩) (_ | ⟨n, q⟩) j left right
    · rfl
    · obtain rfl := Option.some.inj left
      obtain ⟨k, edge, right⟩ := step right
      exact absurd List.mem_cons_self ((clear _ edge).new q _ right)
    · obtain rfl := Option.some.inj right
      obtain ⟨k, edge, left⟩ := step left
      exact absurd List.mem_cons_self ((clear _ edge).new p _ left)
    · obtain ⟨k, edge, onLeft⟩ := step left
      obtain ⟨l, edge', onRight⟩ := step right
      obtain ⟨rfl, rfl⟩ := Prod.mk.inj (apart _ edge _ edge' p q j onLeft onRight)
      rw [(clear _ edge).once p q j onLeft onRight]

end Clear

/-- Siblings that are followed one after the other are clear, and nothing lies below two of them:
it would have been seen below the first. -/
theorem followAll_clear {fuel : Nat} {path : Path} {parent : Option String}
    {above : List (Fin g.size)}
    (each : ∀ k p seen, (∀ e ∈ (g.follow fuel k p parent above seen).1, ∃ v, e = .fresh v) →
      g.Clear k p seen (g.follow fuel k p parent above seen)) :
    ∀ (edges : List (Fin g.size × Nat)) (seen : List (Fin g.size)),
      (∀ e ∈ (g.followAll fuel path parent above edges seen).1, ∃ v, e = .fresh v) →
      (∀ edge ∈ edges, g.Clear edge.1 (path ++ [edge.2]) seen
        (g.followAll fuel path parent above edges seen)) ∧
      ∀ left ∈ edges, ∀ right ∈ edges, ∀ p q j, g.below left.1 p = some j →
        g.below right.1 q = some j → left = right := by
  intro edges
  induction edges with
  | nil => simp
  | cons edge edges ih =>
      obtain ⟨k, n⟩ := edge
      intro seen fresh
      obtain ⟨first, later⟩ := List.forall_mem_append.1 fresh
      have head := each k (path ++ [n]) seen first
      obtain ⟨tail, apart⟩ := ih _ later
      refine ⟨List.forall_mem_cons.2 ⟨?_, fun edge member => ?_⟩, ?_⟩
      · exact head.mono (fun _ old => old) (fun _ met => List.mem_append_left _ met)
          (followAll_grows (fun _ _ _ => follow_grows) edges _)
      · exact (tail edge member).mono follow_grows (fun _ met => List.mem_append_right _ met)
          (fun _ kept => kept)
      · intro left hl right hr p q j arrivesLeft arrivesRight
        rcases List.mem_cons.1 hl with rfl | hl <;> rcases List.mem_cons.1 hr with rfl | hr
        · rfl
        · exact absurd (head.kept p j arrivesLeft) ((tail right hr).new q j arrivesRight)
        · exact absurd (head.kept q j arrivesRight) ((tail left hl).new p j arrivesLeft)
        · exact apart left hl right hr p q j arrivesLeft arrivesRight

/-- Encounters that are all fresh met each node once.  The nodes above are distinct, so the fuel
lasts. -/
theorem follow_clear : ∀ {fuel : Nat} {i : Fin g.size} {path : Path} {parent : Option String}
    {above seen : List (Fin g.size)}, above.Nodup → above.length + fuel = g.size + 1 →
      (∀ e ∈ (g.follow fuel i path parent above seen).1, ∃ v, e = .fresh v) →
        g.Clear i path seen (g.follow fuel i path parent above seen)
  | 0, _, _, _, above, _, distinct, enough, _ => by
      have := List.Nodup.length_le_card distinct
      rw [Fintype.card_fin] at this
      omega
  | fuel + 1, i, path, parent, above, seen, distinct, enough, fresh => by
      rw [follow_succ] at fresh ⊢
      split at fresh
      · obtain ⟨v, other⟩ := fresh _ List.mem_cons_self
        cases other
      rename_i outside
      split at fresh
      · obtain ⟨v, other⟩ := fresh _ List.mem_cons_self
        cases other
      rename_i new
      rw [if_neg outside, if_neg new]
      obtain ⟨-, fresh⟩ := List.forall_mem_cons.1 fresh
      have enough : (i :: above).length + fuel = g.size + 1 := by
        rw [List.length_cons]
        omega
      obtain ⟨clear, apart⟩ := followAll_clear
        (fun k p seen => follow_clear (List.nodup_cons.2 ⟨outside, distinct⟩) enough) _ _ fresh
      refine .of_children new ?_ ⟨_, List.mem_cons_self, rfl⟩ (fun edge member => ?_) apart
      · exact followAll_grows (fun _ _ _ => follow_grows) _ _ _ List.mem_cons_self
      · exact (clear edge member).mono (fun _ old => old)
          (fun _ met => List.mem_cons_of_mem _ met) (fun _ kept => kept)

/-- The encounters tell trees from other graphs. -/
theorem encounters_fresh_iff : (∀ e ∈ g.encounters, ∃ v, e = .fresh v) ↔ g.OnePath := by
  constructor
  · intro fresh
    exact (follow_clear List.nodup_nil (by simp) fresh).once
  · intro tree
    exact follow_fresh tree leads_root (by simp) (by simp)

theorem survey_shows (tree : g.OnePath) : g.survey.Shows g.outline where
  fresh e met := by
    obtain ⟨v, rfl⟩ := encounters_fresh_iff.2 tree e met
    exact ⟨v, rfl, follow_leads leads_root v met⟩
  met p labelled := by
    rw [outline, Option.isSome_map] at labelled
    obtain ⟨i, arrives⟩ := Option.isSome_iff_exists.1 labelled
    have clear := follow_clear List.nodup_nil (by simp) (encounters_fresh_iff.2 tree)
    exact clear.met p i arrives
  listed := walk_lists tree

end Graph

end AlphaFoundry
