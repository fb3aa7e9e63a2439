/-
# AlphaFoundry.Proofs.Expr.Edges -- every edge of a graph, followed once

`follow` carries fuel, since nothing about a graph with a cycle gets smaller from call to call.
`Examines` is the same recursion without fuel: a derivation is a run that ends, and its constructors
are the branches of one call.  The fuel never runs out, because the nodes above the current one are
distinct; so the encounters have a derivation.

What a derivation tells is proved constructor by constructor.  An encounter is fresh if its node was
not met before and a cycle if its node lies on the path to it, and the edges that were followed are
those given and those of the nodes found fresh.  Hence each edge of a reachable node is followed
once, whatever the graph is like.
-/
import Mathlib
import AlphaFoundry.Proofs.Expr.Reach

namespace AlphaFoundry

set_option autoImplicit false

namespace Encounter

def path : Encounter → Path
  | fresh v => v.path
  | cycle p | shared p => p

def isFresh : Encounter → Bool
  | fresh _ => true
  | _ => false

def isCycle : Encounter → Bool
  | cycle _ => true
  | _ => false

end Encounter

namespace Graph

variable (g : Graph)

theorem path_fresh (i : Fin g.size) (p : Path) (parent : Option String) :
    (Encounter.fresh (g.visitOf i p parent)).path = p := rfl

/-! ## The recursion without fuel -/

/-- Following edges that lead out of a node at `path`, one after the other.  The nodes on the path
are `above`; those met before and after are `seen` and `seen'`. -/
inductive Examines : Path → Option String → List (Fin g.size) → List (Fin g.size × Nat) →
    List (Fin g.size) → List Encounter → List (Fin g.size) → Prop
  | done {path : Path} {parent : Option String} {above seen : List (Fin g.size)} :
      Examines path parent above [] seen [] seen
  | cycle {path : Path} {parent : Option String} {above seen seen' : List (Fin g.size)}
      {edges : List (Fin g.size × Nat)} {found : List Encounter} {k : Fin g.size} {n : Nat}
      (inside : k ∈ above) (rest : Examines path parent above edges seen found seen') :
      Examines path parent above ((k, n) :: edges) seen (.cycle (path ++ [n]) :: found) seen'
  | shared {path : Path} {parent : Option String} {above seen seen' : List (Fin g.size)}
      {edges : List (Fin g.size × Nat)} {found : List Encounter} {k : Fin g.size} {n : Nat}
      (outside : k ∉ above) (old : k ∈ seen)
      (rest : Examines path parent above edges seen found seen') :
      Examines path parent above ((k, n) :: edges) seen (.shared (path ++ [n]) :: found) seen'
  | fresh {path : Path} {parent : Option String} {above seen seen' seen'' : List (Fin g.size)}
      {edges : List (Fin g.size × Nat)} {inner found : List Encounter} {k : Fin g.size} {n : Nat}
      (outside : k ∉ above) (new : k ∉ seen)
      (first : Examines (path ++ [n]) (g.node k).label.operator? (k :: above)
        (g.childrenOf k).zipIdx (k :: seen) inner seen')
      (rest : Examines path parent above edges seen' found seen'') :
      Examines path parent above ((k, n) :: edges) seen
        (.fresh (g.visitOf k (path ++ [n]) parent) :: (inner ++ found)) seen''

variable {g}

/-- The nodes above are distinct, so a path through all nodes uses up the fuel, and no longer one is
followed. -/
theorem followAll_examines : ∀ {fuel : Nat} {path : Path} {parent : Option String}
    {above : List (Fin g.size)}, above.Nodup → above.length + fuel = g.size + 1 →
      ∀ (edges : List (Fin g.size × Nat)) (seen : List (Fin g.size)),
        g.Examines path parent above edges seen (g.followAll fuel path parent above edges seen).1
          (g.followAll fuel path parent above edges seen).2
  | 0, _, _, above, distinct, enough => by
      have := distinct.length_le_card
      rw [Fintype.card_fin] at this
      omega
  | fuel + 1, path, parent, above, distinct, enough => by
      intro edges
      induction edges with
      | nil => exact fun seen => .done
      | cons edge edges ih =>
          obtain ⟨k, n⟩ := edge
          intro seen
          simp only [followAll, follow_succ]
          by_cases inside : k ∈ above
          · simp only [if_pos inside, List.singleton_append]
            exact .cycle inside (ih seen)
          by_cases old : k ∈ seen
          · simp only [if_neg inside, if_pos old, List.singleton_append]
            exact .shared inside old (ih seen)
          · simp only [if_neg inside, if_neg old, List.cons_append]
            have enough : (k :: above).length + fuel = g.size + 1 := by
              rw [List.length_cons]
              omega
            exact .fresh inside old
              (followAll_examines (List.nodup_cons.2 ⟨inside, distinct⟩) enough _ _) (ih _)

/-- The encounters are a run that ends. -/
theorem encounters_examined : ∃ found seen,
    g.encounters = .fresh (g.visitOf g.root [] none) :: found ∧
      g.Examines [] (g.node g.root).label.operator? [g.root] (g.childrenOf g.root).zipIdx [g.root]
        found seen := by
  have enough : [g.root].length + g.size = g.size + 1 := by rw [List.length_singleton, add_comm]
  refine ⟨_, _, ?_, followAll_examines (List.nodup_singleton _) enough _ _⟩
  rw [encounters, follow_succ, if_neg List.not_mem_nil, if_neg List.not_mem_nil]

/-! ## Where a call stands -/

variable (g) in
/-- A node with its path, and the nodes on the path. -/
structure Stands (path : Path) (above : List (Fin g.size)) (i : Fin g.size) : Prop where
  arrives : g.below g.root path = some i
  above : ∀ k, k ∈ above ↔ ∃ q, q <+: path ∧ g.below g.root q = some k

theorem stands_root : g.Stands [] [g.root] g.root where
  arrives := rfl
  above k := by
    rw [List.mem_singleton]
    constructor
    · rintro rfl
      exact ⟨[], List.prefix_rfl, rfl⟩
    · rintro ⟨q, none, arrives⟩
      obtain rfl := List.prefix_nil.1 none
      exact (Option.some.inj arrives).symm

theorem Stands.below_child {path : Path} {above : List (Fin g.size)} {i k : Fin g.size} {n : Nat}
    (stands : g.Stands path above i) (child : (g.childrenOf i)[n]? = some k) :
    g.below g.root (path ++ [n]) = some k := by
  rw [below_append, stands.arrives, Option.bind_some, below_cons, child]
  rfl

theorem Stands.child {path : Path} {above : List (Fin g.size)} {i k : Fin g.size} {n : Nat}
    (stands : g.Stands path above i) (child : (g.childrenOf i)[n]? = some k) :
    g.Stands (path ++ [n]) (k :: above) k where
  arrives := stands.below_child child
  above j := by
    rw [List.mem_cons, stands.above]
    constructor
    · rintro (rfl | ⟨q, shorter, arrives⟩)
      · exact ⟨_, List.prefix_rfl, stands.below_child child⟩
      · exact ⟨q, shorter.trans (List.prefix_append _ _), arrives⟩
    · rintro ⟨q, shorter, arrives⟩
      rcases List.prefix_concat_iff.1 shorter with rfl | shorter
      · rw [stands.below_child child] at arrives
        exact .inl (Option.some.inj arrives).symm
      · exact .inr ⟨q, shorter, arrives⟩

/-! ## What an encounter tells -/

variable (g) in
/-- An encounter with a node, after those in a set: it is fresh if the node is not in the set, and a
cycle if the node lies on the path that leads to it. -/
structure Tells (met : Set (Fin g.size)) (e : Encounter) (k : Fin g.size) : Prop where
  arrives : g.below g.root e.path = some k
  fresh : e.isFresh = true ↔ k ∉ met
  cycle : e.isCycle = true ↔ ∃ q, q <+: e.path ∧ q ≠ e.path ∧ g.below g.root q = some k

variable (g) in
/-- Encounters of which each tells the truth after those before it. -/
inductive Chronicle : Set (Fin g.size) → List Encounter → Set (Fin g.size) → Prop
  | nil {met : Set (Fin g.size)} : Chronicle met [] met
  | cons {met met' : Set (Fin g.size)} {e : Encounter} {found : List Encounter} {k : Fin g.size}
      (tells : g.Tells met e k) (rest : Chronicle (insert k met) found met') :
      Chronicle met (e :: found) met'

namespace Chronicle

variable {met met' met'' : Set (Fin g.size)} {found more : List Encounter}

theorem append (first : g.Chronicle met found met') (rest : g.Chronicle met' more met'') :
    g.Chronicle met (found ++ more) met'' := by
  induction first with
  | nil => exact rest
  | cons tells _ ih => exact .cons tells (ih rest)

theorem mono (all : g.Chronicle met found met') : met ⊆ met' := by
  induction all with
  | nil => exact subset_rfl
  | cons _ _ ih => exact (Set.subset_insert _ _).trans ih

/-- Every encounter of a chronicle, seen after all those before it. -/
theorem tells (all : g.Chronicle met found met') {before after : List Encounter} {e : Encounter}
    (split : found = before ++ e :: after) :
    ∃ k, g.Tells (met ∪ {j | ∃ f ∈ before, g.below g.root f.path = some j}) e k := by
  induction all generalizing before with
  | nil => simp at split
  | @cons met met' f found k first rest ih =>
      cases before with
      | nil =>
          obtain ⟨rfl, -⟩ := List.cons.inj split
          exact ⟨k, by simpa using first⟩
      | cons f' before =>
          obtain ⟨rfl, tail⟩ := List.cons.inj split
          obtain ⟨j, told⟩ := ih tail
          have same : insert k met ∪ {j | ∃ f ∈ before, g.below g.root f.path = some j} =
              met ∪ {j | ∃ f' ∈ f :: before, g.below g.root f'.path = some j} := by
            ext i
            simp only [Set.mem_union, Set.mem_ofPred_eq, List.mem_cons, exists_eq_or_imp,
              first.arrives, Option.some.injEq, Set.mem_insert_iff, eq_comm (a := i)]
            tauto
          exact ⟨j, same ▸ told⟩

theorem arrives (all : g.Chronicle met found met') : ∀ e ∈ found, ∃ k ∈ met',
    g.below g.root e.path = some k := by
  induction all with
  | nil => simp
  | cons first rest ih =>
      exact List.forall_mem_cons.2 ⟨⟨_, rest.mono (Set.mem_insert _ _), first.arrives⟩, ih⟩

end Chronicle

/-! ## Nodes found, and edges followed -/

variable (g) in
/-- The nodes that were met first, in their order. -/
def discovered (found : List Encounter) : List (Fin g.size) :=
  found.filterMap fun e => if e.isFresh then g.below g.root e.path else none

variable (g) in
/-- The last edge of a path: the node that it leaves, and the position of the argument. -/
def edge? (p : Path) : Option (Fin g.size × Nat) :=
  p.getLast?.bind fun n => (g.below g.root p.dropLast).map fun i => (i, n)

variable (g) in
def edgesOf (i : Fin g.size) : List (Fin g.size × Nat) :=
  (g.childrenOf i).zipIdx.map fun edge => (i, edge.2)

theorem mem_edgesOf {i j : Fin g.size} {n : Nat} :
    (j, n) ∈ g.edgesOf i ↔ j = i ∧ n < (g.childrenOf i).length := by
  simp only [edgesOf, List.mem_map, Prod.exists, List.mem_zipIdx_iff_getElem?, Prod.mk.injEq]
  constructor
  · rintro ⟨k, m, child, rfl, rfl⟩
    exact ⟨rfl, (List.getElem?_eq_some_iff.1 child).1⟩
  · rintro ⟨rfl, bound⟩
    exact ⟨_, n, List.getElem?_eq_getElem bound, rfl, rfl⟩

theorem length_edgesOf (i : Fin g.size) : (g.edgesOf i).length = (g.childrenOf i).length := by
  simp [edgesOf]

theorem edgesOf_nodup (i : Fin g.size) : (g.edgesOf i).Nodup := by
  have places : ((g.childrenOf i).zipIdx.map Prod.snd).Nodup := by
    rw [List.zipIdx_map_snd]
    exact List.nodup_range'
  have pairs := places.map (Prod.mk_right_injective i)
  rwa [List.map_map] at pairs

theorem edge?_concat {path : Path} {i : Fin g.size} (arrives : g.below g.root path = some i)
    (n : Nat) : g.edge? (path ++ [n]) = some (i, n) := by
  simp [edge?, arrives]

theorem edge?_eq_some {p : Path} {i : Fin g.size} {n : Nat} (edge : g.edge? p = some (i, n)) :
    ∃ q, p = q ++ [n] ∧ g.below g.root q = some i := by
  rcases List.eq_nil_or_concat p with rfl | ⟨q, m, rfl⟩
  · cases edge
  · rw [List.concat_eq_append] at edge ⊢
    simp only [edge?, List.getLast?_concat, List.dropLast_concat, Option.bind_some,
      Option.map_eq_some_iff, Prod.mk.injEq] at edge
    obtain ⟨j, arrives, rfl, rfl⟩ := edge
    exact ⟨q, rfl, arrives⟩

namespace Chronicle

variable {met met' : Set (Fin g.size)} {found : List Encounter}

theorem mem_met (all : g.Chronicle met found met') {k : Fin g.size} :
    k ∈ met' ↔ k ∈ met ∨ k ∈ g.discovered found := by
  induction all with
  | nil => simp [discovered]
  | @cons met met' e found j first rest ih =>
      rw [ih, Set.mem_insert_iff]
      unfold discovered
      cases new : e.isFresh with
      | false =>
          have old : j ∈ met := by
            by_contra outside
            rw [first.fresh.2 outside] at new
            cases new
          rw [List.filterMap_cons_none (by simp [new])]
          exact or_congr_left ⟨by rintro (rfl | member) <;> assumption, .inr⟩
      | true =>
          rw [List.filterMap_cons_some (by simpa [new] using first.arrives), List.mem_cons]
          tauto

theorem discovered_nodup (all : g.Chronicle met found met') :
    (g.discovered found).Nodup ∧ ∀ k ∈ g.discovered found, k ∉ met := by
  induction all with
  | nil => simp [discovered]
  | @cons met met' e found j first rest ih =>
      obtain ⟨distinct, apart⟩ := ih
      have apart (k : Fin g.size) (later : k ∈ g.discovered found) : k ≠ j ∧ k ∉ met := by
        simpa using apart k later
      unfold discovered at distinct apart ⊢
      cases new : e.isFresh with
      | false =>
          rw [List.filterMap_cons_none (by simp [new])]
          exact ⟨distinct, fun k later => (apart k later).2⟩
      | true =>
          rw [List.filterMap_cons_some (by simpa [new] using first.arrives), List.nodup_cons,
            List.forall_mem_cons]
          exact ⟨⟨fun again => (apart j again).1 rfl, distinct⟩, first.fresh.1 new,
            fun k later => (apart k later).2⟩

theorem length_discovered (all : g.Chronicle met found met') :
    (g.discovered found).length = found.countP Encounter.isFresh := by
  induction all with
  | nil => rfl
  | @cons met met' e found j first rest ih =>
      unfold discovered at ih ⊢
      cases new : e.isFresh with
      | false =>
          rw [List.filterMap_cons_none (by simp [new]), ih, List.countP_cons_of_neg (by simp [new])]
      | true =>
          rw [List.filterMap_cons_some (by simpa [new] using first.arrives), List.length_cons, ih,
            List.countP_cons_of_pos new]

end Chronicle

/-- Encounters in pre-order, each behind one of the edges out of a path. -/
structure Behind (path : Path) (edges : List (Fin g.size × Nat)) (found : List Encounter) :
    Prop where
  ordered : (found.map Encounter.path).Pairwise (· < ·)
  within : ∀ e ∈ found, ∃ edge ∈ edges, path ++ [edge.2] <+: e.path

theorem Behind.cons {path : Path} {edges : List (Fin g.size × Nat)} {block found : List Encounter}
    {k : Fin g.size} {n : Nat} (rest : Behind path edges found)
    (first : ∀ edge ∈ edges, n < edge.2) (sorted : (block.map Encounter.path).Pairwise (· < ·))
    (own : ∀ e ∈ block, path ++ [n] <+: e.path) :
    Behind path ((k, n) :: edges) (block ++ found) where
  ordered := by
    rw [List.map_append, List.pairwise_append]
    refine ⟨sorted, rest.ordered, fun p early q late => ?_⟩
    obtain ⟨e, inBlock, rfl⟩ := List.mem_map.1 early
    obtain ⟨f, behind, rfl⟩ := List.mem_map.1 late
    obtain ⟨edge, member, longer⟩ := rest.within f behind
    exact Path.LeftOf.lt ⟨path, n, edge.2, first edge member, own e inBlock, longer⟩
  within e member := by
    rcases List.mem_append.1 member with early | late
    · exact ⟨(k, n), List.mem_cons_self, own e early⟩
    · obtain ⟨edge, member, longer⟩ := rest.within e late
      exact ⟨edge, List.mem_cons_of_mem _ member, longer⟩

namespace Examines

variable {path : Path} {parent : Option String} {above seen seen' : List (Fin g.size)}
  {edges : List (Fin g.size × Nat)} {found : List Encounter}

/-- A run tells the truth about every encounter. -/
theorem chronicle (run : g.Examines path parent above edges seen found seen') :
    ∀ {i : Fin g.size}, g.Stands path above i →
      (∀ edge ∈ edges, (g.childrenOf i)[edge.2]? = some edge.1) → (∀ k ∈ above, k ∈ seen) →
        g.Chronicle {k | k ∈ seen} found {k | k ∈ seen'} := by
  -- On the way to an argument lie the nodes above it, and nothing else.
  have on_path {path : Path} {above : List (Fin g.size)} {i k : Fin g.size}
      (stands : g.Stands path above i) (n : Nat) : k ∈ above ↔
        ∃ q, q <+: path ++ [n] ∧ q ≠ path ++ [n] ∧ g.below g.root q = some k := by
    rw [stands.above]
    refine exists_congr fun q => ?_
    rw [← and_assoc, List.prefix_concat_iff]
    refine and_congr_left fun _ => ⟨fun shorter => ⟨.inr shorter, ?_⟩, ?_⟩
    · rintro rfl
      simpa using shorter.length_le
    · rintro ⟨same | shorter, other⟩
      · exact absurd same other
      · exact shorter
  induction run with
  | done => exact fun _ _ _ => .nil
  | @cycle path parent above seen seen' edges found k n inside rest ih =>
      intro i stands children kept
      obtain ⟨child, children⟩ := List.forall_mem_cons.1 children
      have old := kept k inside
      refine .cons (k := k) ⟨stands.below_child child, ?_, ?_⟩ ?_
      · simpa [Encounter.isFresh] using old
      · simpa [Encounter.isCycle, Encounter.path] using (on_path stands n).1 inside
      · rw [Set.insert_eq_of_mem (by exact old)]
        exact ih stands children kept
  | @shared path parent above seen seen' edges found k n outside old rest ih =>
      intro i stands children kept
      obtain ⟨child, children⟩ := List.forall_mem_cons.1 children
      refine .cons (k := k) ⟨stands.below_child child, ?_, ?_⟩ ?_
      · simpa [Encounter.isFresh] using old
      · exact iff_of_false (by simp [Encounter.isCycle])
          fun passes => outside ((on_path stands n).2 passes)
      · rw [Set.insert_eq_of_mem (by exact old)]
        exact ih stands children kept
  | @fresh path parent above seen seen' seen'' edges inner found k n outside new first rest
      below after =>
      intro i stands children kept
      obtain ⟨child, children⟩ := List.forall_mem_cons.1 children
      have inner : g.Chronicle (insert k {k | k ∈ seen}) inner {k | k ∈ seen'} := by
        have := below (stands.child child) (fun edge => List.mem_zipIdx_iff_getElem?.1)
          (List.forall_mem_cons.2 ⟨List.mem_cons_self, fun j old =>
            List.mem_cons_of_mem _ (kept j old)⟩)
        convert this using 1
        ext j
        simp
      refine .cons (k := k) ⟨stands.below_child child, ?_, ?_⟩ (inner.append ?_)
      · simpa [Encounter.isFresh] using new
      · exact iff_of_false (by simp [Encounter.isCycle])
          fun passes => outside ((on_path stands n).2 passes)
      · exact after stands children fun j old => inner.mono (Set.mem_insert_of_mem _ (kept j old))

/-- A run follows the edges it is given and those of every node that it finds. -/
theorem followed (run : g.Examines path parent above edges seen found seen') :
    ∀ {i : Fin g.size}, g.Stands path above i →
      (∀ edge ∈ edges, (g.childrenOf i)[edge.2]? = some edge.1) →
        (found.map fun e => g.edge? e.path).Perm
          (((edges.map fun edge => (i, edge.2)) ++ (g.discovered found).flatMap g.edgesOf).map
            some) := by
  induction run with
  | done => exact fun _ _ => .refl _
  | cycle inside rest ih | shared outside old rest ih =>
      intro i stands children
      obtain ⟨child, children⟩ := List.forall_mem_cons.1 children
      rw [List.map_cons, Encounter.path, edge?_concat stands.arrives]
      exact (ih stands children).cons _
  | @fresh path parent above seen seen' seen'' edges inner found k n outside new first rest
      below after =>
      intro i stands children
      obtain ⟨child, children⟩ := List.forall_mem_cons.1 children
      have below : (inner.map fun e => g.edge? e.path).Perm
          ((g.edgesOf k).map some ++ ((g.discovered inner).flatMap g.edgesOf).map some) := by
        rw [← List.map_append]
        exact below (stands.child child) fun edge => List.mem_zipIdx_iff_getElem?.1
      have after := after stands children
      have nodes : g.discovered (.fresh (g.visitOf k (path ++ [n]) parent) :: (inner ++ found)) =
          k :: (g.discovered inner ++ g.discovered found) := by
        unfold discovered
        rw [List.filterMap_cons_some (b := k) (by
          simpa [Encounter.isFresh, path_fresh] using stands.below_child child),
          List.filterMap_append]
      rw [nodes, List.map_cons, path_fresh, edge?_concat stands.arrives, List.map_append]
      simp only [List.map_cons, List.cons_append, List.flatMap_cons, List.flatMap_append,
        List.map_append] at after ⊢
      refine .cons _ ((below.append after).trans ?_)
      rw [← List.append_assoc (List.map some (g.edgesOf k))]
      exact List.perm_append_comm_assoc _ _ _

/-- A run meets what lies behind its edges, edge by edge. -/
theorem behind (run : g.Examines path parent above edges seen found seen') :
    (edges.Pairwise fun x y => x.2 < y.2) → Behind path edges found := by
  induction run with
  | done => exact fun _ => ⟨.nil, by simp⟩
  | cycle inside rest ih | shared outside old rest ih =>
      intro sorted
      obtain ⟨first, others⟩ := List.pairwise_cons.1 sorted
      exact (ih others).cons first (List.pairwise_singleton _ _)
        (List.forall_mem_singleton.2 List.prefix_rfl)
  | @fresh path parent above seen seen' seen'' edges inner found k n outside new _ rest below
      after =>
      intro sorted
      obtain ⟨first, others⟩ := List.pairwise_cons.1 sorted
      obtain ⟨ordered, within⟩ := below (zipIdx_ordered _)
      rw [← List.cons_append]
      refine (after others).cons first
        (List.pairwise_cons.2 ⟨List.forall_mem_map.2 fun e lower => ?_, ordered⟩)
        (List.forall_mem_cons.2 ⟨List.prefix_rfl, fun e lower => ?_⟩)
      · obtain ⟨edge, -, longer⟩ := within e lower
        exact Path.lt_of_prefix longer
      · obtain ⟨edge, -, longer⟩ := within e lower
        exact (List.prefix_append _ _).trans longer

end Examines

/-! ## All encounters -/

theorem encounters_chronicle : ∃ met, g.Chronicle ∅ g.encounters met := by
  obtain ⟨found, seen, equal, run⟩ := g.encounters_examined
  have rest := run.chronicle stands_root (fun edge => List.mem_zipIdx_iff_getElem?.1) (by simp)
  have root : g.Tells ∅ (.fresh (g.visitOf g.root [] none)) g.root := by
    refine ⟨rfl, by simp [Encounter.isFresh], iff_of_false (by simp [Encounter.isCycle]) ?_⟩
    rintro ⟨q, shorter, other, -⟩
    exact other (List.prefix_nil.1 shorter)
  have start : insert g.root ∅ = {k | k ∈ [g.root]} := by
    ext k
    simp
  rw [equal]
  exact ⟨_, .cons root (start ▸ rest)⟩

theorem encounters_followed : (g.encounters.map fun e => g.edge? e.path).Perm
    (none :: ((g.discovered g.encounters).flatMap g.edgesOf).map some) := by
  obtain ⟨found, seen, equal, run⟩ := g.encounters_examined
  have rest := run.followed stands_root fun edge => List.mem_zipIdx_iff_getElem?.1
  have nodes : g.discovered g.encounters = g.root :: g.discovered found := by
    rw [equal, discovered, List.filterMap_cons_some (b := g.root) (by
      simp [Encounter.isFresh, path_fresh, below])]
    rfl
  rw [nodes, equal]
  exact rest.cons _

/-- The nodes found are those that a path leads to: what was met contains the arguments of its
nodes, since their edges were followed. -/
theorem mem_discovered {k : Fin g.size} :
    k ∈ g.discovered g.encounters ↔ ∃ p, g.below g.root p = some k := by
  obtain ⟨met, all⟩ := g.encounters_chronicle
  have found (k : Fin g.size) : k ∈ met ↔ k ∈ g.discovered g.encounters := by
    simp [all.mem_met]
  constructor
  · intro member
    obtain ⟨e, -, arrives⟩ := List.mem_filterMap.1 member
    split at arrives
    · exact ⟨_, arrives⟩
    · cases arrives
  · rintro ⟨p, arrives⟩
    have closed : ∀ i ∈ met, ∀ k ∈ g.childrenOf i, k ∈ met := by
      intro i member k child
      obtain ⟨n, bound, rfl⟩ := List.getElem_of_mem child
      have edge : some (i, n) ∈ g.encounters.map fun e => g.edge? e.path := by
        rw [g.encounters_followed.mem_iff]
        exact List.mem_cons_of_mem _ (List.mem_map_of_mem (List.mem_flatMap.2
          ⟨i, (found i).1 member, mem_edgesOf.2 ⟨rfl, bound⟩⟩))
      obtain ⟨e, met, edge⟩ := List.mem_map.1 edge
      obtain ⟨q, path, above⟩ := edge?_eq_some edge
      obtain ⟨k, member, arrives⟩ := all.arrives e met
      rw [path, below_append, above, Option.bind_some, below_cons,
        List.getElem?_eq_getElem bound] at arrives
      exact Option.some.inj arrives ▸ member
    have root : g.root ∈ met := by
      obtain ⟨found', seen, equal, -⟩ := g.encounters_examined
      rw [found, equal, discovered]
      exact List.mem_filterMap.2 ⟨_, List.mem_cons_self, rfl⟩
    exact (found k).1 (below_mem closed root arrives)

/-- The encounters are in pre-order. -/
theorem encounters_ordered : (g.encounters.map Encounter.path).Pairwise (· < ·) := by
  obtain ⟨found, seen, equal, run⟩ := g.encounters_examined
  obtain ⟨ordered, within⟩ := run.behind (zipIdx_ordered _)
  rw [equal, List.map_cons, List.pairwise_cons]
  refine ⟨List.forall_mem_map.2 fun e later => ?_, ordered⟩
  obtain ⟨edge, -, longer⟩ := within e later
  exact Path.lt_of_prefix longer

variable (g) in
open Classical in
/-- The nodes that a path leads to. -/
noncomputable def reached : Finset (Fin g.size) :=
  Finset.univ.filter fun i => ∃ p, g.below g.root p = some i

theorem mem_reached {i : Fin g.size} : i ∈ g.reached ↔ ∃ p, g.below g.root p = some i := by
  simp [reached]

theorem discovered_toFinset : (g.discovered g.encounters).toFinset = g.reached := by
  ext k
  rw [List.mem_toFinset, mem_discovered, mem_reached]

theorem discovered_encounters_nodup : (g.discovered g.encounters).Nodup := by
  obtain ⟨met, all⟩ := g.encounters_chronicle
  exact all.discovered_nodup.1

variable (g) in
/-- What the encounters tell of a graph.  The search ends.  Beside the step to the root it follows
the edges of the nodes that can be reached, each of them once.  An encounter is fresh if none
before it led to the same node, and a cycle if the node lies on the path to it. -/
structure Accounts : Prop where
  ends : ∃ found seen, g.encounters = .fresh (g.visitOf g.root [] none) :: found ∧
    g.Examines [] (g.node g.root).label.operator? [g.root] (g.childrenOf g.root).zipIdx [g.root]
      found seen
  once : (g.encounters.map fun e => g.edge? e.path).Nodup
  every : ∀ edge, edge ∈ g.encounters.map (fun e => g.edge? e.path) ↔
    edge = none ∨ ∃ i ∈ g.reached, ∃ n < (g.childrenOf i).length, edge = some (i, n)
  arrives : ∀ e ∈ g.encounters, ∃ k, g.below g.root e.path = some k
  fresh : ∀ before e after, g.encounters = before ++ e :: after →
    (e.isFresh = true ↔ ∀ f ∈ before, g.below g.root f.path ≠ g.below g.root e.path)
  cycle : ∀ e ∈ g.encounters, e.isCycle = true ↔
    ∃ q, q <+: e.path ∧ q ≠ e.path ∧ g.below g.root q = g.below g.root e.path

variable (g) in
theorem accounts : g.Accounts := by
  obtain ⟨met, all⟩ := g.encounters_chronicle
  have edges := g.encounters_followed
  refine ⟨g.encounters_examined, ?once, fun edge => ?every, fun e member => ?arrives, ?fresh,
    ?cycle⟩
  case once =>
    rw [edges.nodup_iff, List.nodup_cons]
    refine ⟨by simp, (List.nodup_flatMap.2 ⟨fun i _ => edgesOf_nodup i, ?_⟩).map
      (Option.some_injective _)⟩
    refine g.discovered_encounters_nodup.imp fun {i j} other => ?_
    rintro ⟨k, n⟩ left right
    exact other ((mem_edgesOf.1 left).1.symm.trans (mem_edgesOf.1 right).1)
  case every =>
    rw [edges.mem_iff, List.mem_cons]
    refine or_congr_right ?_
    simp only [List.mem_map, List.mem_flatMap, mem_discovered, mem_reached, Prod.exists,
      mem_edgesOf]
    constructor
    · rintro ⟨j, n, ⟨i, arrives, rfl, bound⟩, rfl⟩
      exact ⟨_, arrives, n, bound, rfl⟩
    · rintro ⟨i, arrives, n, bound, rfl⟩
      exact ⟨i, n, ⟨i, arrives, rfl, bound⟩, rfl⟩
  case arrives =>
    obtain ⟨k, -, arrives⟩ := all.arrives e member
    exact ⟨k, arrives⟩
  case fresh =>
    intro before e after split
    obtain ⟨k, told⟩ := all.tells split
    rw [told.fresh, told.arrives]
    simp
  case cycle =>
    intro e member
    obtain ⟨before, after, split⟩ := List.append_of_mem member
    obtain ⟨k, told⟩ := all.tells split
    rw [told.cycle, told.arrives]

/-- There are as many edges that lead to a node met before as there are too many for a tree. -/
theorem again_count : ((g.encounters.countP fun e => !e.isFresh : Nat) : Int) =
    (∑ i ∈ g.reached, (g.childrenOf i).length : Nat) - (g.reached.card - 1 : Int) := by
  obtain ⟨met, all⟩ := g.encounters_chronicle
  have edges : g.encounters.length = 1 + ∑ i ∈ g.reached, (g.childrenOf i).length := by
    have := g.encounters_followed.length_eq
    rw [List.length_map, List.length_cons, List.length_map, List.length_flatMap] at this
    rw [this, ← discovered_toFinset, List.sum_toFinset _ discovered_encounters_nodup, add_comm]
    simp only [length_edgesOf]
  have nodes : g.encounters.countP Encounter.isFresh = g.reached.card := by
    rw [← all.length_discovered, ← discovered_toFinset,
      List.toFinset_card_of_nodup discovered_encounters_nodup]
  have parts := List.length_eq_countP_add_countP Encounter.isFresh (l := g.encounters)
  have again : g.encounters.countP (fun e => !e.isFresh) =
      g.encounters.countP fun e => decide ¬e.isFresh = true := by
    simp
  omega

end Graph

end AlphaFoundry
