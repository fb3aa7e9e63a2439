/-
# AlphaFoundry.Proofs.Generation.Picks -- what builds do to their picker

A picker only ever picks more.  What an abandoned build picked stays picked, so a law about fields
has to speak about the picker before and after a build: `Tracks` does, with one rule for each step,
whether it ends in a result or not.
-/
import Mathlib
import AlphaFoundry.Proofs.Generation.Build

namespace AlphaFoundry

set_option autoImplicit false

namespace FieldPicker

variable {p q r : FieldPicker}

/-- A picker after some picks more. -/
structure Extends (p q : FieldPicker) : Prop where
  catalog : q.catalog = p.catalog
  cap : q.cap = p.cap
  picked : p.picked <:+ q.picked

theorem Extends.refl (p : FieldPicker) : p.Extends p :=
  ⟨rfl, rfl, List.suffix_refl _⟩

theorem Extends.trans (first : p.Extends q) (later : q.Extends r) : p.Extends r :=
  ⟨later.catalog.trans first.catalog, later.cap.trans first.cap, first.picked.trans later.picked⟩

theorem Extends.timesPicked_le (extended : p.Extends q) (id : String) :
    p.timesPicked id ≤ q.timesPicked id :=
  extended.picked.sublist.countP_le

theorem extends_pick (p : FieldPicker) (f : Field) : p.Extends { p with picked := f :: p.picked } :=
  ⟨rfl, rfl, List.suffix_cons _ _⟩

theorem timesPicked_pick (p : FieldPicker) (f : Field) (id : String) :
    FieldPicker.timesPicked { p with picked := f :: p.picked } id
      = p.timesPicked id + if f.id = id then 1 else 0 := by
  unfold timesPicked
  rw [List.countP_cons]
  simp only [beq_iff_eq]

/-- A picker behind picks of fields with these ids, in this order. -/
def Picked (p q : FieldPicker) (ids : List String) : Prop :=
  ∃ picks : List Field, picks.map Field.id = ids.reverse ∧
    q = { p with picked := picks ++ p.picked }

namespace Picked

variable {ids ids' : List String}

theorem refl (p : FieldPicker) : p.Picked p [] :=
  ⟨[], rfl, rfl⟩

theorem trans (first : p.Picked q ids) (later : q.Picked r ids') : p.Picked r (ids ++ ids') := by
  obtain ⟨picks, named, rfl⟩ := first
  obtain ⟨more, named', rfl⟩ := later
  refine ⟨more ++ picks, ?_, ?_⟩
  · rw [List.map_append, named, named', List.reverse_append]
  · rw [List.append_assoc]

theorem ids_eq (picked : p.Picked q ids) : q.picked.map Field.id
    = ids.reverse ++ p.picked.map Field.id := by
  obtain ⟨picks, named, rfl⟩ := picked
  rw [List.map_append, named]

theorem timesPicked_eq (picked : p.Picked q ids) (id : String) :
    q.timesPicked id = p.timesPicked id + ids.count id := by
  have counted (r : FieldPicker) : r.timesPicked id = (r.picked.map Field.id).count id := by
    rw [List.count_eq_countP, List.countP_map]
    rfl
  rw [counted, counted, picked.ids_eq, List.count_append, List.count_reverse, Nat.add_comm]

end Picked

/-- A field is picked beyond the cap only if all fields of the domains are at it. -/
theorem spent_of_mem_pool {domains avoid : List String} {f : Field}
    (member : f ∈ p.pool domains avoid) (spent : p.cap ≤ p.timesPicked f.id) :
    ∀ g ∈ p.catalog.fieldsByDomain domains, p.cap ≤ p.timesPicked g.id := by
  intro g listed
  have lacks : p.isUnderCap f = false := decide_eq_false (by omega)
  have spent_g : p.isUnderCap g = false := by
    have most := (mem_prefer.1 (mem_of_mem_prefer (mem_of_mem_prefer member))).2 g listed
    exact Bool.eq_false_of_le_false (lacks ▸ most)
  exact Nat.not_lt.1 (of_decide_eq_false spent_g)

/-- If each of some different members occurs so often, so many occurrences are of them. -/
theorem length_mul_le_countP {α : Type} [DecidableEq α] {ids items : List α} (distinct : ids.Nodup)
    {n : Nat} (often : ∀ a ∈ ids, n ≤ items.count a) :
    ids.length * n ≤ items.countP (· ∈ ids) := by
  calc ids.length * n = ∑ a ∈ ids.toFinset, n := by
        rw [Finset.sum_const, List.toFinset_card_of_nodup distinct, smul_eq_mul]
    _ ≤ ∑ a ∈ ids.toFinset, ((items.filter (· ∈ ids) : List α) : Multiset α).count a := by
        refine Finset.sum_le_sum fun a member => ?_
        have member : a ∈ ids := List.mem_toFinset.1 member
        rw [Multiset.coe_count, List.count_filter (by simpa using member)]
        exact often a member
    _ = (items.filter (· ∈ ids)).length := by
        rw [Multiset.sum_count_eq_card, Multiset.coe_card]
        intro a member
        simpa using (List.mem_filter.1 (Multiset.mem_coe.1 member)).2
    _ = items.countP (· ∈ ids) := List.countP_eq_length_filter.symm

/-- If all fields of some domains were picked so often, so many picks fell on them. -/
theorem length_mul_le_picked {domains : List String} {n : Nat}
    (often : ∀ g ∈ p.catalog.fieldsByDomain domains, n ≤ p.timesPicked g.id) :
    (p.catalog.fieldsByDomain domains).length * n ≤ (p.picked.map Field.id).countP
      (· ∈ (p.catalog.fieldsByDomain domains).map Field.id) := by
  have distinct : ((p.catalog.fieldsByDomain domains).map Field.id).Nodup :=
    p.catalog.fields_sound.2.sublist (List.filter_sublist.map Field.id)
  have often : ∀ id ∈ (p.catalog.fieldsByDomain domains).map Field.id,
      n ≤ (p.picked.map Field.id).count id := by
    intro id listed
    obtain ⟨g, member, rfl⟩ := List.mem_map.1 listed
    rw [List.count_eq_countP, List.countP_map]
    exact often g member
  have counted := length_mul_le_countP distinct often
  rwa [List.length_map] at counted

end FieldPicker

namespace Build

variable {α β : Type} {p q : FieldPicker} {P : α → Prop} {Q : α → FieldPicker → Prop}
  {R : β → FieldPicker → Prop}

/-- The picker only picked more; behind a result, it has the property. -/
def Tracked (p : FieldPicker) (Q : α → FieldPicker → Prop) : EStateM.Result Fault Bench α → Prop
  | .ok a b => p.Extends b.fields ∧ Q a b.fields
  | .error _ b => p.Extends b.fields

/-- A build that begins with a picker ends so on every bench. -/
def Tracks (p : FieldPicker) (Q : α → FieldPicker → Prop) (x : Build α) : Prop :=
  ∀ b : Bench, b.fields = p → Tracked p Q (x b)

/-- Nothing is picked. -/
def Still (p : FieldPicker) (P : α → Prop) (a : α) (q : FieldPicker) : Prop :=
  q = p ∧ P a

namespace Tracks

theorem pure {a : α} (holds : Q a p) : Tracks p Q (pure a) := by
  rintro b rfl
  exact ⟨.refl _, holds⟩

theorem throw (fault : Fault) : Tracks p Q (throw fault) := by
  rintro b rfl
  exact FieldPicker.Extends.refl _

theorem bind {x : Build α} {f : α → Build β} (first : Tracks p Q x)
    (rest : ∀ a q, p.Extends q → Q a q → Tracks q R (f a)) : Tracks p R (x >>= f) := by
  intro b same
  have tracked := first b same
  cases result : x b with
  | error fault b' =>
      rw [result] at tracked
      rw [bind_of_error result]
      exact tracked
  | ok a b' =>
      rw [result] at tracked
      obtain ⟨extended, holds⟩ := tracked
      have later := rest a b'.fields extended holds b' rfl
      rw [bind_of_ok result]
      cases result : f a b' with
      | error fault b'' =>
          rw [result] at later
          exact extended.trans later
      | ok c b'' =>
          rw [result] at later
          exact ⟨extended.trans later.1, later.2⟩

theorem mono {Q' : α → FieldPicker → Prop} {x : Build α} (tracks : Tracks p Q x)
    (weaker : ∀ a q, p.Extends q → Q a q → Q' a q) : Tracks p Q' x := by
  intro b same
  have tracked := tracks b same
  cases result : x b with
  | error fault b' =>
      rw [result] at tracked
      exact tracked
  | ok a b' =>
      rw [result] at tracked
      exact ⟨tracked.1, weaker a b'.fields tracked.1 tracked.2⟩

/-- After a step that picks nothing. -/
theorem bind_still {x : Build α} {f : α → Build β} (first : Tracks p (Still p P) x)
    (rest : ∀ a, P a → Tracks p R (f a)) : Tracks p R (x >>= f) := by
  refine first.bind ?_
  rintro a q - ⟨rfl, holds⟩
  exact rest a holds

theorem draw {f : Rng → α × Rng} (each : ∀ r, P (f r).1) : Tracks p (Still p P) (draw f) := by
  rintro b rfl
  exact ⟨.refl _, rfl, each b.rng⟩

theorem get : Tracks p (Still p fun b : Bench => b.fields = p) get := by
  rintro b rfl
  exact ⟨.refl _, rfl, rfl⟩

theorem modify {f : Bench → Bench} (keeps : ∀ b, (f b).fields = b.fields) :
    Tracks p (Still p fun _ => True) (modify f) := by
  rintro b rfl
  have kept : (f b).fields = b.fields := keeps b
  exact ⟨kept ▸ .refl _, kept, trivial⟩

/-- An attempt that fails leaves its picks behind. -/
theorem attempt {x : Build α} (tracks : Tracks p Q x) :
    Tracks p (fun o q => ∀ a ∈ o, Q a q) (attempt x) := by
  intro b same
  have tracked := tracks b same
  unfold Build.attempt
  cases result : x b with
  | ok a b' =>
      rw [result] at tracked
      refine ⟨tracked.1, ?_⟩
      rintro _ ⟨⟩
      exact tracked.2
  | error fault b' =>
      rw [result] at tracked
      cases fault with
      | unavailable id lack => exact ⟨tracked, by simp⟩
      | noField domains => exact tracked
      | emptyList => exact tracked

theorem pick (items : List α) : Tracks p (Still p (· ∈ items)) (pick items) := by
  refine bind_still (P := fun o => ∀ a ∈ o, a ∈ items) (.draw fun r a picked => ?_) fun o listed => ?_
  · exact List.mem_of_getElem? picked
  · cases o with
    | none => exact .throw _
    | some a => exact .pure ⟨rfl, listed a rfl⟩

theorem windowFor (op : Operator) : Tracks p (Still p fun _ => True) (windowFor op) := by
  unfold Build.windowFor
  split
  · exact .pure ⟨rfl, trivial⟩
  · exact bind_still (P := fun _ => True) (.draw fun _ => trivial) fun _ _ =>
      .pure ⟨rfl, trivial⟩

theorem pickOperator (c : Catalog) (id : String) (q : Catalog.Query) (target : List String) :
    Tracks p (Still p fun op => c.operator? op.id = some op) (pickOperator c id q target) := by
  unfold Build.pickOperator
  split
  · exact .throw _
  · refine (pick _).mono fun op r _ ⟨same, member⟩ => ⟨same, ?_⟩
    exact Catalog.operator?_eq_some.2 ⟨(List.mem_filter.1 member).1, rfl⟩

end Tracks

end Build

end AlphaFoundry
