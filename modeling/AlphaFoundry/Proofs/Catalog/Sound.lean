/-
# AlphaFoundry.Proofs.Catalog.Sound -- what a checked definition promises

A catalog carries the proof that its definition has no issues.  This module says once what that
proof is worth: lookups by id find exactly the listed members, and every listed operator has as many
slots as its arity says, accepts something in each, and has a window range just when it is windowed.
A definition makes a catalog exactly if it is well-formed, and the catalog gives all of it back
(`create_decides_wellFormed`).
-/
import Mathlib
import AlphaFoundry.Proofs.Catalog.WellFormed

namespace AlphaFoundry

set_option autoImplicit false

/-! ## One operator -/

namespace Operator

variable {op : Operator} {domains : List String}

/-- What is checked of one operator. -/
structure Sound (op : Operator) (domains : List String) : Prop where
  slots : op.inputs.length = op.arity.childCount
  accepting : ∀ slot ∈ op.inputs, slot ≠ []
  known : ∀ slot ∈ op.inputs, ∀ d ∈ slot, d ∈ domains
  output : op.output ∈ domains
  windowed : op.window.isSome ↔ op.arity = .windowed
  range : ∀ range, op.window = some range → range.isValid = true
  normalize : op.role = some .normalize → op.arity = .unary
  neutralize : op.role = some .neutralize → op.arity = .binary

theorem WellFormed.sound (well : op.WellFormed domains) : op.Sound domains where
  slots := well.slots
  accepting := well.accepting
  known := well.known
  output := well.output
  windowed := by
    refine ⟨fun ranged => ?_, fun windowed => ?_⟩
    · by_contra plain
      rw [well.unwindowed plain] at ranged
      cases ranged
    · obtain ⟨range, declared, -⟩ := well.windowed windowed
      rw [declared]
      rfl
  range range declared := by
    have windowed : op.arity = .windowed := by
      by_contra plain
      cases (well.unwindowed plain).symm.trans declared
    obtain ⟨_, declared', valid⟩ := well.windowed windowed
    cases declared.symm.trans declared'
    exact WindowRange.isValid_iff_wellFormed.2 valid
  normalize := well.normalize
  neutralize := well.neutralize

end Operator

/-! ## Catalogs -/

theorem find?_key_eq_some {α : Type} {key : α → String} {items : List α} {a : α}
    (distinct : (items.map key).Nodup) (member : a ∈ items) :
    items.find? (fun b => key b == key a) = some a := by
  induction items with
  | nil => cases member
  | cons b rest ih =>
      rw [List.map_cons, List.nodup_cons] at distinct
      rcases List.mem_cons.1 member with rfl | member
      · rw [List.find?_cons_of_pos]
        exact beq_self_eq_true (key a)
      · have other : key b ≠ key a := fun same => distinct.1 (same ▸ List.mem_map_of_mem member)
        rw [List.find?_cons_of_neg (by simpa using other)]
        exact ih distinct.2 member

/-- Where a partial function takes each value once, members with one value are the same. -/
theorem eq_of_filterMap_nodup {α β : Type} {f : α → Option β} {items : List α}
    (distinct : (items.filterMap f).Nodup) {a b : α} (ha : a ∈ items) (hb : b ∈ items) {r : β}
    (fa : f a = some r) (fb : f b = some r) : a = b := by
  induction items with
  | nil => cases ha
  | cons first rest ih =>
      have below := distinct.sublist ((List.sublist_cons_self first rest).filterMap f)
      have once {x : α} (fx : f first = some r) (member : x ∈ rest) (same : f x = some r) :
          False := by
        rw [List.filterMap_cons_some fx, List.nodup_cons] at distinct
        exact distinct.1 (List.mem_filterMap.2 ⟨x, member, same⟩)
      rcases List.mem_cons.1 ha with rfl | behind <;> rcases List.mem_cons.1 hb with rfl | behind'
      · rfl
      · exact (once fa behind' fb).elim
      · exact (once fb behind fa).elim
      · exact ih below behind behind'

namespace Catalog

variable (c : Catalog)

theorem wellFormed : c.definition.WellFormed :=
  Definition.issues_eq_nil_iff.1 c.sound

theorem fields_sound :
    (∀ f ∈ c.fields, f.domain ∈ c.domains) ∧ (c.fields.map Field.id).Nodup :=
  ⟨c.wellFormed.fieldDomains, c.wellFormed.fieldIds⟩

theorem operators_sound :
    (∀ op ∈ c.operators, op.Sound c.domains) ∧ (c.operators.map Operator.id).Nodup :=
  ⟨fun op member => (c.wellFormed.operators op member).sound, c.wellFormed.operatorIds⟩

variable {c}

/-- Looking an operator up by id finds the listed operator of that id. -/
theorem operator?_eq_some {id : String} {op : Operator} :
    c.operator? id = some op ↔ op ∈ c.operators ∧ op.id = id := by
  constructor
  · intro found
    exact ⟨List.mem_of_find?_eq_some found, by simpa using List.find?_some found⟩
  · rintro ⟨member, rfl⟩
    exact find?_key_eq_some c.operators_sound.2 member

theorem field?_eq_some {id : String} {f : Field} :
    c.field? id = some f ↔ f ∈ c.fields ∧ f.id = id := by
  constructor
  · intro found
    exact ⟨List.mem_of_find?_eq_some found, by simpa using List.find?_some found⟩
  · rintro ⟨member, rfl⟩
    exact find?_key_eq_some c.fields_sound.2 member

theorem operator?_sound {id : String} {op : Operator} (found : c.operator? id = some op) :
    op.Sound c.domains :=
  c.operators_sound.1 op (operator?_eq_some.1 found).1

/-- An operator found for a role is listed and has it. -/
theorem operatorForRole_eq_some {role : Role} {op : Operator}
    (found : c.operatorForRole role = some op) :
    c.operator? op.id = some op ∧ op.role = some role := by
  refine ⟨operator?_eq_some.2 ⟨List.mem_of_find?_eq_some found, rfl⟩, ?_⟩
  simpa using List.find?_some found

/-- A role is held by one operator, which is found, or by none. -/
theorem operatorForRole_eq_some_iff {role : Role} {op : Operator} :
    c.operatorForRole role = some op ↔ op ∈ c.operators ∧ op.role = some role := by
  constructor
  · intro found
    obtain ⟨listed, holds⟩ := operatorForRole_eq_some found
    exact ⟨(operator?_eq_some.1 listed).1, holds⟩
  · rintro ⟨member, holds⟩
    cases found : c.operatorForRole role with
    | none => exact absurd (by simpa using holds) (List.find?_eq_none.1 found op member)
    | some first =>
        obtain ⟨listed, holds'⟩ := operatorForRole_eq_some found
        have first : first ∈ c.operators := (operator?_eq_some.1 listed).1
        rw [eq_of_filterMap_nodup c.wellFormed.roles first member holds' holds]

/-! ## Tables by id -/

/-- Put an item behind the others of a table, or in the place of the one that has its id. -/
def putById {α : Type} (id : α → String) (a : α) : List (String × α) → List (String × α)
  | [] => [(id a, a)]
  | (key, b) :: rest => if key == id a then (key, a) :: rest else (key, b) :: putById id a rest

/-- Items by their ids, each id once. -/
def byId {α : Type} (id : α → String) (items : List α) : List (String × α) :=
  items.foldl (fun table a => putById id a table) []

section

variable {α : Type} {id : α → String}

theorem putById_of_notMem {a : α} {table : List (String × α)} (fresh : id a ∉ table.map Prod.fst) :
    putById id a table = table ++ [(id a, a)] := by
  induction table with
  | nil => rfl
  | cons entry rest ih =>
      rw [List.map_cons, List.mem_cons, not_or] at fresh
      rw [putById, if_neg (by simpa using Ne.symm fresh.1), ih fresh.2]
      rfl

/-- A table of items with distinct ids loses none of them. -/
theorem byId_of_nodup {items : List α} (distinct : (items.map id).Nodup) :
    byId id items = items.map fun a => (id a, a) := by
  induction items using List.reverseRecOn with
  | nil => rfl
  | append_singleton items last ih =>
      rw [List.map_append, List.map_singleton, List.nodup_append_comm, List.singleton_append,
        List.nodup_cons] at distinct
      have table := ih distinct.2
      unfold byId at table ⊢
      rw [List.foldl_append, table, List.foldl_cons, List.foldl_nil, putById_of_notMem,
        List.map_append]
      · rfl
      · simpa using distinct.1

theorem lookup_map_id {items : List α} (key : String) :
    (items.map fun a => (id a, a)).lookup key = items.find? fun a => id a == key := by
  induction items with
  | nil => rfl
  | cons a rest ih =>
      rw [List.map_cons, List.lookup_cons, List.find?_cons, ih, BEq.comm]

end

/-! ## Making a catalog -/

/-- A catalog gives back what a definition lists: in its order, by id and by role, and as tables of
items by id tell it. -/
structure Presents (c : Catalog) (d : Definition) : Prop where
  domains : c.domains = d.domains
  fields : c.fields = d.fields
  operators : c.operators = d.operators
  field : ∀ id f, c.field? id = some f ↔ f ∈ d.fields ∧ f.id = id
  operator : ∀ id op, c.operator? id = some op ↔ op ∈ d.operators ∧ op.id = id
  role : ∀ role op, c.operatorForRole role = some op ↔ op ∈ d.operators ∧ op.role = some role
  domainsOnce : d.domains.eraseDups = c.domains
  fieldsById : (byId Field.id d.fields).map Prod.snd = c.fields ∧
    ∀ id, (byId Field.id d.fields).lookup id = c.field? id
  operatorsById : (byId Operator.id d.operators).map Prod.snd = c.operators ∧
    ∀ id, (byId Operator.id d.operators).lookup id = c.operator? id

theorem presents (c : Catalog) : c.Presents c.definition where
  domains := rfl
  fields := rfl
  operators := rfl
  field _ _ := field?_eq_some
  operator _ _ := operator?_eq_some
  role _ _ := operatorForRole_eq_some_iff
  domainsOnce := eraseDups_of_nodup c.wellFormed.domains
  fieldsById := by
    rw [byId_of_nodup c.wellFormed.fieldIds, List.map_map]
    exact ⟨List.map_id _, fun id => lookup_map_id id⟩
  operatorsById := by
    rw [byId_of_nodup c.wellFormed.operatorIds, List.map_map]
    exact ⟨List.map_id _, fun id => lookup_map_id id⟩

theorem create_of_wellFormed {d : Definition} (well : d.WellFormed) :
    create d = .ok ⟨d, Definition.issues_eq_nil_iff.2 well⟩ := by
  unfold create
  split
  · rfl
  · exact absurd (Definition.issues_eq_nil_iff.2 well) ‹_›

theorem create_of_not_wellFormed {d : Definition} (ill : ¬ d.WellFormed) :
    create d = .error (.malformed d.issues) := by
  unfold create
  split
  · exact absurd (Definition.issues_eq_nil_iff.1 ‹_›) ill
  · rfl

/-- A definition is refused, with its issues, exactly if it is not well-formed; otherwise it makes a
catalog that loses nothing of it. -/
theorem create_decides_wellFormed (d : Definition) :
    match create d with
    | .ok c => d.WellFormed ∧ c.Presents d
    | .error fault => ¬ d.WellFormed ∧ fault = .malformed d.issues := by
  by_cases well : d.WellFormed
  · rw [create_of_wellFormed well]
    exact ⟨well, presents _⟩
  · rw [create_of_not_wellFormed well]
    exact ⟨well, rfl⟩

/-! ## A small catalog -/

/-- Two data fields, a group field, a rank and a sum, and wrapping operators of which the
neutralizing one produces a domain of choice. -/
def smallDefinition (neutralized : String) : Definition where
  domains := ["real", "flat", "group"]
  fields := [⟨"close", "price", "real", none⟩, ⟨"volume", "volume", "real", none⟩,
    ⟨"industry", "group", "group", none⟩]
  operators := [
    { id := "rank", category := .crossSectional, arity := .unary, inputs := [["real"]],
      output := "real", template := "rank(\x7b0\x7d)" },
    { id := "add", category := .arithmetic, arity := .binary, inputs := [["real"], ["real"]],
      output := "real", template := "\x7b0\x7d + \x7b1\x7d", tags := ["additive"] },
    { id := "neutralize", category := .group, arity := .binary, inputs := [["real"], ["group"]],
      output := neutralized, template := "neutralize(\x7b0\x7d, \x7b1\x7d)",
      role := some .neutralize },
    { id := "normalize", category := .crossSectional, arity := .unary, inputs := [["real"]],
      output := "real", template := "normalize(\x7b0\x7d)", role := some .normalize }]

/-- The small catalog whose wrapping operators fit. -/
def small : Catalog :=
  ⟨smallDefinition "real", by decide +kernel⟩

/-- The small catalog whose normalizing operator refuses what the neutralizing one produces. -/
def smallRefusing : Catalog :=
  ⟨smallDefinition "flat", by decide +kernel⟩

end Catalog

end AlphaFoundry
