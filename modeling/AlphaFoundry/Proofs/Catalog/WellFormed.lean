/-
# AlphaFoundry.Proofs.Catalog.WellFormed -- definitions without issues

Issues are looked for one by one, along the lists of a definition and with the ids seen so far.
`Definition.WellFormed` says what they are about, without the search: an issue is found exactly if a
definition is not well-formed (`issues_eq_nil_iff`).
-/
import Mathlib
import AlphaFoundry.Catalog.Basic
import AlphaFoundry.Proofs.Number.Double

namespace AlphaFoundry

set_option autoImplicit false

theorem ite_nil_eq_nil {α : Type} {p : Prop} [Decidable p] {x : α} :
    (if p then [] else [x]) = [] ↔ p := by
  by_cases h : p <;> simp [h]

theorem ite_singleton_eq_nil {α : Type} {p : Prop} [Decidable p] {x : α} :
    (if p then [x] else []) = [] ↔ ¬p := by
  by_cases h : p <;> simp [h]

/-! ## Lists without repeats -/

theorem nodup_eraseDups {α : Type} [BEq α] [LawfulBEq α] : ∀ l : List α, l.eraseDups.Nodup
  | [] => by simp
  | a :: l => by
      rw [List.eraseDups_cons, List.nodup_cons]
      refine ⟨?_, nodup_eraseDups _⟩
      rw [List.mem_eraseDups, List.mem_filter]
      simp
termination_by l => l.length
decreasing_by
  exact Nat.lt_succ_of_le (List.length_filter_le _ l)

theorem eraseDups_of_nodup {α : Type} [BEq α] [LawfulBEq α] {l : List α} (distinct : l.Nodup) :
    l.eraseDups = l := by
  induction l with
  | nil => simp
  | cons a l ih =>
      obtain ⟨fresh, distinct⟩ := List.nodup_cons.1 distinct
      have kept : (l.filter fun b => !b == a) = l :=
        List.filter_eq_self.2 fun b member => by
          simpa using fun same : b = a => fresh (same ▸ member)
      rw [List.eraseDups_cons, kept, ih distinct]

theorem length_eraseDups_eq_iff {α : Type} [BEq α] [LawfulBEq α] {l : List α} :
    l.eraseDups.length = l.length ↔ l.Nodup := by
  refine ⟨fun same => ?_, fun distinct => by rw [eraseDups_of_nodup distinct]⟩
  have part : l.eraseDups.Subperm l := (nodup_eraseDups l).subperm fun _ => List.mem_eraseDups.1
  exact (part.perm_of_length_le same.ge).nodup_iff.1 (nodup_eraseDups l)

/-- Ids that are new to those seen, and to each other. -/
def Fresh (seen ids : List String) : Prop :=
  (∀ id ∈ ids, id ∉ seen) ∧ ids.Nodup

theorem fresh_cons {seen ids : List String} {id : String} :
    Fresh seen (id :: ids) ↔ id ∉ seen ∧ Fresh (id :: seen) ids := by
  unfold Fresh
  rw [List.forall_mem_cons, List.nodup_cons]
  simp only [List.mem_cons, not_or]
  constructor
  · rintro ⟨⟨new, below⟩, once, distinct⟩
    exact ⟨new, fun other member => ⟨fun same => once (same ▸ member), below other member⟩,
      distinct⟩
  · rintro ⟨new, below, distinct⟩
    exact ⟨⟨new, fun other member => (below other member).2⟩,
      fun member => (below id member).1 rfl, distinct⟩

/-! ## Window ranges and templates -/

namespace WindowRange

/-- Both ends are whole numbers, `1 ≤ low ≤ high`. -/
def WellFormed (w : WindowRange) : Prop :=
  ∃ low high : ℤ, Number.value? w.min = some (((low : ℤ) : ℝ) : EReal) ∧
    Number.value? w.max = some (((high : ℤ) : ℝ) : EReal) ∧ 1 ≤ low ∧ low ≤ high

theorem isValid_iff (range : WindowRange) :
    range.isValid = true ↔ ∃ low high, range.bounds? = some (low, high) ∧ 1 ≤ low ∧ low ≤ high := by
  unfold isValid
  cases range.bounds? with
  | none => simp
  | some ends => obtain ⟨low, high⟩ := ends; simp

theorem bounds?_eq_some {range : WindowRange} {low high : Int} :
    range.bounds? = some (low, high) ↔
      Number.toInt? range.min = some low ∧ Number.toInt? range.max = some high := by
  unfold bounds?
  cases Number.toInt? range.min <;> cases Number.toInt? range.max <;> simp

theorem isValid_iff_wellFormed {range : WindowRange} :
    range.isValid = true ↔ range.WellFormed := by
  simp only [isValid_iff, bounds?_eq_some, Number.toInt?_eq_some, WellFormed, and_assoc]

end WindowRange

theorem Text.isInfixOf_iff {part text : List Char} :
    Text.isInfixOf part text = true ↔ part <:+: text := by
  induction text with
  | nil => rw [Text.isInfixOf, List.isEmpty_iff, List.infix_nil]
  | cons c text ih =>
      rw [Text.isInfixOf, Bool.or_eq_true, ih, List.isPrefixOf_iff_prefix, List.infix_cons_iff]

/-! ## Operators -/

namespace Operator

open Catalog

/-- What the checks of one operator are about. -/
structure WellFormed (op : Operator) (domains : List String) : Prop where
  slots : op.inputs.length = op.arity.childCount
  accepting : ∀ slot ∈ op.inputs, slot ≠ []
  known : ∀ slot ∈ op.inputs, ∀ d ∈ slot, d ∈ domains
  output : op.output ∈ domains
  windowed : op.arity = .windowed → ∃ range, op.window = some range ∧ range.WellFormed
  unwindowed : op.arity ≠ .windowed → op.window = none
  writesWindow : op.arity = .windowed → (place "window").toList <:+: op.template.toList
  writesArguments : ∀ i < op.arity.childCount, (place (toString i)).toList <:+: op.template.toList
  normalize : op.role = some .normalize → op.arity = .unary
  neutralize : op.role = some .neutralize → op.arity = .binary

variable {op : Operator} {domains : List String}

theorem writes_iff {key : String} :
    op.writes key = true ↔ (place key).toList <:+: op.template.toList :=
  Text.isInfixOf_iff

theorem slotIssues_eq_nil {i : Nat} {slot : List String} :
    op.slotIssues domains i slot = [] ↔ slot ≠ [] ∧ ∀ d ∈ slot, d ∈ domains := by
  unfold slotIssues
  rw [List.append_eq_nil_iff, ite_singleton_eq_nil, List.map_eq_nil_iff, List.filter_eq_nil_iff]
  simp

theorem allSlotIssues_eq_nil :
    op.inputs.zipIdx.flatMap (fun p => op.slotIssues domains p.2 p.1) = [] ↔
      (∀ slot ∈ op.inputs, slot ≠ []) ∧ ∀ slot ∈ op.inputs, ∀ d ∈ slot, d ∈ domains := by
  rw [List.flatMap_eq_nil_iff, ← forall₂_and]
  simp only [slotIssues_eq_nil]
  constructor
  · intro each slot member
    obtain ⟨i, bound, rfl⟩ := List.getElem_of_mem member
    exact each (op.inputs[i], i) (by simp [List.mem_zipIdx_iff_getElem?])
  · intro each p member
    exact each p.1 (List.fst_mem_of_mem_zipIdx member)

theorem windowIssues_eq_nil : op.windowIssues = [] ↔
    (op.arity = .windowed → ∃ range, op.window = some range ∧ range.WellFormed) ∧
    (op.arity ≠ .windowed → op.window = none) ∧
    (op.arity = .windowed → (place "window").toList <:+: op.template.toList) := by
  unfold windowIssues
  cases arity : op.arity with
  | unary => simp
  | binary => simp
  | windowed =>
      rw [List.append_eq_nil_iff, ite_nil_eq_nil, writes_iff]
      cases op.window with
      | none => simp
      | some range => simp [WindowRange.isValid_iff_wellFormed]

theorem argumentIssues_eq_nil : op.argumentIssues = [] ↔
    ∀ i < op.arity.childCount, (place (toString i)).toList <:+: op.template.toList := by
  unfold argumentIssues
  rw [List.map_eq_nil_iff, List.filter_eq_nil_iff]
  simp [writes_iff]

theorem roleIssues_eq_nil : op.roleIssues = [] ↔
    (op.role = some .normalize → op.arity = .unary) ∧
    (op.role = some .neutralize → op.arity = .binary) := by
  unfold roleIssues
  split <;> simp [*]

theorem issues_eq_nil_iff : op.issues domains = [] ↔ op.WellFormed domains := by
  unfold issues
  simp only [List.append_eq_nil_iff, ite_nil_eq_nil, allSlotIssues_eq_nil, windowIssues_eq_nil,
    argumentIssues_eq_nil, roleIssues_eq_nil, List.contains_iff_mem]
  constructor
  · rintro ⟨⟨⟨⟨⟨slots, accepting, known⟩, output⟩, windowed, unwindowed, writesWindow⟩,
      writesArguments⟩, normalize, neutralize⟩
    exact ⟨slots, accepting, known, output, windowed, unwindowed, writesWindow, writesArguments,
      normalize, neutralize⟩
  · intro w
    exact ⟨⟨⟨⟨⟨w.slots, w.accepting, w.known⟩, w.output⟩, w.windowed, w.unwindowed,
      w.writesWindow⟩, w.writesArguments⟩, w.normalize, w.neutralize⟩

end Operator

/-! ## Definitions -/

namespace Definition

/-- What the checks of a definition are about. -/
structure WellFormed (d : Definition) : Prop where
  domains : d.domains.Nodup
  fieldIds : (d.fields.map Field.id).Nodup
  fieldDomains : ∀ f ∈ d.fields, f.domain ∈ d.domains
  operatorIds : (d.operators.map Operator.id).Nodup
  operators : ∀ op ∈ d.operators, op.WellFormed d.domains
  /-- No role is held by two operators. -/
  roles : (d.operators.filterMap Operator.role).Nodup

variable {domains seen : List String}

theorem fieldIssues_eq_nil {fs : List Field} : fieldIssues domains seen fs = [] ↔
    Fresh seen (fs.map Field.id) ∧ ∀ f ∈ fs, f.domain ∈ domains := by
  induction fs generalizing seen with
  | nil => simp [fieldIssues, Fresh]
  | cons f rest ih =>
      rw [fieldIssues, List.append_eq_nil_iff, List.append_eq_nil_iff, ite_singleton_eq_nil,
        ite_nil_eq_nil, List.contains_iff_mem, List.contains_iff_mem, ih, List.map_cons, fresh_cons,
        List.forall_mem_cons]
      tauto

theorem operatorIssues_eq_nil {ops : List Operator} : operatorIssues domains seen ops = [] ↔
    Fresh seen (ops.map Operator.id) ∧ ∀ op ∈ ops, op.WellFormed domains := by
  induction ops generalizing seen with
  | nil => simp [operatorIssues, Fresh]
  | cons op rest ih =>
      rw [operatorIssues, List.append_eq_nil_iff, List.append_eq_nil_iff, ite_singleton_eq_nil,
        List.contains_iff_mem, Operator.issues_eq_nil_iff, ih, List.map_cons, fresh_cons,
        List.forall_mem_cons]
      tauto

theorem sharedRoles_eq_nil {d : Definition} :
    d.sharedRoles = [] ↔ (d.operators.filterMap Operator.role).Nodup := by
  unfold sharedRoles roles
  rw [List.map_eq_nil_iff, List.filter_eq_nil_iff, List.nodup_iff_count_le_one]
  simp only [List.mem_eraseDups, decide_eq_true_eq, not_lt]
  refine ⟨fun each r => ?_, fun each r _ => each r⟩
  by_cases held : r ∈ d.operators.filterMap Operator.role
  · exact each r held
  · rw [List.count_eq_zero_of_not_mem held]
    exact zero_le_one

theorem issues_eq_nil_iff {d : Definition} : d.issues = [] ↔ d.WellFormed := by
  unfold issues
  simp only [List.append_eq_nil_iff, ite_nil_eq_nil, length_eraseDups_eq_iff, fieldIssues_eq_nil,
    operatorIssues_eq_nil, sharedRoles_eq_nil, Fresh, List.not_mem_nil, not_false_eq_true,
    implies_true, true_and]
  constructor
  · rintro ⟨⟨⟨domains, fieldIds, fieldDomains⟩, operatorIds, operators⟩, roles⟩
    exact ⟨domains, fieldIds, fieldDomains, operatorIds, operators, roles⟩
  · intro w
    exact ⟨⟨⟨w.domains, w.fieldIds, w.fieldDomains⟩, w.operatorIds, w.operators⟩, w.roles⟩

end Definition

end AlphaFoundry
