/-
# AlphaFoundry.Proofs.Store -- what is saved is loaded again

Records and violations are stored as objects, and the form that reads them back asks for the members
by their keys.  So it does not matter in which order the members of a document stand: a document
`Shows` a record if it has the members of its stored form, in any order.
-/
import Mathlib
import AlphaFoundry.Store
import AlphaFoundry.Proofs.Host
import AlphaFoundry.Proofs.Json.Reading

namespace AlphaFoundry

set_option autoImplicit false

/-! ## Members in any order -/

namespace Json

/-- An object that has some members, in any order, and no others. -/
def HasMembers (j : Json) (whole : List (String × Json)) : Prop :=
  ∃ members, j = .obj members ∧ members.Perm whole

variable {j : Json} {whole : List (String × Json)}

theorem HasMembers.writable (shows : j.HasMembers whole) (distinct : (whole.map Prod.fst).Nodup)
    (each : ∀ m ∈ whole, Writable m.2) : Writable j := by
  obtain ⟨members, rfl, perm⟩ := shows
  exact .obj ((perm.map Prod.fst).nodup_iff.2 distinct) fun m member =>
    each m (perm.mem_iff.1 member)

theorem Writable.of_forall₂ {α : Type} {R : α → Json → Prop} {xs : List α} {js : List Json}
    (related : List.Forall₂ R xs js) (each : ∀ x j, R x j → Writable j) : Writable (.arr js) := by
  refine .arr ?_
  induction related with
  | nil => exact nofun
  | cons first _ ih => exact List.forall_mem_cons.2 ⟨each _ _ first, ih⟩

theorem lookup_of_mem {members : List (String × Json)} (distinct : (members.map Prod.fst).Nodup)
    {key : String} (member : (key, j) ∈ members) : members.lookup key = some j := by
  induction members with
  | nil => cases member
  | cons m members ih =>
      rw [List.map_cons, List.nodup_cons] at distinct
      rw [List.lookup_cons]
      rcases List.mem_cons.1 member with rfl | member
      · rw [beq_self_eq_true]
      · have other : key ≠ m.1 := by
          rintro rfl
          exact distinct.1 (List.mem_map.2 ⟨_, member, rfl⟩)
        rw [beq_false_of_ne other]
        exact ih distinct.2 member

end Json

namespace Schema

open Json

variable {α : Type} {form : Form α} {x : α}

theorem member_of_mem {members : Members} (distinct : (members.map Prod.fst).Nodup) {key : String}
    {j : Json} (member : (key, j) ∈ members) (reads : form (some j) = .ok x) :
    Schema.member members key form = .ok x := by
  rw [Schema.member, lookup_of_mem distinct member, reads]
  rfl

theorem member_of_notMem {members : Members} {key : String} (absent : key ∉ members.map Prod.fst)
    (reads : form none = .ok x) : Schema.member members key form = .ok x := by
  have none : members.lookup key = none := by
    rw [List.lookup_eq_none_iff]
    intro m member
    have other : key ≠ m.1 := by
      rintro rfl
      exact absent (List.mem_map.2 ⟨m, member, rfl⟩)
    exact bne_iff_ne.2 other
  rw [Schema.member, none, reads]
  rfl

/-- A value is read back from its name. -/
theorem oneOf_name {name : α → String} (injective : Function.Injective name) {all : List α}
    (listed : x ∈ all) : oneOf name all (some (.str (name x))) = .ok x := by
  cases found : all.find? fun a => name a == name x with
  | none => exact absurd (beq_self_eq_true _) (List.find?_eq_none.1 found x listed)
  | some a =>
      have same := List.find?_some found
      obtain rfl := injective (eq_of_beq same)
      unfold oneOf
      dsimp only
      rw [found]

theorem items_of_forall₂ {xs : List α} {js : List Json}
    (reads : List.Forall₂ (fun x j => form (some j) = .ok x) xs js) (i : ℕ) :
    items form i js = .ok xs := by
  induction reads generalizing i with
  | nil => rfl
  | cons first _ ih =>
      rw [items, first, ih]
      rfl

theorem number_of_finite {x : Float} (finite : x.isFinite = true) :
    number (some (.num x)) = .ok x := by
  obtain ⟨r, value⟩ := Number.isFinite_iff.1 finite
  rw [number, if_neg (by rw [Number.isNaN_of_value? value]; exact Bool.false_ne_true)]

end Schema

/-! ## Records -/

theorem Tier.name_injective : Function.Injective Tier.name := by
  intro a b
  cases a <;> cases b <;> decide

theorem Status.name_injective : Function.Injective Status.name := by
  intro a b
  cases a <;> cases b <;> decide

theorem RuleId.name_injective : Function.Injective RuleId.name := by
  intro a b
  cases a <;> cases b <;> decide

theorem Severity.name_injective : Function.Injective Severity.name := by
  intro a b
  cases a <;> cases b <;> decide

/-- The members under which a violation is stored. -/
def Violation.members (v : Violation) : List (String × Json) :=
  [("ruleId", .str v.ruleId.name), ("severity", .str v.severity.name), ("reason", .str v.reason)]
    ++ (v.path.map fun p => ("path", Json.str p)).toList

/-- A document shows a violation. -/
def Violation.Shows (v : Violation) (j : Json) : Prop :=
  j.HasMembers v.members

/-- The members under which a record is stored, its violations as they are shown. -/
def Record.members (r : Record) (violations : List Json) : List (String × Json) :=
  [("id", .str r.id), ("expression", .str r.expression), ("tier", .str r.tier.name),
    ("skeletonId", .str r.skeletonId), ("neutralization", .str r.neutralization),
    ("normalization", .str r.normalization), ("score", .num r.score),
    ("status", .str r.status.name), ("violations", .arr violations)]

/-- A document shows a record. -/
def Record.Shows (r : Record) (j : Json) : Prop :=
  ∃ violations, List.Forall₂ Violation.Shows r.violations violations ∧
    j.HasMembers (r.members violations)

theorem Violation.shows_toJson (v : Violation) : v.Shows v.toJson :=
  ⟨v.members, rfl, .rfl⟩

theorem Record.shows_toJson (r : Record) : r.Shows r.toJson :=
  ⟨r.violations.map Violation.toJson,
    List.forall₂_map_right_iff.2 (List.forall₂_same.2 fun v _ => v.shows_toJson),
    _, rfl, .rfl⟩

namespace Violation.Shows

open Schema

variable {v : Violation} {j : Json}

theorem nodup_keys (v : Violation) : (v.members.map Prod.fst).Nodup := by
  obtain ⟨_, _, _, _ | _⟩ := v
  · show ["ruleId", "severity", "reason"].Nodup
    decide
  · show ["ruleId", "severity", "reason", "path"].Nodup
    decide

theorem writable (shows : v.Shows j) : Json.Writable j := by
  refine Json.HasMembers.writable shows (nodup_keys v) ?_
  rw [members, List.forall_mem_append]
  refine ⟨?_, ?_⟩
  · simp only [List.forall_mem_cons]
    exact ⟨.str _, .str _, .str _, nofun⟩
  · cases v.path with
    | none => exact nofun
    | some p => exact List.forall_mem_singleton.2 (.str p)

/-- The form of stored violations reads what a document shows. -/
theorem read (shows : v.Shows j) : Record.violationForm (some j) = .ok v := by
  obtain ⟨shuffled, rfl, perm⟩ := shows
  have distinct := (perm.map Prod.fst).nodup_iff.2 (nodup_keys v)
  have stored {α : Type} {form : Form α} {key : String} {j : Json} {x : α}
      (listed : (key, j) ∈ v.members) (reads : form (some j) = .ok x) :
      member shuffled key form = .ok x := member_of_mem distinct (perm.mem_iff.2 listed) reads
  have rule : member shuffled "ruleId" (oneOf RuleId.name RuleId.all) = .ok v.ruleId :=
    stored (.head _) (oneOf_name RuleId.name_injective (by cases v.ruleId <;> decide))
  have severity : member shuffled "severity" (oneOf Severity.name Severity.all) = .ok v.severity :=
    stored (.tail _ (.head _)) (oneOf_name Severity.name_injective (by cases v.severity <;> decide))
  have reason : member shuffled "reason" text = .ok v.reason :=
    stored (.tail _ (.tail _ (.head _))) rfl
  have path : member shuffled "path" (optional text) = .ok v.path := by
    obtain ⟨_, _, _, _ | p⟩ := v
    · refine member_of_notMem (fun present => ?_) rfl
      have present := (perm.map Prod.fst).mem_iff.1 present
      revert present
      show "path" ∉ ["ruleId", "severity", "reason"]
      decide
    · exact stored (.tail _ (.tail _ (.tail _ (.head _)))) rfl
  show Violation.mk <$> _ <*> _ <*> _ <*> _ = _
  rw [rule, reason, severity, path]
  rfl

end Violation.Shows

namespace Record.Shows

open Schema

variable {r : Record} {j : Json}

theorem nodup_keys (r : Record) (violations : List Json) :
    ((r.members violations).map Prod.fst).Nodup := by
  show ["id", "expression", "tier", "skeletonId", "neutralization", "normalization", "score",
    "status", "violations"].Nodup
  decide

theorem writable (shows : r.Shows j) (finite : r.score.isFinite = true) (plain : r.score ≠ -0.0) :
    Json.Writable j := by
  obtain ⟨violations, shown, has⟩ := shows
  have listed := Json.Writable.of_forall₂ shown fun _ _ shows => shows.writable
  refine has.writable (nodup_keys r violations) ?_
  simp only [members, List.forall_mem_cons]
  exact ⟨.str _, .str _, .str _, .str _, .str _, .str _, .num finite plain, .str _, listed, nofun⟩

/-- The form of stored records reads what a document shows. -/
theorem read (shows : r.Shows j) (finite : r.score.isFinite = true) :
    Record.form (some j) = .ok r := by
  obtain ⟨shown, each, shuffled, rfl, perm⟩ := shows
  have distinct := (perm.map Prod.fst).nodup_iff.2 (nodup_keys r shown)
  have stored {α : Type} {form : Form α} {key : String} {j : Json} {x : α}
      (listed : (key, j) ∈ r.members shown) (reads : form (some j) = .ok x) :
      member shuffled key form = .ok x := member_of_mem distinct (perm.mem_iff.2 listed) reads
  have id : member shuffled "id" text = .ok r.id := stored (j := .str r.id) (by simp [members]) rfl
  have expression : member shuffled "expression" text = .ok r.expression :=
    stored (j := .str r.expression) (by simp [members]) rfl
  have tier : member shuffled "tier" (oneOf Tier.name Tier.all) = .ok r.tier :=
    stored (j := .str r.tier.name) (by simp [members])
      (oneOf_name Tier.name_injective (by cases r.tier <;> decide))
  have skeleton : member shuffled "skeletonId" text = .ok r.skeletonId :=
    stored (j := .str r.skeletonId) (by simp [members]) rfl
  have neutralization : member shuffled "neutralization" text = .ok r.neutralization :=
    stored (j := .str r.neutralization) (by simp [members]) rfl
  have normalization : member shuffled "normalization" text = .ok r.normalization :=
    stored (j := .str r.normalization) (by simp [members]) rfl
  have score : member shuffled "score" number = .ok r.score :=
    stored (j := .num r.score) (by simp [members]) (number_of_finite finite)
  have status : member shuffled "status" (oneOf Status.name Status.all) = .ok r.status :=
    stored (j := .str r.status.name) (by simp [members])
      (oneOf_name Status.name_injective (by cases r.status <;> decide))
  have violations : member shuffled "violations" (list violationForm) = .ok r.violations :=
    stored (j := .arr shown) (by simp [members])
      (items_of_forall₂ (each.imp fun _ _ shows => shows.read) 0)
  show Record.mk <$> _ <*> _ <*> _ <*> _ <*> _ <*> _ <*> _ <*> _ <*> _ = _
  rw [id, expression, tier, skeleton, neutralization, normalization, score, status, violations]
  rfl

end Record.Shows

/-! ## Files -/

namespace Store

/-- The score of a record is a number that JSON can write. -/
def Storable (r : Record) : Prop :=
  r.score.isFinite = true ∧ r.score ≠ -0.0

variable {records : List Record} {documents : List Json}

theorem read?_fileText (shown : List.Forall₂ Record.Shows records documents)
    (storable : ∀ r ∈ records, Storable r) : read? (fileText documents) = some (.ok records) := by
  have shown := (List.forall₂_and_left records documents).2 ⟨storable, shown⟩
  have writable : Json.Writable (.arr documents) := .of_forall₂ shown fun _ _ shows =>
    shows.2.writable shows.1.1 shows.1.2
  have text : fileText documents
      = String.ofList (Json.write true 0 (.arr documents) ++ ['\n']) := by
    rw [fileText, Json.pretty, String.ofList_append]
  have loaded : Schema.list Record.form (some (.arr documents)) = .ok records :=
    Schema.items_of_forall₂ (shown.imp fun _ _ shows => shows.2.read shows.1.1) 0
  rw [read?, text, Json.read?_write writable true rfl, Option.map_some, Schema.read, loaded]
  rfl

/-- Saving records and loading the file that was written gives the records back, in their order, and
notes how many there are. -/
theorem load_save {m : Type → Type} [Monad m] [LawfulMonad m] [Host m] {dir : String}
    {t : Option Moment} (shown : List.Forall₂ Record.Shows records documents)
    (storable : ∀ r ∈ records, Storable r)
    (keeps : Host.Keeps m dir (FilePath.join dir (fileName t)) (fileText documents))
    (threshold threshold' : Log.Level) :
    (do let path ← save threshold documents dir t; load threshold' path : m (List Record))
      = do
        let path ← save threshold documents dir t
        Host.log threshold'
          [{ level := .info, message := s!"Loaded {records.length} alphas from {path}" }]
        return records := by
  have found (path : String) : (ofSource path (.text (fileText documents)) : Logged Empty _)
      = ⟨[{ level := .info, message := s!"Loaded {records.length} alphas from {path}" }],
          .ok records⟩ := by
    rw [ofSource, read?_fileText shown storable]
  unfold save load
  simp only [bind_assoc, pure_bind]
  rw [keeps.bind, found]

end Store

/-- A record with a violation of each kind, and letters of which some are escaped. -/
def Record.sample : Record where
  id := "basic-1-1"
  expression := "rank(close) \"\\ \n\x01 é 𝄞"
  tier := .basic
  skeletonId := ""
  neutralization := "industry"
  normalization := "none"
  score := 0.85
  status := .rejected
  violations := [{ ruleId := .limits, reason := "too deep", severity := .high, path := some "root.0" },
    { ruleId := .shape, reason := "", severity := .low }]

theorem load_save_on_desk :
    List.Forall₂ Record.Shows [Record.sample] [Record.sample.toJson]
      ∧ (∀ r ∈ [Record.sample], Store.Storable r)
      ∧ Host.Keeps (StateM Host.Desk) "" (FilePath.join "" (Store.fileName (some .epoch)))
          (Store.fileText [Record.sample.toJson])
      ∧ (do
          let path ← Store.save .info [Record.sample.toJson] "" (some .epoch)
          Store.load .info path : StateM Host.Desk (List Record))
        = do
          let path ← Store.save .info [Record.sample.toJson] "" (some .epoch)
          Host.log .info [{ level := .info, message := s!"Loaded 1 alphas from {path}" }]
          return [Record.sample] := by
  have shown : List.Forall₂ Record.Shows [Record.sample] [Record.sample.toJson] :=
    .cons Record.sample.shows_toJson .nil
  have storable : ∀ r ∈ [Record.sample], Store.Storable r := by
    refine List.forall_mem_singleton.2 ⟨?_, ?_⟩
    · show (0.85 : Float).isFinite = true
      decide +kernel
    · show (0.85 : Float) ≠ -0.0
      decide +kernel
  have keeps : Host.Keeps (StateM Host.Desk) "" (FilePath.join "" (Store.fileName (some .epoch)))
      (Store.fileText [Record.sample.toJson]) := by
    have name : FilePath.join "" (Store.fileName (some .epoch)) = "alphas_19700101_000000.json" := by
      decide +kernel
    rw [name]
    exact Host.Desk.IsName.keeps ⟨by decide, by unfold FilePath.Stays; decide⟩ _ _
  exact ⟨shown, storable, keeps, Store.load_save shown storable keeps .info .info⟩

end AlphaFoundry
