/-
# AlphaFoundry.Proofs.Generation.Preference -- which of several fields is picked

A picker filters the fields of the wanted domains three times, and each time keeps them all if none
would be left.  That is taking the best of them by three answers in a row (`mem_pool_iff`): another
filter behind the others asks one more question of those that were equal so far.  What follows for a
sequence of picks, whatever their domains: the cap is exceeded only where all fields of the domains
are at it, and by counting not before these fields were picked as often as they allow.
-/
import AlphaFoundry.Proofs.Catalog.Sound
import AlphaFoundry.Proofs.Generation.Picks

namespace AlphaFoundry

set_option autoImplicit false

namespace FieldPicker

/-! ## The order of preference -/

/-- Preferring a property among the best by a rank is taking the best by both, the rank first. -/
theorem mem_prefer_best {α β : Type} [LinearOrder β] {rank : α → β} {property : α → Bool}
    {items chosen : List α} {a : α} (best : ∀ a, a ∈ chosen ↔ Best rank items a) :
    a ∈ prefer property chosen ↔ Best (fun b => toLex (rank b, property b)) items a := by
  rw [mem_prefer]
  constructor
  · rintro ⟨member, preferred⟩
    obtain ⟨listed, most⟩ := (best a).1 member
    refine ⟨listed, fun b other => Prod.Lex.toLex_le_toLex.2 ?_⟩
    rcases (most b other).lt_or_eq with less | same
    · exact .inl less
    · have also : b ∈ chosen := (best b).2 ⟨other, fun d third => same ▸ most d third⟩
      exact .inr ⟨same, preferred b also⟩
  · rintro ⟨listed, most⟩
    have member : a ∈ chosen := (best a).2 ⟨listed, fun b other => by
      rcases Prod.Lex.toLex_le_toLex.1 (most b other) with less | ⟨same, -⟩
      · exact less.le
      · exact same.le⟩
    refine ⟨member, fun b also => ?_⟩
    obtain ⟨other, atLeast⟩ := (best b).1 also
    rcases Prod.Lex.toLex_le_toLex.1 (most b other) with less | ⟨-, le⟩
    · exact absurd less (atLeast a listed).not_gt
    · exact le

/-- What speaks for a field behind some picks, in this order: it was picked less often than the cap,
it is not to be avoided, and its category was not picked. -/
def merit (cap : Nat) (earlier : List Field) (avoid : List String) (f : Field) :
    (Bool ×ₗ Bool) ×ₗ Bool :=
  toLex (toLex (decide (earlier.countP (·.id == f.id) < cap), !avoid.contains f.id),
    !earlier.any (·.category == f.category))

variable {p : FieldPicker} {domains avoid : List String} {f : Field}

/-- A pick draws from the fields of the domains for which most speaks. -/
theorem mem_pool_iff : f ∈ p.pool domains avoid ↔
    Best (merit p.cap p.picked avoid) (p.catalog.fieldsByDomain domains) f :=
  mem_prefer_best fun _ => mem_prefer_best fun _ => mem_prefer

/-! ## Picks one after the other -/

/-- What a pick is asked for. -/
structure Call where
  domains : List String
  avoid : List String

/-- The fields picked for some calls, one after the other; nothing if one of them has no supply. -/
def pickAll : List Call → FieldPicker → Rng → Option (List Field)
  | [], _, _ => some []
  | call :: calls, p, r =>
    match p.pick? call.domains call.avoid r with
    | (some (f, p), r) => (pickAll calls p r).map (f :: ·)
    | (none, _) => none

/-- The picker behind some more picks, the earliest first. -/
def after (p : FieldPicker) (fs : List Field) : FieldPicker :=
  { p with picked := fs.reverse ++ p.picked }

theorem pick?_mem_pool (supplied : p.catalog.fieldsByDomain domains ≠ []) (avoid : List String)
    (r : Rng) : ∃ f r', p.pick? domains avoid r = (some (f, p.after [f]), r') ∧
      f ∈ p.pool domains avoid := by
  have nonempty : p.pool domains avoid ≠ [] :=
    pool_ne_nil (by simpa [canSupply] using supplied) avoid
  obtain ⟨f, member, picked⟩ := r.pick?_isSome nonempty
  refine ⟨f, (r.pick? (p.pool domains avoid)).2, ?_, member⟩
  simp [pick?, nonempty, picked, after]

/-- Each answer is from the pool that the earlier ones leave. -/
structure Pooled (p : FieldPicker) (calls : List Call) (fs : List Field) : Prop where
  length : fs.length = calls.length
  pooled : ∀ {i call f}, (calls.zip fs)[i]? = some (call, f) →
    f ∈ (p.after (fs.take i)).pool call.domains call.avoid

/-- Calls with a supply are all answered. -/
theorem exists_pickAll : ∀ (calls : List Call) (p : FieldPicker) (r : Rng),
    (∀ call ∈ calls, p.catalog.fieldsByDomain call.domains ≠ []) →
    ∃ fs, pickAll calls p r = some fs ∧ Pooled p calls fs
  | [], _, _, _ => ⟨[], rfl, rfl, by simp⟩
  | call :: calls, p, r, supplied => by
      obtain ⟨here, below⟩ := List.forall_mem_cons.1 supplied
      obtain ⟨f, r', picked, member⟩ := pick?_mem_pool here call.avoid r
      obtain ⟨fs, rest, length, pooled⟩ := exists_pickAll calls (p.after [f]) r' below
      refine ⟨f :: fs, by simp [pickAll, picked, rest], by simp [length], ?_⟩
      intro i other g answered
      cases i with
      | zero =>
          obtain ⟨rfl, rfl⟩ : call = other ∧ f = g := by simpa using answered
          exact member
      | succ i => simpa [after] using pooled (by simpa using answered)

variable {c : Catalog} {cap i : Nat} {calls : List Call} {call : Call} {fs : List Field}

@[simp] theorem timesPicked_after (fs : List Field) (id : String) :
    (after { catalog := c, cap } fs).timesPicked id = fs.countP (·.id == id) := by
  simp [timesPicked, after]

@[simp] theorem merit_reverse (cap : Nat) (fs : List Field) (avoid : List String) :
    merit cap fs.reverse avoid = merit cap fs avoid := by
  funext f
  simp [merit]

theorem countP_take_succ (answered : fs[i]? = some f) (property : Field → Bool) :
    (fs.take (i + 1)).countP property
      = (fs.take i).countP property + (property f).toNat := by
  cases has : property f <;>
    simp [List.take_add_one, answered, List.countP_append, has]

namespace Pooled

section

variable (answers : Pooled { catalog := c, cap } calls fs)
  (answered : (calls.zip fs)[i]? = some (call, f))

include answers

theorem known (picked : f ∈ fs) : f ∈ c.fields := by
  obtain ⟨j, answered⟩ := List.getElem?_of_mem picked
  have asked : j < calls.length := by
    rw [← answers.length]
    exact (List.getElem?_eq_some_iff.1 answered).1
  have pooled := answers.pooled <|
    List.getElem?_zip_eq_some.2 ⟨List.getElem?_eq_getElem asked, answered⟩
  exact (List.mem_filter.1 (mem_of_mem_pool pooled)).1

/-- If all fields of some domains are at the cap, the picks that fell on them are as many as these
fields allow. -/
theorem length_mul_le (full : ∀ g ∈ c.fieldsByDomain domains,
      cap ≤ (fs.take i).countP (·.id == g.id)) :
    (c.fieldsByDomain domains).length * cap
      ≤ (fs.take i).countP fun g => domains.contains g.domain := by
  refine (length_mul_le_picked (p := after { catalog := c, cap } (fs.take i)) (n := cap) ?_).trans ?_
  · intro g listed
    rw [timesPicked_after]
    exact full g listed
  rw [List.countP_map]
  simp only [after, List.append_nil, List.countP_reverse]
  refine List.countP_mono_left fun f picked same => ?_
  -- Fields of one id are one field, so the pick was a field of these domains.
  obtain ⟨g, listed, same⟩ := List.mem_map.1 (of_decide_eq_true same)
  obtain ⟨known, domain⟩ := List.mem_filter.1 listed
  obtain rfl := List.inj_on_of_nodup_map c.fields_sound.2 known
    (answers.known (List.mem_of_mem_take picked)) same
  exact domain

include answered

theorem listed : f ∈ c.fieldsByDomain call.domains :=
  mem_of_mem_pool (answers.pooled answered)

theorem best : Best (merit cap (fs.take i) call.avoid) (c.fieldsByDomain call.domains) f := by
  simpa [after] using mem_pool_iff.1 (answers.pooled answered)

theorem spent (full : cap ≤ (fs.take i).countP (·.id == f.id)) :
    ∀ g ∈ c.fieldsByDomain call.domains, cap ≤ (fs.take i).countP (·.id == g.id) := by
  intro g listed
  rw [← @timesPicked_after c cap] at full ⊢
  exact spent_of_mem_pool (answers.pooled answered) full g listed

theorem within (room : (fs.take (i + 1)).countP (fun g => call.domains.contains g.domain)
      ≤ (c.fieldsByDomain call.domains).length * cap) :
    (fs.take (i + 1)).countP (·.id == f.id) ≤ cap := by
  have here := (List.getElem?_zip_eq_some.1 answered).2
  have own : call.domains.contains f.domain = true :=
    (List.mem_filter.1 (answers.listed answered)).2
  simp only [countP_take_succ here, own, beq_self_eq_true, Bool.toNat_true] at room ⊢
  by_contra beyond
  -- The field was at the cap, so all of its domains were, and they had no room for this pick.
  have many := answers.length_mul_le (answers.spent answered (by omega))
  omega

end

theorem capped (answers : Pooled { catalog := c, cap } calls fs)
    (same : ∀ call ∈ calls, call.domains = domains)
    (few : calls.length ≤ (c.fieldsByDomain domains).length * cap) (id : String) :
    ∀ j ≤ fs.length, (fs.take j).countP (·.id == id) ≤ cap := by
  intro j
  induction j with
  | zero => simp
  | succ j ih =>
      intro below
      have asked : j < calls.length := answers.length ▸ below
      have answered : (calls.zip fs)[j]? = some (calls[j], fs[j]) :=
        List.getElem?_zip_eq_some.2
          ⟨List.getElem?_eq_getElem asked, List.getElem?_eq_getElem below⟩
      by_cases here : fs[j].id = id
      · subst here
        refine answers.within answered ?_
        rw [same _ (List.getElem_mem asked)]
        calc (fs.take (j + 1)).countP (fun g => domains.contains g.domain)
            ≤ (fs.take (j + 1)).length := List.countP_le_length
          _ ≤ calls.length := by rw [List.length_take]; omega
          _ ≤ _ := few
      · rw [countP_take_succ (List.getElem?_eq_getElem below), beq_eq_false_iff_ne.2 here]
        exact ih (by omega)

end Pooled

/-- What a sequence of calls to a fresh picker is answered. -/
structure Answers (c : Catalog) (cap : Nat) (calls : List Call) (fs : List Field) : Prop where
  length : fs.length = calls.length
  /-- For each pick, most speaks of all fields of the domains that it is asked for. -/
  best : ∀ i call f, (calls.zip fs)[i]? = some (call, f) →
    Best (merit cap (fs.take i) call.avoid) (c.fieldsByDomain call.domains) f
  /-- A field is picked beyond the cap only if all fields of the domains are at it. -/
  spent : ∀ i call f, (calls.zip fs)[i]? = some (call, f) →
    cap ≤ (fs.take i).countP (·.id == f.id) →
    ∀ g ∈ c.fieldsByDomain call.domains, cap ≤ (fs.take i).countP (·.id == g.id)
  /-- A pick stays within the cap as long as the picks that fell on fields of its domains, whatever
  they were asked for, are not more than all those fields allow. -/
  within : ∀ i call f, (calls.zip fs)[i]? = some (call, f) →
    (fs.take (i + 1)).countP (fun g => call.domains.contains g.domain)
      ≤ (c.fieldsByDomain call.domains).length * cap →
    (fs.take (i + 1)).countP (·.id == f.id) ≤ cap
  /-- So picks for one list of domains all do if they are not more than its fields allow. -/
  capped : ∀ domains, (∀ call ∈ calls, call.domains = domains) →
    calls.length ≤ (c.fieldsByDomain domains).length * cap →
    ∀ id, fs.countP (·.id == id) ≤ cap

/-- A picker prefers fields picked less often than the cap, then those not to be avoided, then those
of new categories, in every sequence of calls. -/
theorem pickAll_answers (c : Catalog) (cap : Nat) (r : Rng) {calls : List Call}
    (supplied : ∀ call ∈ calls, c.fieldsByDomain call.domains ≠ []) :
    ∃ fs, pickAll calls { catalog := c, cap } r = some fs ∧ Answers c cap calls fs := by
  obtain ⟨fs, picked, answers⟩ := exists_pickAll calls { catalog := c, cap } r supplied
  refine ⟨fs, picked, ?_⟩
  constructor
  case length => exact answers.length
  case best => exact fun _ _ _ answered => answers.best answered
  case spent => exact fun _ _ _ answered => answers.spent answered
  case within => exact fun _ _ _ answered => answers.within answered
  case capped =>
    intro domains same few id
    simpa using answers.capped same few id fs.length le_rfl

/-- The third pick takes a field to be avoided, since the other one is at the cap. -/
theorem pickAll_answers_small :
    let calls := [⟨["real"], []⟩, ⟨["group", "real"], ["close"]⟩, ⟨["real"], ["close"]⟩]
    (∀ call ∈ calls, Catalog.small.fieldsByDomain call.domains ≠ []) ∧
      ∃ fs, pickAll calls { catalog := Catalog.small, cap := 1 } (.ofInt 1) = some fs ∧
        fs.map Field.id = ["volume", "industry", "close"] ∧ Answers Catalog.small 1 calls fs := by
  intro calls
  have supplied : ∀ call ∈ calls, Catalog.small.fieldsByDomain call.domains ≠ [] := by
    decide +kernel
  obtain ⟨fs, picked, answers⟩ := pickAll_answers Catalog.small 1 (.ofInt 1) supplied
  have ids : (pickAll calls { catalog := Catalog.small, cap := 1 } (.ofInt 1)).map
      (·.map Field.id) = some ["volume", "industry", "close"] := by
    decide +kernel
  rw [picked] at ids
  exact ⟨supplied, fs, picked, Option.some.inj ids, answers⟩

end FieldPicker

end AlphaFoundry
