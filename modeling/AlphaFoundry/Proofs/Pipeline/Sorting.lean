/-
# AlphaFoundry.Proofs.Pipeline.Sorting -- where candidates end

`Sorts` says, candidate by candidate, where a line puts what it is given: refused ones are rejected,
and of the valid ones that are written alike the first is accepted and the others are dropped.  The
progress of a line keeps to it, whatever batches it is given.
-/
import AlphaFoundry.Pipeline
import AlphaFoundry.Proofs.Log
import AlphaFoundry.Proofs.Validation.Review

namespace AlphaFoundry.Pipeline.Line

set_option autoImplicit false

variable {s : Line} {p : Progress} {ks accepted rejected dropped : List Candidate}

/-- Candidates, and those of them that are accepted, rejected and dropped, each in order. -/
inductive Sorts (s : Line) : List Candidate → List Candidate → List Candidate → List Candidate → Prop
  | nil : Sorts s [] [] [] []
  | accept {ks accepted rejected dropped : List Candidate}
      (before : Sorts s ks accepted rejected dropped) (k : Candidate)
      (valid : (s.validator.validate k).accepted = true)
      (fresh : ∀ a ∈ accepted, s.text a ≠ s.text k) :
      Sorts s (ks ++ [k]) (accepted ++ [s.validator.review k]) rejected dropped
  | drop {ks accepted rejected dropped : List Candidate}
      (before : Sorts s ks accepted rejected dropped) (k : Candidate)
      (valid : (s.validator.validate k).accepted = true)
      (kept : ∃ a ∈ accepted, s.text a = s.text k) :
      Sorts s (ks ++ [k]) accepted rejected (dropped ++ [s.validator.review k])
  | reject {ks accepted rejected dropped : List Candidate}
      (before : Sorts s ks accepted rejected dropped) (k : Candidate)
      (refused : (s.validator.validate k).accepted = false) :
      Sorts s (ks ++ [k]) accepted (rejected ++ [s.validator.review k]) dropped

namespace Sorts

theorem of_accepted (sorted : s.Sorts ks accepted rejected dropped) :
    ∀ a ∈ accepted, a.status = .accepted ∧ a.report = some ⟨true, []⟩ := by
  induction sorted with
  | nil => exact fun _ => (List.not_mem_nil · |>.elim)
  | accept before k valid fresh ih =>
      refine List.forall_mem_append.2 ⟨ih, List.forall_mem_singleton.2 ?_⟩
      rw [Validator.review_of_accepted valid]
      exact ⟨rfl, rfl⟩
  | drop before k valid kept ih => exact ih
  | reject before k refused ih => exact ih

theorem of_rejected (sorted : s.Sorts ks accepted rejected dropped) :
    ∀ r ∈ rejected, r.status = .rejected ∧ ∃ report, r.report = some report ∧
      report.violations ≠ [] := by
  induction sorted with
  | nil => exact fun _ => (List.not_mem_nil · |>.elim)
  | accept before k valid fresh ih => exact ih
  | drop before k valid kept ih => exact ih
  | reject before k refused ih =>
      refine List.forall_mem_append.2 ⟨ih, List.forall_mem_singleton.2 ?_⟩
      rw [Validator.review_of_refused refused]
      exact ⟨rfl, _, rfl, Validator.validate_refused_iff.1 refused⟩

/-- No two accepted candidates are written alike. -/
theorem nodup (sorted : s.Sorts ks accepted rejected dropped) : (accepted.map s.text).Nodup := by
  induction sorted with
  | nil => exact List.nodup_nil
  | accept before k valid fresh ih =>
      rw [List.map_append, List.nodup_append]
      refine ⟨ih, List.nodup_singleton _, ?_⟩
      rintro _ found _ last rfl
      obtain ⟨a, member, text⟩ := List.mem_map.1 found
      exact fresh a member (text.trans (List.mem_singleton.1 last))
  | drop before k valid kept ih => exact ih
  | reject before k refused ih => exact ih

/-- Nothing is lost, and nothing ends in two places. -/
theorem perm (sorted : s.Sorts ks accepted rejected dropped) :
    (accepted ++ rejected ++ dropped).Perm (ks.map s.validator.review) := by
  have move (before after : List Candidate) (k : Candidate) :
      (before ++ [k] ++ after).Perm (before ++ after ++ [k]) := by
    rw [List.append_assoc, List.append_assoc]
    exact List.perm_append_comm.append_left before
  induction sorted with
  | nil => exact .nil
  | @accept _ accepted rejected dropped before k valid fresh ih =>
      rw [List.map_append, List.append_assoc _ rejected]
      refine (move accepted (rejected ++ dropped) _).trans ?_
      rw [← List.append_assoc accepted]
      exact ih.append_right _
  | drop before k valid kept ih =>
      rw [List.map_append, ← List.append_assoc]
      exact ih.append_right _
  | @reject _ accepted rejected dropped before k refused ih =>
      rw [List.map_append, ← List.append_assoc]
      exact (move (accepted ++ rejected) dropped _).trans (ih.append_right _)

end Sorts

/-! ## Keeping what is accepted -/

variable (s) in
/-- The progress behind an accepted candidate. -/
def kept (p : Progress) (k : Candidate) : Progress :=
  if p.written.contains (s.text k) then p
  else { p with accepted := p.accepted ++ [k], written := s.text k :: p.written }

theorem keep_result (k : Candidate) : (s.keep p k).result = .ok (s.kept p k) := by
  unfold keep kept
  dsimp only
  split
  · rfl
  · rfl

theorem foldlM_keep_result : ∀ (ks : List Candidate) (p : Progress),
    (ks.foldlM s.keep p).result = .ok (ks.foldl s.kept p)
  | [], p => rfl
  | k :: rest, p => by
      rw [List.foldlM_cons]
      exact Logged.bind_result.2 ⟨_, keep_result k, foldlM_keep_result rest _⟩

/-- Keeping candidates changes nothing but what is accepted. -/
theorem foldl_kept_frame : ∀ (ks : List Candidate) (p : Progress),
    (ks.foldl s.kept p).attempts = p.attempts ∧ (ks.foldl s.kept p).rejected = p.rejected
  | [], p => ⟨rfl, rfl⟩
  | k :: rest, p => by
      have one : (s.kept p k).attempts = p.attempts ∧ (s.kept p k).rejected = p.rejected := by
        unfold kept
        split
        · exact ⟨rfl, rfl⟩
        · exact ⟨rfl, rfl⟩
      obtain ⟨attempts, rejected⟩ := foldl_kept_frame rest (s.kept p k)
      exact ⟨attempts.trans one.1, rejected.trans one.2⟩

theorem foldl_kept_length : ∀ (ks : List Candidate) (p : Progress),
    (ks.foldl s.kept p).accepted.length ≤ p.accepted.length + ks.length
  | [], p => le_rfl
  | k :: rest, p => by
      have one : (s.kept p k).accepted.length ≤ p.accepted.length + 1 := by
        unfold kept
        split
        · exact Nat.le_succ _
        · exact (List.length_append ..).le
      have others := foldl_kept_length rest (s.kept p k)
      rw [List.foldl_cons, List.length_cons]
      omega

variable (s) in
/-- The written formulas are those of the accepted candidates. -/
def Written (p : Progress) : Prop :=
  ∀ text, text ∈ p.written ↔ ∃ a ∈ p.accepted, s.text a = text

/-- A valid candidate is accepted or dropped. -/
theorem Sorts.keep (sorted : s.Sorts ks p.accepted rejected dropped) (written : s.Written p)
    {k : Candidate} (valid : (s.validator.validate k).accepted = true) :
    s.Written (s.kept p (s.validator.review k)) ∧ ∃ dropped',
      s.Sorts (ks ++ [k]) (s.kept p (s.validator.review k)).accepted rejected dropped' := by
  have text : s.text (s.validator.review k) = s.text k := rfl
  unfold kept
  rw [text]
  split
  · rename_i repeated
    exact ⟨written, _, .drop sorted k valid ((written _).1 (List.contains_iff_mem.1 repeated))⟩
  · rename_i new
    refine ⟨fun t => ?_, dropped, .accept sorted k valid fun a member same => new ?_⟩
    · rw [List.mem_cons, written]
      simp only [List.mem_append, List.mem_singleton, or_and_right, exists_or, exists_eq_left,
        text]
      exact or_comm.trans (or_congr_right eq_comm)
    · exact List.contains_iff_mem.2 ((written _).2 ⟨a, member, same⟩)

/-- A reviewed batch goes where its candidates belong. -/
theorem Sorts.batch : ∀ (batch : List Candidate) {ks rejected dropped : List Candidate}
    {p : Progress}, s.Sorts ks p.accepted rejected dropped → s.Written p →
      s.Written ((Validator.sort (batch.map s.validator.review)).accepted.foldl s.kept p) ∧
      ∃ dropped', s.Sorts (ks ++ batch)
        ((Validator.sort (batch.map s.validator.review)).accepted.foldl s.kept p).accepted
        (rejected ++ (Validator.sort (batch.map s.validator.review)).rejected) dropped'
  | [], ks, rejected, dropped, p, sorted, written => by
      refine ⟨written, dropped, ?_⟩
      rw [List.append_nil]
      exact (List.append_nil rejected).symm ▸ sorted
  | k :: rest, ks, rejected, dropped, p, sorted, written => by
      rw [List.append_cons]
      cases valid : (s.validator.validate k).accepted with
      | true =>
          have status : (s.validator.review k).status = .accepted := by
            rw [Validator.review_of_accepted valid]
          obtain ⟨written, _, sorted⟩ := sorted.keep written valid
          have later := Sorts.batch rest sorted written
          simpa [Validator.sort, status] using later
      | false =>
          have status : (s.validator.review k).status = .rejected := by
            rw [Validator.review_of_refused valid]
          have later := Sorts.batch rest (.reject sorted k valid) written
          simpa [Validator.sort, status] using later

end AlphaFoundry.Pipeline.Line
