/-
# AlphaFoundry.Proofs.Store.Saves -- what the files of many runs hold

Runs are saved to one directory, one after the other.  The file of a run is named for a second, and
a run that is saved in the same second takes it over; runs in other seconds leave it.  So behind all
of them the path that a run gave back leads to the last run of its second (`Run.successor`), and to
the run itself as long as no later one was saved within the second (`load_saveAll`).

JSON has one zero: the records of a run are found with the sign of a zero score gone, and otherwise
as they were.
-/
import Mathlib
import AlphaFoundry.Proofs.Host.Files
import AlphaFoundry.Proofs.Store
import AlphaFoundry.Proofs.Store.Names

namespace AlphaFoundry

set_option autoImplicit false

/-! ## Zeros without a sign -/

/-- The number itself, or zero for a zero with a sign. -/
def Number.unsigned (x : Float) : Float :=
  if x = -0.0 then 0.0 else x

namespace Json

def unsigned : Json → Json
  | .num x => .num (Number.unsigned x)
  | j => j

/-- An object with the signs of zeros among its members dropped. -/
def unsignedMembers : Json → Json
  | .obj members => .obj (members.map fun m => (m.1, m.2.unsigned))
  | j => j

variable {spread : Bool}

theorem write_unsigned (level : ℕ) (j : Json) :
    write spread level j.unsigned = write spread level j := by
  cases j with
  | num x =>
      show number (Number.unsigned x) = number x
      unfold Number.unsigned
      split
      · rename_i signed
        rw [signed]
        decide +kernel
      · rfl
  | _ => rfl

theorem writeMember_unsigned (level : ℕ) (m : String × Json) :
    writeMember spread level (m.1, m.2.unsigned) = writeMember spread level m := by
  rw [writeMember, write_unsigned, ← writeMember]

theorem writeMembers_unsigned (level : ℕ) (members : List (String × Json)) :
    writeMembers spread level (members.map fun m => (m.1, m.2.unsigned))
      = writeMembers spread level members := by
  induction members with
  | nil => rfl
  | cons m members ih => rw [List.map_cons, writeMembers, writeMembers, ih, writeMember_unsigned]

theorem write_unsignedMembers (level : ℕ) (j : Json) :
    write spread level j.unsignedMembers = write spread level j := by
  cases j with
  | obj members =>
      cases members with
      | nil => rfl
      | cons m members =>
          rw [unsignedMembers, List.map_cons, write, write, writeMember_unsigned,
            writeMembers_unsigned]
  | _ => rfl

theorem writeItems_unsignedMembers (level : ℕ) (items : List Json) :
    writeItems spread level (items.map unsignedMembers) = writeItems spread level items := by
  induction items with
  | nil => rfl
  | cons item items ih => rw [List.map_cons, writeItems, writeItems, ih, write_unsignedMembers]

end Json

/-- The record as its file tells it. -/
def Record.stored (r : Record) : Record :=
  { r with score := Number.unsigned r.score }

theorem Record.Shows.stored {r : Record} {j : Json} (shows : r.Shows j) :
    r.stored.Shows j.unsignedMembers := by
  obtain ⟨violations, each, members, rfl, perm⟩ := shows
  exact ⟨violations, each, _, rfl, perm.map _⟩

namespace Store

theorem storable_stored {r : Record} (finite : r.score.isFinite = true) : Storable r.stored := by
  show (Number.unsigned r.score).isFinite = true ∧ Number.unsigned r.score ≠ -0.0
  unfold Number.unsigned
  split
  · exact ⟨by decide +kernel, by decide +kernel⟩
  · exact ⟨finite, ‹_›⟩

theorem fileText_unsigned (documents : List Json) :
    fileText (documents.map Json.unsignedMembers) = fileText documents := by
  unfold fileText Json.pretty
  cases documents with
  | nil => rfl
  | cons j documents =>
      rw [List.map_cons, Json.write, Json.write, Json.write_unsignedMembers,
        Json.writeItems_unsignedMembers]

/-! ## Runs -/

/-- A run that is saved: its records, the documents that show them, and the level of its logger. -/
structure Run where
  time : Moment
  records : List Record
  documents : List Json
  threshold : Log.Level

namespace Run

/-- The documents show the records, and the scores are numbers. -/
structure Proper (run : Run) : Prop where
  shown : List.Forall₂ Record.Shows run.records run.documents
  finite : ∀ r ∈ run.records, r.score.isFinite = true

def path (dir : String) (run : Run) : String :=
  FilePath.join dir (fileName (some run.time))

/-- The last of some runs that lies in the second of a run, or the run itself if none does. -/
def successor (run : Run) (runs : List Run) : Run :=
  ((runs.filter fun later => later.time.seconds = run.time.seconds).getLast?).getD run

variable {run last : Run} {runs : List Run}

theorem Proper.read?_text (proper : run.Proper) :
    read? (fileText run.documents) = some (.ok (run.records.map Record.stored)) := by
  rw [← fileText_unsigned]
  refine read?_fileText ?_ ?_
  · rw [List.forall₂_map_left_iff, List.forall₂_map_right_iff]
    exact proper.shown.imp fun _ _ shows => shows.stored
  · exact List.forall_mem_map.2 fun r listed => storable_stored (proper.finite r listed)

theorem successor_mem (listed : run ∈ runs) : run.successor runs ∈ runs := by
  unfold successor
  cases found : (runs.filter fun later => later.time.seconds = run.time.seconds).getLast? with
  | none => exact listed
  | some later => exact List.mem_of_mem_filter (List.mem_of_getLast? found)

theorem seconds_successor (run : Run) (runs : List Run) :
    (run.successor runs).time.seconds = run.time.seconds := by
  unfold successor
  cases found : (runs.filter fun later => later.time.seconds = run.time.seconds).getLast? with
  | none => rfl
  | some later => simpa using List.of_mem_filter (List.mem_of_getLast? found)

theorem successor_append_of_eq (same : last.time.seconds = run.time.seconds) :
    run.successor (runs ++ [last]) = last := by
  simp [successor, same]

theorem successor_append_of_ne (differ : last.time.seconds ≠ run.time.seconds) :
    run.successor (runs ++ [last]) = run.successor runs := by
  simp [successor, differ]

/-- Among runs in the order of their times, no run of a second is later than the successor. -/
theorem le_successor (ordered : runs.Pairwise fun r r' => r.time.ms < r'.time.ms) {other : Run}
    (listed : other ∈ runs) (same : other.time.seconds = run.time.seconds) :
    other.time.ms ≤ (run.successor runs).time.ms := by
  induction runs using List.reverseRecOn with
  | nil => cases listed
  | append_singleton runs last ih =>
      obtain ⟨ordered, -, before⟩ := List.pairwise_append.1 ordered
      by_cases taken : last.time.seconds = run.time.seconds
      · rw [successor_append_of_eq taken]
        rcases List.mem_append.1 listed with earlier | here
        · exact (before other earlier last (List.mem_singleton_self _)).le
        · rw [List.mem_singleton.1 here]
      · rw [successor_append_of_ne taken]
        rcases List.mem_append.1 listed with earlier | here
        · exact ih ordered earlier
        · exact absurd (List.mem_singleton.1 here ▸ same) taken

/-- Among runs in the order of their times, a run keeps its file exactly if no later one was saved
in its second. -/
theorem successor_eq_self_iff (ordered : runs.Pairwise fun r r' => r.time.ms < r'.time.ms)
    (listed : run ∈ runs) : run.successor runs = run ↔
      ∀ later ∈ runs, run.time.ms < later.time.ms → later.time.seconds ≠ run.time.seconds := by
  constructor
  · intro own later listed' after same
    have := le_successor ordered listed' same
    rw [own] at this
    omega
  · intro alone
    have distinct : (runs.map fun r => r.time.ms).Nodup :=
      (List.pairwise_map.2 ordered).imp fun less => less.ne
    refine List.inj_on_of_nodup_map distinct (successor_mem listed) listed ?_
    have most := le_successor ordered listed rfl
    have least : ¬ run.time.ms < (run.successor runs).time.ms := fun after =>
      alone _ (successor_mem listed) after (seconds_successor run runs)
    omega

end Run

section Programs

variable {m : Type → Type} [Monad m] [Host m]

/-- Save runs to a directory; gives the path of each. -/
def saveAll (dir : String) (runs : List Run) : m (List String) :=
  runs.mapM fun run => save run.threshold run.documents dir (some run.time)

/-- What saving a run does. -/
def Run.save (dir : String) (run : Run) : m Unit := do
  Host.write dir (run.path dir) (fileText run.documents)
  Host.log run.threshold
    [{ level := .info, message := s!"Saved {run.documents.length} alphas to {run.path dir}" }]

/-- What the records found at a path are, with the note of their number. -/
def found (threshold : Log.Level) (path : String) (records : List Record) : m (List Record) := do
  Host.log threshold
    [{ level := .info, message := s!"Loaded {records.length} alphas from {path}" }]
  return records

variable [LawfulMonad m]

theorem saveAll_eq (dir : String) (runs : List Run) :
    saveAll dir runs = (do runs.forM (Run.save dir); return runs.map (Run.path dir) : m _) := by
  induction runs with
  | nil => simp [saveAll]
  | cons run runs ih =>
      unfold saveAll at ih
      have first : (save run.threshold run.documents dir (some run.time) : m String)
          = (do run.save dir; return run.path dir) := by
        simp [save, Run.save, Run.path]
      rw [saveAll, List.mapM_cons, ih, first]
      simp

variable {α : Type} {x : m α} {path : String} {run : Run}

/-- Where a file holds what a run saved, loading it finds the run. -/
theorem load_of_holds (proper : run.Proper)
    (holds : Host.Holds x path (fileText run.documents)) (threshold : Log.Level) :
    (do let a ← x; return (a, ← load threshold path))
      = (do let a ← x; return (a, ← found threshold path (run.records.map Record.stored))) := by
  have source : (ofSource path (.text (fileText run.documents)) : Logged Empty _)
      = ⟨[{ level := .info
            message := s!"Loaded {(run.records.map Record.stored).length} alphas from {path}" }],
          .ok (run.records.map Record.stored)⟩ := by
    rw [ofSource, proper.read?_text]
  unfold load found
  simp only [bind_assoc]
  rw [holds.bind_read, source]

section

variable {dir : String} (files : Host.Files m dir (Set.range fun t => fileName (some t)))

include files

/-- Behind all runs, the file of each holds what its successor saved. -/
theorem holds_saveAll {runs : List Run} (listed : run ∈ runs) :
    Host.Holds (runs.forM (Run.save dir) : m Unit) (run.path dir)
      (fileText (run.successor runs).documents) := by
  have logged (run : Run) (threshold : Log.Level) (notes : List Log.Note) :
      Host.Spares (Host.log threshold notes : m Unit) (run.path dir) :=
    files.spares_log ⟨run.time, rfl⟩ threshold notes
  induction runs using List.reverseRecOn with
  | nil => cases listed
  | append_singleton runs last ih =>
      have sequence : ((runs ++ [last]).forM (Run.save dir) : m Unit)
          = runs.forM (Run.save dir) >>= fun _ => last.save dir := by
        simp
      rw [sequence]
      by_cases same : last.time.seconds = run.time.seconds
      · have path : run.path dir = last.path dir := by
          rw [Run.path, Run.path, fileName_eq_iff.2 same]
        rw [Run.successor_append_of_eq same, path]
        exact .behind _ fun _ => (files.holds_write ⟨last.time, rfl⟩ _).andThen fun _ => logged ..
      · have differ : fileName (some run.time) ≠ fileName (some last.time) := fun names =>
          same (fileName_eq_iff.1 names).symm
        have earlier : run ∈ runs := (List.mem_append.1 listed).resolve_right fun here =>
          same (by rw [List.mem_singleton.1 here])
        rw [Run.successor_append_of_ne same]
        exact (ih earlier).andThen fun _ =>
          (files.spares_write ⟨run.time, rfl⟩ ⟨last.time, rfl⟩ differ _).bind fun _ => logged ..

theorem load_all_of_holds (runs loaded : List Run)
    (holds : ∀ run ∈ loaded, Host.Holds x (run.path dir) (fileText (run.successor runs).documents))
    (proper : ∀ run ∈ loaded, (run.successor runs).Proper) (threshold : Log.Level) :
    (do let a ← x; return (a, ← loaded.mapM fun run : Run => load threshold (run.path dir)))
      = (do
        let a ← x
        return (a, ← loaded.mapM fun run : Run =>
          found threshold (run.path dir) ((run.successor runs).records.map Record.stored))) := by
  induction loaded generalizing α with
  | nil => rfl
  | cons run loaded ih =>
      obtain ⟨here, below⟩ := List.forall_mem_cons.1 holds
      obtain ⟨first, rest⟩ := List.forall_mem_cons.1 proper
      set records := (run.successor runs).records.map Record.stored
      have still : ∀ other ∈ loaded,
          Host.Holds (do let a ← x; return (a, ← found threshold (run.path dir) records))
            (other.path dir) (fileText (other.successor runs).documents) := fun other listed =>
        (below other listed).andThen fun _ =>
          ((files.spares_log ⟨other.time, rfl⟩ _ _).bind fun _ => .pure _ _).bind fun _ => .pure _ _
      have head := congrArg
        (· >>= fun p => do return (p.1, p.2 :: (← loaded.mapM fun run : Run =>
          load threshold (run.path dir)))) (load_of_holds first here threshold)
      have tail := congrArg (· >>= fun p => pure (p.1.1, p.1.2 :: p.2)) (ih still rest)
      simp only [bind_assoc, pure_bind] at head tail
      simp only [List.mapM_cons, bind_assoc, pure_bind]
      exact head.trans tail

/-- Loading the files of all runs, once all are saved, finds for each run the records of the last
run in its second.  That is the run itself exactly if no later one was saved within the second. -/
theorem load_saveAll {runs : List Run} (proper : ∀ run ∈ runs, run.Proper)
    (ordered : runs.Pairwise fun run later => run.time.ms < later.time.ms)
    (threshold : Log.Level) :
    (do let paths ← saveAll dir runs; paths.mapM (load threshold) : m (List (List Record)))
        = (do
          let _ ← saveAll dir runs
          runs.mapM fun run =>
            found threshold (run.path dir) ((run.successor runs).records.map Record.stored))
      ∧ ∀ run ∈ runs, run.successor runs = run ↔
          ∀ later ∈ runs, run.time.ms < later.time.ms →
            later.time.seconds ≠ run.time.seconds := by
  refine ⟨?_, fun run listed => Run.successor_eq_self_iff ordered listed⟩
  have loaded := congrArg (Prod.snd <$> ·) (load_all_of_holds files runs runs
    (fun run listed => holds_saveAll files listed)
    (fun run listed => proper _ (Run.successor_mem listed)) threshold)
  simpa [saveAll_eq, Function.comp_def] using loaded

end

end Programs

/-! ## On the host of values -/

theorem slash_notMem_lastDigits (width n : ℕ) : '/' ∉ Number.lastDigits width n := by
  induction width generalizing n with
  | zero => exact List.not_mem_nil
  | succ width ih =>
      have digit : ∀ d : Fin 10, '/' ≠ d.val.digitChar := by decide
      rw [Number.lastDigits, List.mem_append, List.mem_singleton, not_or]
      exact ⟨ih _, digit ⟨n % 10, Nat.mod_lt n (by norm_num)⟩⟩

theorem slash_notMem_toString (a : ℤ) : '/' ∉ (toString a).toList := by
  have digits (n : ℕ) : '/' ∉ (toString n).toList := fun slash =>
    absurd (Number.isDigit_toString slash) (by decide)
  cases a with
  | ofNat n => exact digits n
  | negSucc n =>
      have text : (toString (Int.negSucc n)).toList = '-' :: (toString (n + 1)).toList := by
        rw [Int.toString_eq_repr, Int.repr]
        simp
      rw [text, List.mem_cons, not_or]
      exact ⟨by decide, digits _⟩

/-- The name of a file is a single part of a path. -/
theorem isName_fileName (t : Moment) : Host.Desk.IsName (fileName (some t)) := by
  have fields := toList_fileName t
  constructor
  · rw [fields]
    simp only [List.mem_append, not_or]
    exact ⟨by decide, slash_notMem_toString _, slash_notMem_lastDigits _ _, by decide,
      slash_notMem_lastDigits _ _, by decide⟩
  · rw [fields, FilePath.Stays]
    simp

/-- A run of records as they are built. -/
def Run.of (time : Moment) (records : List Record) : Run where
  time
  records
  documents := records.map Record.toJson
  threshold := .error

theorem Run.Proper.of (time : Moment) {records : List Record}
    (finite : ∀ r ∈ records, r.score.isFinite = true) : (Run.of time records).Proper :=
  ⟨List.forall₂_map_right_iff.2 (List.forall₂_same.2 fun r _ => r.shows_toJson), finite⟩

theorem finite_sample : ∀ r ∈ [Record.sample], r.score.isFinite = true :=
  List.forall_mem_singleton.2 (by decide +kernel)

/-- Of three runs, the second is saved within the second of the first, and the third behind it. -/
theorem load_saveAll_on_desk :
    let runs := [Run.of .epoch [Record.sample], Run.of ⟨999, by decide⟩ [],
      Run.of ⟨1000, by decide⟩ [Record.sample]]
    Host.Files (StateM Host.Desk) "" (Set.range fun t => fileName (some t))
      ∧ (∀ run ∈ runs, run.Proper)
      ∧ runs.Pairwise (fun run later => run.time.ms < later.time.ms)
      ∧ (do let paths ← saveAll "" runs; paths.mapM (load .error) : StateM Host.Desk _)
        = (do
          let _ ← saveAll "" runs
          runs.mapM fun run =>
            found .error (run.path "") ((run.successor runs).records.map Record.stored))
      ∧ runs.map (fun run => (run.successor runs).records.length) = [0, 0, 1] := by
  intro runs
  have files : Host.Files (StateM Host.Desk) "" (Set.range fun t => fileName (some t)) :=
    Host.Desk.filesOf _ (Set.forall_mem_range.2 isName_fileName)
  have proper : ∀ run ∈ runs, run.Proper := by
    simp only [runs, List.forall_mem_cons]
    exact ⟨.of _ finite_sample, .of _ nofun, .of _ finite_sample, nofun⟩
  have ordered : runs.Pairwise fun run later => run.time.ms < later.time.ms := by
    simp [runs, Run.of, Moment.epoch]
  exact ⟨files, proper, ordered, (load_saveAll files proper ordered .error).1, rfl⟩

/-- A run within the same second takes the file over. -/
theorem load_saveAll_taken_over :
    let runs := [Run.of .epoch [Record.sample], Run.of ⟨999, by decide⟩ []]
    runs.Pairwise (fun run later => run.time.ms < later.time.ms)
      ∧ ((do let paths ← saveAll "" runs; paths.mapM (load .error) : StateM Host.Desk _).run
          {}).1.map List.length = [0, 0] := by
  refine ⟨by simp [Run.of, Moment.epoch], ?_⟩
  decide +kernel

end Store

end AlphaFoundry
