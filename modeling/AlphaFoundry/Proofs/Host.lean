/-
# AlphaFoundry.Proofs.Host -- files that are found as they were written

A host `Keeps` a file if what is read from its path, after it was written and lines were shown, is
the text that was written.  The host of values keeps every file in its working directory.
-/
import Mathlib
import AlphaFoundry.Host.Desk

namespace AlphaFoundry

set_option autoImplicit false

/-- A file that was just written is found as it was written, whatever lines are shown between. -/
def Host.Keeps (m : Type → Type) [Monad m] [Host m] (dir path text : String) : Prop :=
  ∀ (threshold : Log.Level) (notes : List Log.Note),
    (do Host.write dir path text; Host.log threshold notes; Host.read path : m Source)
      = (do Host.write dir path text; Host.log threshold notes; return .text text)

theorem Host.Keeps.bind {m : Type → Type} [Monad m] [LawfulMonad m] [Host m] {α : Type}
    {dir path text : String} (keeps : Host.Keeps m dir path text) (threshold : Log.Level)
    (notes : List Log.Note) (next : Source → m α) :
    (do Host.write dir path text; Host.log threshold notes; next (← Host.read path))
      = (do Host.write dir path text; Host.log threshold notes; next (.text text)) := by
  simpa only [bind_assoc, pure_bind] using congrArg (· >>= next) (keeps threshold notes)

/-! ## A host of values -/

namespace FilePath

theorem parts_of_notMem {cs : List Char} (plain : '/' ∉ cs) : parts cs = [cs] := by
  induction cs with
  | nil => rfl
  | cons c cs ih =>
      rw [List.mem_cons, not_or] at plain
      rw [parts, if_neg (by simpa using Ne.symm plain.1), ih plain.2]

theorem parts_ne_nil (cs : List Char) : parts cs ≠ [] := by
  cases cs with
  | nil => exact List.cons_ne_nil _ _
  | cons c cs =>
      rw [parts]
      split
      · exact List.cons_ne_nil _ _
      · split <;> exact List.cons_ne_nil _ _

theorem parts_append (above below : List Char) :
    parts (above ++ '/' :: below) = parts above ++ parts below := by
  induction above with
  | nil => rfl
  | cons c cs ih =>
      rw [List.cons_append, parts, parts]
      split
      · rw [ih]
        rfl
      · rw [ih]
        cases below : parts cs with
        | nil => exact absurd below (parts_ne_nil cs)
        | cons p ps => rfl

/-- A part that says something and stays. -/
def Stays (part : List Char) : Prop :=
  part ∉ [[], ['.'], ['.', '.']]

theorem push_of_stays {part : List Char} (stays : Stays part) (rooted : Bool)
    (settled : List (List Char)) : push rooted settled part = part :: settled := by
  simp only [Stays, List.mem_cons, List.not_mem_nil, or_false, not_or] at stays
  unfold push
  rw [if_neg (by simp [stays.1, stays.2.1]), if_neg (by simp [stays.2.2])]

theorem settledParts_append {dir name : List Char} (plain : '/' ∉ name) (stays : Stays name) :
    settledParts (dir ++ '/' :: name) = name :: settledParts dir := by
  rw [settledParts, parts_append, parts_of_notMem plain, List.foldl_append, List.foldl_cons,
    List.foldl_nil, push_of_stays stays]
  cases dir <;> rfl

end FilePath

namespace Host.Desk

variable {name : String}

/-- A name that is a single part of a path. -/
structure IsName (name : String) : Prop where
  plain : '/' ∉ name.toList
  stays : FilePath.Stays name.toList

theorem IsName.not_isAbsolute (isName : IsName name) : FilePath.isAbsolute name = false := by
  unfold FilePath.isAbsolute FilePath.isRooted
  have plain := isName.plain
  cases same : name.toList with
  | nil => rfl
  | cons c cs =>
      rw [same, List.mem_cons, not_or] at plain
      simpa using Ne.symm plain.1

theorem IsName.resolve (isName : IsName name) (cwd : String) :
    FilePath.resolve cwd name = pathOf (name.toList :: FilePath.settledParts cwd.toList) := by
  rw [FilePath.resolve, isName.not_isAbsolute, if_neg Bool.false_ne_true, FilePath.settle,
    FilePath.settledParts_append isName.plain isName.stays, pathOf]

/-- Looking for a name looks in the working directory. -/
theorem IsName.find (isName : IsName name) (d : Desk) :
    d.find name = match d.files.lookup (FilePath.resolve d.cwd name) with
      | some text => .text text
      | none => if d.isDirectory (FilePath.resolve d.cwd name) then .unreadable "it is a directory"
          else .absent := by
  have stays := isName.stays
  simp only [FilePath.Stays, List.mem_cons, List.not_mem_nil, or_false, not_or] at stays
  rw [isName.resolve, Desk.find, if_neg (by simpa using stays.1), isName.not_isAbsolute,
    FilePath.parts_of_notMem isName.plain]
  dsimp only
  rw [if_neg Bool.false_ne_true, walk, if_neg (by simp [stays.1, stays.2.1]),
    if_neg (by simp [stays.2.2])]
  rfl

theorem run_log (threshold : Log.Level) (notes : List Log.Note) (d : Desk) :
    ∃ shown, (Host.log threshold notes : StateM Desk Unit) d = ((), { d with shown }) := by
  unfold Host.log
  generalize Log.lines threshold notes = lines
  induction lines generalizing d with
  | nil => exact ⟨d.shown, rfl⟩
  | cons line lines ih =>
      obtain ⟨shown, rest⟩ := ih { d with shown := .log line :: d.shown }
      exact ⟨shown, rest⟩

/-- A file in the working directory is found as it was written. -/
theorem IsName.keeps (isName : IsName name) (dir text : String) :
    Host.Keeps (StateM Desk) dir name text := by
  intro threshold notes
  funext d
  obtain ⟨shown, logged⟩ := run_log threshold notes (d.put name text)
  have found : Desk.find { d.put name text with shown } name = .text text :=
    (isName.find _).trans (by simp [put])
  show (do Host.log threshold notes; Host.read name : StateM Desk Source) (d.put name text)
    = (do Host.log threshold notes; return .text text : StateM Desk Source) (d.put name text)
  simp only [bind, StateT.bind, logged]
  show (Desk.find { d.put name text with shown } name, _) = _
  rw [found]
  rfl

end Host.Desk

end AlphaFoundry
