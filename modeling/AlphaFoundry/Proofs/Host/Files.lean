/-
# AlphaFoundry.Proofs.Host.Files -- the files of a directory, over a whole program

Three laws say how files of given names behave in a directory (`Files`): what is read is what was
written, writing one file leaves the others, and so does showing something.  From them follows what
is read behind a program: it `Spares` a file if reading can be moved in front of it, and a file
`Holds` a text behind it if reading finds that text.  The host of values keeps the laws in its
working directory.
-/
import Mathlib
import AlphaFoundry.Proofs.Host

namespace AlphaFoundry

set_option autoImplicit false

namespace Host

/-- Files of some names in a directory, as equations of programs. -/
structure Files (m : Type → Type) [Monad m] [Host m] (dir : String) (names : Set String) :
    Prop where
  read_write : ∀ name ∈ names, ∀ text,
    (do Host.write dir (FilePath.join dir name) text; Host.read (FilePath.join dir name) : m Source)
      = (do Host.write dir (FilePath.join dir name) text; return .text text)
  read_write_other : ∀ name ∈ names, ∀ other ∈ names, name ≠ other → ∀ text,
    (do
        Host.write dir (FilePath.join dir other) text
        Host.read (FilePath.join dir name) : m Source)
      = (do
        let found ← Host.read (FilePath.join dir name)
        Host.write dir (FilePath.join dir other) text
        return found)
  read_say : ∀ name ∈ names, ∀ out,
    (do Host.say out; Host.read (FilePath.join dir name) : m Source)
      = (do let found ← Host.read (FilePath.join dir name); Host.say out; return found)

section Programs

variable {m : Type → Type} [Monad m] [Host m] {α β : Type}

/-- A program leaves a file as it is: the file can as well be read before. -/
def Spares (x : m α) (path : String) : Prop :=
  (do let a ← x; return (a, ← Host.read path))
    = (do let found ← Host.read path; return (← x, found))

/-- Behind a program, a file holds a text. -/
def Holds (x : m α) (path text : String) : Prop :=
  (do let a ← x; return (a, ← Host.read path)) = (do let a ← x; return (a, .text text))

variable [LawfulMonad m] {x : m α} {y : α → m β} {path text : String}

theorem Spares.bind_read (spares : Spares x path) (next : α → Source → m β) :
    (do let a ← x; next a (← Host.read path))
      = (do let found ← Host.read path; next (← x) found) := by
  simpa only [bind_assoc, pure_bind] using congrArg (· >>= fun p => next p.1 p.2) spares

theorem Holds.bind_read (holds : Holds x path text) (next : α → Source → m β) :
    (do let a ← x; next a (← Host.read path)) = (do let a ← x; next a (.text text)) := by
  simpa only [bind_assoc, pure_bind] using congrArg (· >>= fun p => next p.1 p.2) holds

theorem Spares.pure (a : α) (path : String) : Spares (Pure.pure a : m α) path := by
  simp [Spares]

theorem Spares.bind (spares : Spares x path) (behind : ∀ a, Spares (y a) path) :
    Spares (x >>= y) path := by
  have inner (a : α) := behind a
  unfold Spares at inner ⊢
  simp only [bind_assoc, inner]
  exact spares.bind_read fun a found => do return (← y a, found)

/-- What a file holds, it still holds behind programs that leave it as it is. -/
theorem Holds.andThen (holds : Holds x path text) (behind : ∀ a, Spares (y a) path) :
    Holds (x >>= y) path text := by
  have inner (a : α) := behind a
  unfold Spares at inner
  unfold Holds
  simp only [bind_assoc, inner]
  exact holds.bind_read fun a found => do return (← y a, found)

/-- What a file holds behind a program does not depend on what came before. -/
theorem Holds.behind (x : m α) (holds : ∀ a, Holds (y a) path text) :
    Holds (x >>= y) path text := by
  have inner (a : α) := holds a
  unfold Holds at inner ⊢
  simp only [bind_assoc, inner]

theorem Spares.forM {xs : List β} {f : β → m PUnit} (each : ∀ b ∈ xs, Spares (f b) path) :
    Spares (xs.forM f) path := by
  induction xs with
  | nil => exact .pure _ _
  | cons b xs ih =>
      exact (each b (.head _)).bind fun _ => ih fun b member => each b (.tail _ member)

end Programs

namespace Files

variable {m : Type → Type} [Monad m] [LawfulMonad m] [Host m] {dir : String} {names : Set String}
  {name other : String}

theorem holds_write (files : Files m dir names) (named : name ∈ names) (text : String) :
    Holds (Host.write dir (FilePath.join dir name) text : m Unit)
      (FilePath.join dir name) text := by
  simpa only [Holds, bind_assoc, pure_bind] using
    congrArg (· >>= fun found => pure ((), found)) (files.read_write name named text)

theorem spares_write (files : Files m dir names) (named : name ∈ names) (named' : other ∈ names)
    (differ : name ≠ other) (text : String) :
    Spares (Host.write dir (FilePath.join dir other) text : m Unit) (FilePath.join dir name) := by
  simpa only [Spares, bind_assoc, pure_bind] using
    congrArg (· >>= fun found => pure ((), found))
      (files.read_write_other name named other named' differ text)

theorem spares_log (files : Files m dir names) (named : name ∈ names) (threshold : Log.Level)
    (notes : List Log.Note) :
    Spares (Host.log threshold notes : m Unit) (FilePath.join dir name) := by
  refine .forM fun line _ => ?_
  simpa only [Spares, bind_assoc, pure_bind] using
    congrArg (· >>= fun found => pure ((), found)) (files.read_say name named (.log line))

end Files

end Host

/-! ## The host of values -/

/-- The last of several parts stands behind a front that does not depend on it. -/
theorem FilePath.exists_front (parts : List (List Char)) :
    ∃ front, ∀ part, ['/'].intercalate (parts ++ [part]) = front ++ part := by
  induction parts with
  | nil => exact ⟨[], fun part => by simp⟩
  | cons first parts ih =>
      obtain ⟨front, same⟩ := ih
      refine ⟨first ++ '/' :: front, fun part => ?_⟩
      rw [List.cons_append, List.intercalate_cons_of_ne_nil (by simp), same]
      simp

namespace Host.Desk

variable {name other : String}

theorem IsName.ne_nil (isName : IsName name) : name.toList ≠ [] := fun empty =>
  isName.stays (by rw [empty]; exact .head _)

theorem IsName.join (isName : IsName name) : FilePath.join "" name = name := by
  have given : ["".toList, name.toList].filter (fun p => !p.isEmpty) = [name.toList] := by
    simp [isName.ne_nil]
  have body : FilePath.settle name.toList = name.toList := by
    rw [FilePath.settle, FilePath.settledParts, FilePath.parts_of_notMem isName.plain,
      List.foldl_cons, List.foldl_nil, FilePath.push_of_stays isName.stays]
    simp
  have open' : name.toList.getLast? ≠ some '/' := fun last =>
    isName.plain (List.mem_of_getLast? last)
  have relative : FilePath.isRooted name.toList = false := isName.not_isAbsolute
  have whole : FilePath.normalize name.toList = name.toList := by
    simp [FilePath.normalize, body, isName.ne_nil, relative, open']
  rw [FilePath.join, given, List.intercalate_singleton, whole, String.ofList_toList]

/-- In a directory, names stand behind one front. -/
theorem exists_resolve (cwd : String) :
    ∃ front, ∀ name, IsName name → (FilePath.resolve cwd name).toList = front ++ name.toList := by
  obtain ⟨front, same⟩ := FilePath.exists_front (FilePath.settledParts cwd.toList).reverse
  refine ⟨'/' :: front, fun name isName => ?_⟩
  rw [isName.resolve, pathOf, List.reverse_cons, same, String.toList_ofList, List.cons_append]

theorem resolve_injective (isName : IsName name) (isName' : IsName other) {cwd : String}
    (same : FilePath.resolve cwd name = FilePath.resolve cwd other) : name = other := by
  obtain ⟨front, resolved⟩ := exists_resolve cwd
  have same := congrArg String.toList same
  rw [resolved name isName, resolved other isName'] at same
  exact String.toList_inj.1 (List.append_cancel_left same)

/-- Names in a directory lead to files that do not lie below each other. -/
theorem not_below (isName : IsName name) (isName' : IsName other) (cwd : String) :
    ¬ (FilePath.resolve cwd name ++ "/").toList <+: (FilePath.resolve cwd other).toList := by
  obtain ⟨front, resolved⟩ := exists_resolve cwd
  rw [String.toList_append, resolved name isName, resolved other isName', List.append_assoc,
    List.prefix_append_right_inj]
  intro below
  exact isName'.plain (below.subset (by simp))

theorem lookup_filter_ne {path path' : String} (apart : path ≠ path')
    (files : List (String × String)) :
    (files.filter fun f => f.1 != path').lookup path = files.lookup path := by
  induction files with
  | nil => rfl
  | cons f files ih =>
      by_cases same : f.1 = path'
      · rw [List.filter_cons_of_neg (by simpa using same), ih, List.lookup_cons,
          beq_false_of_ne (same ▸ apart)]
      · rw [List.filter_cons_of_pos (by simpa using same), List.lookup_cons, List.lookup_cons, ih]

variable {d : Desk} {path text : String}

theorem lookup_put (apart : path ≠ FilePath.resolve d.cwd other) :
    (d.put other text).files.lookup path = d.files.lookup path := by
  unfold put
  dsimp only
  rw [List.lookup_cons, beq_false_of_ne apart, lookup_filter_ne apart]

/-- Putting a file makes no directories but those that it lies in. -/
theorem isDirectory_put (apart : ¬ (path ++ "/").toList <+: (FilePath.resolve d.cwd other).toList) :
    (d.put other text).isDirectory path = d.isDirectory path := by
  have apart : (path ++ "/").toList.isPrefixOf (FilePath.resolve d.cwd other).toList = false :=
    Bool.eq_false_iff.2 fun below => apart (List.isPrefixOf_iff_prefix.1 below)
  unfold put isDirectory
  dsimp only
  rw [List.any_cons, apart, Bool.false_or, List.any_filter]
  congr 2
  funext f
  by_cases same : f.1 = FilePath.resolve d.cwd other
  · rw [same, apart, Bool.and_false]
  · rw [bne_iff_ne.2 same, Bool.true_and]

/-- Putting a file leaves the others in the directory. -/
theorem find_put (isName : IsName name) (isName' : IsName other) (differ : name ≠ other) :
    (d.put other text).find name = d.find name := by
  have apart : FilePath.resolve d.cwd name ≠ FilePath.resolve d.cwd other := fun same =>
    differ (resolve_injective isName isName' same)
  rw [isName.find, isName.find, show (d.put other text).cwd = d.cwd from rfl, lookup_put apart,
    isDirectory_put (not_below isName isName' d.cwd)]

/-- The files in the working directory keep the laws. -/
theorem filesOf (names : Set String) (each : ∀ name ∈ names, IsName name) :
    Files (StateM Desk) "" names where
  read_write name named text := by
    rw [(each name named).join]
    funext d
    have found : (d.put name text).find name = .text text :=
      ((each name named).find _).trans (by simp [put])
    show (Desk.find (d.put name text) name, d.put name text) = (.text text, d.put name text)
    rw [found]
  read_write_other name named other named' differ text := by
    rw [(each name named).join, (each other named').join]
    funext d
    show (Desk.find (d.put other text) name, d.put other text) = (d.find name, d.put other text)
    rw [find_put (each name named) (each other named') differ]
  read_say name named out := by
    rw [(each name named).join]
    funext d
    show (Desk.find { d with shown := out :: d.shown } name, _) = (d.find name, _)
    rw [(each name named).find, (each name named).find]
    rfl

end Host.Desk

end AlphaFoundry
