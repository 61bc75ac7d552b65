import Frontend.Proofs.ImportGraph
import Frontend.Proofs.Layers

/-!
A resolution succeeds exactly where nothing is in its way. What is known at any time is settled: a
known program has all its modules, what it imports is known, too, and no path of imports from it
goes on forever. A resolution that fails has found a file without a program, or a cycle: each file
whose imports are being resolved leads to the one that is looked at, so that an import of one of
them leads back.
-/
open Function (swap)
open Relation (TransGen ReflTransGen)

namespace Frontend.Importing

open Program (Stands)

/-- A step of a resolution: from what is known before, it goes on to what is known after it, or it
fails for a reason. -/
def Knows {α : Type} (reason : Prop) (known : List (Place × Program)) (x : Resolving α)
    (post : α → List (Place × Program) → Prop) : Prop :=
  ∀ s : Session, s.known = known →
    match x s with
    | .ok a s' => post a s'.known
    | .error _ _ => reason

namespace Knows

variable {α β : Type} {reason : Prop} {known : List (Place × Program)} {x : Resolving α}
  {k : α → Resolving β} {mid post : α → List (Place × Program) → Prop}
  {final : β → List (Place × Program) → Prop}

theorem iff_runs : Knows reason known x post ↔ ∀ s : Session, s.known = known →
    Runs x s (fun a s' => post a s'.known) fun _ => reason := by
  apply forall₂_congr
  intro s same
  unfold Runs
  cases x s <;> rfl

theorem pure {a : α} (h : post a known) : Knows reason known (Pure.pure a) post := by
  rintro s rfl
  exact h

theorem bind (first : Knows reason known x mid)
    (then_ : ∀ a known', mid a known' → Knows reason known' (k a) final) :
    Knows reason known (x >>= k) final :=
  iff_runs.mpr fun s same => (iff_runs.mp first s same).bind fun a s' holds =>
    iff_runs.mp (then_ a s'.known holds) s' rfl

theorem throw {d : Diagnostic} (h : reason) : Knows reason known (throw d : Resolving α) post :=
  fun _ _ => h

theorem fail {importer : Source} {i : Import} {cause : Cause} (h : reason) :
    Knows reason known (fail importer i cause : Resolving α) post :=
  throw h

theorem tell_bind {e : Event} {k : Unit → Resolving β} (then_ : Knows reason known (k ()) final) :
    Knows reason known (tell e >>= k) final :=
  fun s same => then_ { s with events := e :: s.events } same

theorem get_bind {k : Session → Resolving β} (then_ : ∀ s, Knows reason known (k s) final) :
    Knows reason known (get >>= k) final :=
  fun s same => then_ s s same

theorem known?_bind {place : Place} {k : Option Program → Resolving β}
    (then_ : Knows reason known (k (known.lookup place)) final) :
    Knows reason known (known? place >>= k) final := by
  rintro s rfl
  exact then_ s rfl

theorem learn_bind {place : Place} {p : Program} {k : Unit → Resolving β}
    (then_ : Knows reason ((place, p) :: known) (k ()) final) :
    Knows reason known (learn place p >>= k) final := by
  rintro s rfl
  exact then_ { s with known := (place, p) :: s.known } rfl

theorem ite {cond : Prop} [Decidable cond] {y : Resolving α}
    (yes : cond → Knows reason known x post) (no : ¬ cond → Knows reason known y post) :
    Knows reason known (if cond then x else y) post := by
  by_cases h : cond
  · rw [if_pos h]
    exact yes h
  · rw [if_neg h]
    exact no h

/-- What an attempt comes to is told, also a failure. -/
theorem attempt (h : Knows reason known x post) :
    Knows reason known (attempt x) fun found known' =>
      match found with
      | .ok a => post a known'
      | .error _ => reason := by
  apply iff_runs.mpr
  intro s same
  apply (iff_runs.mp h s same).attempt.mono
  · rintro (d | a) s' ends
    · exact ends
    · exact ends
  · exact fun _ failed => failed

theorem noting {importer : Source} {i : Import} {note : String} (h : Knows reason known x post) :
    Knows reason known (noting importer i note x) post := by
  apply h.attempt.bind
  intro found known' ends
  cases found with
  | ok a => exact pure ends
  | error d => exact throw ends

theorem occupying {places : List Place} (h : Knows reason known x post) :
    Knows reason known (occupying places x) post :=
  iff_runs.mpr fun s same =>
    runs_occupying (iff_runs.mp h { s with busy := places ++ s.busy } same)

theorem tellAll {events : List Grammar.Event} {k : Unit → Resolving β}
    (then_ : Knows reason known (k ()) final) :
    Knows reason known ((events.forM fun e => tell (.parser e)) >>= k) final := by
  intro s same
  rw [tellAll_bind]
  exact then_ _ same

end Knows

variable {fs : FileSystem} {base : Place} {root p : Program} {i : Import} {libraries : List Path}
  {busy : List Place} {known : List (Place × Program)}

/-- What is in the way of a resolution: an import of a file without a program, or a cycle. -/
def Broken (fs : FileSystem) (base : Place) (root : Program) : Prop :=
  (∃ p, root.Reaches fs base p ∧ ∃ i ∈ p.imports, Program.ofFile? fs (i.file base) = none) ∨
    ∃ name, TransGen (root.Leads fs base) name name

/-- The program at a place, resolved: its modules belong to its imports, and so on below it; what
it imports is known, and no path of imports from it goes on forever. -/
structure Resolved (fs : FileSystem) (base : Place) (root : Program)
    (known : List (Place × Program)) (place : Place) (p : Program) : Prop where
  program : Program.ofFile? fs place = some (.ofDecls p.source p.decls)
  closed : ∀ i ∈ p.imports, ∃ q, (i.file base, q) ∈ known
  stands : ∀ q, p.Holds q → List.Forall₂ (Stands fs base) q.imports q.modules
  ends : Acc (swap (root.Leads fs base)) place.path.text
  other : place.path.text ≠ root.source.name

/-- All programs that are known are resolved. -/
def Settled (fs : FileSystem) (base : Place) (root : Program)
    (known : List (Place × Program)) : Prop :=
  ∀ place p, (place, p) ∈ known → Resolved fs base root known place p

/-- The files whose imports are being resolved lead to the program that is looked at, and the file
of the root is one of them. -/
structure Stack (fs : FileSystem) (base : Place) (root : Program) (busy : List Place)
    (p : Program) : Prop where
  leads : ∀ place ∈ busy, ReflTransGen (root.Leads fs base) place.path.text p.source.name
  rooted : ∀ place : Place, place.Named → place.path.text = root.source.name → place ∈ busy

/-- A loader that makes the program of a file known, unless something is in the way. -/
def Loads (fs : FileSystem) (base : Place) (root : Program) (busy : List Place)
    (load : Loader fs busy) : Prop :=
  ∀ p, root.Reaches fs base p → Stack fs base root busy p → ∀ i ∈ p.imports,
    ∀ (free : Fresh fs busy (i.file base)) (known : List (Place × Program)),
      Settled fs base root known →
      Knows (Broken fs base root) known (load p.source i (i.file base).path (i.file base) free)
        fun q known' => Settled fs base root known' ∧ known ⊆ known' ∧ (i.file base, q) ∈ known'

/-- A module that belongs to an import, and holds what is known of the file of that. -/
structure Belongs (base : Place) (known : List (Place × Program)) (i : Import) (m : Module) :
    Prop where
  module : m = moduleOf i (i.file base) m.program
  known : (i.file base, m.program) ∈ known

/-- The setting of a project. -/
abbrev projectSetting (fs : FileSystem) (libraries : List Path) (base : Place) : Setting :=
  ⟨fs, libraries, some base.path⟩

/-- An import that leads to the file that it stands in is a cycle. -/
theorem broken_of_self (reached : root.Reaches fs base p) (mem : i ∈ p.imports)
    (same : (i.file base).path.text = p.source.name) : Broken fs base root :=
  .inr ⟨p.source.name, .single ⟨p, reached, rfl, i, mem, same⟩⟩

theorem broken_of_unread (reached : root.Reaches fs base p) (mem : i ∈ p.imports)
    (none : Program.ofFile? fs (i.file base) = none) : Broken fs base root :=
  .inl ⟨p, reached, i, mem, none⟩

section Failures

variable (project : root.Project fs base) (reached : root.Reaches fs base p) (mem : i ∈ p.imports)

include project reached mem

/-- A file that has the path of the source that it is named in is that source. -/
theorem broken_of_same (same : (i.file base).path.same ⟨p.source.name⟩ = true) :
    Broken fs base root := by
  apply broken_of_self reached mem
  have named := project.file_named reached mem
  rw [Path.same, beq_iff_eq] at same
  cases project.source_in reached with
  | file onDisk other_named canonical located =>
    rw [← canonical] at same
    rw [Place.path_inj named other_named same, canonical]
  | memory inMemory free =>
    rw [Place.components_path named] at same
    exact absurd (same ▸ List.mem_cons_self) (Path.root_not_mem free)

/-- A file that is found where the source is that it is named in is that source. -/
theorem broken_of_own (onDisk : p.source.onDisk = true)
    (own : (fs.canonical ⟨p.source.name⟩).toOption = some (i.file base)) : Broken fs base root := by
  apply broken_of_self reached mem
  cases project.source_in reached with
  | file _ _ canonical located =>
    rw [located] at own
    rw [← Option.some.inj own, canonical]
  | memory inMemory _ =>
    rw [inMemory] at onDisk
    cases onDisk

/-- A file that is not found has no program. -/
theorem broken_of_not_located {e : FileError} (failed : fs.canonical (i.file base).path = .error e) :
    Broken fs base root := by
  apply broken_of_unread reached mem
  apply Option.eq_none_iff_forall_ne_some.mpr
  intro q found
  obtain ⟨source, decls, loaded, _, _⟩ := Program.ofFile?_eq_some.mp found
  obtain ⟨_, _, located⟩ := project.source_of_import reached mem loaded
  rw [failed] at located
  cases located

end Failures

theorem knows_parseFile {reason : Prop} {importer : Source} {place : Place}
    (unread : Program.ofFile? fs place = none → reason) :
    Knows reason known
      (parseFile (projectSetting fs libraries base) importer i place.path) fun q known' =>
      known' = known ∧ Program.ofFile? fs place = some q := by
  unfold parseFile
  cases found : Source.fromFile fs place.path with
  | error e =>
    apply Knows.fail
    apply unread
    rw [Program.ofFile?, found]
  | ok source =>
    apply Knows.tell_bind
    unfold parseSource
    rw [bind_assoc]
    apply Knows.tellAll
    cases parsed : (parse source).result with
    | error d =>
      have none : Program.ofFile? fs place = none := by
        rw [Program.ofFile?, found]
        dsimp only
        rw [parsed]
        rfl
      have fails : Knows reason known (throw d : Resolving Program) fun _ _ => False :=
        .throw (unread none)
      exact fails.bind fun _ _ never => never.elim
    | ok decls =>
      dsimp only
      rw [pure_bind]
      apply Knows.tell_bind
      apply Knows.pure
      exact ⟨rfl, Program.ofFile?_eq_some.mpr ⟨source, decls, found, parsed, rfl⟩⟩

/-- Relative imports of a source start at the project. -/
theorem knows_relativeRoot {reason : Prop} {source : Source} (inside : source.In fs base) :
    Knows reason known (relativeRoot (projectSetting fs libraries base) source i)
      fun start known' => start = base.path ∧ known' = known := by
  rw [relativeRoot, Program.relativeRoot?_eq inside rfl]
  apply Knows.ite
  · intro _
    exact .tell_bind (.pure ⟨rfl, rfl⟩)
  · intro _
    exact .pure ⟨rfl, rfl⟩

section Import

variable (reached : root.Reaches fs base p) (stack : Stack fs base root busy p)
  (mem : i ∈ p.imports) {load : Loader fs busy} (loads : Loads fs base root busy load)
  (settled : Settled fs base root known)

include reached stack mem loads settled

theorem knows_programAt {file : Path} {place : Place} (file_eq : file = (i.file base).path)
    (place_eq : place = i.file base) (there : place ∈ fs.places) :
    Knows (Broken fs base root) known (programAt load p.source i file place there)
      fun q known' =>
        Settled fs base root known' ∧ known ⊆ known' ∧ (i.file base, q) ∈ known' := by
  subst file_eq place_eq
  apply Knows.known?_bind
  cases found : known.lookup (i.file base) with
  | some q =>
    apply Knows.tell_bind
    apply Knows.pure
    obtain ⟨before, after, rfl, _⟩ := List.lookup_eq_some_iff.mp found
    exact ⟨settled, fun _ mem => mem, by simp⟩
  | none =>
    dsimp only
    split
    next free =>
      exact (loads p reached stack i mem ⟨there, free⟩ known settled).occupying.noting
    next is_busy =>
      apply Knows.fail
      have leads := stack.leads _ (Decidable.not_not.mp is_busy)
      exact .inr ⟨_, .tail' leads ⟨p, reached, rfl, i, mem, rfl⟩⟩

theorem knows_inDirectory (project : root.Project fs base) :
    Knows (Broken fs base root) known
      (inDirectory (projectSetting fs libraries base) load p.source i base.path) fun m known' =>
      Settled fs base root known' ∧ known ⊆ known' ∧ Belongs base known' i m := by
  have file_eq := project.candidate_eq reached mem
  unfold inDirectory
  apply Knows.ite
  · intro same
    rw [file_eq] at same
    exact .fail (broken_of_same project reached mem same)
  intro other
  split
  next e failed =>
    rw [file_eq] at failed
    exact .fail (broken_of_not_located project reached mem failed)
  next place located =>
    rw [file_eq] at located
    obtain rfl : place = i.file base := FileSystem.eq_of_canonical_path project.linkless
      (project.file_named reached mem) (i.file_ne_nil base) located
    apply Knows.ite
    · intro own
      rw [Bool.and_eq_true, beq_iff_eq] at own
      exact .fail (broken_of_own project reached mem own.1 own.2)
    · intro _
      apply (knows_programAt reached stack mem loads settled file_eq rfl _).bind
      rintro q known' ⟨settled', grown, there⟩
      apply Knows.pure
      have held : (moduleOf i (i.file base) q).program = q := by
        unfold moduleOf
        split <;> rfl
      refine ⟨settled', grown, ?_, ?_⟩
      · rw [held]
      · rwa [held]

theorem knows_resolveImport (project : root.Project fs base) :
    Knows (Broken fs base root) known
      (resolveImport (projectSetting fs libraries base) load p.source i) fun m known' =>
      Settled fs base root known' ∧ known ⊆ known' ∧ Belongs base known' i m := by
  unfold resolveImport
  rw [if_pos (project.relative p reached i mem)]
  apply (knows_relativeRoot (project.source_in reached)).bind
  rintro _ _ ⟨rfl, rfl⟩
  apply Knows.tell_bind
  exact (knows_inDirectory reached stack mem loads settled project).noting

end Import

section Imports

variable (reached : root.Reaches fs base p) (stack : Stack fs base root busy p)
  {load : Loader fs busy} (loads : Loads fs base root busy load)
  (project : root.Project fs base)

include reached stack loads project

theorem knows_resolveEach (settled : Settled fs base root known) (imports : List Import)
    (sub : ∀ i ∈ imports, i ∈ p.imports) :
    Knows (Broken fs base root) known
      (resolveEach (projectSetting fs libraries base) load p.source imports) fun r known' =>
      match r.error with
      | some _ => Broken fs base root
      | none => Settled fs base root known' ∧ known ⊆ known' ∧
          List.Forall₂ (Belongs base known') imports r.modules := by
  induction imports generalizing known with
  | nil =>
    apply Knows.pure
    exact ⟨settled, fun _ mem => mem, .nil⟩
  | cons i rest ih =>
    obtain ⟨mem, sub⟩ := List.forall_mem_cons.mp sub
    apply (knows_resolveImport reached stack mem loads settled project).attempt.bind
    intro found known' outcome
    cases found with
    | error d => exact .pure outcome
    | ok m =>
      obtain ⟨settled', grown, belongs⟩ := outcome
      apply (ih settled' sub).bind
      intro r known'' outcome
      apply Knows.pure
      cases error : r.error with
      | some d => simpa [error] using outcome
      | none =>
        rw [error] at outcome
        obtain ⟨settled'', grown', all⟩ := outcome
        refine ⟨settled'', List.Subset.trans grown grown', .cons ?_ all⟩
        exact ⟨belongs.module, grown' belongs.known⟩

theorem knows_resolveProgram (settled : Settled fs base root known) :
    Knows (Broken fs base root) known
      (resolveProgram (projectSetting fs libraries base) load p) fun found known' =>
      match found.2 with
      | some _ => Broken fs base root
      | none => Settled fs base root known' ∧ known ⊆ known' ∧ found.1.source = p.source ∧
          found.1.decls = p.decls ∧
          List.Forall₂ (Belongs base known') p.imports found.1.modules := by
  apply Knows.tell_bind
  apply (knows_resolveEach reached stack loads project settled p.imports fun _ mem => mem).bind
  intro r known' outcome
  apply Knows.pure
  rw [project.fresh_of_reaches reached]
  cases error : r.error with
  | some d => simpa [error] using outcome
  | none =>
    rw [error] at outcome
    obtain ⟨settled', grown, all⟩ := outcome
    exact ⟨settled', grown, rfl, rfl, all⟩

end Imports

theorem Resolved.mono {known' : List (Place × Program)} {place : Place}
    (h : Resolved fs base root known place p) (sub : known ⊆ known') :
    Resolved fs base root known' place p :=
  { h with closed := fun i mem => (h.closed i mem).imp fun _ there => sub there }

/-- One more program that is resolved. -/
theorem Settled.cons {place : Place} (settled : Settled fs base root known)
    (resolved : Resolved fs base root known place p) :
    Settled fs base root ((place, p) :: known) := by
  intro there q mem
  have sub := List.subset_cons_self (place, p) known
  obtain same | mem := List.mem_cons.mp mem
  · cases same
    exact resolved.mono sub
  · exact (settled there q mem).mono sub

/-- The file of an import is busy while the program in it is looked at. -/
theorem Stack.push {q : Program} (stack : Stack fs base root busy p)
    (reached : root.Reaches fs base p) (mem : i ∈ p.imports)
    (name : q.source.name = (i.file base).path.text) : Stack fs base root (i.file base :: busy) q := by
  constructor
  · intro place there
    obtain rfl | there := List.mem_cons.mp there
    · exact name ▸ .refl
    · exact (stack.leads place there).tail ⟨p, reached, rfl, i, mem, name.symm⟩
  · intro place named same
    exact List.mem_cons_of_mem _ (stack.rooted place named same)

/-- Modules that hold what is known belong to their imports all the way down. -/
theorem stands_of_belongs (settled : Settled fs base root known) {p : Program}
    (all : List.Forall₂ (Belongs base known) p.imports p.modules) {q : Program}
    (held : p.Holds q) : List.Forall₂ (Stands fs base) q.imports q.modules := by
  cases held with
  | self => exact all.imp fun i m belongs => ⟨belongs.module, (settled _ _ belongs.known).program⟩
  | module mem held =>
    obtain ⟨i, _, belongs⟩ := (exists_of_forall₂ all).2 _ mem
    exact (settled _ _ belongs.known).stands q held

/-- A program is resolved once its imports are. -/
theorem resolved_of_belongs (project : root.Project fs base) (settled : Settled fs base root known)
    {place : Place} (named : place.Named) (other : place.path.text ≠ root.source.name)
    {p : Program} (program : Program.ofFile? fs place = some (.ofDecls p.source p.decls))
    (all : List.Forall₂ (Belongs base known) p.imports p.modules) :
    Resolved fs base root known place p := by
  have closed : ∀ i ∈ p.imports, ∃ q, (i.file base, q) ∈ known := by
    intro i mem
    obtain ⟨m, _, belongs⟩ := (exists_of_forall₂ all).1 i mem
    exact ⟨_, belongs.known⟩
  refine ⟨program, closed, fun q held => stands_of_belongs settled all held, ?_, other⟩
  -- only this program is named after the place, so a path goes on to one of its imports
  apply Acc.intro
  rintro file ⟨p', reached, name, i, mem, rfl⟩
  have same := project.ofFile?_of_name reached named name other
  rw [program] at same
  obtain rfl := Option.some.inj same
  obtain ⟨q, there⟩ := closed i mem
  exact (settled _ q there).ends

/-- The loader makes programs known, whatever is busy. -/
theorem loads_load (project : root.Project fs base) (busy : List Place) :
    Loads fs base root busy (load (projectSetting fs libraries base) busy) := by
  generalize size : freePlaces fs busy = n
  induction n using Nat.strongRecOn generalizing busy with
  | ind n ih =>
    intro p reached stack i mem free known settled
    have named := project.file_named reached mem
    have other : (i.file base).path.text ≠ root.source.name := fun same =>
      free.2 (stack.rooted _ named same)
    rw [load, loadFile]
    apply (knows_parseFile (broken_of_unread reached mem)).bind
    rintro q _ ⟨rfl, found⟩
    have reached' : root.Reaches fs base q := .importing reached mem found
    obtain ⟨source, decls, loaded, _, rfl⟩ := Program.ofFile?_eq_some.mp found
    obtain ⟨_, name, _⟩ := project.source_of_import reached mem loaded
    have stack' : Stack fs base root (i.file base :: busy) (.ofDecls source decls) :=
      stack.push reached mem name
    have deeper := ih _ (size ▸ freePlaces_lt free) (i.file base :: busy) rfl
    apply (knows_resolveProgram reached' stack' deeper project settled).bind
    rintro ⟨q, error⟩ known' outcome
    cases error with
    | some d => exact .throw outcome
    | none =>
      obtain ⟨settled', grown, source_eq, decls_eq, all⟩ := outcome
      apply Knows.learn_bind
      apply Knows.pure
      have program : Program.ofFile? fs (i.file base) = some (.ofDecls q.source q.decls) := by
        rw [found, source_eq, decls_eq]
        rfl
      have all : List.Forall₂ (Belongs base known') q.imports q.modules := by
        rwa [Program.imports, decls_eq]
      have resolved := resolved_of_belongs project settled' named other program all
      have grown := List.Subset.trans grown (List.subset_cons_self (i.file base, q) known')
      exact ⟨settled'.cons resolved, grown, List.mem_cons_self⟩

/-- At the start only the file of the root is busy, if it is a file. -/
theorem stack_root (project : root.Project fs base) :
    Stack fs base root (rootPlaces fs root.source) root := by
  cases project.rootIn with
  | @file name bytes onDisk located canonical =>
    have places : rootPlaces fs root.source = [base ++ [name]] := by
      rw [rootPlaces, if_pos onDisk, FileSystem.canonical, located]
      rfl
    rw [places]
    constructor
    · intro place there
      rw [List.mem_singleton.mp there, canonical]
    · intro place named same
      have same_path : place.path = (base ++ [name]).path := congrArg Path.mk (same.trans canonical.symm)
      rw [Place.path_inj named (FileSystem.named_of_locate located)
        (congrArg Path.components same_path)]
      exact List.mem_singleton_self _
  | memory inMemory free located canonical =>
    have places : rootPlaces fs root.source = [] := by
      rw [rootPlaces, if_neg (by simp [inMemory])]
    rw [places]
    constructor
    · exact fun place there => absurd there List.not_mem_nil
    · intro place named same
      have absolute := Place.isAbsolute_path place
      have same_path : place.path = ⟨root.source.name⟩ := congrArg Path.mk same
      rw [same_path, free] at absolute
      cases absolute

/-- A resolution that starts with nothing known comes to a program whose imports are all resolved,
or something is in its way. -/
theorem knows_resolveAll (project : root.Project fs base) :
    Knows (Broken fs base root) [] (resolveAll fs root) fun p known =>
      Settled fs base root known ∧ p.source = root.source ∧ p.decls = root.decls ∧
        List.Forall₂ (Belongs base known) root.imports p.modules := by
  have resolved : Knows (Broken fs base root) [] (resolveRoot fs root) fun found known =>
      match found.2 with
      | some _ => Broken fs base root
      | none => Settled fs base root known ∧ found.1.source = root.source ∧
          found.1.decls = root.decls ∧
          List.Forall₂ (Belongs base known) root.imports found.1.modules := by
    unfold resolveRoot resolveWith
    rw [project.projectOf_eq]
    apply Knows.get_bind
    intro s
    apply Knows.tell_bind
    have settled : Settled fs base root [] := fun _ _ there => absurd there List.not_mem_nil
    have loads := @loads_load fs base root s.libraries project (rootPlaces fs root.source)
    apply (knows_resolveProgram .root (stack_root project) loads project settled).occupying.bind
    rintro ⟨p, error⟩ known outcome
    cases error with
    | some d => exact .pure outcome
    | none =>
      apply Knows.tell_bind
      obtain ⟨settled, _, rest⟩ := outcome
      exact .pure ⟨settled, rest⟩
  apply resolved.bind
  rintro ⟨p, error⟩ known outcome
  cases error with
  | some d => exact .throw outcome
  | none => exact .pure outcome

/-- Nothing is in the way of a root program whose imports are all known. -/
theorem not_broken (settled : Settled fs base root known)
    (closed : ∀ i ∈ root.imports, ∃ q, (i.file base, q) ∈ known) : ¬ Broken fs base root := by
  have known_imports : ∀ p, root.Reaches fs base p → ∀ i ∈ p.imports, ∃ q, (i.file base, q) ∈ known := by
    intro p reached
    induction reached with
    | root => exact closed
    | @importing p q i reached mem found ih =>
      obtain ⟨r, there⟩ := ih i mem
      have resolved := settled _ r there
      rw [resolved.program] at found
      obtain rfl := Option.some.inj found
      exact resolved.closed
  rintro (⟨p, reached, i, mem, unread⟩ | ⟨name, cycle⟩)
  · obtain ⟨q, there⟩ := known_imports p reached i mem
    rw [(settled _ q there).program] at unread
    cases unread
  · obtain ⟨_, _, p, reached, _, i, mem, rfl⟩ := Relation.TransGen.tail'_iff.mp cycle
    obtain ⟨q, there⟩ := known_imports p reached i mem
    exact not_transGen_of_acc (settled _ q there).ends cycle

end Frontend.Importing
