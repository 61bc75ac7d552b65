import Frontend.Proofs.Growth
import Frontend.Proofs.Spots

/-!
Outcomes that are certain. Where it is known what a file system has, it is known how an import ends:
whether it fails, what is parsed for it, and which programs are known then. Each way to an outcome
has a lemma, so a resolution that is given in full is followed import by import.
-/
namespace Frontend.Importing

/-- The source that an event tells to be parsed. -/
def Event.parsing? : Event → Option String
  | .parsing name => some name
  | _ => none

/-- The sources that some events tell to be parsed. -/
def parsings (events : List Event) : List String := events.filterMap Event.parsing?

/-- A computation that does nothing to a session, with a value of which something holds. -/
def Idles {α : Type} (s : Session) (x : Resolving α) (holds : α → Prop) : Prop :=
  Runs x s (fun a s' => s' = s ∧ holds a) (fun s' => s' = s)

/-- From one session to another, sources of these names are parsed, the latest first, and these
programs are known then. -/
structure Told (s : Session) (names : List String) (known : List (Place × Program)) (s' : Session) :
    Prop where
  known : s'.known = known
  libraries : s'.libraries = s.libraries
  events : ∃ new, s'.events = new ++ s.events ∧ parsings new = names

/-- A computation that certainly succeeds, or certainly fails. -/
structure Certain {α : Type} (s : Session) (x : Resolving α) (succeeds : Bool)
    (names : List String) (known : List (Place × Program)) : Prop where
  runs : Runs x s (fun _ s' => succeeds = true ∧ Told s names known s')
    (fun s' => succeeds = false ∧ Told s names known s')

/-- Some directories of which one certainly has what is searched for. -/
structure Finds (s : Session) (x : Resolving (Except (List Diagnostic) Module))
    (names : List String) (known : List (Place × Program)) : Prop where
  runs : Runs x s (fun found s' => (∃ m, found = .ok m) ∧ Told s names known s') fun _ => False

/-- Imports of which so many are certainly resolved: all of them, or those before one that fails. -/
structure ResolvesUpTo (s : Session) (x : Resolving Resolution) (count : Nat) (all : Bool)
    (names : List String) (known : List (Place × Program)) : Prop where
  runs : Runs x s
    (fun r s' => r.modules.length = count ∧ r.error.isNone = all ∧ Told s names known s')
    fun _ => False

variable {s s' s'' : Session} {names names' : List String} {known known' : List (Place × Program)}
  {succeeds : Bool} {importer : Source} {i : Import} {file directory : Path} {place : Place}
  {p : Program}

@[simp] theorem parsings_append (new old : List Event) :
    parsings (new ++ old) = parsings new ++ parsings old :=
  List.filterMap_append

@[simp] theorem parsings_of_grammar (events : List Grammar.Event) :
    parsings (events.map .parser).reverse = [] := by
  simp [parsings, List.filterMap_reverse, List.filterMap_map, Function.comp_def, Event.parsing?]

theorem ok_of_runs {α : Type} {x : Resolving α} {done : α → Session → Prop}
    (h : Runs x s done fun _ => False) : ∃ a s', x s = .ok a s' ∧ done a s' := by
  unfold Runs at h
  cases run : x s with
  | ok a s' =>
    rw [run] at h
    exact ⟨a, s', rfl, h⟩
  | error d s' =>
    rw [run] at h
    exact h.elim

/-- What goes on behind a computation that does not fail. -/
theorem runs_bind {α β : Type} {x : Resolving α} {k : α → Resolving β} {mid : α → Session → Prop}
    {done : β → Session → Prop} {failed : Session → Prop} (first : Runs x s mid fun _ => False)
    (then_ : ∀ a s', mid a s' → Runs (k a) s' done failed) : Runs (x >>= k) s done failed :=
  (first.mono (fun _ _ ends => ends) fun _ => False.elim).bind then_

namespace Told

theorem refl : Told s [] s.known s := ⟨rfl, rfl, [], rfl, rfl⟩

theorem trans (first : Told s names known s') (second : Told s' names' known' s'') :
    Told s (names' ++ names) known' s'' := by
  obtain ⟨-, libraries, new, events, parsed⟩ := first
  obtain ⟨same, libraries', new', events', parsed'⟩ := second
  refine ⟨same, libraries'.trans libraries, new' ++ new, ?_, ?_⟩
  · rw [events', events, List.append_assoc]
  · rw [parsings_append, parsed, parsed']

/-- An event that is not about a source that is parsed. -/
theorem tell {e : Event} (other : e.parsing? = none) :
    Told s [] s.known { s with events := e :: s.events } :=
  ⟨rfl, rfl, [e], rfl, by simp [parsings, other]⟩

theorem parsings_eq (told : Told s names known s') :
    parsings s'.events = names ++ parsings s.events := by
  obtain ⟨-, -, new, events, parsed⟩ := told
  rw [events, parsings_append, parsed]

end Told

namespace Idles

variable {α β : Type} {x : Resolving α} {k : α → Resolving β} {holds : α → Prop} {final : β → Prop}

theorem pure {a : α} (h : holds a) : Idles s (Pure.pure a) holds := ⟨rfl, h⟩

theorem throw {d : Diagnostic} : Idles s (throw d : Resolving α) holds := rfl

theorem attempt (h : Idles s x fun _ => False) :
    Idles s (attempt x) fun found => ∃ d, found = .error d := by
  apply Runs.mono (Runs.attempt h)
  · rintro (d | a) s' ends
    · exact ⟨ends, d, rfl⟩
    · exact ends.2.elim
  · exact fun _ same => same

theorem bind (first : Idles s x holds) (then_ : ∀ a, holds a → Idles s (k a) final) :
    Idles s (x >>= k) final := by
  apply Runs.bind first
  rintro a _ ⟨rfl, held⟩
  exact then_ a held

theorem fails (h : Idles s x fun _ => False) : Certain s x false [] s.known := by
  refine ⟨Runs.mono h ?_ ?_⟩
  · exact fun _ _ ends => ends.2.elim
  · rintro _ rfl
    exact ⟨rfl, .refl⟩

end Idles

namespace Certain

variable {α β : Type} {x : Resolving α} {k : Except Diagnostic α → Resolving β}
  {done : β → Session → Prop} {failed : Session → Prop}

/-- What goes on behind a success. -/
theorem ok_bind (first : Certain s x true names known)
    (then_ : ∀ a s', Told s names known s' → Runs (k (.ok a)) s' done failed) :
    Runs (attempt x >>= k) s done failed := by
  apply first.runs.attempt.bind
  rintro (d | a) s' ends
  · exact nomatch ends.1
  · exact then_ a s' ends.2

/-- What goes on behind a failure. -/
theorem error_bind (first : Certain s x false names known)
    (then_ : ∀ d s', Told s names known s' → Runs (k (.error d)) s' done failed) :
    Runs (attempt x >>= k) s done failed := by
  apply first.runs.attempt.bind
  rintro (d | a) s' ends
  · exact then_ d s' ends.2
  · exact nomatch ends.1

theorem noting {note : String} (h : Certain s x succeeds names known) :
    Certain s (noting importer i note x) succeeds names known := by
  refine ⟨h.runs.attempt.bind ?_⟩
  rintro (d | a) s' ends
  · exact ends
  · exact ends

/-- What is busy makes no difference to what is told. -/
theorem occupying {busy : List Place}
    (h : ∀ s' : Session, s'.known = s.known → Certain s' x succeeds names known) :
    Certain s (occupying busy x) succeeds names known := by
  refine ⟨runs_occupying ((h { s with busy := busy ++ s.busy } rfl).runs.mono ?_ ?_)⟩
  · rintro a s' ⟨yes, told⟩
    exact ⟨yes, told.known, told.libraries, told.events⟩
  · rintro s' ⟨no, told⟩
    exact ⟨no, told.known, told.libraries, told.events⟩

end Certain

theorem runs_known?_bind {β : Type} {k : Option Program → Resolving β} {done : β → Session → Prop}
    {failed : Session → Prop} (then_ : Runs (k (s.known.lookup place)) s done failed) :
    Runs (known? place >>= k) s done failed :=
  then_

/-- Whether a file is where an import looks for it below a directory. -/
def hasCandidate (fs : FileSystem) (parents : List String) (directory : Path) : Bool :=
  (fs.canonical (candidate directory parents)).toOption.isSome

section Import

variable {setting : Setting} {busy : List Place} {load : Loader setting.fs busy}

theorem idles_inDirectory (missing : hasCandidate setting.fs i.parents directory = false) :
    Idles s (inDirectory setting load importer i directory) fun _ => False := by
  unfold inDirectory
  dsimp only
  split
  · exact .throw
  · split
    next => exact .throw
    next place located => simp [hasCandidate, located, Except.toOption] at missing

theorem idles_search {directories : List Path}
    (missing : ∀ directory ∈ directories, hasCandidate setting.fs i.parents directory = false) :
    Idles s (search setting load importer i directories) fun found => ∃ ds, found = .error ds := by
  induction directories with
  | nil => exact .pure ⟨[], rfl⟩
  | cons directory rest ih =>
    have ⟨nowhere, others⟩ := List.forall_mem_cons.mp missing
    unfold search
    apply (idles_inDirectory nowhere).attempt.bind
    rintro _ ⟨d, rfl⟩
    apply (ih others).bind
    rintro _ ⟨ds, rfl⟩
    exact .pure ⟨d :: ds, rfl⟩

/-- An import that no library has a candidate of fails at once. -/
theorem certain_missing (absolute : i.relative = false)
    (missing : ∀ directory ∈ setting.libraries,
      hasCandidate setting.fs i.parents directory = false) :
    Certain s (resolveImport setting load importer i) false [] s.known := by
  have idles : Idles s (resolveImport setting load importer i) fun _ => False := by
    unfold resolveImport
    rw [if_neg (by simp [absolute])]
    apply (idles_search missing).bind
    rintro _ ⟨ds, rfl⟩
    exact .throw
  exact idles.fails

section Place

variable (memory : importer.onDisk = false)
  (apart : (candidate directory i.parents).same ⟨importer.name⟩ = false)
  (located : setting.fs.canonical (candidate directory i.parents) = .ok place)

include memory apart located

theorem inDirectory_eq (there : place ∈ setting.fs.places) :
    inDirectory setting load importer i directory = (do
      let p ← programAt load importer i (candidate directory i.parents) place there
      pure (moduleOf i place p)) := by
  unfold inDirectory
  dsimp only
  rw [if_neg (by simp [apart])]
  split
  next e missing =>
    rw [located] at missing
    cases missing
  next found same =>
    obtain rfl : place = found := Except.ok.inj (located.symm.trans same)
    rw [if_neg (by simp [memory])]

/-- What is known is not parsed. -/
theorem certain_known (found : s.known.lookup place = some p) :
    Certain s (inDirectory setting load importer i directory) true [] s.known := by
  rw [inDirectory_eq memory apart located (FileSystem.mem_places_of_canonical located)]
  unfold programAt
  rw [bind_assoc]
  refine ⟨runs_known?_bind ?_⟩
  rw [found]
  exact ⟨rfl, .tell rfl⟩

/-- What is new is loaded. -/
theorem certain_new (new : s.known.lookup place = none) (free : place ∉ busy)
    (loads : ∀ free s', s'.known = s.known → Certain s'
      (load importer i (candidate directory i.parents) place free) succeeds names known) :
    Certain s (inDirectory setting load importer i directory) succeeds names known := by
  rw [inDirectory_eq memory apart located (FileSystem.mem_places_of_canonical located)]
  unfold programAt
  rw [bind_assoc]
  refine ⟨runs_known?_bind ?_⟩
  rw [new]
  dsimp only
  rw [dif_pos free]
  have loaded := loads ⟨FileSystem.mem_places_of_canonical located, free⟩
  apply (Certain.occupying loaded).noting.runs.bind
  exact fun p s' ends => ends

end Place

theorem finds_here {rest : List Path}
    (here : Certain s (inDirectory setting load importer i directory) true names known) :
    Finds s (search setting load importer i (directory :: rest)) names known := by
  unfold search
  refine ⟨here.ok_bind ?_⟩
  exact fun m s' told => ⟨⟨m, rfl⟩, told⟩

theorem finds_later {rest : List Path}
    (here : Certain s (inDirectory setting load importer i directory) false names known)
    (later : ∀ s', s'.known = known →
      Finds s' (search setting load importer i rest) names' known') :
    Finds s (search setting load importer i (directory :: rest)) (names' ++ names) known' := by
  unfold search
  refine ⟨here.error_bind ?_⟩
  intro d s' told
  apply (later s' told.known).runs.bind
  rintro _ s'' ⟨⟨m, rfl⟩, told'⟩
  exact ⟨⟨m, rfl⟩, told.trans told'⟩

theorem certain_resolveImport (absolute : i.relative = false)
    (finds : Finds s (search setting load importer i setting.libraries) names known) :
    Certain s (resolveImport setting load importer i) true names known := by
  unfold resolveImport
  rw [if_neg (by simp [absolute])]
  refine ⟨runs_bind finds.runs ?_⟩
  rintro _ s' ⟨⟨m, rfl⟩, told⟩
  exact ⟨rfl, told⟩

theorem upTo_nil : ResolvesUpTo s (resolveEach setting load importer []) 0 true [] s.known :=
  ⟨rfl, rfl, .refl⟩

theorem upTo_cons {rest : List Import} {count : Nat} {all : Bool}
    (one : Certain s (resolveImport setting load importer i) true names known)
    (others : ∀ s', s'.known = known →
      ResolvesUpTo s' (resolveEach setting load importer rest) count all names' known') :
    ResolvesUpTo s (resolveEach setting load importer (i :: rest)) (count + 1) all (names' ++ names)
      known' := by
  unfold resolveEach
  refine ⟨one.ok_bind ?_⟩
  intro m s' told
  apply (others s' told.known).runs.bind
  rintro r s'' ⟨length, error, told'⟩
  exact ⟨congrArg Nat.succ length, error, told.trans told'⟩

theorem upTo_failure {rest : List Import}
    (one : Certain s (resolveImport setting load importer i) false names known) :
    ResolvesUpTo s (resolveEach setting load importer (i :: rest)) 0 false names known := by
  unfold resolveEach
  refine ⟨one.error_bind ?_⟩
  exact fun d s' told => ⟨rfl, rfl, told⟩

/-- As many modules are put behind those of a program as imports are resolved. -/
theorem runs_resolveProgram {count : Nat} {all : Bool} (each : ∀ s', s'.known = s.known →
      ResolvesUpTo s' (resolveEach setting load p.source p.imports) count all names known) :
    Runs (resolveProgram setting load p) s (fun found s' => found.2.isNone = all ∧
      Told s names known s' ∧
      ∃ new, new.length = count ∧ found.1 = { p with modules := p.modules ++ new })
      fun _ => False := by
  have told : Told s [] s.known { s with events := .resolving p.source.name :: s.events } :=
    .tell rfl
  apply Runs.modify_bind
  apply (each { s with events := .resolving p.source.name :: s.events } rfl).runs.bind
  rintro r s' ⟨length, error, told'⟩
  exact ⟨error, by simpa using told.trans told', r.modules, length, rfl⟩

end Import

section File

variable {setting : Setting} {busy : List Place} {free : Fresh setting.fs busy place}
  (inFile : Program.inFile? setting.fs file = some p)

include inFile

/-- What is in a file is parsed under its name. -/
theorem runs_parseFile : Runs (parseFile setting importer i file) s
    (fun q s' => q = p ∧ Told s [p.source.name] s.known s') fun _ => False := by
  obtain ⟨source, decls, found, parsed, rfl⟩ := Program.inFile?_eq_some.mp inFile
  unfold parseFile
  rw [found]
  dsimp only
  apply Runs.modify_bind
  unfold parseSource
  rw [bind_assoc]
  unfold Runs
  rw [tellAll_bind, parsed]
  refine ⟨rfl, rfl, rfl, .parsed source.name :: _, congrArg _ (List.append_cons ..), ?_⟩
  show parsings (_ ++ _) = _
  rw [parsings_append, parsings_of_grammar]
  rfl

/-- A file fails with its imports. -/
theorem fails_load {count : Nat} (each : ∀ s', s'.known = s.known →
      ResolvesUpTo s' (resolveEach setting (load setting (place :: busy)) p.source p.imports) count
        false names known) :
    Certain s (load setting busy importer i file place free) false
      (names ++ [p.source.name]) known := by
  rw [load]
  refine ⟨runs_bind (runs_parseFile inFile) ?_⟩
  rintro p s' ⟨rfl, told⟩
  have resolved := runs_resolveProgram (s := s') fun s'' same => each s'' (same.trans told.known)
  apply runs_bind resolved
  rintro ⟨q, none | d⟩ s'' ⟨error, told', -⟩
  · simp at error
  · exact ⟨rfl, told.trans told'⟩

/-- A file without imports becomes known. -/
theorem succeeds_load (plain : p.imports = []) :
    Certain s (load setting busy importer i file place free) true [p.source.name]
      ((place, p) :: s.known) := by
  rw [load]
  refine ⟨runs_bind (runs_parseFile inFile) ?_⟩
  rintro p s' ⟨rfl, told⟩
  have each : ∀ s'', s''.known = s'.known → ResolvesUpTo s'' (resolveEach setting
      (load setting (place :: busy)) p.source p.imports) 0 true [] s'.known := by
    intro s'' same
    rw [plain, ← same]
    exact upTo_nil
  apply runs_bind (runs_resolveProgram each)
  rintro ⟨q, none | d⟩ s'' ⟨error, told', new, length, same⟩
  · obtain rfl : new = [] := List.eq_nil_of_length_eq_zero length
    have unchanged : ({ p with modules := p.modules ++ [] } : Program) = p := by
      cases p
      rw [List.append_nil]
    obtain rfl : q = p := same.trans unchanged
    have both := told.trans told'
    refine ⟨rfl, ?_, both.libraries, both.events⟩
    show (place, q) :: s''.known = _
    rw [both.known, told.known]
  · simp at error

end File

/-- What becomes of the imports of a root program in a session. -/
theorem runs_resolveRoot {fs : FileSystem} {root : Program} {project : Option Path}
    {own : List Place} {count : Nat} {all : Bool} (located : projectOf fs root.source = project)
    (places : rootPlaces fs root.source = own)
    (each : ∀ s', s'.known = s.known →
      ResolvesUpTo s' (resolveEach ⟨fs, s.libraries, project⟩
        (load ⟨fs, s.libraries, project⟩ own) root.source root.imports) count all names known) :
    Runs (resolveRoot fs root) s (fun found s' => found.2.isNone = all ∧ Told s names known s' ∧
      ∃ new, new.length = count ∧ found.1 = { root with modules := root.modules ++ new })
      fun _ => False := by
  subst located places
  unfold resolveRoot resolveWith
  have session : Runs (get : Resolving Session) s (fun t s' => t = s ∧ s' = s) fun _ => False :=
    ⟨rfl, rfl⟩
  apply session.bind
  rintro _ s ⟨rfl, rfl⟩
  apply Runs.modify_bind
  generalize started : ({ s with events := _ :: s.events } : Session) = s'
  have resolved : Runs (occupying (rootPlaces fs root.source) (resolveProgram
      ⟨fs, s.libraries, projectOf fs root.source⟩ (load _ (rootPlaces fs root.source)) root)) s'
      (fun found s'' => found.2.isNone = all ∧ Told s' names known s'' ∧
        ∃ new, new.length = count ∧ found.1 = { root with modules := root.modules ++ new })
      fun _ => False := by
    have same : s'.known = s.known := started ▸ rfl
    have inside := runs_resolveProgram
      (s := { s' with busy := rootPlaces fs root.source ++ s'.busy })
      fun s'' known => each s'' (known.trans same)
    apply runs_occupying
    apply inside.mono
    · rintro found s'' ⟨error, told, new⟩
      exact ⟨error, ⟨told.known, told.libraries, told.events⟩, new⟩
    · exact fun _ => id
  have first : Told s [] s.known s' := started ▸ .tell rfl
  apply resolved.bind
  rintro ⟨q, none | d⟩ s'' ⟨error, told, new⟩
  · have last : Told s'' [] s''.known { s'' with events := .finished :: s''.events } := .tell rfl
    exact ⟨error, by simpa [told.known] using (first.trans told).trans last, new⟩
  · exact ⟨error, by simpa using first.trans told, new⟩

/-- What holds however a root program ends holds of the session behind it. -/
theorem next_of_runs {fs : FileSystem} {root : Program} {holds : Session → Prop}
    (h : Runs (resolveAll fs root) s (fun _ s' => holds s') holds) : holds (s.next (fs, root)) := by
  unfold Runs at h
  unfold Session.next
  cases run : resolveAll fs root s with
  | ok q s' =>
    rw [run] at h
    exact h
  | error d s' =>
    rw [run] at h
    exact h

/-- What is told about one more root program in a session. -/
theorem told_next {fs : FileSystem} {root : Program} {project : Option Path} {own : List Place}
    {count : Nat} {all : Bool} (located : projectOf fs root.source = project)
    (places : rootPlaces fs root.source = own)
    (each : ∀ s', s'.known = s.known →
      ResolvesUpTo s' (resolveEach ⟨fs, s.libraries, project⟩
        (load ⟨fs, s.libraries, project⟩ own) root.source root.imports) count all names known) :
    Told s names known (s.next (fs, root)) := by
  apply next_of_runs
  apply runs_bind (runs_resolveRoot located places each)
  rintro ⟨q, none | d⟩ s' ⟨-, told, -⟩
  · exact told
  · exact told

namespace Stored

variable {setting : Setting} {busy : List Place} {name : String}
  (stored : Stored setting.fs name place p) (memory : importer.onDisk = false)
  (apart : Path.same ⟨name⟩ ⟨importer.name⟩ = false)
  (path : candidate directory i.parents = ⟨name⟩)

include stored memory apart path

/-- A program that is no file imports what is known. -/
theorem certain_known {load : Loader setting.fs busy} {q : Program}
    (found : s.known.lookup place = some q) :
    Certain s (inDirectory setting load importer i directory) true [] s.known :=
  Importing.certain_known memory (path ▸ apart) (path ▸ stored.canonical) found

variable (new : s.known.lookup place = none) (free : place ∉ busy)

include new free

/-- A program that is no file imports a file without imports. -/
theorem certain_plain (plain : p.imports = []) :
    Certain s (inDirectory setting (load setting busy) importer i directory) true [p.source.name]
      ((place, p) :: s.known) := by
  apply certain_new memory (path ▸ apart) (path ▸ stored.canonical) new free
  intro free s' same
  rw [← same, path]
  exact succeeds_load stored.inFile plain

/-- A program that is no file imports a file that imports what is nowhere. -/
theorem certain_broken {j : Import} {rest : List Import} (broken : p.imports = j :: rest)
    (absolute : j.relative = false)
    (missing : ∀ directory ∈ setting.libraries,
      hasCandidate setting.fs j.parents directory = false) :
    Certain s (inDirectory setting (load setting busy) importer i directory) false
      [p.source.name] s.known := by
  apply certain_new memory (path ▸ apart) (path ▸ stored.canonical) new free
  intro free s' same
  rw [← same, path, ← List.nil_append [p.source.name]]
  apply fails_load stored.inFile
  intro s'' same'
  rw [← same', broken]
  exact upTo_failure (certain_missing absolute missing)

end Stored

end Frontend.Importing
