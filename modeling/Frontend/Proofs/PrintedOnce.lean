import Frontend.Proofs.Expansions
import Frontend.Proofs.SharedSessions
import Frontend.Proofs.SourceNames

/-!
Graphs of programs that a session builds, and their listings. As long as the file system stays as
it is, a program that is known was read in the file that it is named after, so known programs of one
name are one program. Only the root program of a graph need not be known; it may have the name of a
program that is, if that one was read for an earlier root program.
-/
namespace Frontend.Importing

open Program (OneNamed ListsEachOnce)

/-- All known programs were read in files of a file system. -/
def AllRead (fs : FileSystem) (known : List (Place × Program)) : Prop :=
  ∀ place p, known.lookup place = some p → ReadAt fs place p

/-- A root program whose name no known program gets: it has no absolute path as its name, or it is
in a file that is not known. -/
inductive Apart (fs : FileSystem) (known : List (Place × Program)) (source : Source) : Prop
  | memory (free : Path.isAbsolute ⟨source.name⟩ = false)
  | file {place : Place} (onDisk : source.onDisk = true)
      (located : fs.canonical ⟨source.name⟩ = .ok place) (new : known.lookup place = none)

variable {fs : FileSystem} {known known' : List (Place × Program)} {place there : Place}
  {p q : Program} {m : Module} {spared : List Place}

theorem AllRead.grown (read : AllRead fs known) (grown : Grown fs spared known known') :
    AllRead fs known' := by
  intro place p found
  obtain before | read_now := grown.read place p found
  · exact read place p before
  · exact read_now

/-- A session on one file system has read all that it knows there. -/
theorem Session.allRead_after (libraries : List Path) (fs : FileSystem) (roots : List Program) :
    AllRead fs (Session.after libraries (roots.map (fs, ·))).known := by
  have start : (Session.start libraries).busy = [] ∧ AllRead fs (Session.start libraries).known :=
    ⟨rfl, nofun⟩
  unfold Session.after
  generalize Session.start libraries = s at start
  induction roots generalizing s with
  | nil => exact start.2
  | cons root roots ih =>
    obtain ⟨idle, read⟩ := start
    obtain ⟨idle, grown⟩ := Session.grown_next idle (fs, root)
    exact ih _ ⟨idle, read.grown grown⟩

/-- A program that was read is named after its place. -/
theorem ReadAt.place_of_name (rooted : fs.current.isAbsolute = true) (read : ReadAt fs place p) :
    Path.isAbsolute ⟨p.source.name⟩ = true ∧ fs.canonical ⟨p.source.name⟩ = .ok place := by
  obtain ⟨file, located, found, -⟩ := read
  exact (Source.place_of_name rooted located found).2

/-- Known programs of one name are one program. -/
theorem AllRead.one (rooted : fs.current.isAbsolute = true) (read : AllRead fs known)
    (found : known.lookup place = some p) (found' : known.lookup there = some q)
    (same : p.source.name = q.source.name) : p = q := by
  have located := (read place p found).place_of_name rooted
  have located' := (read there q found').place_of_name rooted
  rw [same, located'.2] at located
  cases located.2
  rw [found] at found'
  cases found'
  rfl

/-- What a known program holds is known. -/
theorem Layered.exists_lookup (layered : Layered known) (found : known.lookup place = some p)
    (held : p.Holds q) : ∃ there, known.lookup there = some q := by
  induction held generalizing place with
  | self => exact ⟨place, found⟩
  | module mem _ ih => exact ih (layered.module found mem)

/-- Where the modules of a program are known, programs of one name are one program unless a module
leads back to the name of the first one. -/
theorem oneNamed_iff (rooted : fs.current.isAbsolute = true) (read : AllRead fs known)
    (layered : Layered known) (modules : ∀ m ∈ p.modules, known.lookup m.place = some m.program) :
    p.OneNamed ↔ ∀ m ∈ p.modules, ∀ q, m.program.Holds q → q.source.name ≠ p.source.name := by
  constructor
  · intro one m mem q held same
    obtain rfl := one q p (.module mem held) .self same
    have smaller := Program.sizeOf_program_lt mem
    have larger := held.sizeOf_le
    omega
  · intro other q r held held' same
    cases held with
    | self =>
      cases held' with
      | self => rfl
      | module mem held' => exact absurd same.symm (other _ mem _ held')
    | module mem held =>
      cases held' with
      | self => exact absurd same (other _ mem _ held)
      | module mem' held' =>
        obtain ⟨_, found⟩ := layered.exists_lookup (modules _ mem) held
        obtain ⟨_, found'⟩ := layered.exists_lookup (modules _ mem') held'
        exact read.one rooted found found' same

/-- The graph of a root program in a session: its modules are known when it is built, and all that
was read for it has been read in the file system. -/
theorem graph_of_resolveRoot {s s' : Session} {root : Program} {error : Option Diagnostic}
    (idle : s.busy = []) (known : ∀ m ∈ root.modules, s.known.lookup m.place = some m.program)
    (run : resolveRoot fs root s = .ok (p, error) s') :
    p.source = root.source ∧ Grown fs (rootPlaces fs root.source) s.known s'.known ∧
      ∀ m ∈ p.modules, s'.known.lookup m.place = some m.program := by
  have ends := @learns_resolveRoot fs s.known root s idle rfl
  unfold Runs at ends
  rw [run] at ends
  obtain ⟨-, grown, ⟨modules, error⟩, whole, done, rest, -, answers, -⟩ := ends
  cases whole
  refine ⟨rfl, grown, fun m mem => ?_⟩
  obtain old | new := List.mem_append.mp mem
  · exact grown.keeps _ _ (known m old)
  · obtain ⟨i, -, answer⟩ := (exists_of_forall₂ answers).2 m new
    exact answer.program

/-- A listing of a graph where programs of one name are one program has the programs whose names
come first in its expansion, in that order: every program that the root holds, once, and no other. A
session on a file system that stays as it is builds such a graph unless one of the modules leads to
a program with the name of the root. None does if the root is no file, or in a file that is not
known from earlier root programs. -/
theorem programs_listed_once (libraries : List Path) {fs : FileSystem}
    (rooted : fs.current.isAbsolute = true) :
    (∀ p : Program, p.OneNamed → p.ListsEachOnce) ∧
    ∀ (earlier : List Program) (root p : Program) (error : Option Diagnostic) (s' : Session),
      let s := Session.after libraries (earlier.map (fs, ·))
      (∀ m ∈ root.modules, s.known.lookup m.place = some m.program) →
      resolveRoot fs root s = .ok (p, error) s' →
      (p.OneNamed ↔
        ∀ m ∈ p.modules, ∀ q, m.program.Holds q → q.source.name ≠ root.source.name) ∧
      (Apart fs s.known root.source → p.OneNamed) := by
  refine ⟨fun p one => one.listsEachOnce, ?_⟩
  intro earlier root p error s' s known run
  obtain ⟨idle, layered⟩ := Session.layered_after libraries (earlier.map (fs, ·))
  obtain ⟨own, grown, modules⟩ := graph_of_resolveRoot idle known run
  have read := (Session.allRead_after libraries fs earlier).grown grown
  have layered' := grown.layered layered
  have named := oneNamed_iff rooted read layered' modules
  rw [own] at named
  refine ⟨named, fun apart => named.mpr fun m mem q held same => ?_⟩
  obtain ⟨there, found⟩ := layered'.exists_lookup (modules m mem) held
  have located := (read there q found).place_of_name rooted
  rw [same] at located
  cases apart with
  | memory free => exact absurd located.1 (by simp [free])
  | @file place onDisk own_place new =>
    have spared : place ∈ rootPlaces fs root.source := by
      rw [rootPlaces, if_pos onDisk, own_place]
      exact List.mem_singleton_self _
    rw [own_place] at located
    cases located.2
    have still := grown.spares _ spared
    rw [new, found] at still
    cases still

section Estate

/-- A project with two files, and one in it with two more. `a` is found from both, and looks for `b`
at the root of the project. -/
def estate : FileSystem where
  entries := [(["h"], .directory), (["h", "b.dcs"], .file (Utf8.ofString "type a b")),
    (["h", "s"], .directory), (["h", "s", "a.dcs"], .file (Utf8.ofString "import .b.a")),
    (["h", "s", "b.dcs"], .file (Utf8.ofString "import .a.a"))]
  current := ⟨"/h"⟩

/-- A project in the estate, without libraries. -/
def estateOf (project : Path) : Setting := ⟨estate, [], some project⟩

def fileB : Program := importing "/h/s/b.dcs" "import .a.a" true ["a"]

@[simp] theorem imports_fileB : fileB.imports = [importLine 0 1 11 true ["a"]] := rfl

theorem stored_estate_a : Stored estate "/h/s/a.dcs" ["h", "s", "a.dcs"] (fileA "/h/s/a.dcs") :=
  stored_of_locate rfl (by decide) (by cbv) (parse_importing_b _)

theorem stored_estate_b : Stored estate "/h/b.dcs" ["h", "b.dcs"] (defining "/h/b.dcs") :=
  stored_of_locate rfl (by decide) (by cbv) (parse_defining _)

theorem stored_fileB : Stored estate "/h/s/b.dcs" ["h", "s", "b.dcs"] fileB :=
  stored_of_locate rfl (by decide) (by cbv) (by cbv)

variable {offset line length : Nat}

/-- Where imports are found from the outer project. -/
theorem spots_estate_outer :
    spots (estateOf ⟨"/h"⟩) outer.source (importLine offset line length true ["s", "a"]) =
        [(["h", "s", "a.dcs"], some (fileA "/h/s/a.dcs"))] ∧
      spots (estateOf ⟨"/h"⟩) (fileA "/h/s/a.dcs").source
          (importLine offset line length true ["b"]) =
        [(["h", "b.dcs"], some (defining "/h/b.dcs"))] := by
  have paths : candidate ⟨"/h"⟩ ["s", "a"] = ⟨"/h/s/a.dcs"⟩ ∧
      candidate ⟨"/h"⟩ ["b"] = ⟨"/h/b.dcs"⟩ := by
    decide
  have start : relativeRoot? (estateOf ⟨"/h"⟩) outer.source = some ⟨"/h"⟩ := rfl
  have start_a : relativeRoot? (estateOf ⟨"/h"⟩) (fileA "/h/s/a.dcs").source = some ⟨"/h"⟩ := by
    decide
  have found : spot? estate (fileA "/h/s/a.dcs").source _ = _ :=
    stored_estate_b.spot?_file stored_estate_a.canonical (by decide) rfl
  rw [spots_relative start, spots_relative start_a, paths.1, paths.2]
  exact ⟨congrArg Option.toList (stored_estate_a.spot?_memo rfl), congrArg Option.toList found⟩

/-- Where imports are found from the inner project. -/
theorem spots_estate_inner :
    spots (estateOf ⟨"/h/s"⟩) (fileA "/h/s/a.dcs").source
          (importLine offset line length true ["b"]) =
        [(["h", "s", "b.dcs"], some fileB)] ∧
      spots (estateOf ⟨"/h/s"⟩) fileB.source (importLine offset line length true ["a"]) =
        [(["h", "s", "a.dcs"], some (fileA "/h/s/a.dcs"))] := by
  have paths : candidate ⟨"/h/s"⟩ ["b"] = ⟨"/h/s/b.dcs"⟩ ∧
      candidate ⟨"/h/s"⟩ ["a"] = ⟨"/h/s/a.dcs"⟩ := by
    decide
  have start_a : relativeRoot? (estateOf ⟨"/h/s"⟩) (fileA "/h/s/a.dcs").source = some ⟨"/h/s"⟩ := by
    decide
  have start_b : relativeRoot? (estateOf ⟨"/h/s"⟩) fileB.source = some ⟨"/h/s"⟩ := by decide
  have found_b : spot? estate (fileA "/h/s/a.dcs").source _ = _ :=
    stored_fileB.spot?_file stored_estate_a.canonical (by decide) rfl
  have found_a : spot? estate fileB.source _ = _ :=
    stored_estate_a.spot?_file stored_fileB.canonical (by decide) rfl
  rw [spots_relative start_a, spots_relative start_b, paths.1, paths.2]
  exact ⟨congrArg Option.toList found_b, congrArg Option.toList found_a⟩

@[simp] theorem modules_fileA {file : String} : (fileA file).modules = [] := rfl

@[simp] theorem modules_fileB : fileB.modules = [] := rfl

@[simp] theorem eta_defining {file : String} :
    ⟨(defining file).source, (defining file).decls, (defining file).modules⟩ = defining file := rfl

/-- The module of an import of `a`. -/
def moduleAt (place : Place) (p : Program) : Module := ⟨none, ["a"], false, place, p⟩

/-- `a` as it becomes known for the outer project. -/
def outerA : Program :=
  { fileA "/h/s/a.dcs" with modules := [moduleAt ["h", "b.dcs"] (defining "/h/b.dcs")] }

/-- `b` of the inner project with `a` as it is known from the outer one. -/
def innerB : Program := { fileB with modules := [moduleAt ["h", "s", "a.dcs"] outerA] }

/-- `a` of the inner project with that `b`. -/
def innerA : Program :=
  { fileA "/h/s/a.dcs" with modules := [moduleAt ["h", "s", "b.dcs"] innerB] }

theorem known_outer : (Session.after [] [(estate, outer)]).known =
    [(["h", "s", "a.dcs"], outerA), (["h", "b.dcs"], defining "/h/b.dcs")] := by
  have explored : exploreRoot estate [] outer = exploreProgram (estateOf ⟨"/h"⟩)
      (exploreBelow (estateOf ⟨"/h"⟩) 6 []) [] outer := rfl
  have imports : outer.imports = [importLine 0 1 13 true ["s", "a"]] := imports_memo
  rw [(after_single estate [] outer).2, explored]
  simp [-StateT.run_pure, enterBy, spots_estate_outer, imports, List.lookup, outerA, moduleAt]

theorem exploreRoot_estate {root : Program} {place : Place}
    (project : projectOf estate root.source = some ⟨"/h/s"⟩)
    (own : rootPlaces estate root.source = [place]) :
    exploreRoot estate [] root = exploreProgram (estateOf ⟨"/h/s"⟩)
      (exploreBelow (estateOf ⟨"/h/s"⟩) 6 [place]) [place] root := by
  rw [exploreRoot, rootSetting, project, own]
  rfl

theorem rootPlaces_estate : rootPlaces estate fileB.source = [["h", "s", "b.dcs"]] ∧
    rootPlaces estate (fileA "/h/s/a.dcs").source = [["h", "s", "a.dcs"]] :=
  ⟨by cbv, by cbv⟩

/-- Both files of the inner project get `a` as it is known from the outer one, `a` itself below
`b`. -/
theorem resolved_inner :
    (∃ s, resolveAll estate fileB (Session.after [] [(estate, outer)]) = .ok innerB s) ∧
      ∃ s, resolveAll estate (fileA "/h/s/a.dcs") (Session.after [] [(estate, outer)]) =
        .ok innerA s := by
  have libs := (after_single estate [] outer).1
  constructor
  · apply ok_of_explore libs
    rw [known_outer, exploreRoot_estate (by decide) rootPlaces_estate.1]
    simp [-StateT.run_pure, enterBy, spots_estate_inner, List.lookup, innerB, moduleAt]
  · apply ok_of_explore libs
    rw [known_outer, exploreRoot_estate (by decide) rootPlaces_estate.2]
    simp [-StateT.run_pure, enterBy, spots_estate_inner, List.lookup, innerA, innerB, moduleAt]

/-- Resolving succeeds where it leaves no error. -/
theorem run_resolveRoot {s s' : Session} {root : Program}
    (run : resolveAll fs root s = .ok p s') : resolveRoot fs root s = .ok (p, none) s' := by
  have ends : resolveAll fs root s = match resolveRoot fs root s with
      | .ok (q, none) s'' => .ok q s''
      | .ok (_, some d) s'' => .error d s''
      | .error d s'' => .error d s'' := by
    show (resolveRoot fs root >>= _) s = _
    simp only [bind, EStateM.bind]
    cases resolveRoot fs root s with
    | error d s'' => rfl
    | ok pair s'' =>
      obtain ⟨q, _ | d⟩ := pair <;> rfl
  rw [ends] at run
  split at run
  next found =>
    cases run
    exact found
  next => cases run
  next => cases run

/-- `b` of the inner project is in a file that is not known. All three programs are listed. -/
theorem programs_listed_once_estate :
    estate.current.isAbsolute = true ∧
      (∃ s, resolveRoot estate fileB (Session.after [] [(estate, outer)]) = .ok (innerB, none) s) ∧
      innerB.ListsEachOnce ∧ innerB.Holds (defining "/h/b.dcs") := by
  obtain ⟨lists, builds⟩ := @programs_listed_once [] estate rfl
  obtain ⟨s, run⟩ := resolved_inner.1
  have known := run_resolveRoot run
  have new : (Session.after [] [(estate, outer)]).known.lookup ["h", "s", "b.dcs"] = none := by
    rw [known_outer]
    decide
  have apart : Apart estate (Session.after [] [(estate, outer)]).known fileB.source :=
    .file rfl stored_fileB.canonical new
  have one := (builds [outer] fileB innerB none s nofun known).2 apart
  exact ⟨rfl, ⟨s, known⟩, lists innerB one, .module (List.mem_singleton_self _)
    (.module (List.mem_singleton_self _) .self)⟩

/-- `a` of the inner project is in a file that is known. Below `b` its name has been seen, so what
the known `a` holds is not listed. -/
theorem listing_innerA :
    (∃ s, resolveRoot estate (fileA "/h/s/a.dcs") (Session.after [] [(estate, outer)]) =
        .ok (innerA, none) s) ∧
      innerA.Holds (defining "/h/b.dcs") ∧
      innerA.listing = Program.textOf [innerA, innerB] ∧ ¬ innerA.ListsEachOnce := by
  obtain ⟨s, run⟩ := resolved_inner.2
  have printed : innerA.list ⟨.unbounded, []⟩ =
      [innerA, innerB].foldl Program.Listing.add ⟨.unbounded, []⟩ := by
    have first : innerA.source.name ∉ ([] : List String) := List.not_mem_nil
    have second : innerB.source.name ∉ ["/h/s/a.dcs"] := by decide
    have third : outerA.source.name ∈ ["/h/s/b.dcs", "/h/s/a.dcs"] := by decide
    rw [Program.list_new first]
    exact (Program.list_new second).trans (Program.list_seen third)
  have text := (Program.listing_of_list printed).2
  refine ⟨⟨s, run_resolveRoot run⟩, .module (List.mem_singleton_self _)
    (.module (List.mem_singleton_self _) (.module (List.mem_singleton_self _) .self)), text, ?_⟩
  intro all
  have expanded : Program.novel [] innerA.expansion = [innerA, innerB, defining "/h/b.dcs"] := rfl
  have lengths := congrArg String.length (text.symm.trans all.text)
  have newline : "\n".length = 1 := rfl
  simp only [expanded, Program.textOf, List.map_cons, List.map_nil, String.join_cons,
    String.length_append, newline] at lengths
  omega

end Estate

end Frontend.Importing
