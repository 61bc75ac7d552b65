import Frontend.Proofs.Searches

/-!
One session for several root programs. What has become known for an earlier root program is what
the present one would get if it were the first, as long as the root programs are compatible: no file
is reached under two names, and a program that both reach looks for its imports in the same files.
-/
open Relation (ReflTransGen)

namespace Frontend.Importing

/-- Two root programs that are compatible. Below them, no file is reached under two names that make
it two programs, and a program that is reached from both looks for its imports in the same files. -/
structure Compatible (fs : FileSystem) (libraries : List Path) (r r' : Program) : Prop where
  named : ∀ place file file', Looked (rootSetting fs libraries r) r place file →
    Looked (rootSetting fs libraries r') r' place file' →
    Program.inFile? fs file = Program.inFile? fs file'
  searched : ∀ t, Met (rootSetting fs libraries r) r t → Met (rootSetting fs libraries r') r' t →
    ∀ i ∈ t.2.imports, candidates (rootSetting fs libraries r) t.2.source i =
      candidates (rootSetting fs libraries r') t.2.source i

/-- The file of a root program has no program but that one. -/
def Rooted (fs : FileSystem) (libraries : List Path) (r : Program) : Prop :=
  ∀ place ∈ rootPlaces fs r.source, ∀ p, Met (rootSetting fs libraries r) r (place, p) →
    p = r.unresolved

/-- Root programs that can share a session. -/
structure Sharing (fs : FileSystem) (libraries : List Path) (roots : List Program) : Prop where
  compatible : ∀ r ∈ roots, ∀ r' ∈ roots, Compatible fs libraries r r'
  rooted : ∀ r ∈ roots, Rooted fs libraries r

/-- What is known has come about as it should for one of some root programs. -/
def Shared (fs : FileSystem) (libraries : List Path) (roots : List Program)
    (known : List (Place × Program)) : Prop :=
  ∀ place p, known.lookup place = some p →
    ∃ r ∈ roots, Accounted (rootSetting fs libraries r) r [] place p

variable {fs : FileSystem} {libraries : List Path} {roots : List Program} {r r' p : Program}
  {t u : Target} {place : Place} {here : List Place} {i : Import} {m : Module}
  {known : List (Place × Program)} {s : Session}

/-- A root program has one file, or none. -/
theorem rootPlaces_cases (fs : FileSystem) (source : Source) :
    rootPlaces fs source = [] ∨ ∃ place, rootPlaces fs source = [place] := by
  unfold rootPlaces
  split
  · cases (fs.canonical ⟨source.name⟩).toOption with
    | none => exact .inl rfl
    | some place => exact .inr ⟨place, rfl⟩
  · exact .inl rfl

namespace Compatible

theorem symm (h : Compatible fs libraries r r') : Compatible fs libraries r' r where
  named place file file' looked looked' := (h.named place file' file looked' looked).symm
  searched t met met' i mem := (h.searched t met' met i mem).symm

theorem oneName (h : Compatible fs libraries r r) (barred : List Place) :
    OneName (rootSetting fs libraries r) r barred :=
  fun place _ file file' looked looked' => h.named place file file' looked looked'

theorem targets_eq (h : Compatible fs libraries r r') (met : Met (rootSetting fs libraries r) r t)
    (met' : Met (rootSetting fs libraries r') r' t) (mem : i ∈ t.2.imports) :
    targets (rootSetting fs libraries r) t.2.source i =
      targets (rootSetting fs libraries r') t.2.source i := by
  rw [targets, h.searched t met met' i mem]
  rfl

/-- A file that both look at has one program. -/
theorem met (h : Compatible fs libraries r r') (met : Met (rootSetting fs libraries r) r t)
    (looked : ∃ file, Looked (rootSetting fs libraries r') r' t.1 file) :
    Met (rootSetting fs libraries r') r' t := by
  obtain ⟨file, looks, inFile⟩ := met
  obtain ⟨other, looked⟩ := looked
  exact ⟨other, looked, (h.named t.1 file other looks looked).symm.trans inFile⟩

theorem resolves (h : Compatible fs libraries r r') (met : Met (rootSetting fs libraries r) r t)
    (met' : Met (rootSetting fs libraries r') r' t)
    (able : Resolves (rootSetting fs libraries r) here t) :
    Resolves (rootSetting fs libraries r') here t := by
  induction able with
  | @intro t free pick found _ ih =>
    have found' : ∀ i ∈ t.2.imports, pick i ∈ targets (rootSetting fs libraries r') t.2.source i := by
      intro i mem
      rw [← h.targets_eq met met' mem]
      exact found i mem
    refine .intro free pick found' fun i mem => ih i mem ?_ ?_
    · exact met_of_target met.reached mem (found i mem)
    · exact met_of_target met'.reached mem (found' i mem)

theorem leads (h : Compatible fs libraries r r') (met : Met (rootSetting fs libraries r) r t)
    (met' : Met (rootSetting fs libraries r') r' t)
    (path : ReflTransGen (Leads (rootSetting fs libraries r)) t u) :
    ReflTransGen (Leads (rootSetting fs libraries r')) t u := by
  have both : ReflTransGen (Leads (rootSetting fs libraries r')) t u ∧
      Met (rootSetting fs libraries r) r u ∧ Met (rootSetting fs libraries r') r' u := by
    induction path with
    | refl => exact ⟨.refl, met, met'⟩
    | tail _ last ih =>
      obtain ⟨path', met, met'⟩ := ih
      obtain ⟨i, mem, found⟩ := last
      have last' : Leads (rootSetting fs libraries r') _ _ :=
        ⟨i, mem, (h.targets_eq met met' mem).subst found⟩
      exact ⟨path'.tail last', met.leads ⟨i, mem, found⟩, met'.leads last'⟩
  exact both.1

/-- An import of a program that both reach settles on the same for both. -/
theorem picked (h : Compatible fs libraries r r') (met : Met (rootSetting fs libraries r) r t)
    (met' : Met (rootSetting fs libraries r') r' t) (mem : i ∈ t.2.imports)
    (picked : Picked (rootSetting fs libraries r) [] here t.2.source i m) :
    Picked (rootSetting fs libraries r') [] here t.2.source i m := by
  have same := h.targets_eq met met' mem
  have below : ∀ u ∈ targets (rootSetting fs libraries r) t.2.source i,
      Met (rootSetting fs libraries r) r u ∧ Met (rootSetting fs libraries r') r' u := by
    intro u found
    have found' := found
    rw [same] at found'
    exact ⟨met_of_target met.reached mem found, met_of_target met'.reached mem found'⟩
  obtain ⟨there, there'⟩ := below _ picked.mem
  obtain ⟨before, after, split, skipped⟩ := picked.first
  refine ⟨picked.module, h.resolves there there' picked.resolves, before, after,
    same.symm.trans split, fun u passed able => ?_⟩
  have found : u ∈ targets (rootSetting fs libraries r) t.2.source i := by
    rw [split]
    exact List.mem_append_left _ passed
  obtain ⟨front, front'⟩ := below u found
  obtain ⟨home, mem_home, q, path⟩ := skipped u passed (h.symm.resolves front' front able)
  exact ⟨home, mem_home, q, h.leads front front' path⟩

/-- What has come about for one root program might as well have for the other one, if its file is
looked at. -/
theorem accounted (h : Compatible fs libraries r r')
    (entry : Accounted (rootSetting fs libraries r) r [] place p)
    (looked : ∃ file, Looked (rootSetting fs libraries r') r' place file) :
    Accounted (rootSetting fs libraries r') r' [] place p := by
  have met' := h.met entry.met looked
  have both := (List.forall₂_and_left _ _).mpr ⟨fun _ mem => mem, entry.modules⟩
  refine ⟨met', h.resolves entry.met met' entry.resolves, both.imp ?_⟩
  rintro i m ⟨mem, picked⟩
  rw [← p.unresolved_imports] at mem
  rw [← p.unresolved_source] at picked ⊢
  have chosen := h.picked entry.met met' mem picked
  exact chosen

end Compatible

/-- Root programs are compatible if one list of spots, with each place once, has all that either may
import, and the programs on the list import from the libraries only. -/
theorem Encloses.compatible {table : List Spot} (h : Encloses (rootSetting fs libraries r) r table)
    (h' : Encloses (rootSetting fs libraries r') r' table) (once : (table.map (·.1)).Nodup)
    (absolute : ∀ entry ∈ table, ∀ p ∈ entry.2, ∀ i ∈ p.imports, i.relative = false) :
    Compatible fs libraries r r' where
  named _ _ _ looked looked' :=
    (Prod.mk.inj (List.inj_on_of_nodup_map once (h.looked looked) (h'.looked looked') rfl)).2
  searched t met _ i mem := by
    have library := absolute _ (h.met met) t.2 rfl i mem
    simp [candidates, library, rootSetting]

namespace Shared

theorem nil : Shared fs libraries roots [] :=
  nofun

theorem cons (shared : Shared fs libraries roots known) (mem : r ∈ roots)
    (entry : Accounted (rootSetting fs libraries r) r [] place p) :
    Shared fs libraries roots ((place, p) :: known) := by
  intro there q found
  by_cases same : there = place
  · subst same
    rw [List.lookup_cons_self] at found
    cases found
    exact ⟨r, mem, entry⟩
  · rw [lookup_cons_of_ne same] at found
    exact shared there q found

theorem sound (sharing : Sharing fs libraries roots) (mem : r ∈ roots)
    (shared : Shared fs libraries roots known) :
    Sound (rootSetting fs libraries r) r [] known := by
  intro place p found looked
  obtain ⟨r', mem', entry⟩ := shared place p found
  exact (sharing.compatible r' mem' r mem).accounted entry looked

end Shared

namespace Sharing

/-- What is busy when a root program is resolved is that program. -/
theorem stacked (sharing : Sharing fs libraries roots) (mem : r ∈ roots) :
    Stacked (rootSetting fs libraries r) r [] (rootPlaces fs r.source) (rootPlaces fs r.source) r where
  always_busy _ nowhere := nomatch nowhere
  leads place busy _ := ⟨r.unresolved, fun q met => sharing.rooted r mem place busy q met, place, busy, .refl⟩

/-- What can be resolved at all can be resolved without the file of the root program. -/
theorem inward (sharing : Sharing fs libraries roots) (mem : r ∈ roots)
    (supplied : Supplied (rootSetting fs libraries r) [] r) :
    Supplied (rootSetting fs libraries r) (rootPlaces fs r.source) r := by
  obtain nowhere | ⟨place, here⟩ := rootPlaces_cases fs r.source
  · rwa [nowhere]
  rw [here]
  by_contra short
  simp only [Supplied, not_forall] at short
  obtain ⟨i, mem_i, none⟩ := short
  obtain ⟨t, found, able⟩ := supplied i mem_i
  have unique : ∀ q, Met (rootSetting fs libraries r) r (place, q) → q = r.unresolved :=
    sharing.rooted r mem place (by simp [here])
  have met := met_of_target .root mem_i found
  have same : t.1 = place → t.2 = r.unresolved := by
    rintro rfl
    exact unique t.2 met
  obtain free | all := able.cut unique met.reached same
  · exact none ⟨t, found, free⟩
  · exact none (all i mem_i)

/-- One more root program leaves a session that is shared. -/
theorem next (sharing : Sharing fs libraries roots) (mem : r ∈ roots)
    (libs : s.libraries = libraries) (shared : Shared fs libraries roots s.known) :
    (s.next (fs, r)).libraries = libraries ∧ Shared fs libraries roots (s.next (fs, r)).known := by
  have ends := decides_resolveAll ((sharing.compatible r mem r mem).oneName [])
    (fun _ => Shared.sound sharing mem) (fun _ _ _ shared => shared.cons mem) (sharing.stacked mem)
    s libs shared
  unfold Runs at ends
  unfold Session.next
  dsimp only
  cases run : resolveAll fs r s with
  | ok p s' =>
    rw [run] at ends
    exact ⟨ends.1, ends.2.1⟩
  | error d s' =>
    rw [run] at ends
    exact ⟨ends.1, ends.2.1⟩

theorem after (sharing : Sharing fs libraries roots) (earlier : List Program)
    (sub : ∀ r ∈ earlier, r ∈ roots) :
    (Session.after libraries (earlier.map (fs, ·))).libraries = libraries ∧
      Shared fs libraries roots (Session.after libraries (earlier.map (fs, ·))).known := by
  have start : (Session.start libraries).libraries = libraries ∧
      Shared fs libraries roots (Session.start libraries).known := ⟨rfl, .nil⟩
  unfold Session.after
  generalize Session.start libraries = s at start
  induction earlier generalizing s with
  | nil => exact start
  | cons r earlier ih =>
    obtain ⟨mem, sub⟩ := List.forall_mem_cons.mp sub
    exact ih sub _ (sharing.next mem start.1 start.2)

/-- A root program can be resolved or not, whatever else has been before. -/
theorem ok_iff (sharing : Sharing fs libraries roots) (mem : r ∈ roots)
    (libs : s.libraries = libraries) (shared : Shared fs libraries roots s.known) :
    (∃ p s', resolveAll fs r s = .ok p s') ↔
      Supplied (rootSetting fs libraries r) (rootPlaces fs r.source) r :=
  resolveAll_ok_iff ((sharing.compatible r mem r mem).oneName [])
    (fun _ => Shared.sound sharing mem) (fun _ _ _ shared => shared.cons mem) (sharing.stacked mem)
    libs shared (sharing.inward mem)

/-- The imports of a root program need not make a detour if those of the program in its file need
not. -/
theorem direct (sharing : Sharing fs libraries roots) (mem : r ∈ roots)
    (straight : Straight (rootSetting fs libraries r) r []) (mem_i : i ∈ r.imports) :
    ¬ Detour (rootSetting fs libraries r) [] (rootPlaces fs r.source) r.source i := by
  rintro ⟨before, t, after, split, able, u, passed, able', place, here, p, path⟩
  have found : u ∈ targets (rootSetting fs libraries r) r.source i := by
    rw [split]
    exact List.mem_append_left _ passed
  have met := (met_of_target .root mem_i found).leads_all path
  obtain rfl := sharing.rooted r mem place here p met
  exact straight place _ met i mem_i
    ⟨before, t, after, split, able, u, passed, able', place, List.mem_singleton_self _, _, path⟩

end Sharing

theorem rootSetting_fileG :
    rootSetting shelves [⟨"/k"⟩, ⟨"/l"⟩] fileG = shelving (some ⟨"/k"⟩) := by
  have project : projectOf shelves fileG.source = some ⟨"/k"⟩ := by decide
  rw [rootSetting, project]
  rfl

theorem rootPlaces_fileG : rootPlaces shelves fileG.source = [["k", "g.dcs"]] := by cbv

theorem exploreRoot_fileG : exploreRoot shelves [⟨"/k"⟩, ⟨"/l"⟩] fileG =
    exploreProgram (shelving (some ⟨"/k"⟩))
      (exploreBelow (shelving (some ⟨"/k"⟩)) 9 [["k", "g.dcs"]]) [["k", "g.dcs"]] fileG := by
  rw [exploreRoot, rootSetting_fileG, rootPlaces_fileG]
  rfl

/-- A program that imports a file of the first library. -/
def reader : Program := memo "import g.a" [importLine 0 1 10 false ["g"]]

theorem encloses_shelves : ∀ r ∈ [reader, fileG],
    Encloses (rootSetting shelves [⟨"/k"⟩, ⟨"/l"⟩] r) r
      [(["k", "g.dcs"], some fileG), (["l", "y.dcs"], some (defining "/l/y.dcs"))] := by
  have setting : rootSetting shelves [⟨"/k"⟩, ⟨"/l"⟩] reader = shelving (some ⟨"/"⟩) := rfl
  intro r mem
  obtain rfl | rfl : r = reader ∨ r = fileG := by simpa using mem
  · rw [setting]
    constructor
    · simp [reader, spots_memo]
    · simp [spots_shelved]
  · rw [rootSetting_fileG]
    constructor
    · simp [spots_shelved]
    · simp [spots_shelved]

/-- The file and its reader can share a session. -/
theorem sharing_shelves : Sharing shelves [⟨"/k"⟩, ⟨"/l"⟩] [reader, fileG] := by
  constructor
  · intro r mem r' mem'
    apply (encloses_shelves r mem).compatible (encloses_shelves r' mem') (by simp)
    simp [importLine]
  · intro r mem place own p met
    have listed := (encloses_shelves r mem).met met
    obtain rfl | rfl : r = reader ∨ r = fileG := by simpa using mem
    · cases own
    · rw [rootPlaces_fileG] at own
      obtain rfl : place = ["k", "g.dcs"] := by simpa using own
      have plain : fileG.unresolved = fileG := rfl
      rw [plain]
      simpa using listed

/-- A session may be shared by root programs that are compatible, with the files of the roots
holding no other programs: each of them can be resolved in it if and only if it can be in a fresh
session. If besides no import may have to make a detour, it gets the same modules, with the same
programs below them. -/
theorem sharing_changes_nothing (fs : FileSystem) (libraries : List Path) (roots : List Program)
    (sharing : Sharing fs libraries roots) (earlier later : List Program) (root : Program)
    (split : roots = earlier ++ root :: later) :
    let s := Session.after libraries (earlier.map (fs, ·))
    ((∃ p s', resolveAll fs root s = .ok p s') ↔
      ∃ p s', resolveAll fs root (.start libraries) = .ok p s') ∧
    (Straight (rootSetting fs libraries root) root [] → ∀ p s' q s'',
      resolveAll fs root s = .ok p s' → resolveAll fs root (.start libraries) = .ok q s'' →
      p = q) := by
  intro s
  have mem : root ∈ roots := by simp [split]
  have sub : ∀ r ∈ earlier, r ∈ roots := fun r mem => by simp [split, mem]
  obtain ⟨libs, shared⟩ := sharing.after earlier sub
  constructor
  · rw [sharing.ok_iff mem libs shared, sharing.ok_iff mem rfl .nil]
  · intro straight p s' q s'' run run'
    have one := (sharing.compatible root mem root mem).oneName []
    obtain ⟨idle, layered⟩ := Session.layered_after libraries (earlier.map (fs, ·))
    obtain ⟨new, rfl, picked, traced⟩ := traced_of_resolveAll one
      (fun _ => Shared.sound sharing mem) (fun _ _ _ shared => shared.cons mem)
      (sharing.stacked mem) libs idle layered shared run
    obtain ⟨new', rfl, picked', traced'⟩ := traced_of_resolveAll one
      (fun _ => Shared.sound sharing mem) (fun _ _ _ shared => shared.cons mem)
      (sharing.stacked mem) rfl rfl .nil .nil run'
    have same : new = new' := by
      apply eq_of_forall₂ picked picked'
      intro i mem_i m mem_m m' mem_m' chosen chosen'
      have reached : Reached (rootSetting fs libraries root) root root.unresolved := .root
      exact chosen.unique one straight reached mem_i (sharing.direct mem straight mem_i)
        (traced m mem_m) chosen' (traced' m' mem_m')
    rw [same]

/-- A file of the first library, after a program that imports it. -/
theorem sharing_changes_nothing_shelves :
    let libraries : List Path := [⟨"/k"⟩, ⟨"/l"⟩]
    Sharing shelves libraries [reader, fileG] ∧
      ∃ p s s', resolveAll shelves fileG (Session.after libraries [(shelves, reader)]) = .ok p s ∧
        resolveAll shelves fileG (.start libraries) = .ok p s' := by
  intro libraries
  have straight : Straight (rootSetting shelves libraries fileG) fileG [] := by
    apply (encloses_shelves fileG (by simp)).straight
    rw [rootSetting_fileG]
    simp [spots_shelved]
  obtain ⟨both, same⟩ :=
    sharing_changes_nothing shelves libraries [reader, fileG] sharing_shelves [reader] [] fileG rfl
  have found : ∃ p s, resolveAll shelves fileG (.start libraries) = .ok p s := by
    have libs : (Session.start libraries).libraries = libraries := rfl
    apply (ok_iff_explore libs).mpr
    rw [exploreRoot_fileG]
    simp [-StateT.run_pure, enterBy, spots_shelved, Session.start, List.lookup]
  obtain ⟨p, s', fresh⟩ := found
  obtain ⟨q, s, shared⟩ := both.mpr ⟨p, s', fresh⟩
  obtain rfl := same straight q s p s' shared fresh
  exact ⟨sharing_shelves, q, s, s', shared, fresh⟩

/-- A project and a directory in it, where a file looks for `b` at the root of the project. -/
def house : FileSystem where
  entries := [(["h"], .directory), (["h", "b.dcs"], .file (Utf8.ofString "type a b")),
    (["h", "s"], .directory), (["h", "s", "a.dcs"], .file (Utf8.ofString "import .b.a")),
    (["h", "s", "m.dcs"], .file (Utf8.ofString "import .a.a"))]
  current := ⟨"/h"⟩

/-- A project in the house, without libraries. -/
def housing (project : Path) : Setting := ⟨house, [], some project⟩

/-- A root program of the inner project. -/
def fileM : Program := importing "/h/s/m.dcs" "import .a.a" true ["a"]

@[simp] theorem imports_fileM : fileM.imports = [importLine 0 1 11 true ["a"]] := rfl

theorem stored_house : Stored house "/h/s/a.dcs" ["h", "s", "a.dcs"] (fileA "/h/s/a.dcs") :=
  stored_of_locate rfl (by decide) (by cbv) (parse_importing_b _)

theorem stored_house_b : Stored house "/h/b.dcs" ["h", "b.dcs"] (defining "/h/b.dcs") :=
  stored_of_locate rfl (by decide) (by cbv) (parse_defining _)

variable {code : String} {imports : List Import} {offset line length : Nat}

/-- Where the import of a program that is no file may be found in the house. -/
theorem spots_house :
    spots (housing ⟨"/h"⟩) (memo code imports).source
        (importLine offset line length true ["s", "a"]) =
      [(["h", "s", "a.dcs"], some (fileA "/h/s/a.dcs"))] := by
  have path : candidate ⟨"/h"⟩ ["s", "a"] = ⟨"/h/s/a.dcs"⟩ := by decide
  have start : relativeRoot? (housing ⟨"/h"⟩) (memo code imports).source = some ⟨"/h"⟩ := rfl
  rw [spots_relative start, path]
  exact congrArg Option.toList (stored_house.spot?_memo rfl)

/-- From the outer project, `b` is there. -/
theorem spots_outer :
    spots (housing ⟨"/h"⟩) (fileA "/h/s/a.dcs").source (importLine offset line length true ["b"]) =
      [(["h", "b.dcs"], some (defining "/h/b.dcs"))] := by
  have path : candidate ⟨"/h"⟩ ["b"] = ⟨"/h/b.dcs"⟩ := by decide
  have start : relativeRoot? (housing ⟨"/h"⟩) (fileA "/h/s/a.dcs").source = some ⟨"/h"⟩ := by
    decide
  have found : spot? house (fileA "/h/s/a.dcs").source _ = _ :=
    stored_house_b.spot?_file stored_house.canonical (by decide) rfl
  rw [spots_relative start, path]
  exact congrArg Option.toList found

/-- From the inner project, `b` is missing. -/
theorem spots_inner :
    spots (housing ⟨"/h/s"⟩) fileM.source (importLine offset line length true ["a"]) =
        [(["h", "s", "a.dcs"], some (fileA "/h/s/a.dcs"))] ∧
      spots (housing ⟨"/h/s"⟩) (fileA "/h/s/a.dcs").source
        (importLine offset line length true ["b"]) = [] := by
  have paths : candidate ⟨"/h/s"⟩ ["a"] = ⟨"/h/s/a.dcs"⟩ ∧
      candidate ⟨"/h/s"⟩ ["b"] = ⟨"/h/s/b.dcs"⟩ := by
    decide
  have start : relativeRoot? (housing ⟨"/h/s"⟩) fileM.source = some ⟨"/h/s"⟩ := by decide
  have start_a : relativeRoot? (housing ⟨"/h/s"⟩) (fileA "/h/s/a.dcs").source = some ⟨"/h/s"⟩ := by
    decide
  have own : house.canonical ⟨"/h/s/m.dcs"⟩ = .ok ["h", "s", "m.dcs"] := by cbv
  have found : spot? house fileM.source _ = _ := stored_house.spot?_file own (by decide) rfl
  have missing : house.locate ⟨"/h/s/b.dcs"⟩ = .error .notFound := by cbv
  rw [spots_relative start, spots_relative start_a, paths.1, paths.2]
  exact ⟨congrArg Option.toList found, congrArg Option.toList (spot?_of_missing missing)⟩

theorem exploreRoot_outer : exploreRoot house [] (memo code imports) = exploreProgram
    (housing ⟨"/h"⟩) (exploreBelow (housing ⟨"/h"⟩) 6 []) [] (memo code imports) := rfl

theorem exploreRoot_inner : exploreRoot house [] fileM = exploreProgram (housing ⟨"/h/s"⟩)
    (exploreBelow (housing ⟨"/h/s"⟩) 6 [["h", "s", "m.dcs"]]) [["h", "s", "m.dcs"]] fileM := by
  have project : projectOf house fileM.source = some ⟨"/h/s"⟩ := by decide
  have own : rootPlaces house fileM.source = [["h", "s", "m.dcs"]] := by cbv
  rw [exploreRoot, rootSetting, project, own]
  rfl

/-- What a session knows after one root program is what the search for it makes known. -/
theorem after_single (fs : FileSystem) (libraries : List Path) (root : Program) :
    (Session.after libraries [(fs, root)]).libraries = libraries ∧
      (Session.after libraries [(fs, root)]).known =
        ((exploreRoot fs libraries root).run []).2 :=
  known_next rfl

/-- A program of the outer project. -/
def outer : Program := memo "import .s.a.a" [importLine 0 1 13 true ["s", "a"]]

/-- The inner project only gets its `a` if that has been resolved for the outer one. -/
theorem project_matters :
    (∃ p s, resolveAll house fileM (Session.after [] [(house, outer)]) = .ok p s) ∧
      ¬ ∃ p s, resolveAll house fileM (.start []) = .ok p s := by
  constructor
  · obtain ⟨libs, known⟩ := after_single house [] outer
    rw [ok_iff_explore libs, known, outer, exploreRoot_outer, exploreRoot_inner]
    simp [-StateT.run_pure, enterBy, spots_house, spots_outer, spots_inner, List.lookup]
  · have libs : (Session.start []).libraries = [] := rfl
    rw [ok_iff_explore libs, exploreRoot_inner]
    simp [-StateT.run_pure, enterBy, spots_inner, Session.start, List.lookup]

/-- A program that imports the linked file of the desk by its name in the project, and one that does
so by its name in the library. -/
def byLink : Program := memo "import .a.a" [importLine 0 1 11 true ["a"]]

def byLibrary : Program := memo "import q.a.a" [importLine 0 1 12 false ["q", "a"]]

/-- The linked file is only there for the library if it has been resolved under its other name. -/
theorem name_matters :
    (∃ p s, resolveAll desk byLibrary (Session.after [⟨"/l"⟩] [(desk, byLink)]) = .ok p s) ∧
      ¬ ∃ p s, resolveAll desk byLibrary (.start [⟨"/l"⟩]) = .ok p s := by
  constructor
  · obtain ⟨libs, known⟩ := after_single desk [⟨"/l"⟩] byLink
    rw [ok_iff_explore libs, known, byLink, byLibrary, exploreRoot_desk, exploreRoot_desk]
    simp [-StateT.run_pure, enterBy, spots_desk, spots_linked, List.lookup]
  · have libs : (Session.start [⟨"/l"⟩]).libraries = [⟨"/l"⟩] := rfl
    rw [ok_iff_explore libs, byLibrary, exploreRoot_desk]
    simp [-StateT.run_pure, enterBy, spots_desk, spots_linked, Session.start, List.lookup]

/-- Programs that import one of the two files that import each other. -/
def towardsF : Program := memo "import f.a" [importLine 0 1 10 false ["f"]]

def towardsX : Program := memo "import x.a" [importLine 0 1 10 false ["x"]]

/-- A detour that was made for an earlier root program stays. -/
theorem detour_matters :
    let libraries : List Path := [⟨"/k"⟩, ⟨"/l"⟩]
    ∃ p s p' s',
      resolveAll shelves towardsX (Session.after libraries [(shelves, towardsF)]) = .ok p s ∧
        resolveAll shelves towardsX (.start libraries) = .ok p' s' ∧
        outline p = [("/k/x.dcs", ["/l/f.dcs"])] ∧ outline p' = [("/k/x.dcs", ["/k/f.dcs"])] := by
  intro libraries
  obtain ⟨libs, known⟩ := after_single shelves libraries towardsF
  have shared : ∃ p, ((exploreRoot shelves libraries towardsX).run
      ((exploreRoot shelves libraries towardsF).run []).2).1 = some p ∧
      outline p = [("/k/x.dcs", ["/l/f.dcs"])] := by
    rw [towardsX, towardsF, exploreRoot_shelves, exploreRoot_shelves]
    simp [-StateT.run_pure, enterBy, spots_memo, spots_shelved, List.lookup, outline]
  have fresh : ∃ p, ((exploreRoot shelves libraries towardsX).run []).1 = some p ∧
      outline p = [("/k/x.dcs", ["/k/f.dcs"])] := by
    rw [towardsX, exploreRoot_shelves]
    simp [-StateT.run_pure, enterBy, spots_memo, spots_shelved, List.lookup, outline]
  rw [← known] at shared
  obtain ⟨p, explored, files⟩ := shared
  obtain ⟨p', explored', files'⟩ := fresh
  obtain ⟨s, run⟩ := ok_of_explore libs explored
  have start : (Session.start libraries).libraries = libraries := rfl
  obtain ⟨s', run'⟩ := ok_of_explore start explored'
  exact ⟨p, s, p', s', run, run', files, files'⟩

/-- Sharing a session may matter where a file is reached from two projects, where a file is reached
under two names, and where an import makes a detour. -/
theorem sharing_may_matter :
    let libraries : List Path := [⟨"/k"⟩, ⟨"/l"⟩]
    ((∃ p s, resolveAll house fileM (Session.after [] [(house, outer)]) = .ok p s) ∧
      ¬ ∃ p s, resolveAll house fileM (.start []) = .ok p s) ∧
    ((∃ p s, resolveAll desk byLibrary (Session.after [⟨"/l"⟩] [(desk, byLink)]) = .ok p s) ∧
      ¬ ∃ p s, resolveAll desk byLibrary (.start [⟨"/l"⟩]) = .ok p s) ∧
    ∃ p s p' s',
      resolveAll shelves towardsX (Session.after libraries [(shelves, towardsF)]) = .ok p s ∧
        resolveAll shelves towardsX (.start libraries) = .ok p' s' ∧ outline p ≠ outline p' := by
  intro libraries
  refine ⟨project_matters, name_matters, ?_⟩
  obtain ⟨p, s, p', s', run, run', files, files'⟩ := detour_matters
  refine ⟨p, s, p', s', run, run', ?_⟩
  rw [files, files']
  decide

end Frontend.Importing
