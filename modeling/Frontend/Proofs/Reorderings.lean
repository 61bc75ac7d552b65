import Mathlib.Data.List.Perm.Basic
import Frontend.Proofs.Searches

/-!
The order of imports. A root program may have its imports in another order: whether they can all be
resolved is the same then, as long as no file is reached under two names. Each import gets the same
module, with all that its program imports, as long as none may have to make a detour.
-/
namespace Frontend

/-- An import without the place where it stands. -/
def Import.bare (i : Import) : Import := { i with span := default }

/-- The imports of a program, wherever they stand, each with its module. -/
def Program.resolved (p : Program) : List (Import × Module) :=
  (p.imports.map Import.bare).zip p.modules

/-- A program and one with the same imports in another order, before they are resolved. -/
structure Reordered (root root' : Program) : Prop where
  name : root'.source.name = root.source.name
  onDisk : root'.source.onDisk = root.source.onDisk
  imports : (root'.imports.map Import.bare).Perm (root.imports.map Import.bare)
  fresh : root.modules = []
  fresh' : root'.modules = []

namespace Importing

variable {setting : Setting} {root root' : Program} {barred here : List Place} {place : Place}
  {i j : Import} {m : Module} {importer importer' : Source} {file : Path} {fs : FileSystem}
  {libraries : List Path}

/-- Where an import is looked for depends on what it asks for, and on the name of the importer. -/
theorem candidates_congr (name : importer'.name = importer.name)
    (onDisk : importer'.onDisk = importer.onDisk) (same : i.bare = j.bare) :
    candidates setting importer' i = candidates setting importer j := by
  have starts : relativeRoot? setting importer' = relativeRoot? setting importer := by
    simp only [relativeRoot?, home, Source.directory?, name, onDisk]
  calc candidates setting importer' i
    _ = candidates setting importer' i.bare := rfl
    _ = candidates setting importer' j.bare := by rw [same]
    _ = candidates setting importer j.bare := by rw [candidates, starts]; rfl

theorem other?_congr (name : importer'.name = importer.name)
    (onDisk : importer'.onDisk = importer.onDisk) :
    other? fs importer' file = other? fs importer file := by
  simp only [other?, name, onDisk]

theorem targets_congr (name : importer'.name = importer.name)
    (onDisk : importer'.onDisk = importer.onDisk) (same : i.bare = j.bare) :
    targets setting importer' i = targets setting importer j := by
  have finds : target? setting.fs importer' = target? setting.fs importer := by
    funext file
    rw [target?, other?_congr name onDisk]
    rfl
  rw [targets, candidates_congr name onDisk same, finds]
  rfl

/-- The module of an import depends on what it asks for. -/
theorem Picked.congr (name : importer'.name = importer.name)
    (onDisk : importer'.onDisk = importer.onDisk) (same : i.bare = j.bare)
    (h : Picked setting barred here importer' i m) : Picked setting barred here importer j m := by
  have module : moduleOf i m.place m.program = moduleOf j m.place m.program :=
    calc moduleOf i m.place m.program
      _ = moduleOf i.bare m.place m.program := rfl
      _ = moduleOf j.bare m.place m.program := by rw [same]
  obtain ⟨module', resolves, first⟩ := h
  rw [targets_congr name onDisk same] at first
  exact ⟨module'.trans module, resolves, first⟩

/-- No target leads back to an importer that is nowhere. -/
theorem not_detour_nil : ¬ Detour setting barred [] importer i := by
  rintro ⟨_, _, _, _, _, _, _, _, _, nowhere, _⟩
  cases nowhere

/-- While its own file is barred, nothing else is busy when a root program is resolved. -/
theorem stacked_rootPlaces :
    Stacked (rootSetting fs libraries root) root (rootPlaces fs root.source)
      (rootPlaces fs root.source) [] root where
  always_busy _ mem := mem
  leads _ mem free := absurd mem free

theorem sound_nil : Sound setting root barred [] :=
  nofun

end Importing

namespace Reordered

open Importing

variable {setting : Setting} {root root' p : Program} {barred : List Place} {place : Place}
  {i : Import} {known : List (Place × Program)} {file : Path}

theorem symm (h : Reordered root root') : Reordered root' root :=
  ⟨h.name.symm, h.onDisk.symm, h.imports.symm, h.fresh', h.fresh⟩

theorem rootSetting_eq (h : Reordered root root') (fs : FileSystem) (libraries : List Path) :
    rootSetting fs libraries root' = rootSetting fs libraries root := by
  simp only [rootSetting, projectOf, Source.directory?, h.name, h.onDisk]

theorem rootPlaces_eq (h : Reordered root root') (fs : FileSystem) :
    rootPlaces fs root'.source = rootPlaces fs root.source := by
  simp only [rootPlaces, h.name, h.onDisk]

/-- Each import has a counterpart, which asks for the same. -/
theorem counterpart (h : Reordered root root') (mem : i ∈ root'.imports) :
    ∃ j ∈ root.imports, i.bare = j.bare := by
  obtain ⟨j, mem', same⟩ := List.mem_map.mp (h.imports.mem_iff.mp (List.mem_map_of_mem mem))
  exact ⟨j, mem', same.symm⟩

theorem reached (h : Reordered root root') (reached : Reached setting root' p) :
    p = root'.unresolved ∨ Reached setting root p := by
  induction reached with
  | root => exact .inl rfl
  | importing _ mem found ih =>
    obtain rfl | reached := ih
    · obtain ⟨j, mem', same⟩ := h.counterpart mem
      refine .inr (.importing .root mem' ?_)
      exact (targets_congr h.name h.onDisk same).subst found
    · exact .inr (.importing reached mem found)

/-- The same files are looked at. -/
theorem looked (h : Reordered root root') (looked : Looked setting root' place file) :
    Looked setting root place file := by
  obtain ⟨p, reached, i, mem, candidate, other⟩ := looked
  obtain rfl | reached := h.reached reached
  · obtain ⟨j, mem', same⟩ := h.counterpart mem
    refine ⟨_, .root, j, mem', ?_, ?_⟩
    · exact (candidates_congr h.name h.onDisk same).subst candidate
    · exact (other?_congr h.name h.onDisk).symm.trans other
  · exact ⟨p, reached, i, mem, candidate, other⟩

theorem oneName (h : Reordered root root') (one : OneName setting root barred) :
    OneName setting root' barred :=
  fun place free file file' looked looked' =>
    one place free file file' (h.looked looked) (h.looked looked')

/-- What is known is accounted for in the same way. -/
theorem sound (h : Reordered root root') (sound : Sound setting root' barred known) :
    Sound setting root barred known := by
  intro place p found looked
  obtain ⟨file, looked⟩ := looked
  have entry := sound place p found ⟨file, h.symm.looked looked⟩
  obtain ⟨file', looked', inFile⟩ := entry.met
  exact { entry with met := ⟨file', h.looked looked', inFile⟩ }

theorem supplied (h : Reordered root root') (supplied : Supplied setting barred root) :
    Supplied setting barred root' := by
  intro i mem
  obtain ⟨j, mem', same⟩ := h.counterpart mem
  rw [targets_congr h.name h.onDisk same]
  exact supplied j mem'

end Reordered

namespace Importing

/-- What an import of a root program settles on, wherever the import stands. -/
def Meant (setting : Setting) (root : Program) (barred : List Place) (asked : Import) (m : Module) :
    Prop :=
  Traced setting root barred m ∧
    ∃ i ∈ root.imports, i.bare = asked ∧ Picked setting barred [] root.source i m

variable {fs : FileSystem} {libraries : List Path} {setting : Setting} {root root' p : Program}
  {barred : List Place} {s : Session} {asked : Import} {m m' : Module}

/-- What is related to the elements of a list, together with them. -/
theorem forall₂_zip {α β : Type} {rel : α → β → Prop} {as : List α} {bs : List β}
    (h : List.Forall₂ rel as bs) :
    List.Forall₂ (fun a ab => ab.1 = a ∧ rel a ab.2) as (as.zip bs) := by
  induction h with
  | nil => exact .nil
  | cons head _ ih => exact .cons ⟨rfl, head⟩ ih

theorem Meant.unique (one : OneName setting root barred) (straight : Straight setting root barred)
    (h : Meant setting root barred asked m) (h' : Meant setting root barred asked m') : m = m' := by
  obtain ⟨traced, i, mem, rfl, picked⟩ := h
  obtain ⟨traced', i', _, same, picked'⟩ := h'
  have reached : Reached setting root root.unresolved := .root
  exact picked.unique one straight reached mem not_detour_nil traced (picked'.congr rfl rfl same)
    traced'

/-- A fresh session resolves a root program if its imports can be resolved without its own file. -/
theorem start_ok_iff
    (one : OneName (rootSetting fs libraries root) root (rootPlaces fs root.source)) :
    (∃ p s, resolveAll fs root (.start libraries) = .ok p s) ↔
      Supplied (rootSetting fs libraries root) (rootPlaces fs root.source) root :=
  resolveAll_ok_iff one (fun _ sound => sound) (fun _ _ _ => Sound.cons) stacked_rootPlaces rfl
    sound_nil id

/-- A fresh session resolves the imports of a root program to what they settle on. -/
theorem meant_of_start
    (one : OneName (rootSetting fs libraries root) root (rootPlaces fs root.source))
    (run : resolveAll fs root (.start libraries) = .ok p s) :
    ∃ new, p = { root with modules := root.modules ++ new } ∧ List.Forall₂
      (Meant (rootSetting fs libraries root) root (rootPlaces fs root.source))
      (root.imports.map Import.bare) new := by
  obtain ⟨new, rfl, picked, traced⟩ := traced_of_resolveAll one (fun _ sound => sound)
    (fun _ _ _ => Sound.cons) stacked_rootPlaces rfl rfl .nil sound_nil run
  refine ⟨new, rfl, List.forall₂_map_left_iff.mpr ?_⟩
  apply (List.forall₂_iff_zip.mpr ⟨picked.length_eq, ?_⟩)
  intro i m mem
  obtain ⟨mem_i, mem_m⟩ := List.of_mem_zip mem
  exact ⟨traced m mem_m, i, mem_i, rfl, List.forall₂_zip picked mem⟩

/-- In another order, imports are meant to lead to the same. -/
theorem Meant.reordered (h : Reordered root root') (meant : Meant setting root' barred asked m) :
    Meant setting root barred asked m := by
  obtain ⟨⟨known, sound, layered, found⟩, i, mem, rfl, picked⟩ := meant
  obtain ⟨j, mem', same⟩ := h.counterpart mem
  exact ⟨⟨known, h.sound sound, layered, found⟩, j, mem', same.symm,
    picked.congr h.name h.onDisk same⟩

/-- Both root programs can be resolved, or neither. -/
def BothOrNeither (fs : FileSystem) (libraries : List Path) (root root' : Program) : Prop :=
  (∃ p s, resolveAll fs root (.start libraries) = .ok p s) ↔
    ∃ p s, resolveAll fs root' (.start libraries) = .ok p s

/-- If both root programs can be resolved, each import has the same module in both, with the same
programs below it. -/
def SameModules (fs : FileSystem) (libraries : List Path) (root root' : Program) : Prop :=
  ∀ p s p' s', resolveAll fs root (.start libraries) = .ok p s →
    resolveAll fs root' (.start libraries) = .ok p' s' →
    p'.modules.Perm p.modules ∧ p'.resolved.Perm p.resolved

theorem reordered_memo {code code' : String} {imports imports' : List Import}
    (h : (imports'.map Import.bare).Perm (imports.map Import.bare)) :
    Reordered (memo code imports) (memo code' imports') where
  name := rfl
  onDisk := rfl
  imports := by simpa using h
  fresh := rfl
  fresh' := rfl

/-- The imports of a root program may stand in any order, if no file but that of the root is reached
under two names: either all can be resolved in each of two orders, or not all in either. If besides
no import may have to make a detour, each import gets the same module in both orders. -/
theorem reordering_permutes (fs : FileSystem) (libraries : List Path) (root root' : Program)
    (h : Reordered root root')
    (one : OneName (rootSetting fs libraries root) root (rootPlaces fs root.source)) :
    BothOrNeither fs libraries root root' ∧
      (Straight (rootSetting fs libraries root) root (rootPlaces fs root.source) →
        SameModules fs libraries root root') := by
  have one' : OneName (rootSetting fs libraries root') root' (rootPlaces fs root'.source) := by
    rw [h.rootSetting_eq, h.rootPlaces_eq]
    exact h.oneName one
  constructor
  · rw [BothOrNeither, start_ok_iff one, start_ok_iff one', h.rootSetting_eq, h.rootPlaces_eq]
    exact ⟨h.supplied, h.symm.supplied⟩
  · intro straight p s p' s' run run'
    obtain ⟨new, rfl, meant⟩ := meant_of_start one run
    obtain ⟨new', rfl, meant'⟩ := meant_of_start one' run'
    rw [h.rootSetting_eq, h.rootPlaces_eq] at meant'
    replace meant' := meant'.imp fun _ _ => Meant.reordered h
    have unique : Relator.RightUnique
        (Meant (rootSetting fs libraries root) root (rootPlaces fs root.source)) :=
      fun _ _ _ => Meant.unique one straight
    have unique_pair : Relator.RightUnique fun (asked : Import) (found : Import × Module) =>
        found.1 = asked ∧
          Meant (rootSetting fs libraries root) root (rootPlaces fs root.source) asked found.2 := by
      rintro asked ⟨_, m⟩ ⟨_, m'⟩ ⟨rfl, meant⟩ ⟨same, meant'⟩
      exact Prod.ext same.symm (unique meant meant')
    simp only [Program.resolved, h.fresh, h.fresh', List.nil_append]
    constructor
    · exact List.rel_perm_imp unique meant' meant h.imports
    · exact List.rel_perm_imp unique_pair (forall₂_zip meant') (forall₂_zip meant) h.imports

/-- Imports that lead to different libraries, in two orders. -/
theorem reordering_permutes_shelves :
    let root := memo "import g.a\nimport y.a"
      [importLine 0 1 10 false ["g"], importLine 11 2 10 false ["y"]]
    let root' := memo "import y.a\nimport g.a"
      [importLine 0 1 10 false ["y"], importLine 11 2 10 false ["g"]]
    let libraries : List Path := [⟨"/k"⟩, ⟨"/l"⟩]
    Reordered root root' ∧
      ∃ p s p' s', resolveAll shelves root (.start libraries) = .ok p s ∧
        resolveAll shelves root' (.start libraries) = .ok p' s' ∧
        p'.modules.Perm p.modules ∧ p'.resolved.Perm p.resolved := by
  intro root root' libraries
  have reordered : Reordered root root' := reordered_memo (.swap _ _ [])
  have setting : rootSetting shelves libraries root = shelving (some ⟨"/"⟩) := rfl
  have places : rootPlaces shelves root.source = [] := rfl
  have encloses : Encloses (shelving (some ⟨"/"⟩)) root
      [(["k", "g.dcs"], some fileG), (["l", "y.dcs"], some (defining "/l/y.dcs"))] := by
    constructor
    · simp [root, spots_memo]
    · simp [spots_shelved]
  have straight : Straight (shelving (some ⟨"/"⟩)) root [] := by
    apply encloses.straight
    simp [spots_shelved]
  have applied := reordering_permutes shelves libraries root root' reordered
  rw [setting, places] at applied
  obtain ⟨both, same⟩ := applied (encloses.oneName (by simp))
  have found : ∃ p s, resolveAll shelves root (.start libraries) = .ok p s := by
    have libs : (Session.start libraries).libraries = libraries := rfl
    apply (ok_iff_explore libs).mpr
    rw [exploreRoot_shelves]
    simp [-StateT.run_pure, enterBy, spots_memo, spots_shelved, Session.start, List.lookup]
  obtain ⟨p, s, run⟩ := found
  obtain ⟨p', s', run'⟩ := both.mp ⟨p, s, run⟩
  exact ⟨reordered, p, s, p', s', run, run', same straight p s p' s' run run'⟩

/-- Programs that import the linked file of the desk under both of its names. -/
def linked : Program := memo "import .a.a\nimport q.a.a"
  [importLine 0 1 11 true ["a"], importLine 12 2 12 false ["q", "a"]]

def linked' : Program := memo "import q.a.a\nimport .a.a"
  [importLine 0 1 12 false ["q", "a"], importLine 13 2 11 true ["a"]]

/-- The linked file finds `b` only if its name in the project comes first. -/
theorem linked_differ : ¬ BothOrNeither desk [⟨"/l"⟩] linked linked' := by
  intro both
  have libs : (Session.start [⟨"/l"⟩]).libraries = [⟨"/l"⟩] := rfl
  rw [BothOrNeither, ok_iff_explore libs, ok_iff_explore libs, linked, linked', exploreRoot_desk,
    exploreRoot_desk] at both
  simp [-StateT.run_pure, enterBy, spots_desk, spots_linked, Session.start, List.lookup] at both

/-- Programs that import both files of the first shelf that import each other. -/
def circle : Program := memo "import f.a\nimport x.a"
  [importLine 0 1 10 false ["f"], importLine 11 2 10 false ["x"]]

def circle' : Program := memo "import x.a\nimport f.a"
  [importLine 0 1 10 false ["x"], importLine 11 2 10 false ["f"]]

/-- The file that comes second imports the other one from the second shelf. -/
theorem circle_differ :
    let libraries : List Path := [⟨"/k"⟩, ⟨"/l"⟩]
    ∃ p s p' s', resolveAll shelves circle (.start libraries) = .ok p s ∧
      resolveAll shelves circle' (.start libraries) = .ok p' s' ∧
      outline p = [("/k/f.dcs", ["/k/x.dcs"]), ("/k/x.dcs", ["/l/f.dcs"])] ∧
      outline p' = [("/k/x.dcs", ["/k/f.dcs"]), ("/k/f.dcs", ["/l/x.dcs"])] := by
  intro libraries
  have libs : (Session.start libraries).libraries = libraries := rfl
  have found : ∃ p, ((exploreRoot shelves libraries circle).run []).1 = some p ∧
      outline p = [("/k/f.dcs", ["/k/x.dcs"]), ("/k/x.dcs", ["/l/f.dcs"])] := by
    rw [circle, exploreRoot_shelves]
    simp [-StateT.run_pure, enterBy, spots_memo, spots_shelved, List.lookup, outline]
  have found' : ∃ p, ((exploreRoot shelves libraries circle').run []).1 = some p ∧
      outline p = [("/k/x.dcs", ["/k/f.dcs"]), ("/k/f.dcs", ["/l/x.dcs"])] := by
    rw [circle', exploreRoot_shelves]
    simp [-StateT.run_pure, enterBy, spots_memo, spots_shelved, List.lookup, outline]
  obtain ⟨p, explored, files⟩ := found
  obtain ⟨p', explored', files'⟩ := found'
  obtain ⟨s, run⟩ := ok_of_explore libs explored
  obtain ⟨s', run'⟩ := ok_of_explore libs explored'
  exact ⟨p, s, p', s', run, run', files, files'⟩

/-- The order may matter where a file is reached under two names, and where an import makes a
detour. -/
theorem order_may_matter :
    let libraries : List Path := [⟨"/k"⟩, ⟨"/l"⟩]
    (Reordered linked linked' ∧ ¬ BothOrNeither desk [⟨"/l"⟩] linked linked') ∧
      Reordered circle circle' ∧
      ∃ p s p' s', resolveAll shelves circle (.start libraries) = .ok p s ∧
        resolveAll shelves circle' (.start libraries) = .ok p' s' ∧
        ¬ (outline p').Perm (outline p) := by
  intro libraries
  refine ⟨⟨reordered_memo (.swap _ _ []), linked_differ⟩, reordered_memo (.swap _ _ []), ?_⟩
  obtain ⟨p, s, p', s', run, run', files, files'⟩ := circle_differ
  refine ⟨p, s, p', s', run, run', ?_⟩
  rw [files, files']
  decide

end Importing

end Frontend
