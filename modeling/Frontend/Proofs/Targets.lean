import Mathlib.Logic.Relation
import Mathlib.Tactic.Choose
import Frontend.Import.Resolve

/-!
What imports lead to, whatever has been loaded before. A target of an import is a program in one of
the files that the import may refer to. A target can be resolved while some places are barred if it
is not at one of them, and each of its imports has a target for which the same goes; so that nothing
is resolved by going around in a circle.
-/
open Relation (ReflTransGen)

namespace Frontend

namespace Program

/-- A program as it is before its imports are resolved. -/
def unresolved (p : Program) : Program := .ofDecls p.source p.decls

theorem unresolved_source (p : Program) : p.unresolved.source = p.source := rfl

theorem unresolved_imports (p : Program) : p.unresolved.imports = p.imports := rfl

/-- The program in a file that can be read and parses. -/
def inFile? (fs : FileSystem) (file : Path) : Option Program :=
  match Source.fromFile fs file with
  | .error _ => none
  | .ok source => (parse source).result.toOption.map (ofDecls source)

theorem inFile?_eq_some {fs : FileSystem} {file : Path} {p : Program} :
    inFile? fs file = some p ↔ ∃ source decls, Source.fromFile fs file = .ok source ∧
      (parse source).result = .ok decls ∧ p = ofDecls source decls := by
  unfold inFile?
  cases found : Source.fromFile fs file with
  | error e => simp
  | ok source =>
    cases parsed : (parse source).result with
    | error d => simp [parsed, Except.toOption]
    | ok decls => simp [parsed, Except.toOption, eq_comm]

/-- The imports of a program in a file are not resolved. -/
theorem unresolved_of_inFile? {fs : FileSystem} {file : Path} {p : Program}
    (found : inFile? fs file = some p) : p.unresolved = p := by
  obtain ⟨source, decls, _, _, rfl⟩ := inFile?_eq_some.mp found
  rfl

end Program

namespace Importing

/-- What the resolution of a root program depends on. -/
def rootSetting (fs : FileSystem) (libraries : List Path) (root : Program) : Setting :=
  ⟨fs, libraries, projectOf fs root.source⟩

/-- A program and the place of its file. -/
abbrev Target : Type := Place × Program

/-- The place of a file that is not the file of its importer. -/
def other? (fs : FileSystem) (importer : Source) (file : Path) : Option Place :=
  if file.same ⟨importer.name⟩ then none
  else match fs.canonical file with
    | .error _ => none
    | .ok place =>
      if importer.onDisk && (fs.canonical ⟨importer.name⟩).toOption == some place then none
      else some place

/-- What an importer finds in a file. -/
def target? (fs : FileSystem) (importer : Source) (file : Path) : Option Target := do
  let place ← other? fs importer file
  let p ← Program.inFile? fs file
  pure (place, p)

/-- What an import may stand for, in the order in which it is looked for. -/
def targets (setting : Setting) (importer : Source) (i : Import) : List Target :=
  (candidates setting importer i).filterMap (target? setting.fs importer)

/-- The programs that a root program may import, directly or not, and the root program. -/
inductive Reached (setting : Setting) (root : Program) : Program → Prop
  | root : Reached setting root root.unresolved
  | importing {p : Program} {i : Import} {t : Target} (importer : Reached setting root p)
      (mem : i ∈ p.imports) (found : t ∈ targets setting p.source i) : Reached setting root t.2

/-- A file that an import of a reached program may refer to, and its place. -/
def Looked (setting : Setting) (root : Program) (place : Place) (file : Path) : Prop :=
  ∃ p, Reached setting root p ∧ ∃ i ∈ p.imports, file ∈ candidates setting p.source i ∧
    other? setting.fs p.source file = some place

/-- A target of an import of a reached program. -/
def Met (setting : Setting) (root : Program) (t : Target) : Prop :=
  ∃ file, Looked setting root t.1 file ∧ Program.inFile? setting.fs file = some t.2

/-- No file is reached under two names that make it two programs, but for files at some places. -/
def OneName (setting : Setting) (root : Program) (barred : List Place) : Prop :=
  ∀ place ∉ barred, ∀ file file', Looked setting root place file →
    Looked setting root place file' →
    Program.inFile? setting.fs file = Program.inFile? setting.fs file'

/-- One target has an import that may stand for another one. -/
def Leads (setting : Setting) (t u : Target) : Prop :=
  ∃ i ∈ t.2.imports, u ∈ targets setting t.2.source i

/-- A target may lead to one at some places. -/
def LeadsBack (setting : Setting) (places : List Place) (t : Target) : Prop :=
  ∃ place ∈ places, ∃ p, ReflTransGen (Leads setting) t (place, p)

/-- A target that can be resolved while some places are barred. For each import there is a target
that can be resolved, too. -/
inductive Resolves (setting : Setting) (barred : List Place) : Target → Prop
  | intro {t : Target} (free : t.1 ∉ barred) (pick : Import → Target)
      (found : ∀ i ∈ t.2.imports, pick i ∈ targets setting t.2.source i)
      (deeper : ∀ i ∈ t.2.imports, Resolves setting barred (pick i)) : Resolves setting barred t

variable {setting : Setting} {root p q : Program} {barred busy : List Place} {place : Place}
  {t u : Target} {i : Import} {importer : Source} {file : Path}

theorem target?_eq_some : target? setting.fs importer file = some t ↔
    other? setting.fs importer file = some t.1 ∧ Program.inFile? setting.fs file = some t.2 := by
  obtain ⟨place, p⟩ := t
  simp [target?, Option.bind_eq_some_iff]

theorem mem_targets : t ∈ targets setting importer i ↔ ∃ file ∈ candidates setting importer i,
    other? setting.fs importer file = some t.1 ∧ Program.inFile? setting.fs file = some t.2 := by
  simp only [targets, List.mem_filterMap, target?_eq_some]

theorem met_of_target (reached : Reached setting root p) (mem : i ∈ p.imports)
    (found : t ∈ targets setting p.source i) : Met setting root t := by
  obtain ⟨file, candidate, other, inFile⟩ := mem_targets.mp found
  exact ⟨file, ⟨p, reached, i, mem, candidate, other⟩, inFile⟩

theorem Met.reached (met : Met setting root t) : Reached setting root t.2 := by
  obtain ⟨file, ⟨p, reached, i, mem, candidate, other⟩, inFile⟩ := met
  exact .importing reached mem (mem_targets.mpr ⟨file, candidate, other, inFile⟩)

/-- The imports of a target are not resolved. -/
theorem Met.unresolved (met : Met setting root t) : t.2.unresolved = t.2 := by
  obtain ⟨file, _, inFile⟩ := met
  exact Program.unresolved_of_inFile? inFile

theorem Met.leads (met : Met setting root t) (leads : Leads setting t u) : Met setting root u := by
  obtain ⟨i, mem, found⟩ := leads
  exact met_of_target met.reached mem found

theorem Met.leads_all (met : Met setting root t) (leads : ReflTransGen (Leads setting) t u) :
    Met setting root u := by
  induction leads with
  | refl => exact met
  | tail _ last ih => exact ih.leads last

/-- Where no file has two names, a place has one program. -/
theorem OneName.unique (one : OneName setting root barred) (free : place ∉ barred)
    (met : Met setting root (place, p)) (met' : Met setting root (place, q)) : p = q := by
  obtain ⟨file, looked, inFile⟩ := met
  obtain ⟨file', looked', inFile'⟩ := met'
  have same := one place free file file' looked looked'
  rw [inFile, inFile'] at same
  exact Option.some.inj same

namespace Resolves

theorem free (h : Resolves setting barred t) : t.1 ∉ barred := by
  cases h with
  | intro free => exact free

theorem of_imports (free : t.1 ∉ barred)
    (all : ∀ i ∈ t.2.imports, ∃ u ∈ targets setting t.2.source i, Resolves setting barred u) :
    Resolves setting barred t := by
  have : Nonempty Target := ⟨t⟩
  choose! pick found deeper using all
  exact .intro free pick found deeper

/-- What can be resolved while some places are barred can be resolved while others are, or leads to
one of them. -/
theorem or_leads (h : Resolves setting barred t) (busy : List Place) :
    Resolves setting busy t ∨ ∃ place ∈ busy, place ∉ barred ∧
      ∃ p, ReflTransGen (Leads setting) t (place, p) := by
  induction h with
  | @intro t free pick found deeper ih =>
    by_cases here : t.1 ∈ busy
    · exact .inr ⟨t.1, here, free, t.2, .refl⟩
    by_cases all : ∀ i ∈ t.2.imports, Resolves setting busy (pick i)
    · exact .inl (.intro here pick found all)
    · simp only [not_forall] at all
      obtain ⟨i, mem, stuck⟩ := all
      obtain ⟨place, there, free, p, leads⟩ := (ih i mem).resolve_left stuck
      exact .inr ⟨place, there, free, p, .head ⟨i, mem, found i mem⟩ leads⟩

/-- No detour is needed: either a target can be resolved without the program at a place, or the
imports of that program can. -/
theorem cut (unique : ∀ q, Met setting root (place, q) → q = p) (h : Resolves setting barred t)
    (reached : Reached setting root t.2) (same : t.1 = place → t.2 = p) :
    Resolves setting (place :: barred) t ∨
      ∀ i ∈ p.imports, ∃ u ∈ targets setting p.source i, Resolves setting (place :: barred) u := by
  induction h with
  | @intro t free pick found deeper ih =>
    have below : ∀ i ∈ t.2.imports, Resolves setting (place :: barred) (pick i) ∨
        ∀ i ∈ p.imports, ∃ u ∈ targets setting p.source i, Resolves setting (place :: barred) u := by
      intro i mem
      apply ih i mem (.importing reached mem (found i mem))
      rintro rfl
      exact unique _ (met_of_target reached mem (found i mem))
    by_cases all : ∀ i ∈ t.2.imports, Resolves setting (place :: barred) (pick i)
    · by_cases here : t.1 = place
      · rw [← same here]
        exact .inr fun i mem => ⟨pick i, found i mem, all i mem⟩
      · exact .inl (.intro (by simp [here, free]) pick found all)
    · simp only [not_forall] at all
      obtain ⟨i, mem, stuck⟩ := all
      exact .inr ((below i mem).resolve_left stuck)

/-- The imports of a program can be resolved without going back to its place. -/
theorem inside (h : Resolves setting barred (place, p)) (reached : Reached setting root p)
    (unique : ∀ q, Met setting root (place, q) → q = p) :
    ∀ i ∈ p.imports, ∃ u ∈ targets setting p.source i, Resolves setting (place :: barred) u := by
  apply (cut unique h reached fun _ => rfl).resolve_left
  intro again
  exact again.free List.mem_cons_self

end Resolves

end Importing

end Frontend
