import Frontend.Proofs.Choices
import Frontend.Proofs.Growth

/-!
Sessions that agree. What a session knows has come about in some order, and an import settles on a
later target if an earlier one leads back to what was busy by then. Where no import has a reason to
do so, two sessions that know a program at one place know the same one, with all that it imports.
-/
namespace Frontend

/-- Programs are the same if they come from one file and their modules are the same. -/
theorem Program.eq_of_unresolved {p q : Program} (same : p.unresolved = q.unresolved)
    (modules : p.modules = q.modules) : p = q := by
  obtain ⟨source, decls, ms⟩ := p
  obtain ⟨source', decls', ms'⟩ := q
  obtain ⟨rfl, rfl, _⟩ := Program.mk.inj same
  obtain rfl : ms = ms' := modules
  rfl

namespace Importing

/-- An import that may have to make a detour: one of the targets that can be resolved stands behind
another one that can be, too, but leads back to the importer, which is at one of some places. -/
def Detour (setting : Setting) (barred here : List Place) (importer : Source) (i : Import) : Prop :=
  ∃ before t after, targets setting importer i = before ++ t :: after ∧
    Resolves setting barred t ∧ ∃ u ∈ before, Resolves setting barred u ∧ LeadsBack setting here u

/-- No import of a file that is reached may have to make a detour. -/
def Straight (setting : Setting) (root : Program) (barred : List Place) : Prop :=
  ∀ place p, Met setting root (place, p) →
    ∀ i ∈ p.imports, ¬ Detour setting barred [place] p.source i

/-- A module that holds a program as some session knows it. -/
def Traced (setting : Setting) (root : Program) (barred : List Place) (m : Module) : Prop :=
  ∃ known, Sound setting root barred known ∧ Layered known ∧
    known.lookup m.place = some m.program

/-- Each import of a program has a target that can be resolved while some places are barred. -/
def Supplied (setting : Setting) (barred : List Place) (p : Program) : Prop :=
  ∀ i ∈ p.imports, ∃ t ∈ targets setting p.source i, Resolves setting barred t

/-- Of two places in a list, one is in front of the other one unless they are the same. -/
theorem eq_or_mem_of_split {α : Type} {before after before' after' : List α} {a b : α}
    (same : before ++ a :: after = before' ++ b :: after') :
    a = b ∨ a ∈ before' ∨ b ∈ before := by
  obtain ⟨between, rfl, rest⟩ | ⟨between, rfl, rest⟩ := List.append_eq_append_iff.mp same
  · cases between with
    | nil => exact .inl (List.cons.inj rest).1
    | cons c between =>
      rw [(List.cons.inj rest).1]
      exact .inr (.inl (by simp))
  · cases between with
    | nil => exact .inl (List.cons.inj rest).1.symm
    | cons c between =>
      rw [(List.cons.inj rest).1]
      exact .inr (.inr (by simp))

/-- Lists that go with one list are the same if what goes with each of its elements is. -/
theorem eq_of_forall₂ {α β : Type} {rel rel' : α → β → Prop} {as : List α} {bs cs : List β}
    (h : List.Forall₂ rel as bs) (h' : List.Forall₂ rel' as cs)
    (unique : ∀ a ∈ as, ∀ b ∈ bs, ∀ c ∈ cs, rel a b → rel' a c → b = c) : bs = cs := by
  induction h generalizing cs with
  | nil =>
    cases h'
    rfl
  | cons head _ ih =>
    cases h' with
    | cons head' tail' =>
      have heads := unique _ List.mem_cons_self _ List.mem_cons_self _ List.mem_cons_self head head'
      have tails := ih tail' fun a am b bm c cm => unique a (List.mem_cons_of_mem _ am) b
        (List.mem_cons_of_mem _ bm) c (List.mem_cons_of_mem _ cm)
      rw [heads, tails]

variable {setting : Setting} {root p q : Program} {barred here : List Place} {place : Place}
  {i : Import} {m m' : Module} {importer : Source} {known known' : List (Place × Program)}

/-- Without a detour, an import settles on one target. -/
theorem Picked.target_unique (straight : ¬ Detour setting barred here importer i)
    (h : Picked setting barred here importer i m) (h' : Picked setting barred here importer i m') :
    m.place = m'.place ∧ m.program.unresolved = m'.program.unresolved := by
  obtain ⟨before, after, split, skipped⟩ := h.first
  obtain ⟨before', after', split', skipped'⟩ := h'.first
  obtain same | back | back := eq_or_mem_of_split (split.symm.trans split')
  · exact Prod.mk.inj same
  · exact absurd ⟨before', _, after', split', h'.resolves, _, back, h.resolves,
      skipped' _ back h.resolves⟩ straight
  · exact absurd ⟨before, _, after, split, h.resolves, _, back, h'.resolves,
      skipped _ back h'.resolves⟩ straight

/-- Modules of an import are the same if they have one program at one place. -/
theorem Chosen.module_eq {passed passed' : Target → Prop} {there there' : List Target}
    (h : Chosen setting barred passed there i m) (h' : Chosen setting barred passed' there' i m')
    (place : m.place = m'.place) (program : m.program = m'.program) : m = m' := by
  rw [h.module, h'.module, place, program]

/-- Two sessions that both know a program at a place know the same one. -/
theorem Sound.same (one : OneName setting root barred) (straight : Straight setting root barred)
    (sound : Sound setting root barred known) (layered : Layered known)
    (sound' : Sound setting root barred known') (layered' : Layered known')
    (looked : ∃ file, Looked setting root place file) (found : known.lookup place = some p)
    (found' : known'.lookup place = some q) : p = q := by
  induction layered.ends place generalizing p q with
  | intro place _ ih =>
    have entry := sound place p found looked
    have entry' := sound' place q found' looked
    have same : p.unresolved = q.unresolved := one.unique entry.resolves.free entry.met entry'.met
    have source : p.source = q.source := (Program.mk.inj same).1
    have imports : p.imports = q.imports := congrArg Toplevel.imports (Program.mk.inj same).2.1
    have modules' := entry'.modules
    rw [← source, ← imports] at modules'
    apply Program.eq_of_unresolved same
    apply eq_of_forall₂ entry.modules modules'
    intro i mem m member m' member' picked picked'
    obtain ⟨there, target⟩ := picked.target_unique (straight place _ entry.met i mem) picked'
    have known_m := layered.module found member
    have known_m' := layered'.module found' member'
    rw [← there] at known_m'
    obtain ⟨file, looked', _⟩ := met_of_target entry.met.reached mem picked.mem
    have program := ih m.place ⟨p, found, m, member, rfl⟩ ⟨file, looked'⟩ known_m known_m'
    exact picked.module_eq picked' there program

/-- Two sessions resolve an import to the same module. -/
theorem Picked.unique (one : OneName setting root barred) (straight : Straight setting root barred)
    (reached : Reached setting root p.unresolved) (mem : i ∈ p.imports)
    (direct : ¬ Detour setting barred here p.source i)
    (h : Picked setting barred here p.source i m) (traced : Traced setting root barred m)
    (h' : Picked setting barred here p.source i m') (traced' : Traced setting root barred m') :
    m = m' := by
  obtain ⟨known, sound, layered, found⟩ := traced
  obtain ⟨known', sound', layered', found'⟩ := traced'
  obtain ⟨there, target⟩ := h.target_unique direct h'
  rw [← there] at found'
  obtain ⟨file, looked, _⟩ := met_of_target reached mem h.mem
  have program := Sound.same one straight sound layered sound' layered' ⟨file, looked⟩ found found'
  exact h.module_eq h' there program

section Root

variable {fs : FileSystem} {libraries : List Path} {inv : List (Place × Program) → Prop}
  (one : OneName (rootSetting fs libraries root) root barred)
  (sound : ∀ known, inv known → Sound (rootSetting fs libraries root) root barred known)
  (grows : ∀ known place p, inv known →
    Accounted (rootSetting fs libraries root) root barred place p → inv ((place, p) :: known))
  (stack : Stacked (rootSetting fs libraries root) root barred (rootPlaces fs root.source) here root)
  {s s' : Session} (libs : s.libraries = libraries) (idle : s.busy = []) (layered : Layered s.known)
  (holds : inv s.known)

include one sound grows stack libs holds

/-- Whether a root program can be resolved depends on the targets alone, if what can be resolved at
all can be resolved without the file of the root. -/
theorem resolveAll_ok_iff (inward : Supplied (rootSetting fs libraries root) barred root →
      Supplied (rootSetting fs libraries root) (rootPlaces fs root.source) root) :
    (∃ p s', resolveAll fs root s = .ok p s') ↔
      Supplied (rootSetting fs libraries root) (rootPlaces fs root.source) root := by
  have ends := decides_resolveAll one sound grows stack s libs holds
  unfold Runs at ends
  cases run : resolveAll fs root s with
  | ok p s' =>
    rw [run] at ends
    obtain ⟨_, _, new, _, picked⟩ := ends
    refine ⟨fun _ => inward fun i mem => ?_, fun _ => ⟨p, s', rfl⟩⟩
    obtain ⟨m, _, chosen⟩ := (exists_of_forall₂ picked).1 i mem
    exact ⟨_, chosen.mem, chosen.resolves⟩
  | error d s' =>
    rw [run] at ends
    obtain ⟨_, _, i, mem, stuck⟩ := ends
    refine ⟨nofun, fun supplied => ?_⟩
    obtain ⟨t, found, able⟩ := supplied i mem
    exact absurd able (stuck t found)

include idle layered

/-- A root program that is resolved has modules that its imports settle on, with programs that are
known. -/
theorem traced_of_resolveAll (run : resolveAll fs root s = .ok p s') :
    ∃ new, p = { root with modules := root.modules ++ new } ∧
      List.Forall₂ (Picked (rootSetting fs libraries root) barred here root.source) root.imports new ∧
      ∀ m ∈ new, Traced (rootSetting fs libraries root) root barred m := by
  have ends := decides_resolveAll one sound grows stack s libs holds
  have learns : Runs (resolveAll fs root) s _ _ := learns_resolveAll root s idle rfl
  unfold Runs at ends learns
  rw [run] at ends learns
  obtain ⟨_, holds', new, rfl, picked⟩ := ends
  obtain ⟨_, grown, new', same, answers⟩ := learns
  obtain rfl : new = new' := List.append_cancel_left same
  refine ⟨new, rfl, picked, ?_⟩
  intro m mem
  obtain ⟨i, _, answer⟩ := (exists_of_forall₂ answers).2 m mem
  exact ⟨s'.known, sound _ holds', grown.layered layered, answer.program⟩

end Root

end Importing

end Frontend
