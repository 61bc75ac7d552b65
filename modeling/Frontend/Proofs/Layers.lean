import Mathlib.Data.List.Forall2
import Mathlib.Logic.Relation
import Frontend.Import.Resolve

/-!
The programs that a session knows, in layers. Each program became known when all that it imports
was known, and no place becomes known twice. So a program never leads back to itself.
-/
open Function (swap)
open Relation (TransGen)

namespace Frontend.Importing

/-- Each of the one list has a counterpart in the other one. -/
theorem exists_of_forall₂ {α β : Type} {rel : α → β → Prop} {as : List α} {bs : List β}
    (h : List.Forall₂ rel as bs) :
    (∀ a ∈ as, ∃ b ∈ bs, rel a b) ∧ ∀ b ∈ bs, ∃ a ∈ as, rel a b := by
  induction h with
  | nil => exact ⟨nofun, nofun⟩
  | cons head _ ih =>
    constructor
    · intro a mem
      obtain rfl | mem := List.mem_cons.mp mem
      · exact ⟨_, List.mem_cons_self, head⟩
      · obtain ⟨b, there, related⟩ := ih.1 a mem
        exact ⟨b, List.mem_cons_of_mem _ there, related⟩
    · intro b mem
      obtain rfl | mem := List.mem_cons.mp mem
      · exact ⟨_, List.mem_cons_self, head⟩
      · obtain ⟨a, there, related⟩ := ih.2 b mem
        exact ⟨a, List.mem_cons_of_mem _ there, related⟩

/-- What ends leads into no cycle. -/
theorem not_transGen_of_acc {α : Type} {rel : α → α → Prop} {a : α} (h : Acc (swap rel) a) :
    ¬ TransGen rel a a := by
  intro cycle
  have never : ∀ b, Acc (TransGen (swap rel)) b → ¬ TransGen (swap rel) b b := by
    intro b acc
    induction acc with
    | intro b _ ih => exact fun loop => ih b loop loop
  exact never a h.transGen (Relation.transGen_swap.mpr cycle)

/-- A module that answers to an import: it exposes what the import asks for, and its program is the
one that is known at its place. -/
structure Answers (known : List (Place × Program)) (i : Import) (m : Module) : Prop where
  everything : i.imported = ["*"] →
    m.scope = i.parents.getLast? ∧ m.imported = [] ∧ m.exposesAll = true
  names : i.imported ≠ ["*"] →
    m.scope = none ∧ m.imported = i.imported ∧ m.exposesAll = false
  program : known.lookup m.place = some m.program

/-- Programs that became known one after the other, the latest first. The modules of each one
answer to its imports, and hold what was known before it. -/
inductive Layered : List (Place × Program) → Prop
  | nil : Layered []
  | cons {known : List (Place × Program)} {place : Place} {p : Program} (older : Layered known)
      (new : known.lookup place = none)
      (modules : List.Forall₂ (Answers known) p.imports p.modules) :
      Layered ((place, p) :: known)

/-- The program that is known at one place has a module with the program at another one. -/
def Imports (known : List (Place × Program)) (importer file : Place) : Prop :=
  ∃ p, known.lookup importer = some p ∧ ∃ m ∈ p.modules, m.place = file

/-- What is known stays known, and stands for the same program. -/
def Keeps (known known' : List (Place × Program)) : Prop :=
  ∀ place p, known.lookup place = some p → known'.lookup place = some p

variable {known known' : List (Place × Program)} {place there : Place} {p q : Program}
  {i : Import} {m : Module}

theorem lookup_cons_of_ne (other : there ≠ place) :
    ((place, p) :: known).lookup there = known.lookup there := by
  simp [List.lookup_cons, beq_false_of_ne other]

/-- What is known is at another place than what is not. -/
theorem ne_of_lookup (found : known.lookup there = some q) (new : known.lookup place = none) :
    there ≠ place := by
  rintro rfl
  rw [new] at found
  cases found

/-- A place that is new takes nothing away. -/
theorem keeps_cons (new : known.lookup place = none) : Keeps known ((place, p) :: known) := by
  intro there q found
  rw [lookup_cons_of_ne (ne_of_lookup found new), found]

theorem Answers.mono (h : Answers known i m) (keeps : Keeps known known') :
    Answers known' i m :=
  { h with program := keeps _ _ h.program }

/-- The module of an import answers to it. -/
theorem answers_moduleOf (found : known.lookup place = some p) :
    Answers known i (moduleOf i place p) := by
  by_cases all : i.imported = ["*"]
  · have importsAll : i.importsAll = true := decide_eq_true all
    rw [moduleOf, if_pos importsAll]
    exact ⟨fun _ => ⟨rfl, rfl, rfl⟩, fun names => absurd all names, found⟩
  · have importsAll : ¬ i.importsAll = true := fun h => all (of_decide_eq_true h)
    rw [moduleOf, if_neg importsAll]
    exact ⟨fun everything => absurd everything all, fun _ => ⟨rfl, rfl, rfl⟩, found⟩

namespace Layered

/-- The modules of every known program answer to its imports. -/
theorem answers (layered : Layered known) (found : known.lookup there = some q) :
    List.Forall₂ (Answers known) q.imports q.modules := by
  induction layered with
  | nil => cases found
  | @cons known place p older new modules ih =>
    have keeps := keeps_cons (p := p) new
    by_cases same : there = place
    · subst same
      rw [List.lookup_cons_self] at found
      cases found
      exact modules.imp fun _ _ answer => answer.mono keeps
    · rw [lookup_cons_of_ne same] at found
      exact (ih found).imp fun _ _ answer => answer.mono keeps

/-- A module of a known program holds the program that is known at its place. -/
theorem module (layered : Layered known) (found : known.lookup there = some q)
    (mem : m ∈ q.modules) : known.lookup m.place = some m.program := by
  obtain ⟨i, _, answer⟩ := (exists_of_forall₂ (layered.answers found)).2 m mem
  exact answer.program

/-- No path of imports goes on forever. -/
theorem ends (layered : Layered known) (there : Place) : Acc (swap (Imports known)) there := by
  induction layered generalizing there with
  | nil =>
    apply Acc.intro
    rintro file ⟨q, found, _⟩
    cases found
  | @cons known place p older new modules ih =>
    -- a path that has left the new place goes on as it did before that place was known
    have old : ∀ there, there ≠ place → Acc (swap (Imports ((place, p) :: known))) there := by
      intro there
      induction ih there with
      | intro there _ deeper =>
        intro other
        apply Acc.intro
        rintro _ ⟨q, found, m, mem, rfl⟩
        rw [lookup_cons_of_ne other] at found
        have older_module := older.module found mem
        exact deeper _ ⟨q, found, m, mem, rfl⟩ (ne_of_lookup older_module new)
    by_cases same : there = place
    · subst same
      apply Acc.intro
      rintro _ ⟨q, found, m, mem, rfl⟩
      rw [List.lookup_cons_self] at found
      cases found
      obtain ⟨i, _, answer⟩ := (exists_of_forall₂ modules).2 m mem
      exact old _ (ne_of_lookup answer.program new)
    · exact old there same

/-- No known program leads back to itself. -/
theorem acyclic (layered : Layered known) (place : Place) :
    ¬ TransGen (Imports known) place place :=
  not_transGen_of_acc (layered.ends place)

end Layered

end Frontend.Importing
