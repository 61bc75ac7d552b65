import Frontend.Proofs.Growth

/-!
How deep a resolution goes. Loads are nested no deeper than there are places in the file system, so
a resolution comes to an end; and a chain of modules, from a root program down, meets no file twice,
nor the file of the root.
-/
open Relation (TransGen)

namespace Frontend.Importing

/-- Loads programs down to a number of nested loads, and leaves those that are nested deeper to
another way of loading. -/
def loadWithin (deeper : Loading) (setting : Setting) :
    Nat → (busy : List Place) → Loader setting.fs busy
  | 0, busy => deeper setting busy
  | n + 1, busy => fun importer i file place _ =>
    loadFile setting (loadWithin deeper setting n (place :: busy)) importer i file place

/-- Modules that lead from one to the next. The first one is among some modules, and each other one
is a module of the program before. -/
inductive Chain : List Module → List Module → Prop
  | nil {modules : List Module} : Chain modules []
  | cons {modules path : List Module} {m : Module} (mem : m ∈ modules)
      (more : Chain m.program.modules path) : Chain modules (m :: path)

section Depth

variable {deeper : Loading} {setting : Setting}

/-- Where loads may nest as deep as there are free places, none is nested deeper. -/
theorem loadWithin_eq {n : Nat} {busy : List Place} (enough : freePlaces setting.fs busy ≤ n) :
    loadWithin deeper setting n busy = load setting busy := by
  induction n generalizing busy with
  | zero =>
    funext importer i file place free
    have fewer := freePlaces_lt free
    omega
  | succ n ih =>
    funext importer i file place free
    have fewer := freePlaces_lt free
    have within : freePlaces setting.fs (place :: busy) ≤ n := by omega
    rw [load, ← ih within]
    rfl

/-- Loads are nested no deeper than there are places. -/
theorem loadWithin_places :
    (fun setting => loadWithin deeper setting setting.fs.places.length) = load := by
  funext setting busy
  exact loadWithin_eq (List.length_filter_le _ _)

end Depth

section Known

variable {known : List (Place × Program)} {place : Place} {q : Program}
  {modules path : List Module}

/-- A chain below a known program goes along its imports. -/
theorem Chain.leads (layered : Layered known) (found : known.lookup place = some q)
    (chain : Chain q.modules path) : ∀ m ∈ path, TransGen (Imports known) place m.place := by
  generalize modules_eq : q.modules = modules at chain
  induction chain generalizing place q with
  | nil => exact fun _ mem => absurd mem List.not_mem_nil
  | cons mem more ih =>
    subst modules_eq
    have edge : Imports known place _ := ⟨q, found, _, mem, rfl⟩
    refine List.forall_mem_cons.mpr ⟨.single edge, ?_⟩
    intro m below
    exact .head edge (ih (layered.module found mem) rfl m below)

/-- All modules of a chain hold known programs, at different places. -/
theorem Chain.places (layered : Layered known)
    (start : ∀ m ∈ modules, known.lookup m.place = some m.program) (chain : Chain modules path) :
    (∀ m ∈ path, known.lookup m.place = some m.program) ∧ (path.map (·.place)).Nodup := by
  induction chain with
  | nil => exact ⟨fun _ mem => absurd mem List.not_mem_nil, List.nodup_nil⟩
  | @cons modules path m mem more ih =>
    have found := start m mem
    obtain ⟨known_path, nodup⟩ := ih fun _ below => layered.module found below
    refine ⟨List.forall_mem_cons.mpr ⟨found, known_path⟩, List.nodup_cons.mpr ⟨?_, nodup⟩⟩
    intro again
    obtain ⟨m', below, same⟩ := List.mem_map.mp again
    have cycle := more.leads layered found m' below
    rw [same] at cycle
    exact layered.acyclic _ cycle

end Known

/-- A file system has one place for the file of a root program, or none. -/
theorem nodup_rootPlaces (fs : FileSystem) (source : Source) : (rootPlaces fs source).Nodup := by
  unfold rootPlaces
  split
  · cases (fs.canonical ⟨source.name⟩).toOption <;> simp
  · exact List.nodup_nil

end Frontend.Importing
