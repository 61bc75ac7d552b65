import Frontend.Proofs.Layers

/-!
How the known programs of a session grow. Whatever a resolution does, and also if it fails, it keeps
what is known, adds programs that answer to their imports, and adds none at a place that is busy;
what is busy is the same before and after. Each step guarantees this, so whole resolutions do, and a
session keeps it over any number of root programs, whatever becomes of the file system in between.
-/
open Relation (TransGen)

namespace Frontend.Importing

/-- A program that was read in the file at a place. -/
def ReadAt (fs : FileSystem) (place : Place) (p : Program) : Prop :=
  ∃ file, fs.canonical file = .ok place ∧ Source.fromFile fs file = .ok p.source ∧
    (parse p.source).result = .ok p.decls

/-- How the known programs grow while some places are spared. -/
structure Grown (fs : FileSystem) (spared : List Place) (known known' : List (Place × Program)) :
    Prop where
  keeps : Keeps known known'
  spares : ∀ place ∈ spared, known'.lookup place = known.lookup place
  read : ∀ place p, known'.lookup place = some p →
    known.lookup place = some p ∨ ReadAt fs place p
  layered : Layered known → Layered known'

/-- A step of a resolution while some places are busy and some are spared, from what is known before
to what is known after it. That programs grow is guaranteed also if it fails. The file that is
loaded is busy, but not spared: it becomes known at the end. -/
def Learns {α : Type} (fs : FileSystem) (busy spared : List Place) (known : List (Place × Program))
    (x : Resolving α) (post : α → List (Place × Program) → Prop) : Prop :=
  ∀ s : Session, s.busy = busy → s.known = known →
    Runs x s (fun a s' => s'.busy = busy ∧ Grown fs spared known s'.known ∧ post a s'.known)
      (fun s' => s'.busy = busy ∧ Grown fs spared known s'.known)

variable {fs : FileSystem} {busy spared places : List Place}
  {known known' known'' : List (Place × Program)} {place : Place} {p : Program} {i : Import}
  {importer : Source} {file : Path}

namespace Grown

theorem refl : Grown fs spared known known where
  keeps _ _ found := found
  spares _ _ := rfl
  read _ _ found := .inl found
  layered := id

theorem trans (first : Grown fs spared known known') (second : Grown fs spared known' known'') :
    Grown fs spared known known'' where
  keeps place p found := second.keeps place p (first.keeps place p found)
  spares place mem := (second.spares place mem).trans (first.spares place mem)
  read place p found := by
    obtain before | read := second.read place p found
    · exact first.read place p before
    · exact .inr read
  layered := second.layered ∘ first.layered

/-- What is spared among more places is spared among fewer. -/
theorem forget (grown : Grown fs (place :: spared) known known') : Grown fs spared known known' :=
  { grown with spares := fun there mem => grown.spares there (List.mem_cons_of_mem _ mem) }

/-- A program becomes known when all that it imports is, at a place that is new. -/
theorem learn (free : place ∉ spared) (new : known.lookup place = none) (read : ReadAt fs place p)
    (modules : List.Forall₂ (Answers known) p.imports p.modules) :
    Grown fs spared known ((place, p) :: known) where
  keeps := keeps_cons new
  spares there mem := lookup_cons_of_ne fun same => free (same ▸ mem)
  read there q found := by
    by_cases same : there = place
    · subst same
      rw [List.lookup_cons_self] at found
      cases found
      exact .inr read
    · rw [lookup_cons_of_ne same] at found
      exact .inl found
  layered layered := .cons layered new modules

end Grown

namespace Learns

variable {α β : Type} {x : Resolving α} {k : α → Resolving β}
  {mid post : α → List (Place × Program) → Prop} {final : β → List (Place × Program) → Prop}

theorem pure {a : α} (h : post a known) : Learns fs busy spared known (Pure.pure a) post := by
  rintro s rfl rfl
  exact ⟨rfl, .refl, h⟩

theorem throw {d : Diagnostic} : Learns fs busy spared known (throw d : Resolving α) post := by
  rintro s rfl rfl
  exact ⟨rfl, .refl⟩

theorem fail {cause : Cause} :
    Learns fs busy spared known (fail importer i cause : Resolving α) post :=
  throw

theorem bind (first : Learns fs busy spared known x mid)
    (then_ : ∀ a known', Grown fs spared known known' → mid a known' →
      Learns fs busy spared known' (k a) final) :
    Learns fs busy spared known (x >>= k) final := by
  intro s busy_eq known_eq
  apply (first s busy_eq known_eq).bind
  rintro a s' ⟨busy_eq', grown, holds⟩
  apply (then_ a s'.known grown holds s' busy_eq' rfl).mono
  · rintro b s'' ⟨busy_eq'', grown', holds⟩
    exact ⟨busy_eq'', grown.trans grown', holds⟩
  · rintro s'' ⟨busy_eq'', grown'⟩
    exact ⟨busy_eq'', grown.trans grown'⟩

theorem mono (h : Learns fs busy spared known x mid)
    (imp : ∀ a known', Grown fs spared known known' → mid a known' → post a known') :
    Learns fs busy spared known x post := by
  intro s busy_eq known_eq
  apply (h s busy_eq known_eq).mono
  · rintro a s' ⟨busy_eq', grown, holds⟩
    exact ⟨busy_eq', grown, imp a s'.known grown holds⟩
  · exact fun _ failed => failed

theorem tell_bind {e : Event} {k : Unit → Resolving β}
    (then_ : Learns fs busy spared known (k ()) final) : Learns fs busy spared known (tell e >>= k) final :=
  fun s busy_eq known_eq => then_ { s with events := e :: s.events } busy_eq known_eq

theorem tellAll {events : List Grammar.Event} {k : Unit → Resolving β}
    (then_ : Learns fs busy spared known (k ()) final) :
    Learns fs busy spared known ((events.forM fun e => tell (.parser e)) >>= k) final := by
  intro s busy_eq known_eq
  unfold Runs
  rw [tellAll_bind]
  exact then_ _ busy_eq known_eq

theorem get_bind {k : Session → Resolving β} (then_ : ∀ s, Learns fs busy spared known (k s) final) :
    Learns fs busy spared known (get >>= k) final :=
  fun s busy_eq known_eq => then_ s s busy_eq known_eq

theorem known?_bind {k : Option Program → Resolving β}
    (then_ : Learns fs busy spared known (k (known.lookup place)) final) :
    Learns fs busy spared known (known? place >>= k) final := by
  rintro s busy_eq rfl
  exact then_ s busy_eq rfl

theorem ite {cond : Prop} [Decidable cond] {y : Resolving α}
    (yes : cond → Learns fs busy spared known x post) (no : ¬ cond → Learns fs busy spared known y post) :
    Learns fs busy spared known (if cond then x else y) post := by
  by_cases h : cond
  · rw [if_pos h]
    exact yes h
  · rw [if_neg h]
    exact no h

theorem attempt (h : Learns fs busy spared known x post) :
    Learns fs busy spared known (attempt x) fun found known' =>
      ∀ a, found = .ok a → post a known' := by
  intro s busy_eq known_eq
  apply (h s busy_eq known_eq).attempt.mono
  · rintro (d | a) s' ends
    · exact ⟨ends.1, ends.2, nofun⟩
    · obtain ⟨busy_eq', grown, holds⟩ := ends
      refine ⟨busy_eq', grown, ?_⟩
      rintro _ ⟨⟩
      exact holds
  · exact fun _ failed => failed

theorem noting {note : String} (h : Learns fs busy spared known x post) :
    Learns fs busy spared known (noting importer i note x) post := by
  apply h.attempt.bind
  intro found known' _ holds
  cases found with
  | ok a => exact pure (holds a rfl)
  | error d => exact throw

/-- Places that were free are free again. -/
theorem occupying {inside : List Place} (inside_eq : places ++ busy = inside)
    (apart : ∀ place ∈ places, place ∉ busy) (h : Learns fs inside spared known x post) :
    Learns fs busy spared known (occupying places x) post := by
  subst inside_eq
  have free_again : (places ++ busy).filter (· ∉ places) = busy := by
    rw [List.filter_append, List.filter_eq_nil_iff.mpr (by simp), List.nil_append,
      List.filter_eq_self]
    exact fun place mem => decide_eq_true fun there => apart place there mem
  rintro s rfl known_eq
  apply runs_occupying
  apply (h { s with busy := places ++ s.busy } rfl known_eq).mono
  · rintro a s' ⟨busy_eq, grown, holds⟩
    exact ⟨busy_eq ▸ free_again, grown, holds⟩
  · rintro s' ⟨busy_eq, grown⟩
    exact ⟨busy_eq ▸ free_again, grown⟩

/-- A step that spares one more place. -/
theorem forget (h : Learns fs busy (place :: spared) known x post) :
    Learns fs busy spared known x post := by
  intro s busy_eq known_eq
  apply (h s busy_eq known_eq).mono
  · rintro a s' ⟨busy_eq', grown, holds⟩
    exact ⟨busy_eq', grown.forget, holds⟩
  · rintro s' ⟨busy_eq', grown⟩
    exact ⟨busy_eq', grown.forget⟩

/-- A program becomes known when all that it imports is, at a place that is new. -/
theorem learn_bind {k : Unit → Resolving β} (free : place ∉ spared)
    (new : known.lookup place = none) (read : ReadAt fs place p)
    (modules : List.Forall₂ (Answers known) p.imports p.modules)
    (then_ : Learns fs busy spared ((place, p) :: known) (k ()) final) :
    Learns fs busy spared known (learn place p >>= k) final := by
  have learned : Learns fs busy spared known (learn place p) fun _ known' =>
      known' = (place, p) :: known := by
    rintro s rfl rfl
    exact ⟨rfl, .learn free new read modules, rfl⟩
  apply learned.bind
  rintro _ _ _ rfl
  exact then_

end Learns

/-- Modules that answer to the imports before one that fails, or to all of them. -/
def Resolution.Suits (known : List (Place × Program)) (imports : List Import) (r : Resolution) :
    Prop :=
  ∃ done rest, imports = done ++ rest ∧ List.Forall₂ (Answers known) done r.modules ∧
    (r.error = none ↔ rest = [])

theorem Resolution.Suits.whole {imports : List Import} {r : Resolution} (h : r.Suits known imports)
    (ended : r.error = none) : List.Forall₂ (Answers known) imports r.modules := by
  obtain ⟨done, rest, rfl, answers, all⟩ := h
  rwa [all.mp ended, List.append_nil]

/-- A loader that makes the program of a file known at the place of the file. -/
def MakesKnown (fs : FileSystem) (busy : List Place) (load : Loader fs busy) : Prop :=
  ∀ importer i file place free known, fs.canonical file = .ok place → known.lookup place = none →
    Learns fs (place :: busy) busy known (load importer i file place free) fun p known' =>
      known'.lookup place = some p

theorem learns_parseFile {setting : Setting} :
    Learns setting.fs busy spared known (parseFile setting importer i file) fun p known' =>
      known' = known ∧ Source.fromFile setting.fs file = .ok p.source ∧
        (parse p.source).result = .ok p.decls ∧ p.modules = [] := by
  unfold parseFile
  cases found : Source.fromFile setting.fs file with
  | error e => exact .fail
  | ok source =>
    apply Learns.tell_bind
    unfold parseSource
    rw [bind_assoc]
    apply Learns.tellAll
    cases parsed : (parse source).result with
    | error d =>
      have fails : Learns setting.fs busy spared known (throw d : Resolving Program)
          fun _ _ => False := .throw
      exact fails.bind fun _ _ _ never => never.elim
    | ok decls =>
      dsimp only
      rw [pure_bind]
      apply Learns.tell_bind
      exact .pure ⟨rfl, rfl, parsed, rfl⟩

theorem learns_relativeRoot {setting : Setting} :
    Learns fs busy spared known (relativeRoot setting importer i) fun _ known' =>
      known' = known := by
  unfold relativeRoot
  cases relativeRoot? setting importer with
  | some root =>
    apply Learns.ite
    · exact fun _ => .tell_bind (.pure rfl)
    · exact fun _ => .pure rfl
  | none =>
    apply Learns.ite
    · exact fun _ => .tell_bind .fail
    · exact fun _ => .fail

section Import

variable {setting : Setting} {load : Loader setting.fs busy}
  (loads : MakesKnown setting.fs busy load)

include loads

theorem learns_programAt (located : setting.fs.canonical file = .ok place)
    (there : place ∈ setting.fs.places) :
    Learns setting.fs busy busy known (programAt load importer i file place there) fun p known' =>
      known'.lookup place = some p := by
  apply Learns.known?_bind
  cases found : known.lookup place with
  | some p => exact .tell_bind (.pure found)
  | none =>
    dsimp only
    split
    next free =>
      have apart : ∀ there ∈ [place], there ∉ busy := by simpa using free
      have loaded := loads importer i file place ⟨there, free⟩ known located found
      exact (Learns.occupying rfl apart loaded).noting
    next => exact .fail

theorem learns_inDirectory {directory : Path} :
    Learns setting.fs busy busy known (inDirectory setting load importer i directory)
      fun m known' => Answers known' i m := by
  unfold inDirectory
  apply Learns.ite
  · exact fun _ => .fail
  · intro _
    split
    next => exact .fail
    next place located =>
      apply Learns.ite
      · exact fun _ => .fail
      · intro _
        apply (learns_programAt loads located _).bind
        intro p known' _ found
        exact .pure (answers_moduleOf found)

theorem learns_search (directories : List Path) :
    Learns setting.fs busy busy known (search setting load importer i directories)
      fun found known' => ∀ m, found = .ok m → Answers known' i m := by
  induction directories generalizing known with
  | nil => exact .pure nofun
  | cons directory rest ih =>
    unfold search
    apply (learns_inDirectory loads).attempt.bind
    intro found known' _ answers
    cases found with
    | ok m =>
      have answer := answers m rfl
      apply Learns.pure
      rintro _ ⟨⟩
      exact answer
    | error d =>
      apply ih.bind
      intro found known'' _ answers
      cases found with
      | ok m => exact .pure answers
      | error more => exact .pure nofun

theorem learns_resolveImport :
    Learns setting.fs busy busy known (resolveImport setting load importer i) fun m known' =>
      Answers known' i m := by
  unfold resolveImport
  apply Learns.ite
  · intro _
    apply learns_relativeRoot.bind
    intro root _ _ _
    apply Learns.tell_bind
    exact (learns_inDirectory loads).noting
  · intro _
    apply (learns_search loads _).bind
    intro found known' _ answers
    cases found with
    | ok m => exact .pure (answers m rfl)
    | error failures => exact .throw

theorem learns_resolveEach (imports : List Import) :
    Learns setting.fs busy busy known (resolveEach setting load importer imports)
      fun r known' => r.Suits known' imports := by
  induction imports generalizing known with
  | nil => exact .pure ⟨[], [], rfl, .nil, by simp⟩
  | cons i rest ih =>
    unfold resolveEach
    apply (learns_resolveImport loads).attempt.bind
    intro found known' _ answers
    cases found with
    | error d => exact .pure ⟨[], i :: rest, rfl, .nil, by simp⟩
    | ok m =>
      apply ih.bind
      rintro r known'' grown ⟨done, left, rfl, all, ended⟩
      have answer := (answers m rfl).mono grown.keeps
      exact .pure ⟨i :: done, left, rfl, .cons answer all, ended⟩

theorem learns_resolveProgram (p : Program) (known : List (Place × Program)) :
    Learns setting.fs busy busy known (resolveProgram setting load p) fun found known' =>
      ∃ r : Resolution, found = ({ p with modules := p.modules ++ r.modules }, r.error) ∧
        r.Suits known' p.imports := by
  apply Learns.tell_bind
  apply (learns_resolveEach loads p.imports).bind
  intro r known' _ suits
  exact .pure ⟨r, rfl, suits⟩

end Import

theorem learns_loadFile {setting : Setting} {deeper : Loader setting.fs (place :: busy)}
    (loads : MakesKnown setting.fs (place :: busy) deeper) (free : place ∉ busy)
    (located : setting.fs.canonical file = .ok place) (new : known.lookup place = none) :
    Learns setting.fs (place :: busy) busy known (loadFile setting deeper importer i file place)
      fun p known' => known'.lookup place = some p := by
  apply learns_parseFile.bind
  rintro p known _ ⟨rfl, found, parsed, fresh⟩
  -- nothing becomes known at the place until all that the program imports is
  have resolved := (learns_resolveProgram loads p known).mono
    fun found known' grown done =>
      And.intro done ((grown.spares place List.mem_cons_self).trans new)
  apply resolved.forget.bind
  rintro _ known' _ ⟨⟨⟨modules, error⟩, rfl, suits⟩, new⟩
  cases error with
  | some d => exact .throw
  | none =>
    rw [fresh, List.nil_append]
    exact .learn_bind free new ⟨file, located, found, parsed⟩ (suits.whole rfl)
      (.pure List.lookup_cons_self)

/-- Loading makes programs known, whatever is busy. -/
theorem makesKnown_load (setting : Setting) (busy : List Place) :
    MakesKnown setting.fs busy (load setting busy) := by
  generalize size : freePlaces setting.fs busy = n
  induction n using Nat.strongRecOn generalizing busy with
  | ind n ih =>
    intro importer i file place free known located new
    have deeper := ih _ (size ▸ freePlaces_lt free) (place :: busy) rfl
    rw [load]
    exact learns_loadFile deeper free.2 located new

/-- What a root program imports becomes known, and nothing does at the place of its own file. -/
theorem learns_resolveRoot (root : Program) :
    Learns fs [] (rootPlaces fs root.source) known (resolveRoot fs root) fun found known' =>
      ∃ r : Resolution, found = ({ root with modules := root.modules ++ r.modules }, r.error) ∧
        r.Suits known' root.imports := by
  unfold resolveRoot resolveWith
  apply Learns.get_bind
  intro s
  apply Learns.tell_bind
  have loads := makesKnown_load ⟨fs, s.libraries, projectOf fs root.source⟩
    (rootPlaces fs root.source)
  have resolved := learns_resolveProgram loads root known
  have apart : ∀ place ∈ rootPlaces fs root.source, place ∉ [] := fun _ _ => List.not_mem_nil
  apply (Learns.occupying (List.append_nil _) apart resolved).bind
  rintro _ known' _ ⟨⟨modules, error⟩, rfl, suits⟩
  cases error with
  | some d => exact .pure ⟨_, rfl, suits⟩
  | none =>
    apply Learns.tell_bind
    exact .pure ⟨_, rfl, suits⟩

theorem learns_resolveAll (root : Program) :
    Learns fs [] (rootPlaces fs root.source) known (resolveAll fs root) fun p known' =>
      ∃ new, p.modules = root.modules ++ new ∧
        List.Forall₂ (Answers known') root.imports new := by
  apply (learns_resolveRoot root).bind
  rintro _ known' _ ⟨⟨modules, error⟩, rfl, suits⟩
  cases error with
  | some d => exact .throw
  | none => exact .pure ⟨modules, rfl, suits.whole rfl⟩

/-- The session after one more root program, whether or not its imports could be resolved. -/
def Session.next (s : Session) (call : FileSystem × Program) : Session :=
  match resolveAll call.1 call.2 s with
  | .ok _ s' => s'
  | .error _ s' => s'

/-- The session after some root programs, each with the file system that is there by then. -/
def Session.after (libraries : List Path) (calls : List (FileSystem × Program)) : Session :=
  calls.foldl Session.next (.start libraries)

theorem Session.grown_next {s : Session} (idle : s.busy = []) (call : FileSystem × Program) :
    (s.next call).busy = [] ∧
      Grown call.1 (rootPlaces call.1 call.2.source) s.known (s.next call).known := by
  have ends := @learns_resolveAll call.1 s.known call.2 s idle rfl
  unfold Runs at ends
  unfold Session.next
  cases run : resolveAll call.1 call.2 s with
  | ok p s' =>
    rw [run] at ends
    exact ⟨ends.1, ends.2.1⟩
  | error d s' =>
    rw [run] at ends
    exact ends

theorem Session.layered_after (libraries : List Path) (calls : List (FileSystem × Program)) :
    (Session.after libraries calls).busy = [] ∧
      Layered (Session.after libraries calls).known := by
  have start : (Session.start libraries).busy = [] ∧ Layered (Session.start libraries).known :=
    ⟨rfl, .nil⟩
  unfold Session.after
  generalize Session.start libraries = s at start
  induction calls generalizing s with
  | nil => exact start
  | cons call calls ih =>
    obtain ⟨idle, layered⟩ := start
    obtain ⟨idle, grown⟩ := Session.grown_next idle call
    exact ih _ ⟨idle, grown.layered layered⟩

/-- After any root programs, whether or not their imports could be resolved and whatever became of
the file system in between, nothing is busy. One more root program takes nothing away from what is
known. Every known program has one module for each import, in order, which exposes what the import
asks for and holds a known program; and no program leads back to itself. -/
theorem sessions_stay_sound (libraries : List Path) (calls : List (FileSystem × Program)) :
    let s := Session.after libraries calls
    s.busy = [] ∧
      (∀ call, Keeps s.known (Session.after libraries (calls ++ [call])).known) ∧
      (∀ place p, s.known.lookup place = some p →
        List.Forall₂ (Answers s.known) p.imports p.modules) ∧
      ∀ place, ¬ TransGen (Imports s.known) place place := by
  obtain ⟨idle, layered⟩ := Session.layered_after libraries calls
  refine ⟨idle, ?_, fun _ _ found => layered.answers found, layered.acyclic⟩
  intro call
  have more : Session.after libraries (calls ++ [call]) =
      (Session.after libraries calls).next call := List.foldl_append
  rw [more]
  exact (Session.grown_next idle call).2.keeps

end Frontend.Importing
