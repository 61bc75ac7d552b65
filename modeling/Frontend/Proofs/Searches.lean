import Frontend.Proofs.Spots

/-!
A resolution as a plain search. Apart from its log, its messages and what is busy, a resolution is a
depth-first search among the files that imports may refer to; what has become known on the way stays
known, also where nothing is found.
-/
namespace Frontend.Importing

/-- A search with what is known so far, which may make more programs known. -/
abbrev Looking : Type → Type := StateM (List (Place × Program))

/-- The program at a spot, by the one that is known there: that one, or one that is loaded unless
the place is busy. -/
def enterBy (load : Place → Program → Looking (Option Program)) (busy : List Place) (spot : Spot) :
    Option Program → Looking (Option Program)
  | some p => pure (some p)
  | none =>
    match spot.2 with
    | some p => if busy.contains spot.1 then pure none else load spot.1 p
    | none => pure none

/-- The program at a spot. -/
def enter (load : Place → Program → Looking (Option Program)) (busy : List Place) (spot : Spot) :
    Looking (Option Program) := do
  enterBy load busy spot ((← get).lookup spot.1)

/-- The module of an import at the first spot that can be entered. -/
def explore (load : Place → Program → Looking (Option Program)) (busy : List Place) (i : Import) :
    List Spot → Looking (Option Module)
  | [] => pure none
  | spot :: rest => do
    match ← enter load busy spot with
    | some p => pure (some (moduleOf i spot.1 p))
    | none => explore load busy i rest

/-- The modules of imports, if there is one for each. -/
def exploreEach (setting : Setting) (load : Place → Program → Looking (Option Program)) (busy : List Place)
    (importer : Source) : List Import → Looking (Option (List Module))
  | [] => pure (some [])
  | i :: rest => do
    match ← explore load busy i (spots setting importer i) with
    | none => pure none
    | some m =>
      let modules ← exploreEach setting load busy importer rest
      pure (modules.map (m :: ·))

/-- A program with its modules. -/
def exploreProgram (setting : Setting) (load : Place → Program → Looking (Option Program))
    (busy : List Place) (p : Program) : Looking (Option Program) := do
  let modules ← exploreEach setting load busy p.source p.imports
  pure (modules.map fun modules => { p with modules := p.modules ++ modules })

/-- A program at a place, which becomes known with its modules. Loads are nested down to some
depth. -/
def exploreBelow (setting : Setting) : Nat → List Place → Place → Program → Looking (Option Program)
  | 0, _, _, _ => pure none
  | n + 1, busy, place, p => do
    match ← exploreProgram setting (exploreBelow setting n (place :: busy)) (place :: busy) p with
    | none => pure none
    | some p =>
      modify ((place, p) :: ·)
      pure (some p)

/-- A root program with its modules. -/
def exploreRoot (fs : FileSystem) (libraries : List Path) (root : Program) : Looking (Option Program) :=
  let setting := rootSetting fs libraries root
  let busy := rootPlaces fs root.source
  exploreProgram setting (exploreBelow setting fs.places.length busy) busy root

/-- A step of a resolution that finds what a search finds, and knows the same afterwards. -/
def Follows {α β : Type} (libraries : List Path) (view : α → Option β) (x : Resolving α)
    (y : Looking (Option β)) : Prop :=
  ∀ s : Session, s.libraries = libraries →
    Runs x s (fun a s' => s'.libraries = libraries ∧ y.run s.known = (view a, s'.known))
      (fun s' => s'.libraries = libraries ∧ y.run s.known = (none, s'.known))

namespace Follows

variable {α β γ δ : Type} {libraries : List Path} {view : α → Option β} {x x' : Resolving α}
  {y y' : Looking (Option β)} {view' : γ → Option δ} {k : α → Resolving γ} {l : Option β → Looking (Option δ)}
  {z : Looking (Option δ)} {importer : Source} {i : Import}

theorem pure {a : α} : Follows libraries view (Pure.pure a) (Pure.pure (view a)) :=
  fun _ libs => ⟨libs, rfl⟩

theorem throw {d : Diagnostic} : Follows libraries view (throw d) (Pure.pure none) :=
  fun _ libs => ⟨libs, rfl⟩

theorem fail {cause : Cause} : Follows libraries view (fail importer i cause) (Pure.pure none) :=
  throw

theorem bind (first : Follows libraries view x y) (none_ : l none = Pure.pure none)
    (then_ : ∀ a, Follows libraries view' (k a) (l (view a))) :
    Follows libraries view' (x >>= k) (y >>= l) := by
  intro s libs
  have failing : ∀ s' : Session,
      s'.libraries = libraries ∧ y.run s.known = (none, s'.known) →
      s'.libraries = libraries ∧ (y >>= l).run s.known = (none, s'.known) := by
    rintro s' ⟨libs', found⟩
    have skip : (l none).run s'.known = (none, s'.known) := by
      rw [none_]
      rfl
    rw [StateT.run_bind, found]
    exact ⟨libs', skip⟩
  apply ((first s libs).mono (fun _ _ found => found) failing).bind
  rintro a s' ⟨libs', found⟩
  rw [StateT.run_bind, found]
  exact then_ a s' libs'

/-- What follows upon a search finds nothing else. -/
theorem then_pure {view' : γ → Option β} (first : Follows libraries view x y)
    (then_ : ∀ a, Follows libraries view' (k a) (Pure.pure (view a))) :
    Follows libraries view' (x >>= k) y := by
  rw [← bind_pure y]
  exact first.bind rfl then_

/-- What is found may be clear from the start. -/
theorem clear_bind {b : Option β} (first : Follows libraries view x (Pure.pure b))
    (missing : b = none → z = Pure.pure none)
    (then_ : ∀ a, view a = b → Follows libraries view' (k a) z) :
    Follows libraries view' (x >>= k) z := by
  intro s libs
  have failing : ∀ s' : Session,
      s'.libraries = libraries ∧ (b, s.known) = (none, s'.known) →
      s'.libraries = libraries ∧ z.run s.known = (none, s'.known) := by
    rintro s' ⟨libs', found⟩
    obtain ⟨none_, known⟩ := Prod.mk.inj found
    rw [missing none_, known]
    exact ⟨libs', rfl⟩
  apply ((first s libs).mono (fun _ _ found => found) failing).bind
  rintro a s' ⟨libs', found⟩
  obtain ⟨same, known⟩ := Prod.mk.inj found
  rw [known]
  exact then_ a same.symm s' libs'

theorem ite {cond : Prop} [Decidable cond] (yes : Follows libraries view x y)
    (no : Follows libraries view x' y) :
    Follows libraries view (if cond then x else x') y := by
  split
  · exact yes
  · exact no

/-- An attempt finds nothing where the computation fails, and goes on. -/
theorem attempt_bind {k : Except Diagnostic α → Resolving γ} (first : Follows libraries view x y)
    (then_ : ∀ found, Follows libraries view' (k found) (l (found.toOption.bind view))) :
    Follows libraries view' (attempt x >>= k) (y >>= l) := by
  intro s libs
  apply (first s libs).attempt.bind
  rw [StateT.run_bind]
  rintro (d | a) s' ⟨libs', found⟩
  · rw [found]
    exact then_ (.error d) s' libs'
  · rw [found]
    exact then_ (.ok a) s' libs'

theorem tell_bind {e : Event} {k : Unit → Resolving γ}
    (then_ : Follows libraries view' (k ()) z) : Follows libraries view' (tell e >>= k) z :=
  fun s libs => then_ { s with events := e :: s.events } libs

theorem tellAll {events : List Grammar.Event} {k : Unit → Resolving γ}
    (then_ : Follows libraries view' (k ()) z) :
    Follows libraries view' ((events.forM fun e => tell (.parser e)) >>= k) z := by
  intro s libs
  unfold Runs
  rw [tellAll_bind]
  exact then_ _ libs

theorem noting {note : String} (h : Follows libraries view x y) :
    Follows libraries view (noting importer i note x) y := by
  rw [← bind_pure y]
  apply h.attempt_bind
  rintro (d | a)
  · exact throw
  · exact pure

theorem occupying {places : List Place} (h : Follows libraries view x y) :
    Follows libraries view (occupying places x) y := by
  intro s libs
  exact runs_occupying (h { s with busy := places ++ s.busy } libs)

theorem get_bind {k : Session → Resolving γ}
    (then_ : ∀ s, s.libraries = libraries → Follows libraries view' (k s) z) :
    Follows libraries view' (get >>= k) z :=
  fun s libs => then_ s libs s libs

theorem known?_bind {place : Place} {k : Option Program → Resolving γ}
    {l : Option Program → Looking (Option δ)}
    (then_ : ∀ found, Follows libraries view' (k found) (l found)) :
    Follows libraries view' (known? place >>= k) (do l ((← get).lookup place)) :=
  fun s libs => then_ (s.known.lookup place) s libs

theorem learn_bind {place : Place} {p : Program} {k : Unit → Resolving γ}
    (then_ : Follows libraries view' (k ()) z) :
    Follows libraries view' (learn place p >>= k) (do modify ((place, p) :: ·); z) :=
  fun s libs => then_ { s with known := (place, p) :: s.known } libs

end Follows

/-- A loader that follows a search, where the file of the import has a program. -/
def LoadFollows {busy : List Place} (setting : Setting) (load : Loader setting.fs busy)
    (look : Place → Program → Looking (Option Program)) : Prop :=
  ∀ importer i file place free, Follows setting.libraries some (load importer i file place free)
    (match Program.inFile? setting.fs file with
      | some p => look place p
      | none => pure none)

section Loader

variable {setting : Setting} {busy : List Place} {load : Loader setting.fs busy}
  {look : Place → Program → Looking (Option Program)} {importer : Source} {i : Import}
  {file : Path} {place : Place} {p : Program}

theorem follows_parseFile :
    Follows setting.libraries some (parseFile setting importer i file)
      (pure (Program.inFile? setting.fs file)) := by
  unfold parseFile
  cases found : Source.fromFile setting.fs file with
  | error e =>
    rw [Program.inFile?, found]
    exact .fail
  | ok source =>
    apply Follows.tell_bind
    unfold parseSource
    rw [bind_assoc]
    apply Follows.tellAll
    cases parsed : (parse source).result with
    | error d =>
      have none_ : Program.inFile? setting.fs file = none := by
        simp [Program.inFile?, found, parsed, Except.toOption]
      rw [none_]
      exact .throw
    | ok decls =>
      have some_ : Program.inFile? setting.fs file = some (.ofDecls source decls) :=
        Program.inFile?_eq_some.mpr ⟨source, decls, found, parsed, rfl⟩
      rw [some_]
      dsimp only
      rw [pure_bind]
      apply Follows.tell_bind
      exact .pure

theorem follows_programAt (loads : LoadFollows setting load look) (h : place ∈ setting.fs.places) :
    Follows setting.libraries some (programAt load importer i file place h)
      (enter look busy (place, Program.inFile? setting.fs file)) := by
  unfold enter programAt
  apply Follows.known?_bind
  rintro (_ | p)
  · dsimp only
    split
    next free =>
      have below := loads importer i file place ⟨h, free⟩
      cases found : Program.inFile? setting.fs file with
      | some p =>
        rw [found] at below
        have loaded : enterBy look busy (place, some p) none = look place p :=
          if_neg (by simpa using free)
        rw [loaded]
        exact below.occupying.noting
      | none =>
        rw [found] at below
        exact below.occupying.noting
    next is_busy =>
      cases found : Program.inFile? setting.fs file with
      | some p =>
        have refused : enterBy look busy (place, some p) none = pure none :=
          if_pos (by simpa using is_busy)
        rw [refused]
        exact .fail
      | none => exact .fail
  · exact .tell_bind .pure

theorem follows_inDirectory (loads : LoadFollows setting load look) (directory : Path) :
    Follows setting.libraries some (inDirectory setting load importer i directory)
      (explore look busy i (spot? setting.fs importer (candidate directory i.parents)).toList) := by
  have nothing : other? setting.fs importer (candidate directory i.parents) = none →
      explore look busy i (spot? setting.fs importer (candidate directory i.parents)).toList =
        pure none := by
    intro none
    rw [spot?, none]
    rfl
  unfold inDirectory
  dsimp only
  split
  next same =>
    rw [nothing (by rw [other?, if_pos same])]
    exact .fail
  next different =>
    split
    next e failed =>
      rw [nothing (by rw [other?, if_neg different, failed])]
      exact .fail
    next place located =>
      split
      next own =>
        rw [nothing (by rw [other?, if_neg different, located]; exact if_pos own)]
        exact .fail
      next foreign =>
        have other : other? setting.fs importer (candidate directory i.parents) = some place := by
          rw [other?, if_neg different, located]
          exact if_neg foreign
        have there := FileSystem.mem_places_of_canonical located
        have found : Follows setting.libraries some
            (programAt load importer i (candidate directory i.parents) place there) _ :=
          follows_programAt loads there
        rw [spot?, other]
        exact found.bind rfl fun p => .pure

theorem explore_append (spots rest : List Spot) :
    explore look busy i (spots ++ rest) = (do
      match ← explore look busy i spots with
      | some m => pure (some m)
      | none => explore look busy i rest) := by
  induction spots with
  | nil => rfl
  | cons spot spots ih =>
    rw [List.cons_append, explore, explore, bind_assoc]
    congr 1
    funext found
    cases found with
    | some p => rfl
    | none => exact ih

/-- Some directories are searched for an import like their spots. -/
theorem follows_search (loads : LoadFollows setting load look) (directories : List Path) :
    Follows setting.libraries Except.toOption (search setting load importer i directories)
      (explore look busy i ((directories.map fun directory => candidate directory i.parents).filterMap
        (spot? setting.fs importer))) := by
  induction directories with
  | nil => exact .pure
  | cons directory rest ih =>
    have split : ((directory :: rest).map fun directory => candidate directory i.parents).filterMap
        (spot? setting.fs importer) =
        (spot? setting.fs importer (candidate directory i.parents)).toList ++
          (rest.map fun directory => candidate directory i.parents).filterMap
            (spot? setting.fs importer) := by
      rw [List.map_cons, List.filterMap_cons]
      cases spot? setting.fs importer (candidate directory i.parents) <;> rfl
    rw [split, explore_append]
    unfold search
    apply (follows_inDirectory loads directory).attempt_bind
    rintro (d | m)
    · apply ih.then_pure
      rintro (more | m)
      · exact .pure
      · exact .pure
    · exact .pure

theorem follows_relativeRoot :
    Follows setting.libraries some (relativeRoot setting importer i)
      (pure (relativeRoot? setting importer)) := by
  unfold relativeRoot
  cases relativeRoot? setting importer with
  | some directory =>
    apply Follows.ite
    · exact .tell_bind .pure
    · exact .pure
  | none =>
    apply Follows.ite
    · exact .tell_bind .fail
    · exact .fail

theorem follows_resolveImport (loads : LoadFollows setting load look) :
    Follows setting.libraries some (resolveImport setting load importer i)
      (explore look busy i (spots setting importer i)) := by
  unfold resolveImport
  by_cases relative : i.relative = true
  · rw [if_pos relative]
    apply follows_relativeRoot.clear_bind
    · intro nowhere
      have none_ : spots setting importer i = [] := by
        simp [spots, candidates, relative, nowhere]
      rw [none_]
      rfl
    · intro directory start
      have candidates_eq : candidates setting importer i = [candidate directory i.parents] := by
        simp [candidates, relative, ← start]
      have only : spots setting importer i =
          (spot? setting.fs importer (candidate directory i.parents)).toList := by
        rw [spots, candidates_eq, List.filterMap_cons]
        cases spot? setting.fs importer (candidate directory i.parents) <;> rfl
      rw [only]
      exact .tell_bind (follows_inDirectory loads directory).noting
  · rw [if_neg relative]
    have all : spots setting importer i = (setting.libraries.map fun directory =>
        candidate directory i.parents).filterMap (spot? setting.fs importer) := by
      simp [spots, candidates, relative]
    rw [all]
    apply (follows_search loads setting.libraries).then_pure
    rintro (failures | m)
    · exact .throw
    · exact .pure

/-- The modules of a resolution that has gone through to the end. -/
def Resolution.whole (r : Resolution) : Option (List Module) :=
  match r.error with
  | none => some r.modules
  | some _ => none

theorem follows_resolveEach (loads : LoadFollows setting load look) (imports : List Import) :
    Follows setting.libraries Resolution.whole (resolveEach setting load importer imports)
      (exploreEach setting look busy importer imports) := by
  induction imports with
  | nil => exact .pure
  | cons i rest ih =>
    unfold resolveEach exploreEach
    apply (follows_resolveImport loads).attempt_bind
    rintro (d | m)
    · exact .pure
    · dsimp only [Except.toOption, Option.bind]
      apply ih.bind
      · rfl
      intro r
      have whole : Resolution.whole { r with modules := m :: r.modules } =
          r.whole.map (m :: ·) := by
        unfold Resolution.whole
        cases r.error <;> rfl
      rw [← whole]
      exact .pure

/-- The program of a resolution that has gone through to the end. -/
def wholeProgram (found : Program × Option Diagnostic) : Option Program :=
  match found.2 with
  | none => some found.1
  | some _ => none

theorem follows_resolveProgram (loads : LoadFollows setting load look) :
    Follows setting.libraries wholeProgram (resolveProgram setting load p)
      (exploreProgram setting look busy p) := by
  apply Follows.tell_bind
  apply (follows_resolveEach loads p.imports).bind
  · rfl
  intro r
  have whole : wholeProgram ({ p with modules := p.modules ++ r.modules }, r.error) =
      r.whole.map fun modules => { p with modules := p.modules ++ modules } := by
    unfold wholeProgram Resolution.whole
    cases r.error <;> rfl
  rw [← whole]
  exact .pure

end Loader

variable {setting : Setting} {busy : List Place} {fs : FileSystem} {libraries : List Path}

/-- Loads follow a search that nests them as deep as there are free places. -/
theorem follows_load {n : Nat} (enough : freePlaces setting.fs busy ≤ n) :
    LoadFollows setting (load setting busy) (exploreBelow setting n busy) := by
  induction n generalizing busy with
  | zero =>
    intro importer i file place free
    have fewer := freePlaces_lt free
    omega
  | succ n ih =>
    intro importer i file place free
    have fewer := freePlaces_lt free
    have within : freePlaces setting.fs (place :: busy) ≤ n := by omega
    rw [load]
    apply follows_parseFile.clear_bind
    · intro unread
      rw [unread]
    · rintro p read
      rw [← read]
      unfold exploreBelow
      apply (follows_resolveProgram (ih within)).bind
      · rfl
      rintro ⟨q, _ | d⟩
      · exact .learn_bind .pure
      · exact .throw

/-- A resolution of a root program finds what a search finds, and knows the same afterwards. -/
theorem follows_resolveAll (fs : FileSystem) (libraries : List Path) (root : Program) :
    Follows libraries some (resolveAll fs root) (exploreRoot fs libraries root) := by
  have enough : freePlaces fs (rootPlaces fs root.source) ≤ fs.places.length :=
    List.length_filter_le _ _
  have loads : LoadFollows (rootSetting fs libraries root) _ _ := follows_load enough
  have program : Follows libraries wholeProgram
      (resolveProgram (rootSetting fs libraries root) _ root) _ := follows_resolveProgram loads
  have resolved : Follows libraries wholeProgram (resolveRoot fs root)
      (exploreRoot fs libraries root) := by
    unfold resolveRoot resolveWith
    apply Follows.get_bind
    rintro s rfl
    apply Follows.tell_bind
    apply program.occupying.then_pure
    rintro ⟨p, _ | d⟩
    · exact .tell_bind .pure
    · exact .pure
  apply resolved.then_pure
  rintro ⟨p, _ | d⟩
  · exact .pure
  · exact .throw

section Outcome

variable {root p : Program} {s s' : Session} {d : Diagnostic}

/-- What a root program is resolved to is what the search for it finds. -/
theorem explore_of_ok (libs : s.libraries = libraries) (run : resolveAll fs root s = .ok p s') :
    (exploreRoot fs libraries root).run s.known = (some p, s'.known) := by
  have ends := follows_resolveAll fs libraries root s libs
  unfold Runs at ends
  rw [run] at ends
  exact ends.2

/-- A root program can be resolved if and only if the search for it finds something. -/
theorem ok_iff_explore (libs : s.libraries = libraries) :
    (∃ p s', resolveAll fs root s = .ok p s') ↔
      ((exploreRoot fs libraries root).run s.known).1.isSome = true := by
  have ends := follows_resolveAll fs libraries root s libs
  unfold Runs at ends
  cases run : resolveAll fs root s with
  | ok p s' =>
    rw [run] at ends
    rw [ends.2]
    exact ⟨fun _ => rfl, fun _ => ⟨p, s', rfl⟩⟩
  | error d s' =>
    rw [run] at ends
    rw [ends.2]
    exact ⟨nofun, nofun⟩

/-- What a search for a root program finds is what the root program is resolved to. -/
theorem ok_of_explore (libs : s.libraries = libraries)
    (found : ((exploreRoot fs libraries root).run s.known).1 = some p) :
    ∃ s', resolveAll fs root s = .ok p s' := by
  obtain ⟨q, s', run⟩ := (ok_iff_explore libs).mpr (by rw [found]; rfl)
  rw [explore_of_ok libs run] at found
  cases found
  exact ⟨s', run⟩

/-- A session goes on with what the search for a root program makes known. -/
theorem known_next (libs : s.libraries = libraries) :
    (s.next (fs, root)).libraries = libraries ∧
      (s.next (fs, root)).known = ((exploreRoot fs libraries root).run s.known).2 := by
  have ends := follows_resolveAll fs libraries root s libs
  unfold Runs at ends
  unfold Session.next
  dsimp only
  cases run : resolveAll fs root s with
  | ok p s' =>
    rw [run] at ends
    rw [ends.2]
    exact ⟨ends.1, rfl⟩
  | error d s' =>
    rw [run] at ends
    rw [ends.2]
    exact ⟨ends.1, rfl⟩

end Outcome

section Evaluation

variable {load : Place → Program → Looking (Option Program)} {known : List (Place × Program)}
  {place : Place} {p : Program} {i : Import} {n : Nat} {spot : Spot} {rest : List Spot}
  {importer : Source} {imports : List Import}

@[simp] theorem run_pure {α : Type} {a : α} : (pure a : Looking α).run known = (a, known) := rfl

@[simp] theorem run_enter : (enter load busy spot).run known =
    (enterBy load busy spot (known.lookup spot.1)).run known := rfl

@[simp] theorem run_explore_nil : (explore load busy i []).run known = (none, known) := rfl

@[simp] theorem run_explore_cons : (explore load busy i (spot :: rest)).run known =
    match (enter load busy spot).run known with
    | (some p, known) => (some (moduleOf i spot.1 p), known)
    | (none, known) => (explore load busy i rest).run known := by
  rw [explore, StateT.run_bind]
  generalize (enter load busy spot).run known = found
  obtain ⟨_ | p, known⟩ := found <;> rfl

@[simp] theorem run_exploreEach_nil :
    (exploreEach setting load busy importer []).run known = (some [], known) := rfl

@[simp] theorem run_exploreEach_cons : (exploreEach setting load busy importer (i :: imports)).run known =
    match (explore load busy i (spots setting importer i)).run known with
    | (some m, known) =>
      let found := (exploreEach setting load busy importer imports).run known
      (found.1.map (m :: ·), found.2)
    | (none, known) => (none, known) := by
  rw [exploreEach, StateT.run_bind]
  generalize (explore load busy i (spots setting importer i)).run known = found
  obtain ⟨_ | p, known⟩ := found <;> rfl

@[simp] theorem run_exploreProgram : (exploreProgram setting load busy p).run known =
    let found := (exploreEach setting load busy p.source p.imports).run known
    (found.1.map fun modules => { p with modules := p.modules ++ modules }, found.2) := rfl

@[simp] theorem run_exploreBelow : (exploreBelow setting (n + 1) busy place p).run known =
    match (exploreProgram setting (exploreBelow setting n (place :: busy)) (place :: busy) p).run
      known with
    | (some p, known) => (some p, (place, p) :: known)
    | (none, known) => (none, known) := by
  rw [exploreBelow, StateT.run_bind]
  generalize (exploreProgram _ _ _ _).run known = found
  obtain ⟨_ | p, known⟩ := found <;> rfl

/-- The files of a program's modules, each with the files of the modules below it. -/
def outline (p : Program) : List (String × List String) :=
  p.modules.map fun m => (m.program.source.name, m.program.modules.map (·.program.source.name))

variable {code : String}

theorem exploreRoot_shelves : exploreRoot shelves [⟨"/k"⟩, ⟨"/l"⟩] (memo code imports) =
    exploreProgram (shelving (some ⟨"/"⟩)) (exploreBelow (shelving (some ⟨"/"⟩)) 9 []) []
      (memo code imports) := rfl

theorem exploreRoot_desk : exploreRoot desk [⟨"/l"⟩] (memo code imports) =
    exploreProgram desking (exploreBelow desking 7 []) [] (memo code imports) := rfl

end Evaluation

end Frontend.Importing
