import Frontend.Proofs.Outcomes
import Frontend.Proofs.Spots

/-!
What a resolution parses. A file is not parsed once it is known, nor while it is busy; so what one
step parses is parsed again by a later step only if it has not become known, because its own imports
failed. Such a failure is passed over only where an import has another candidate. Where no import
has two of them, the failure of a file ends the whole resolution, and every file is parsed once at
most.

`Spent` says what a step from one session to another has parsed, and `Spends` holds of a
computation whose runs do so. Each way to put computations together has a rule, and each part of a
resolution a lemma.
-/
namespace Frontend.Importing

/-- The file at a place is what is parsed under a name. -/
def ParsedAt (fs : FileSystem) (name : String) (place : Place) : Prop :=
  ∃ file source, fs.canonical file = .ok place ∧ Source.fromFile fs file = .ok source ∧
    source.name = name

/-- A session knows the program at a place. -/
def Session.Knows (s : Session) (place : Place) : Prop := (s.known.lookup place).isSome

/-- From one session to another one, the files at some places are parsed, the latest first. None of
them is known before, or spared. If nothing is passed over, none is parsed twice. -/
structure Spent (fs : FileSystem) (nothingPassed : Prop) (spared : List Place) (s s' : Session)
    (places : List Place) : Prop where
  events : ∃ new, s'.events = new ++ s.events ∧ List.Forall₂ (ParsedAt fs) (parsings new) places
  keeps : ∀ place, s.Knows place → s'.Knows place
  fresh : ∀ place ∈ places, ¬ s.Knows place ∧ place ∉ spared
  once : nothingPassed → places.Nodup

/-- A computation parses files. If nothing is passed over, and its value settles it, all of them are
known in the end. -/
def Spends {α : Type} (fs : FileSystem) (nothingPassed : Prop) (spared : List Place) (s : Session)
    (x : Resolving α) (settles : α → Prop) : Prop :=
  Runs x s
    (fun a s' => ∃ places, Spent fs nothingPassed spared s s' places ∧
      (nothingPassed → settles a → ∀ place ∈ places, s'.Knows place))
    (fun s' => ∃ places, Spent fs nothingPassed spared s s' places)

variable {fs : FileSystem} {nothingPassed : Prop} {spared : List Place} {s s' s'' : Session}
  {places places' : List Place} {place : Place} {importer : Source} {i : Import} {file : Path}

theorem Session.knows_learn {there : Place} {p : Program} :
    Session.Knows { s with known := (place, p) :: s.known } there ↔
      there = place ∨ s.Knows there := by
  unfold Knows
  by_cases same : there = place
  · simp [same]
  · simp [lookup_cons_of_ne same, same]

namespace Spent

theorem refl : Spent fs nothingPassed spared s s [] :=
  ⟨⟨[], rfl, .nil⟩, fun _ => id, nofun, fun _ => .nil⟩

/-- What is parsed later on is parsed elsewhere. -/
theorem trans (first : Spent fs nothingPassed spared s s' places)
    (second : Spent fs nothingPassed spared s' s'' places')
    (apart : nothingPassed → ∀ place ∈ places', place ∉ places) :
    Spent fs nothingPassed spared s s'' (places' ++ places) where
  events := by
    obtain ⟨new, events, parsed⟩ := first.events
    obtain ⟨new', events', parsed'⟩ := second.events
    refine ⟨new' ++ new, by rw [events', events, List.append_assoc], ?_⟩
    rw [parsings_append]
    exact List.rel_append parsed' parsed
  keeps place known := second.keeps place (first.keeps place known)
  fresh place mem := by
    obtain late | early := List.mem_append.mp mem
    · obtain ⟨unknown, free⟩ := second.fresh place late
      exact ⟨fun known => unknown (first.keeps place known), free⟩
    · exact first.fresh place early
  once nothing := List.nodup_append.mpr ⟨second.once nothing, first.once nothing,
    fun place late other early same => apart nothing place late (same ▸ early)⟩

/-- What is spared among more places is spared among fewer. -/
theorem forget (spent : Spent fs nothingPassed (place :: spared) s s' places) :
    Spent fs nothingPassed spared s s' places :=
  { spent with
    fresh := by
      intro there mem
      obtain ⟨unknown, free⟩ := spent.fresh there mem
      exact ⟨unknown, fun spare => free (List.mem_cons_of_mem _ spare)⟩ }

end Spent

namespace Spends

variable {α β : Type} {x : Resolving α} {k : α → Resolving β} {settles settles' mid : α → Prop}
  {final : β → Prop}

theorem idle {holds : α → Prop} (h : Idles s x holds) :
    Spends fs nothingPassed spared s x settles := by
  apply Runs.mono h
  · rintro a _ ⟨rfl, -⟩
    exact ⟨[], .refl, fun _ _ => nofun⟩
  · rintro _ rfl
    exact ⟨[], .refl⟩

theorem pure {a : α} : Spends fs nothingPassed spared s (Pure.pure a) settles :=
  idle (.pure trivial : Idles s _ fun _ => True)

theorem throw {d : Diagnostic} : Spends fs nothingPassed spared s (throw d : Resolving α) settles :=
  idle (.throw : Idles s _ fun _ => True)

theorem fail {cause : Cause} :
    Spends fs nothingPassed spared s (fail importer i cause : Resolving α) settles :=
  throw

theorem mono (h : Spends fs nothingPassed spared s x settles)
    (stronger : ∀ a, settles' a → settles a) : Spends fs nothingPassed spared s x settles' := by
  apply Runs.mono h
  · rintro a s' ⟨places, spent, known⟩
    exact ⟨places, spent, fun nothing settled => known nothing (stronger a settled)⟩
  · exact fun _ failed => failed

/-- What goes on with a value that settles what is parsed before it parses other files. With another
value, nothing more is parsed if nothing is passed over. -/
theorem bind (first : Spends fs nothingPassed spared s x mid)
    (then_ : ∀ a s', Spends fs nothingPassed spared s' (k a) final)
    (ended : nothingPassed → ∀ a s', ¬ mid a → Idles s' (k a) (¬ final ·)) :
    Spends fs nothingPassed spared s (x >>= k) final := by
  apply Runs.bind first
  rintro a s' ⟨places, spent, known⟩
  by_cases stopped : nothingPassed ∧ ¬ mid a
  · apply (ended stopped.1 a s' stopped.2).mono
    · rintro b _ ⟨rfl, unsettled⟩
      exact ⟨places, spent, fun _ settled => absurd settled unsettled⟩
    · rintro _ rfl
      exact ⟨places, spent⟩
  · have known : nothingPassed → ∀ place ∈ places, s'.Knows place :=
      fun nothing => known nothing (by_contra fun unsettled => stopped ⟨nothing, unsettled⟩)
    have together : ∀ {s'' places'}, Spent fs nothingPassed spared s' s'' places' →
        Spent fs nothingPassed spared s s'' (places' ++ places) := fun spent' =>
      spent.trans spent' fun nothing place late early =>
        (spent'.fresh place late).1 (known nothing place early)
    apply Runs.mono (then_ a s')
    · rintro b s'' ⟨places', spent', known'⟩
      refine ⟨_, together spent', fun nothing settled place mem => ?_⟩
      obtain late | early := List.mem_append.mp mem
      · exact known' nothing settled place late
      · exact spent'.keeps place (known nothing place early)
    · rintro s'' ⟨places', spent'⟩
      exact ⟨_, together spent'⟩

/-- An attempt that fails settles nothing. -/
theorem attempt (h : Spends fs nothingPassed spared s x settles) :
    Spends fs nothingPassed spared s (attempt x) fun found => ∃ a, found = .ok a ∧ settles a := by
  apply Runs.mono (Runs.attempt h)
  · rintro (d | a) s' ends
    · obtain ⟨places, spent⟩ := ends
      exact ⟨places, spent, fun _ ⟨_, impossible, _⟩ => nomatch impossible⟩
    · obtain ⟨places, spent, known⟩ := ends
      refine ⟨places, spent, ?_⟩
      rintro nothing ⟨_, ⟨⟩, settled⟩
      exact known nothing settled
  · exact fun _ failed => failed

theorem noting {note : String} (h : Spends fs nothingPassed spared s x settles) :
    Spends fs nothingPassed spared s (noting importer i note x) settles := by
  apply h.attempt.bind
  · rintro (d | a) s'
    · exact throw
    · exact pure
  · rintro - (d | a) s' unsettled
    · exact .throw
    · exact .pure fun settled => unsettled ⟨a, rfl, settled⟩

/-- What is busy makes no difference to what is parsed and known. -/
theorem occupying {busy : List Place}
    (h : ∀ s' : Session, s'.known = s.known → Spends fs nothingPassed spared s' x settles) :
    Spends fs nothingPassed spared s (occupying busy x) settles := by
  have carried : ∀ {s' : Session} {places},
      Spent fs nothingPassed spared { s with busy := busy ++ s.busy } s' places →
      Spent fs nothingPassed spared s { s' with busy := s'.busy.filter (· ∉ busy) } places :=
    fun spent => ⟨spent.events, spent.keeps, spent.fresh, spent.once⟩
  apply runs_occupying
  apply Runs.mono (h { s with busy := busy ++ s.busy } rfl)
  · rintro a s' ⟨places, spent, known⟩
    exact ⟨places, carried spent, known⟩
  · rintro s' ⟨places, spent⟩
    exact ⟨places, carried spent⟩

/-- Of what is told, only what is parsed counts. -/
theorem tell_bind {e : Event} {k : Unit → Resolving β} (other : e.parsing? = none)
    (then_ : ∀ s', s'.known = s.known → Spends fs nothingPassed spared s' (k ()) final) :
    Spends fs nothingPassed spared s (tell e >>= k) final := by
  have told : ∀ {s'' places},
      Spent fs nothingPassed spared { s with events := e :: s.events } s'' places →
      Spent fs nothingPassed spared s s'' places := by
    rintro s'' places ⟨⟨new, events, parsed⟩, keeps, fresh, once⟩
    refine ⟨⟨new ++ [e], by simp [events], ?_⟩, keeps, fresh, once⟩
    simpa [parsings, other] using parsed
  apply Runs.modify_bind
  apply Runs.mono (then_ { s with events := e :: s.events } rfl)
  · rintro b s'' ⟨places, spent, known⟩
    exact ⟨places, told spent, known⟩
  · rintro s'' ⟨places, spent⟩
    exact ⟨places, told spent⟩

/-- What comes after a computation that does nothing is all that counts. -/
theorem idle_bind {holds : α → Prop} (first : Idles s x holds)
    (then_ : ∀ a, holds a → Spends fs nothingPassed spared s (k a) final) :
    Spends fs nothingPassed spared s (x >>= k) final := by
  apply Runs.bind (Runs.mono first (fun _ _ ends => ends) ?_)
  · rintro a _ ⟨rfl, held⟩
    exact then_ a held
  · rintro _ rfl
    exact ⟨[], .refl⟩

theorem known?_bind {k : Option Program → Resolving β}
    (then_ : Spends fs nothingPassed spared s (k (s.known.lookup place)) final) :
    Spends fs nothingPassed spared s (known? place >>= k) final :=
  then_

theorem get_bind {k : Session → Resolving β}
    (then_ : Spends fs nothingPassed spared s (k s) final) :
    Spends fs nothingPassed spared s (get >>= k) final :=
  then_

theorem ite {cond : Prop} [Decidable cond] {y : Resolving α}
    (yes : cond → Spends fs nothingPassed spared s x settles)
    (no : ¬ cond → Spends fs nothingPassed spared s y settles) :
    Spends fs nothingPassed spared s (if cond then x else y) settles := by
  by_cases h : cond
  · rw [if_pos h]
    exact yes h
  · rw [if_neg h]
    exact no h

end Spends

/-- No import has a candidate in two of the directories. -/
def Lone (fs : FileSystem) (directories : List Path) : Prop :=
  ∀ parents, (directories.filter (hasCandidate fs parents)).length ≤ 1

/-- A loader that parses a file that is not known, and makes all known that it parses. -/
def SpendsLoading (nothingPassed : Prop) (setting : Setting) (busy : List Place)
    (load : Loader setting.fs busy) : Prop :=
  ∀ importer i file place free s, setting.fs.canonical file = .ok place → ¬ s.Knows place →
    Spends setting.fs nothingPassed busy s (load importer i file place free) fun _ => True

section Import

variable {setting : Setting} {busy : List Place} {load : Loader setting.fs busy} {directory : Path}

theorem spends_relativeRoot :
    Spends fs nothingPassed spared s (relativeRoot setting importer i) fun _ => True := by
  unfold relativeRoot
  cases relativeRoot? setting importer with
  | some root =>
    apply Spends.ite
    · exact fun _ => .tell_bind rfl fun _ _ => .pure
    · exact fun _ => .pure
  | none =>
    apply Spends.ite
    · exact fun _ => .tell_bind rfl fun _ _ => .fail
    · exact fun _ => .fail

variable (loads : SpendsLoading nothingPassed setting busy load)

include loads

theorem spends_programAt (located : setting.fs.canonical file = .ok place)
    (there : place ∈ setting.fs.places) :
    Spends setting.fs nothingPassed busy s (programAt load importer i file place there)
      fun _ => True := by
  apply Spends.known?_bind
  cases found : s.known.lookup place with
  | some p => exact .tell_bind rfl fun _ _ => .pure
  | none =>
    dsimp only
    split
    next free =>
      apply Spends.noting
      apply Spends.occupying
      intro s' same
      apply loads importer i file place ⟨there, free⟩ s' located
      simp [Session.Knows, same, found]
    next => exact .fail

theorem spends_inDirectory :
    Spends setting.fs nothingPassed busy s (inDirectory setting load importer i directory)
      fun _ => True := by
  unfold inDirectory
  apply Spends.ite
  · exact fun _ => .fail
  · intro _
    split
    next => exact .fail
    next place located =>
      apply Spends.ite
      · exact fun _ => .fail
      · intro _
        apply (spends_programAt loads located _).bind
        · exact fun p s' => .pure
        · exact fun _ p s' unsettled => absurd trivial unsettled

/-- Where only one directory has a candidate, nothing is parsed once it has failed. -/
theorem spends_search {directories : List Path}
    (lone : nothingPassed → (directories.filter (hasCandidate setting.fs i.parents)).length ≤ 1) :
    Spends setting.fs nothingPassed busy s (search setting load importer i directories)
      fun found => ∃ m, found = .ok m := by
  induction directories generalizing s with
  | nil => exact .pure
  | cons directory rest ih =>
    unfold search
    have others : ∀ s', (nothingPassed →
        (rest.filter (hasCandidate setting.fs i.parents)).length ≤ 1) →
        ∀ k : Except (List Diagnostic) Module → Resolving (Except (List Diagnostic) Module),
        (∀ m, k (.ok m) = pure (.ok m)) → (∀ more, ∃ ds, k (.error more) = pure (.error ds)) →
        Spends setting.fs nothingPassed busy s' (search setting load importer i rest >>= k)
          fun found => ∃ m, found = .ok m := by
      intro s' lone k found failed
      apply (ih lone).bind
      · rintro (more | m) s''
        · obtain ⟨ds, error⟩ := failed more
          rw [error]
          exact .pure
        · rw [found]
          exact .pure
      · rintro - (more | m) s'' unsettled
        · obtain ⟨ds, error⟩ := failed more
          rw [error]
          exact .pure (by simp)
        · exact absurd ⟨m, rfl⟩ unsettled
    cases here : hasCandidate setting.fs i.parents directory with
    | false =>
      rw [List.filter_cons_of_neg (by simp [here])] at lone
      apply Spends.idle_bind (idles_inDirectory here).attempt
      rintro _ ⟨d, rfl⟩
      exact others s lone _ (fun _ => rfl) fun _ => ⟨_, rfl⟩
    | true =>
      rw [List.filter_cons_of_pos here] at lone
      simp only [List.length_cons] at lone
      apply (spends_inDirectory loads).attempt.bind
      · rintro (d | m) s'
        · have fewer : nothingPassed →
              (rest.filter (hasCandidate setting.fs i.parents)).length ≤ 1 := by
            intro nothing
            have := lone nothing
            omega
          exact others s' fewer _ (fun _ => rfl) fun _ => ⟨_, rfl⟩
        · exact .pure
      · rintro nothing (d | m) s' unsettled
        · have none : rest.filter (hasCandidate setting.fs i.parents) = [] := by
            have := lone nothing
            exact List.eq_nil_of_length_eq_zero (by omega)
          have missing : ∀ directory ∈ rest,
              hasCandidate setting.fs i.parents directory = false := by
            simpa using List.filter_eq_nil_iff.mp none
          apply (idles_search missing).bind
          rintro _ ⟨ds, rfl⟩
          exact .pure (by simp)
        · exact absurd ⟨m, rfl, trivial⟩ unsettled

variable (lone : nothingPassed → Lone setting.fs setting.libraries)

include lone

theorem spends_resolveImport :
    Spends setting.fs nothingPassed busy s (resolveImport setting load importer i)
      fun _ => True := by
  unfold resolveImport
  apply Spends.ite
  · intro _
    apply spends_relativeRoot.bind
    · intro root s'
      exact .tell_bind rfl fun s'' _ => (spends_inDirectory loads).noting
    · exact fun _ root s' unsettled => absurd trivial unsettled
  · intro _
    apply (spends_search loads fun nothing => lone nothing i.parents).bind
    · rintro (failures | m) s'
      · exact .throw
      · exact .pure
    · rintro - (failures | m) s' unsettled
      · exact .throw
      · exact absurd ⟨m, rfl⟩ unsettled

theorem spends_resolveEach (imports : List Import) :
    Spends setting.fs nothingPassed busy s (resolveEach setting load importer imports)
      fun r => r.error = none := by
  induction imports generalizing s with
  | nil => exact .pure
  | cons i rest ih =>
    unfold resolveEach
    apply (spends_resolveImport loads lone).attempt.bind
    · rintro (d | m) s'
      · exact .pure
      · apply ih.bind
        · exact fun r s'' => .pure
        · exact fun _ r s'' unsettled => .pure unsettled
    · rintro - (d | m) s' unsettled
      · exact .pure (by simp)
      · exact absurd ⟨m, rfl, trivial⟩ unsettled

theorem spends_resolveProgram (p : Program) :
    Spends setting.fs nothingPassed busy s (resolveProgram setting load p)
      fun found => found.2 = none := by
  unfold resolveProgram
  apply Spends.tell_bind rfl
  intro s' _
  apply (spends_resolveEach loads lone p.imports).bind
  · exact fun r s'' => .pure
  · exact fun _ r s'' unsettled => .pure unsettled

end Import

/-- A file that is read is parsed, also if that fails. -/
theorem spent_parseFile {setting : Setting} (located : setting.fs.canonical file = .ok place)
    (new : ¬ s.Knows place) (free : place ∉ spared) :
    Runs (parseFile setting importer i file) s
      (fun _ s' => s'.known = s.known ∧ Spent setting.fs nothingPassed spared s s' [place])
      (fun s' => ∃ places, Spent setting.fs nothingPassed spared s s' places) := by
  unfold parseFile
  cases found : Source.fromFile setting.fs file with
  | error e => exact ⟨[], .refl⟩
  | ok source =>
    have parsed : ParsedAt setting.fs source.name place := ⟨file, source, located, found, rfl⟩
    have spent : ∀ s' : Session, s'.known = s.known → (∃ new, s'.events = new ++ s.events ∧
        parsings new = [source.name]) → Spent setting.fs nothingPassed spared s s' [place] := by
      rintro s' same ⟨events, grown, names⟩
      refine ⟨⟨events, grown, names ▸ .cons parsed .nil⟩, ?_, ?_, fun _ => by simp⟩
      · exact fun there known => by rwa [Session.Knows, same]
      · simpa using ⟨new, free⟩
    dsimp only
    apply Runs.modify_bind
    unfold parseSource
    rw [bind_assoc]
    unfold Runs
    rw [tellAll_bind]
    cases (parse source).result with
    | error d =>
      refine ⟨[place], spent _ rfl ⟨_, List.append_cons .., ?_⟩⟩
      rw [parsings_append, parsings_of_grammar]
      rfl
    | ok decls =>
      refine ⟨rfl, spent _ rfl ⟨.parsed source.name :: _, congrArg _ (List.append_cons ..), ?_⟩⟩
      show parsings (_ ++ _) = _
      rw [parsings_append, parsings_of_grammar]
      rfl

/-- Loading parses the file and then those that it needs, none of them at its own place. -/
theorem spends_loadFile {setting : Setting} {busy : List Place}
    {deeper : Loader setting.fs (place :: busy)}
    (loads : SpendsLoading nothingPassed setting (place :: busy) deeper)
    (lone : nothingPassed → Lone setting.fs setting.libraries)
    (located : setting.fs.canonical file = .ok place) (free : place ∉ busy)
    (new : ¬ s.Knows place) :
    Spends setting.fs nothingPassed busy s (loadFile setting deeper importer i file place)
      fun _ => True := by
  apply (spent_parseFile located new free).bind
  rintro p s' ⟨same, parsed⟩
  have apart : ∀ {s'' places}, Spent setting.fs nothingPassed (place :: busy) s' s'' places →
      Spent setting.fs nothingPassed busy s s'' (places ++ [place]) := fun spent =>
    parsed.trans spent.forget fun _ there mem => by
      rw [List.mem_singleton]
      exact fun here => (spent.fresh there mem).2 (here ▸ List.mem_cons_self)
  have resolved := spends_resolveProgram (s := s') loads lone p
  apply (Runs.mono resolved (fun _ _ ends => ends) ?_).bind
  · rintro ⟨q, error⟩ s'' ⟨places, spent, known⟩
    cases error with
    | some d => exact ⟨_, apart spent⟩
    | none =>
      -- The file becomes known itself, and all that it needs is known by then.
      have together := apart spent
      refine ⟨_, ⟨together.events, ?_, together.fresh, together.once⟩, ?_⟩
      · exact fun there old => Session.knows_learn.mpr (.inr (together.keeps there old))
      · intro nothing _ there mem
        apply Session.knows_learn.mpr
        obtain needed | own := List.mem_append.mp mem
        · exact .inr (known nothing rfl there needed)
        · exact .inl (List.mem_singleton.mp own)
  · rintro s'' ⟨places, spent⟩
    exact ⟨_, apart spent⟩

theorem spends_load (setting : Setting) (lone : nothingPassed → Lone setting.fs setting.libraries)
    (busy : List Place) : SpendsLoading nothingPassed setting busy (load setting busy) := by
  generalize size : freePlaces setting.fs busy = n
  induction n using Nat.strongRecOn generalizing busy with
  | ind n ih =>
    intro importer i file place free s located new
    have deeper := ih _ (size ▸ freePlaces_lt free) (place :: busy) rfl
    rw [load]
    exact spends_loadFile deeper lone located free.2 new

theorem spends_resolveRoot (root : Program) (lone : nothingPassed → Lone fs s.libraries) :
    Spends fs nothingPassed (rootPlaces fs root.source) s (resolveRoot fs root)
      fun found => found.2 = none := by
  unfold resolveRoot resolveWith
  apply Spends.get_bind
  apply Spends.tell_bind rfl
  intro s' _
  have loads := spends_load ⟨fs, s.libraries, projectOf fs root.source⟩ lone
    (rootPlaces fs root.source)
  apply (Spends.occupying fun s'' _ => spends_resolveProgram loads lone root).bind
  · rintro ⟨p, error⟩ s''
    apply Spends.ite
    · exact fun _ => .tell_bind rfl fun _ _ => .pure
    · exact fun _ => .pure
  · rintro - ⟨p, error⟩ s'' unsettled
    cases error with
    | none => exact absurd rfl unsettled
    | some d => exact .pure nofun

/-- Whatever a session knows, and whether or not the imports of one more root program can be
resolved, no file is parsed that is known or that is the root program's own. If no import has a
candidate in two libraries, each file is parsed once at most, also if its own imports cannot be
resolved. -/
theorem parsed_once (fs : FileSystem) (root : Program) (s : Session) :
    ∃ new places, (s.next (fs, root)).events = new ++ s.events ∧
      List.Forall₂ (ParsedAt fs) (parsings new) places ∧
      (∀ place ∈ places, s.known.lookup place = none ∧ place ∉ rootPlaces fs root.source) ∧
      (Lone fs s.libraries → places.Nodup) := by
  have spends : Spends fs (Lone fs s.libraries) (rootPlaces fs root.source) s (resolveAll fs root)
      fun _ => True := by
    apply (spends_resolveRoot root id).bind
    · rintro ⟨p, _ | d⟩ s'
      · exact .pure
      · exact .throw
    · rintro - ⟨p, _ | d⟩ s' unsettled
      · exact absurd rfl unsettled
      · exact .throw
  have ends : Runs (resolveAll fs root) s
      (fun _ s' => ∃ places, Spent fs (Lone fs s.libraries) (rootPlaces fs root.source) s s' places)
      fun s' => ∃ places, Spent fs (Lone fs s.libraries) (rootPlaces fs root.source) s s' places := by
    apply Runs.mono spends
    · rintro p s' ⟨places, spent, -⟩
      exact ⟨places, spent⟩
    · exact fun _ failed => failed
  obtain ⟨places, spent⟩ := next_of_runs ends
  obtain ⟨new, events, parsed⟩ := spent.events
  refine ⟨new, places, events, parsed, fun place mem => ?_, spent.once⟩
  obtain ⟨unknown, free⟩ := spent.fresh place mem
  exact ⟨Option.not_isSome_iff_eq_none.mp unknown, free⟩

/-- Two libraries. What the first one has as `f` imports something that is in neither. -/
def annex : FileSystem where
  entries := [(["k"], .directory), (["l"], .directory),
    (["k", "f.dcs"], .file (Utf8.ofString "import x.a")),
    (["l", "f.dcs"], .file (Utf8.ofString "type a b"))]
  current := ⟨"/"⟩

def annexed : Setting := ⟨annex, [⟨"/k"⟩, ⟨"/l"⟩], some ⟨"/"⟩⟩

/-- A program that imports `f` twice. -/
def again : Program :=
  memo "import f.a\nimport f.a" [importLine 0 1 10 false ["f"], importLine 11 2 10 false ["f"]]

theorem stored_broken : Stored annexed.fs "/k/f.dcs" ["k", "f.dcs"]
    (importing "/k/f.dcs" "import x.a" false ["x"]) :=
  stored_of_locate rfl (by decide) (by cbv) (by cbv)

theorem stored_whole : Stored annexed.fs "/l/f.dcs" ["l", "f.dcs"] (defining "/l/f.dcs") :=
  stored_of_locate rfl (by decide) (by cbv) (parse_defining _)

theorem missing_annex :
    ∀ directory ∈ annexed.libraries, hasCandidate annexed.fs ["x"] directory = false := by
  have nowhere : annex.locate ⟨"/k/x.dcs"⟩ = .error .notFound ∧
      annex.locate ⟨"/l/x.dcs"⟩ = .error .notFound := ⟨by cbv, by cbv⟩
  simp [annexed, hasCandidate, shelf_paths, FileSystem.canonical, nowhere, Except.toOption,
    Except.map]

section Annex

variable (offset line length : Nat) {s : Session} (new : s.known.lookup ["k", "f.dcs"] = none)

include new

/-- What the first library has is parsed, and fails. -/
theorem certain_first : Certain s (inDirectory annexed (load annexed []) again.source
    (importLine offset line length false ["f"]) ⟨"/k"⟩) false ["/k/f.dcs"] s.known := by
  have broken : (importing "/k/f.dcs" "import x.a" false ["x"]).imports =
      [importLine 0 1 10 false ["x"]] := rfl
  exact stored_broken.certain_broken rfl rfl shelf_paths.1 new List.not_mem_nil broken rfl
    missing_annex

/-- Then the second library is searched, and its file is parsed, too. -/
theorem certain_both (unknown : s.known.lookup ["l", "f.dcs"] = none) :
    Certain s (resolveImport annexed (load annexed []) again.source
      (importLine offset line length false ["f"])) true ["/l/f.dcs", "/k/f.dcs"]
      ((["l", "f.dcs"], defining "/l/f.dcs") :: s.known) := by
  have second : ∀ s' : Session, s'.known = s.known → Certain s' (inDirectory annexed
      (load annexed []) again.source (importLine offset line length false ["f"]) ⟨"/l"⟩) true
      ["/l/f.dcs"] ((["l", "f.dcs"], defining "/l/f.dcs") :: s.known) := by
    intro s' same
    rw [← same] at unknown ⊢
    exact stored_whole.certain_plain rfl rfl shelf_paths.2.1 unknown List.not_mem_nil rfl
  exact certain_resolveImport rfl
    (finds_later (certain_first offset line length new) fun s' same => finds_here (second s' same))

/-- Once that is known, the one in the first library is parsed in vain once more. -/
theorem certain_again {p : Program} (found : s.known.lookup ["l", "f.dcs"] = some p) :
    Certain s (resolveImport annexed (load annexed []) again.source
      (importLine offset line length false ["f"])) true ["/k/f.dcs"] s.known := by
  have second : ∀ s' : Session, s'.known = s.known → Certain s' (inDirectory annexed
      (load annexed []) again.source (importLine offset line length false ["f"]) ⟨"/l"⟩) true
      [] s.known := by
    intro s' same
    rw [← same] at found ⊢
    exact stored_whole.certain_known rfl rfl shelf_paths.2.1 found
  exact certain_resolveImport rfl
    (finds_later (certain_first offset line length new) fun s' same => finds_here (second s' same))

end Annex

/-- What fails in the first library is parsed once more for the second import. -/
theorem parsed_twice :
    (parse again.source).result = .ok again.decls ∧
      annex.canonical ⟨"/k/f.dcs"⟩ = .ok ["k", "f.dcs"] ∧
      parsings (Session.after [⟨"/k"⟩, ⟨"/l"⟩] [(annex, again)]).events =
        ["/k/f.dcs", "/l/f.dcs", "/k/f.dcs"] := by
  refine ⟨by cbv, stored_broken.canonical, ?_⟩
  have each : ∀ s : Session, s.known = [] → ResolvesUpTo s
      (resolveEach annexed (load annexed []) again.source again.imports) 2 true
      ["/k/f.dcs", "/l/f.dcs", "/k/f.dcs"] [(["l", "f.dcs"], defining "/l/f.dcs")] := by
    intro s start
    have one := certain_both 0 1 10 (s := s) (by rw [start]; rfl) (by rw [start]; rfl)
    rw [start] at one
    have others : ∀ s' : Session, s'.known = [(["l", "f.dcs"], defining "/l/f.dcs")] →
        ResolvesUpTo s' (resolveEach annexed (load annexed []) again.source
          [importLine 11 2 10 false ["f"]]) 1 true ["/k/f.dcs"] s'.known := by
      intro s' known
      have two := certain_again 11 2 10 (s := s') (by rw [known]; rfl) (by rw [known]; rfl)
      exact upTo_cons two fun s'' same => same ▸ upTo_nil
    exact upTo_cons one fun s' known => known ▸ others s' known
  have located : projectOf annex again.source = some ⟨"/"⟩ := by decide
  have told := told_next (s := .start [⟨"/k"⟩, ⟨"/l"⟩]) located rfl each
  exact told.parsings_eq

end Frontend.Importing
