import Mathlib.Data.List.Forall2
import Frontend.Proofs.Layers
import Frontend.Proofs.Targets

/-!
Which target a resolution settles on. It takes the first one that can be resolved while the files on
the way to it are busy; so a target that it passes over cannot be resolved, or leads back to the
file of the import. That holds whatever is known before, as long as what is known has come about in
the same way, and it is kept also by resolutions that fail. Whether a resolution succeeds depends on
the targets alone.
-/
open Relation (ReflTransGen)

namespace Frontend.Importing

/-- A step of a resolution that keeps what holds of the known programs, also if it fails. A value
and a failure tell something each. -/
def Decides {α : Type} (libraries : List Path) (inv : List (Place × Program) → Prop)
    (x : Resolving α) (post : α → Prop) (failed : Prop) : Prop :=
  ∀ s : Session, s.libraries = libraries → inv s.known →
    Runs x s (fun a s' => s'.libraries = libraries ∧ inv s'.known ∧ post a)
      (fun s' => s'.libraries = libraries ∧ inv s'.known ∧ failed)

namespace Decides

variable {α β : Type} {libraries : List Path} {inv : List (Place × Program) → Prop}
  {x y : Resolving α} {k : α → Resolving β} {mid post : α → Prop} {final : β → Prop}
  {failed failed' : Prop} {importer : Source} {i : Import}

theorem pure {a : α} (h : post a) : Decides libraries inv (Pure.pure a) post failed :=
  fun _ libs holds => ⟨libs, holds, h⟩

theorem throw {d : Diagnostic} (h : failed) :
    Decides libraries inv (throw d : Resolving α) post failed :=
  fun _ libs holds => ⟨libs, holds, h⟩

theorem fail {cause : Cause} (h : failed) :
    Decides libraries inv (fail importer i cause : Resolving α) post failed :=
  throw h

theorem bind (first : Decides libraries inv x mid failed)
    (then_ : ∀ a, mid a → Decides libraries inv (k a) final failed) :
    Decides libraries inv (x >>= k) final failed := by
  intro s libs holds
  apply (first s libs holds).bind
  rintro a s' ⟨libs', holds', known⟩
  exact then_ a known s' libs' holds'

theorem mono (h : Decides libraries inv x mid failed) (value : ∀ a, mid a → post a)
    (failure : failed → failed') : Decides libraries inv x post failed' := by
  intro s libs holds
  apply (h s libs holds).mono
  · rintro a s' ⟨libs', holds', known⟩
    exact ⟨libs', holds', value a known⟩
  · rintro s' ⟨libs', holds', known⟩
    exact ⟨libs', holds', failure known⟩

theorem tell_bind {e : Event} {k : Unit → Resolving β}
    (then_ : Decides libraries inv (k ()) final failed) :
    Decides libraries inv (tell e >>= k) final failed :=
  fun s libs holds => then_ { s with events := e :: s.events } libs holds

theorem tellAll {events : List Grammar.Event} {k : Unit → Resolving β}
    (then_ : Decides libraries inv (k ()) final failed) :
    Decides libraries inv ((events.forM fun e => tell (.parser e)) >>= k) final failed := by
  intro s libs holds
  unfold Runs
  rw [tellAll_bind]
  exact then_ _ libs holds

theorem get_bind {k : Session → Resolving β}
    (then_ : ∀ s, s.libraries = libraries → Decides libraries inv (k s) final failed) :
    Decides libraries inv (get >>= k) final failed :=
  fun s libs holds => then_ s libs s libs holds

theorem known?_bind {place : Place} {k : Option Program → Resolving β}
    (then_ : ∀ known, inv known → Decides libraries inv (k (known.lookup place)) final failed) :
    Decides libraries inv (known? place >>= k) final failed :=
  fun s libs holds => then_ s.known holds s libs holds

theorem learn_bind {place : Place} {p : Program} {k : Unit → Resolving β}
    (grown : ∀ known, inv known → inv ((place, p) :: known))
    (then_ : Decides libraries inv (k ()) final failed) :
    Decides libraries inv (learn place p >>= k) final failed :=
  fun s libs holds => then_ { s with known := (place, p) :: s.known } libs (grown _ holds)

theorem ite {cond : Prop} [Decidable cond] (yes : cond → Decides libraries inv x post failed)
    (no : ¬ cond → Decides libraries inv y post failed) :
    Decides libraries inv (if cond then x else y) post failed := by
  by_cases h : cond
  · rw [if_pos h]
    exact yes h
  · rw [if_neg h]
    exact no h

/-- What an attempt comes to is told, also a failure. -/
theorem attempt (h : Decides libraries inv x post failed) :
    Decides libraries inv (attempt x) (fun found =>
      match found with
      | .ok a => post a
      | .error _ => failed) failed' := by
  intro s libs holds
  apply (h s libs holds).attempt.mono
  · rintro (d | a) s' ends
    · exact ends
    · exact ends
  · exact fun _ never => never

theorem noting {note : String} (h : Decides libraries inv x post failed) :
    Decides libraries inv (noting importer i note x) post failed := by
  apply h.attempt.bind
  rintro (d | a) known
  · exact throw known
  · exact pure known

theorem occupying {places : List Place} (h : Decides libraries inv x post failed) :
    Decides libraries inv (occupying places x) post failed := by
  intro s libs holds
  exact runs_occupying (h { s with busy := places ++ s.busy } libs holds)

end Decides

/-- The module of an import that holds the first of some targets that has not been passed over, and
that one can be resolved. -/
structure Chosen (setting : Setting) (barred : List Place) (passed : Target → Prop)
    (there : List Target) (i : Import) (m : Module) : Prop where
  module : m = moduleOf i m.place m.program
  resolves : Resolves setting barred (m.place, m.program.unresolved)
  first : ∃ before after, there = before ++ (m.place, m.program.unresolved) :: after ∧
    ∀ t ∈ before, passed t

/-- A module of an import that has passed over such targets only as cannot be resolved, or lead back
to the importer, which is at one of some places. -/
abbrev Picked (setting : Setting) (barred here : List Place) (importer : Source) (i : Import)
    (m : Module) : Prop :=
  Chosen setting barred (fun t => Resolves setting barred t → LeadsBack setting here t)
    (targets setting importer i) i m

/-- A known program that has come about as it should: it is the program of a file that is reached,
it can be resolved, and its modules hold what its imports settle on. -/
structure Accounted (setting : Setting) (root : Program) (barred : List Place) (place : Place)
    (p : Program) : Prop where
  met : Met setting root (place, p.unresolved)
  resolves : Resolves setting barred (place, p.unresolved)
  modules : List.Forall₂ (Picked setting barred [place] p.source) p.imports p.modules

/-- What is known of the files that are reached has come about as it should. -/
def Sound (setting : Setting) (root : Program) (barred : List Place)
    (known : List (Place × Program)) : Prop :=
  ∀ place p, known.lookup place = some p → (∃ file, Looked setting root place file) →
    Accounted setting root barred place p

/-- The busy files lead to the importer that is looked at, and each of them has one program. Some
places are busy all the time, whatever they lead to. -/
structure Stacked (setting : Setting) (root : Program) (barred busy here : List Place)
    (p : Program) : Prop where
  always_busy : ∀ place ∈ barred, place ∈ busy
  leads : ∀ place ∈ busy, place ∉ barred → ∃ q, (∀ q', Met setting root (place, q') → q' = q) ∧
    ∃ there ∈ here, ReflTransGen (Leads setting) (place, q) (there, p.unresolved)

/-- A loader that comes to the program of a file unless that cannot be resolved while some places
are busy. -/
def Settling (setting : Setting) (root : Program) (barred busy : List Place)
    (inv : List (Place × Program) → Prop) (load : Loader setting.fs busy) : Prop :=
  ∀ p here, Reached setting root p.unresolved → Stacked setting root barred busy here p →
    ∀ i ∈ p.imports, ∀ file ∈ candidates setting p.source i, ∀ place,
    other? setting.fs p.source file = some place → ∀ free,
    Decides setting.libraries inv (load p.source i file place free)
      (fun q => Program.inFile? setting.fs file = some q.unresolved ∧
        Resolves setting barred (place, q.unresolved))
      (∀ q, Program.inFile? setting.fs file = some q → ¬ Resolves setting busy (place, q))

variable {setting : Setting} {root p : Program} {barred busy here : List Place} {place : Place}
  {i : Import} {m : Module} {t : Target} {file : Path} {importer : Source}
  {inv : List (Place × Program) → Prop}

namespace Chosen

variable {passed passed' : Target → Prop} {there more : List Target}

theorem append (h : Chosen setting barred passed there i m) (more : List Target) :
    Chosen setting barred passed (there ++ more) i m := by
  obtain ⟨before, after, split, all⟩ := h.first
  exact { h with first := ⟨before, after ++ more, by simp [split], all⟩ }

theorem behind (h : Chosen setting barred passed there i m) (skipped : ∀ t ∈ more, passed t) :
    Chosen setting barred passed (more ++ there) i m := by
  obtain ⟨before, after, split, all⟩ := h.first
  exact { h with
    first := ⟨more ++ before, after, by simp [split], List.forall_mem_append.mpr ⟨skipped, all⟩⟩ }

theorem mem (h : Chosen setting barred passed there i m) :
    (m.place, m.program.unresolved) ∈ there := by
  obtain ⟨before, after, split, _⟩ := h.first
  simp [split]

theorem mono (h : Chosen setting barred passed there i m)
    (imp : ∀ t ∈ there, passed t → passed' t) : Chosen setting barred passed' there i m := by
  obtain ⟨before, after, split, all⟩ := h.first
  refine { h with first := ⟨before, after, split, fun t mem => imp t ?_ (all t mem)⟩ }
  simp [split, mem]

/-- The only target is chosen. -/
theorem only (resolves : Resolves setting barred (place, p.unresolved)) :
    Chosen setting barred passed [(place, p.unresolved)] i (moduleOf i place p) := by
  have place_eq : (moduleOf i place p).place = place := by
    unfold moduleOf
    split <;> rfl
  have program_eq : (moduleOf i place p).program = p := by
    unfold moduleOf
    split <;> rfl
  constructor
  · rw [place_eq, program_eq]
  · rwa [place_eq, program_eq]
  · rw [place_eq, program_eq]
    exact ⟨[], [], rfl, fun _ mem => absurd mem List.not_mem_nil⟩

end Chosen

/-- One more program that has come about as it should. -/
theorem Sound.cons {known : List (Place × Program)} (sound : Sound setting root barred known)
    (new : Accounted setting root barred place p) :
    Sound setting root barred ((place, p) :: known) := by
  intro there q found looked
  by_cases same : there = place
  · subst same
    rw [List.lookup_cons_self] at found
    cases found
    exact new
  · rw [List.lookup_cons, beq_false_of_ne same] at found
    exact sound there q found looked

/-- What is passed over leads back to the importer, if it can be resolved at all. -/
theorem Stacked.leadsBack (stack : Stacked setting root barred busy here p)
    (met : Met setting root t) (able : Resolves setting barred t)
    (stuck : ¬ Resolves setting busy t) : LeadsBack setting here t := by
  obtain ⟨place, there, free, q, leads⟩ := (able.or_leads busy).resolve_left stuck
  obtain ⟨q', unique, home, mem, leads'⟩ := stack.leads place there free
  obtain rfl := unique q (met.leads_all leads)
  exact ⟨home, mem, p.unresolved, leads.trans leads'⟩

/-- The file of a target is busy while the imports of the program in it are resolved. -/
theorem Stacked.push {q : Program} (stack : Stacked setting root barred busy here p)
    (one : OneName setting root barred) (reached : Reached setting root p.unresolved)
    (mem : i ∈ p.imports) (found : (place, q) ∈ targets setting p.source i)
    (free : place ∉ barred) : Stacked setting root barred (place :: busy) [place] q := by
  have met : Met setting root (place, q) := met_of_target reached mem found
  have fresh : q.unresolved = q := met.unresolved
  constructor
  · exact fun there barred => List.mem_cons_of_mem _ (stack.always_busy there barred)
  · intro there busy open_
    rw [fresh]
    by_cases same : there = place
    · subst same
      exact ⟨q, fun q' met' => one.unique free met' met, there, List.mem_singleton_self _, .refl⟩
    · have older := (List.mem_cons.mp busy).resolve_left same
      obtain ⟨q', unique, home, _, leads⟩ := stack.leads there older open_
      exact ⟨q', unique, place, List.mem_singleton_self _, leads.tail ⟨i, mem, found⟩⟩

theorem decides_parseFile :
    Decides setting.libraries inv (parseFile setting importer i file)
      (fun q => Program.inFile? setting.fs file = some q) (Program.inFile? setting.fs file = none) := by
  unfold parseFile
  cases found : Source.fromFile setting.fs file with
  | error e =>
    apply Decides.fail
    rw [Program.inFile?, found]
  | ok source =>
    apply Decides.tell_bind
    unfold parseSource
    rw [bind_assoc]
    apply Decides.tellAll
    cases parsed : (parse source).result with
    | error d =>
      have fails : Decides setting.libraries inv (throw d : Resolving Program) (fun _ => False)
          (Program.inFile? setting.fs file = none) := by
        apply Decides.throw
        simp [Program.inFile?, found, parsed, Except.toOption]
      exact fails.bind fun _ never => never.elim
    | ok decls =>
      dsimp only
      rw [pure_bind]
      apply Decides.tell_bind
      exact .pure (Program.inFile?_eq_some.mpr ⟨source, decls, found, parsed, rfl⟩)

/-- Relative imports start where the candidates of an import are. -/
theorem decides_relativeRoot {failed : Prop} (outside : relativeRoot? setting importer = none → failed) :
    Decides setting.libraries inv (relativeRoot setting importer i)
      (fun directory => relativeRoot? setting importer = some directory) failed := by
  unfold relativeRoot
  cases found : relativeRoot? setting importer with
  | some directory =>
    apply Decides.ite
    · exact fun _ => .tell_bind (.pure rfl)
    · exact fun _ => .pure rfl
  | none =>
    apply Decides.ite
    · exact fun _ => .tell_bind (.fail (outside found))
    · exact fun _ => .fail (outside found)

section Import

variable (one : OneName setting root barred)
  (sound : ∀ known, inv known → Sound setting root barred known) {load : Loader setting.fs busy}
  (settles : Settling setting root barred busy inv load)
  (reached : Reached setting root p.unresolved) (stack : Stacked setting root barred busy here p)

include one sound settles reached stack

theorem decides_programAt (mem : i ∈ p.imports) (candidate : file ∈ candidates setting p.source i)
    (other : other? setting.fs p.source file = some place) (there : place ∈ setting.fs.places) :
    Decides setting.libraries inv (programAt load p.source i file place there)
      (fun q => Program.inFile? setting.fs file = some q.unresolved ∧
        Resolves setting barred (place, q.unresolved))
      (∀ q, Program.inFile? setting.fs file = some q → ¬ Resolves setting busy (place, q)) := by
  have looked : Looked setting root place file := ⟨_, reached, i, mem, candidate, other⟩
  apply Decides.known?_bind
  intro known holds
  cases found : known.lookup place with
  | some q =>
    have entry := sound known holds place q found ⟨file, looked⟩
    obtain ⟨file', looked', inFile'⟩ := entry.met
    have same := one place entry.resolves.free file file' looked looked'
    exact .tell_bind (.pure ⟨same.trans inFile', entry.resolves⟩)
  | none =>
    dsimp only
    split
    next free =>
      exact (settles p here reached stack i mem file candidate place other
        ⟨there, free⟩).occupying.noting
    next is_busy =>
      apply Decides.fail
      intro q _ able
      exact able.free (Decidable.not_not.mp is_busy)

theorem decides_inDirectory {directory : Path} (mem : i ∈ p.imports)
    (candidate_mem : candidate directory i.parents ∈ candidates setting p.source i) :
    Decides setting.libraries inv (inDirectory setting load p.source i directory)
      (Chosen setting barred (¬ Resolves setting busy ·)
        (target? setting.fs p.source (candidate directory i.parents)).toList i)
      (∀ t ∈ (target? setting.fs p.source (candidate directory i.parents)).toList,
        ¬ Resolves setting busy t) := by
  have nothing : other? setting.fs p.source (candidate directory i.parents) = none →
      ∀ t ∈ (target? setting.fs p.source (candidate directory i.parents)).toList,
        ¬ Resolves setting busy t := by
    intro none
    simp [target?, none]
  unfold inDirectory
  apply Decides.ite
  · intro same
    exact .fail (nothing (by rw [other?, if_pos same]))
  intro different
  split
  next e failed =>
    exact .fail (nothing (by rw [other?, if_neg different, failed]))
  next place located =>
    apply Decides.ite
    · intro own
      exact .fail (nothing (by rw [other?, if_neg different, located]; exact if_pos own))
    · intro foreign
      have other : other? setting.fs p.source (candidate directory i.parents) = some place := by
        rw [other?, if_neg different, located]
        exact if_neg foreign
      have outcome : target? setting.fs p.source (candidate directory i.parents) =
          (Program.inFile? setting.fs (candidate directory i.parents)).map (place, ·) := by
        rw [target?, other]
        cases Program.inFile? setting.fs (candidate directory i.parents) <;> rfl
      have found := decides_programAt one sound settles reached stack mem candidate_mem other
        (FileSystem.mem_places_of_canonical located)
      rw [outcome]
      have failure : (∀ q, Program.inFile? setting.fs (candidate directory i.parents) = some q →
          ¬ Resolves setting busy (place, q)) →
          ∀ t ∈ ((Program.inFile? setting.fs (candidate directory i.parents)).map (place, ·)).toList,
            ¬ Resolves setting busy t := by
        intro stuck t mem
        simp only [Option.mem_toList, Option.map_eq_some_iff] at mem
        obtain ⟨q, inFile, rfl⟩ := mem
        exact stuck q inFile
      apply (found.mono (fun _ known => known) failure).bind
      rintro q ⟨inFile, resolves⟩
      rw [inFile]
      exact .pure (.only resolves)

/-- The first directory with a target that can be resolved decides. -/
theorem decides_search (mem : i ∈ p.imports) (directories : List Path)
    (sub : ∀ directory ∈ directories, candidate directory i.parents ∈ candidates setting p.source i) :
    Decides setting.libraries inv (search setting load p.source i directories)
      (fun found =>
        let there := (directories.map fun directory => candidate directory i.parents).filterMap
          (target? setting.fs p.source)
        match found with
        | .ok m => Chosen setting barred (¬ Resolves setting busy ·) there i m
        | .error _ => ∀ t ∈ there, ¬ Resolves setting busy t) False := by
  induction directories with
  | nil => exact .pure fun _ mem => absurd mem List.not_mem_nil
  | cons directory rest ih =>
    obtain ⟨here_mem, rest_sub⟩ := List.forall_mem_cons.mp sub
    have split : ((directory :: rest).map fun directory => candidate directory i.parents).filterMap
        (target? setting.fs p.source) =
        (target? setting.fs p.source (candidate directory i.parents)).toList ++
          (rest.map fun directory => candidate directory i.parents).filterMap
            (target? setting.fs p.source) := by
      rw [List.map_cons, List.filterMap_cons]
      cases target? setting.fs p.source (candidate directory i.parents) <;> rfl
    rw [split]
    unfold search
    apply (decides_inDirectory one sound settles reached stack mem here_mem).attempt.bind
    rintro (d | m) outcome
    · apply (ih rest_sub).bind
      rintro (more | m) outcome'
      · exact .pure (List.forall_mem_append.mpr ⟨outcome, outcome'⟩)
      · exact .pure (Chosen.behind outcome' outcome)
    · exact .pure (Chosen.append outcome _)

/-- An import settles on a target, unless none can be resolved while some places are busy. -/
theorem decides_resolveImport (mem : i ∈ p.imports) :
    Decides setting.libraries inv (resolveImport setting load p.source i)
      (Picked setting barred here p.source i)
      (∀ t ∈ targets setting p.source i, ¬ Resolves setting busy t) := by
  have back : ∀ m, Chosen setting barred (¬ Resolves setting busy ·) (targets setting p.source i) i m →
      Picked setting barred here p.source i m := by
    intro m chosen
    apply chosen.mono
    intro t found stuck able
    exact stack.leadsBack (met_of_target reached mem found) able stuck
  unfold resolveImport
  by_cases relative : i.relative = true
  · rw [if_pos relative]
    have outside : relativeRoot? setting p.source = none →
        ∀ t ∈ targets setting p.source i, ¬ Resolves setting busy t := by
      intro none
      simp [targets, candidates, relative, none]
    apply (decides_relativeRoot outside).bind
    intro directory found
    have candidates_eq : candidates setting p.source i = [candidate directory i.parents] := by
      simp [candidates, relative, found]
    have targets_eq : targets setting p.source i =
        (target? setting.fs p.source (candidate directory i.parents)).toList := by
      rw [targets, candidates_eq, List.filterMap_cons]
      cases target? setting.fs p.source (candidate directory i.parents) <;> rfl
    apply Decides.tell_bind
    apply Decides.noting
    have here_mem : candidate directory i.parents ∈ candidates setting p.source i := by
      simp [candidates_eq]
    rw [targets_eq] at back ⊢
    exact (decides_inDirectory one sound settles reached stack mem here_mem).mono back id
  · rw [if_neg relative]
    have candidates_eq : candidates setting p.source i =
        setting.libraries.map fun directory => candidate directory i.parents := by
      simp [candidates, relative]
    have sub : ∀ directory ∈ setting.libraries,
        candidate directory i.parents ∈ candidates setting p.source i := by
      intro directory mem
      rw [candidates_eq]
      exact List.mem_map_of_mem mem
    have found := decides_search one sound settles reached stack mem setting.libraries sub
    rw [← candidates_eq] at found
    apply (found.mono (fun _ known => known) False.elim).bind
    rintro (failures | m) outcome
    · exact .throw outcome
    · exact .pure (back m outcome)

/-- The imports of a program settle on targets, up to the first one that cannot. -/
theorem decides_resolveEach (imports : List Import) (sub : ∀ i ∈ imports, i ∈ p.imports) :
    Decides setting.libraries inv (resolveEach setting load p.source imports) (fun r =>
      match r.error with
      | none => List.Forall₂ (Picked setting barred here p.source) imports r.modules
      | some _ => ∃ i ∈ p.imports, ∀ t ∈ targets setting p.source i, ¬ Resolves setting busy t)
      False := by
  induction imports with
  | nil => exact .pure .nil
  | cons i rest ih =>
    obtain ⟨mem, rest_sub⟩ := List.forall_mem_cons.mp sub
    unfold resolveEach
    apply (decides_resolveImport one sound settles reached stack mem).attempt.bind
    rintro (d | m) outcome
    · exact .pure ⟨i, mem, outcome⟩
    · apply (ih rest_sub).bind
      intro r outcome'
      apply Decides.pure
      cases error : r.error with
      | none =>
        rw [error] at outcome'
        simpa [error] using ⟨outcome, outcome'⟩
      | some d =>
        rw [error] at outcome'
        simpa [error] using outcome'

theorem decides_resolveProgram :
    Decides setting.libraries inv (resolveProgram setting load p) (fun found =>
      match found.2 with
      | none => ∃ new, found.1 = { p with modules := p.modules ++ new } ∧
          List.Forall₂ (Picked setting barred here p.source) p.imports new
      | some _ => ∃ i ∈ p.imports, ∀ t ∈ targets setting p.source i, ¬ Resolves setting busy t)
      False := by
  apply Decides.tell_bind
  apply (decides_resolveEach one sound settles reached stack p.imports fun _ mem => mem).bind
  intro r outcome
  apply Decides.pure
  cases error : r.error with
  | none =>
    rw [error] at outcome
    exact ⟨r.modules, rfl, outcome⟩
  | some d =>
    rw [error] at outcome
    exact outcome

end Import

/-- A program can be resolved if its imports have settled on targets. -/
theorem resolves_of_picked {modules : List Module} (free : place ∉ barred)
    (picked : List.Forall₂ (Picked setting barred here p.source) p.imports modules) :
    Resolves setting barred (place, p.unresolved) := by
  apply Resolves.of_imports free
  intro i mem
  obtain ⟨m, _, chosen⟩ := (exists_of_forall₂ picked).1 i mem
  exact ⟨_, chosen.mem, chosen.resolves⟩

section Loading

variable (one : OneName setting root barred)
  (sound : ∀ known, inv known → Sound setting root barred known)
  (grows : ∀ known place p, inv known → Accounted setting root barred place p →
    inv ((place, p) :: known))

include one sound grows

/-- Programs are loaded unless they cannot be resolved, whatever is busy. -/
theorem settling_load (busy : List Place) :
    Settling setting root barred busy inv (load setting busy) := by
  generalize size : freePlaces setting.fs busy = n
  induction n using Nat.strongRecOn generalizing busy with
  | ind n ih =>
    intro p here reached stack i mem file candidate place other free
    have open_ : place ∉ barred := fun always => free.2 (stack.always_busy place always)
    rw [load, loadFile]
    have unread : Program.inFile? setting.fs file = none →
        ∀ q, Program.inFile? setting.fs file = some q → ¬ Resolves setting busy (place, q) := by
      intro none q inFile
      rw [none] at inFile
      cases inFile
    apply (decides_parseFile.mono (fun _ found => found) unread).bind
    intro q inFile
    have found : (place, q) ∈ targets setting p.source i :=
      mem_targets.mpr ⟨file, candidate, other, inFile⟩
    have met := met_of_target reached mem found
    have fresh : q.unresolved = q := met.unresolved
    have deeper := ih _ (size ▸ freePlaces_lt free) (place :: busy) rfl
    have program := decides_resolveProgram one sound deeper (fresh.symm ▸ met.reached)
      (stack.push one reached mem found open_)
    apply (program.mono (fun _ outcome => outcome) False.elim).bind
    rintro ⟨r, _ | d⟩ outcome
    · obtain ⟨new, rfl, picked⟩ := outcome
      have none_yet : q.modules = [] := by rw [← fresh]; rfl
      rw [none_yet]
      have resolves := resolves_of_picked open_ picked
      rw [fresh] at resolves
      have entry : Accounted setting root barred place { q with modules := [] ++ new } := by
        refine ⟨?_, ?_, picked⟩
        · exact fresh.symm ▸ met
        · exact fresh.symm ▸ resolves
      apply Decides.learn_bind fun known holds => grows known place _ holds entry
      exact .pure ⟨fresh.symm ▸ inFile, entry.resolves⟩
    · obtain ⟨j, mem', stuck⟩ := outcome
      apply Decides.throw
      intro q' inFile' able
      obtain rfl : q = q' := Option.some.inj (inFile.symm.trans inFile')
      obtain ⟨u, there, able'⟩ := able.inside met.reached
        (fun q' met' => one.unique open_ met' met) j mem'
      exact stuck u there able'

end Loading

section Root

variable {fs : FileSystem} {libraries : List Path}
  (one : OneName (rootSetting fs libraries root) root barred)
  (sound : ∀ known, inv known → Sound (rootSetting fs libraries root) root barred known)
  (grows : ∀ known place p, inv known →
    Accounted (rootSetting fs libraries root) root barred place p → inv ((place, p) :: known))
  (stack : Stacked (rootSetting fs libraries root) root barred (rootPlaces fs root.source) here root)

include one sound grows stack

theorem decides_resolveRoot :
    Decides libraries inv (resolveRoot fs root) (fun found =>
      match found.2 with
      | none => ∃ new, found.1 = { root with modules := root.modules ++ new } ∧
          List.Forall₂ (Picked (rootSetting fs libraries root) barred here root.source)
            root.imports new
      | some _ => ∃ i ∈ root.imports, ∀ t ∈ targets (rootSetting fs libraries root) root.source i,
          ¬ Resolves (rootSetting fs libraries root) (rootPlaces fs root.source) t) False := by
  have program := decides_resolveProgram one sound
    (settling_load one sound grows (rootPlaces fs root.source)) .root stack
  unfold resolveRoot resolveWith
  apply Decides.get_bind
  rintro s rfl
  apply Decides.tell_bind
  apply program.occupying.bind
  rintro ⟨p, _ | d⟩ outcome
  · exact .tell_bind (.pure outcome)
  · exact .pure outcome

/-- The imports of a root program settle on targets, unless one of them has none that can be
resolved without the file of the root. -/
theorem decides_resolveAll :
    Decides libraries inv (resolveAll fs root)
      (fun p => ∃ new, p = { root with modules := root.modules ++ new } ∧
        List.Forall₂ (Picked (rootSetting fs libraries root) barred here root.source)
          root.imports new)
      (∃ i ∈ root.imports, ∀ t ∈ targets (rootSetting fs libraries root) root.source i,
        ¬ Resolves (rootSetting fs libraries root) (rootPlaces fs root.source) t) := by
  have resolved := decides_resolveRoot one sound grows stack
  apply (resolved.mono (fun _ outcome => outcome) False.elim).bind
  rintro ⟨p, _ | d⟩ outcome
  · exact .pure outcome
  · exact .throw outcome

end Root

end Frontend.Importing
