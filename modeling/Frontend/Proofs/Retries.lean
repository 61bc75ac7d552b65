import Frontend.Proofs.Outcomes

/-!
One program that is resolved over and over in a session, while others are resolved and files come
and go. A call puts the modules that it gets behind those that the program already has, also if it
fails in the end. So a call that succeeds leaves one module for each import only if no earlier one
left any.
-/
namespace Frontend.Importing

/-- A call on a session: once more on the program at hand, or on another one. -/
inductive Call where
  | again (fs : FileSystem)
  | other (fs : FileSystem) (root : Program)

def Call.isAgain : Call → Bool
  | .again _ => true
  | .other .. => false

/-- The session and the program at hand after one more call, whether or not it succeeds. -/
def retry (state : Session × Program) : Call → Session × Program
  | .again fs =>
    match resolveRoot fs state.2 state.1 with
    | .ok found s => (s, found.1)
    | .error _ s => (s, state.2)
  | .other fs root => (state.1.next (fs, root), state.2)

/-- The session and a program after some calls. -/
def retried (libraries : List Path) (root : Program) (calls : List Call) : Session × Program :=
  calls.foldl retry (.start libraries, root)

/-- Modules that answer to imports one by one, but perhaps not to the last ones. -/
def Begins (known : List (Place × Program)) (imports : List Import) (modules : List Module) :
    Prop :=
  ∃ done, done <+: imports ∧ List.Forall₂ (Answers known) done modules

/-- A program has the modules that some calls have added to it, one after the other. -/
structure Piled (root : Program) (state : Session × Program) (added : List (List Module)) :
    Prop where
  idle : state.1.busy = []
  program : state.2 = { root with modules := root.modules ++ added.flatten }
  begins : ∀ new ∈ added, Begins state.1.known root.imports new

variable {fs : FileSystem} {s s' : Session} {p root : Program} {state : Session × Program}
  {known known' : List (Place × Program)} {imports : List Import} {modules : List Module}
  {added : List (List Module)}

theorem Begins.mono (h : Begins known imports modules) (keeps : Keeps known known') :
    Begins known' imports modules := by
  obtain ⟨done, first, answers⟩ := h
  exact ⟨done, first, answers.imp fun _ _ answer => answer.mono keeps⟩

theorem Resolution.Suits.begins {r : Resolution} (h : r.Suits known imports) :
    Begins known imports r.modules := by
  obtain ⟨done, rest, rfl, answers, -⟩ := h
  exact ⟨done, List.prefix_append done rest, answers⟩

/-- The error of an import is part of what a resolution comes to: it is not thrown. -/
theorem never_throws_resolveEach {setting : Setting} {busy : List Place}
    {load : Loader setting.fs busy} {importer : Source} (imports : List Import) :
    Runs (resolveEach setting load importer imports) s (fun _ _ => True) fun _ => False := by
  induction imports generalizing s with
  | nil => trivial
  | cons i rest ih =>
    have any : Runs (resolveImport setting load importer i) s (fun _ _ => True) fun _ => True := by
      unfold Runs
      split <;> trivial
    unfold resolveEach
    apply any.attempt.bind
    rintro (d | m) s' -
    · trivial
    · apply ih.bind
      exact fun _ _ _ => trivial

theorem never_throws_occupying {α : Type} {places : List Place} {x : Resolving α}
    (h : ∀ s, Runs x s (fun _ _ => True) fun _ => False) :
    Runs (occupying places x) s (fun _ _ => True) fun _ => False :=
  runs_occupying (h _)

theorem never_throws_resolveRoot :
    Runs (resolveRoot fs root) s (fun _ _ => True) fun _ => False := by
  have session : Runs (get : Resolving Session) s (fun _ _ => True) fun _ => False := trivial
  unfold resolveRoot resolveWith
  apply session.bind
  rintro t s -
  apply Runs.modify_bind
  refine (never_throws_occupying fun s' => ?_).bind ?_
  · apply Runs.modify_bind
    apply (never_throws_resolveEach _).bind
    exact fun _ _ _ => trivial
  · rintro ⟨q, none | d⟩ s' -
    · trivial
    · trivial

/-- One more call on a program that may have modules. -/
theorem resolveRoot_adds (fs : FileSystem) (p : Program) (idle : s.busy = []) :
    ∃ (r : Resolution) (s' : Session),
      resolveRoot fs p s = .ok ({ p with modules := p.modules ++ r.modules }, r.error) s' ∧
        s'.busy = [] ∧ Keeps s.known s'.known ∧ r.Suits s'.known p.imports := by
  have never : Runs (resolveRoot fs p) s _ _ := never_throws_resolveRoot
  have learns : Runs (resolveRoot fs p) s _ _ := learns_resolveRoot p s idle rfl
  obtain ⟨found, s', run, -⟩ := ok_of_runs never
  unfold Runs at learns
  rw [run] at learns
  obtain ⟨idle', grown, r, rfl, suits⟩ := learns
  exact ⟨r, s', run, idle', grown.keeps, suits⟩

theorem retry_again {q : Program} {error : Option Diagnostic}
    (run : resolveRoot fs state.2 state.1 = .ok (q, error) s') :
    retry state (.again fs) = (s', q) := by
  unfold retry
  dsimp only
  rw [run]

/-- What the next call adds is piled up, too. -/
theorem Piled.again (h : Piled root state added) (fs : FileSystem) :
    ∃ (r : Resolution) (q : Program) (s' : Session),
      resolveRoot fs state.2 state.1 = .ok (q, r.error) s' ∧ r.Suits s'.known root.imports ∧
        Piled root (s', q) (added ++ [r.modules]) := by
  obtain ⟨s, p⟩ := state
  obtain ⟨idle, rfl, begins⟩ := h
  obtain ⟨r, s', run, idle', keeps, suits⟩ :=
    resolveRoot_adds fs { root with modules := root.modules ++ added.flatten } idle
  refine ⟨r, _, s', run, suits, idle', by simp, fun new mem => ?_⟩
  obtain earlier | last := List.mem_append.mp mem
  · exact (begins new earlier).mono keeps
  · rw [List.mem_singleton.mp last]
    exact suits.begins

/-- A call on the program at hand adds to its modules; no other call does. -/
theorem Piled.retry (h : Piled root state added) (call : Call) :
    ∃ more, more.length = [call].countP Call.isAgain ∧
      Piled root (retry state call) (added ++ more) := by
  cases call with
  | again fs =>
    obtain ⟨r, q, s', run, -, piled⟩ := h.again fs
    exact ⟨[r.modules], rfl, retry_again run ▸ piled⟩
  | other fs root' =>
    obtain ⟨idle, grown⟩ := Session.grown_next h.idle (fs, root')
    refine ⟨[], rfl, idle, ?_, ?_⟩
    · rw [List.append_nil]
      exact h.program
    · rw [List.append_nil]
      exact fun new mem => (h.begins new mem).mono grown.keeps

theorem piled_retried (libraries : List Path) (root : Program) (calls : List Call) :
    ∃ added, added.length = calls.countP Call.isAgain ∧
      Piled root (retried libraries root calls) added := by
  have start : Piled root (.start libraries, root) [] := by
    refine ⟨rfl, ?_, nofun⟩
    cases root
    simp
  unfold retried
  generalize (Session.start libraries, root) = state at start ⊢
  suffices steps : ∀ {state added}, Piled root state added → ∃ more,
      more.length = calls.countP Call.isAgain ∧
        Piled root (calls.foldl retry state) (added ++ more) by
    simpa using steps start
  induction calls with
  | nil => exact fun piled => ⟨[], rfl, by simpa using piled⟩
  | cons call calls ih =>
    intro state added piled
    obtain ⟨one, one_length, piled⟩ := piled.retry call
    obtain ⟨more, more_length, piled⟩ := ih piled
    refine ⟨one ++ more, ?_, by simpa using piled⟩
    rw [List.length_append, one_length, more_length, ← List.countP_append]
    rfl

/-- After any calls on a session, some of them on one program and some on others, one more call on
that program puts modules behind those that the earlier ones added to it, failed or not. Each of
these calls adds modules that answer to the first imports, in order; if it fails, to those before the
first that fails, and else to all. So a call that succeeds leaves one module for each import exactly
if no earlier one has added any. -/
theorem modules_pile_up (libraries : List Path) (source : Source) (decls : List Toplevel)
    (calls : List Call) (fs : FileSystem) :
    let root := Program.ofDecls source decls
    let state := retried libraries root calls
    ∃ (added : List (List Module)) (r : Resolution) (s : Session),
      added.length = calls.countP Call.isAgain ∧ state.2.modules = added.flatten ∧
        (∀ new ∈ added, Begins s.known root.imports new) ∧
        resolveRoot fs state.2 state.1 =
          .ok ({ root with modules := added.flatten ++ r.modules }, r.error) s ∧
        r.Suits s.known root.imports ∧
        (r.error = none →
          (List.Forall₂ (Answers s.known) root.imports (added.flatten ++ r.modules) ↔
            added.flatten = [])) := by
  intro root state
  obtain ⟨added, count, piled⟩ := piled_retried libraries root calls
  obtain ⟨r, q, s, run, suits, after⟩ := piled.again fs
  have grown : q = { root with modules := added.flatten ++ r.modules } :=
    after.program.trans (by simp [root, Program.ofDecls])
  have before : state.2.modules = added.flatten := by
    rw [piled.program]
    rfl
  refine ⟨added, r, s, count, before, fun new mem => ?_, grown ▸ run, suits, fun ended => ?_⟩
  · exact after.begins new (List.mem_append_left _ mem)
  · have last := suits.whole ended
    constructor
    · intro each
      have lengths := each.length_eq.symm.trans last.length_eq
      rw [List.length_append] at lengths
      exact List.eq_nil_of_length_eq_zero (by omega)
    · intro none
      rwa [none, List.nil_append]

/-- A library with one file. -/
def sparse : FileSystem where
  entries := [(["l"], .directory), (["l", "f.dcs"], .file (Utf8.ofString "type a b"))]
  current := ⟨"/"⟩

/-- The same library with two files. -/
def filled : FileSystem where
  entries := [(["l"], .directory), (["l", "f.dcs"], .file (Utf8.ofString "type a b")),
    (["l", "x.dcs"], .file (Utf8.ofString "type a b"))]
  current := ⟨"/"⟩

/-- The library of a program that is no file. -/
def lending (fs : FileSystem) : Setting := ⟨fs, [⟨"/l"⟩], some ⟨"/"⟩⟩

/-- A program that imports both files. -/
def borrower : Program :=
  memo "import f.a\nimport x.a" [importLine 0 1 10 false ["f"], importLine 11 2 10 false ["x"]]

theorem stored_sparse :
    Stored (lending sparse).fs "/l/f.dcs" ["l", "f.dcs"] (defining "/l/f.dcs") :=
  stored_of_locate rfl (by decide) (by cbv) (parse_defining _)

theorem stored_filled :
    Stored (lending filled).fs "/l/f.dcs" ["l", "f.dcs"] (defining "/l/f.dcs") ∧
      Stored (lending filled).fs "/l/x.dcs" ["l", "x.dcs"] (defining "/l/x.dcs") :=
  ⟨stored_of_locate rfl (by decide) (by cbv) (parse_defining _),
    stored_of_locate rfl (by decide) (by cbv) (parse_defining _)⟩

theorem missing_sparse : ∀ directory ∈ (lending sparse).libraries,
    hasCandidate (lending sparse).fs ["x"] directory = false := by
  have nowhere : sparse.locate ⟨"/l/x.dcs"⟩ = .error .notFound := by cbv
  simp [lending, hasCandidate, shelf_paths, FileSystem.canonical, nowhere, Except.toOption,
    Except.map]

/-- The first of the two imports is resolved, but not the second one. -/
theorem upTo_sparse {s : Session} (start : s.known = []) :
    ResolvesUpTo s (resolveEach (lending sparse) (load (lending sparse) []) borrower.source
      borrower.imports) 1 false ["/l/f.dcs"] [(["l", "f.dcs"], defining "/l/f.dcs")] := by
  have here : Certain s (inDirectory (lending sparse) (load (lending sparse) []) borrower.source
      (importLine 0 1 10 false ["f"]) ⟨"/l"⟩) true ["/l/f.dcs"]
      ((["l", "f.dcs"], defining "/l/f.dcs") :: s.known) :=
    stored_sparse.certain_plain rfl rfl shelf_paths.2.1 (by rw [start]; rfl) List.not_mem_nil rfl
  have one : Certain s (resolveImport (lending sparse) (load (lending sparse) []) borrower.source
      (importLine 0 1 10 false ["f"])) true ["/l/f.dcs"]
      ((["l", "f.dcs"], defining "/l/f.dcs") :: s.known) :=
    certain_resolveImport rfl (finds_here here)
  have two : ∀ s' : Session, ResolvesUpTo s' (resolveEach (lending sparse)
      (load (lending sparse) []) borrower.source [importLine 11 2 10 false ["x"]]) 0 false []
      s'.known := fun s' => upTo_failure (certain_missing rfl missing_sparse)
  rw [start] at one
  exact upTo_cons one fun s' same => same ▸ two s'

/-- Both imports are resolved, the first one without its file. -/
theorem upTo_filled {s : Session} (start : s.known = [(["l", "f.dcs"], defining "/l/f.dcs")]) :
    ResolvesUpTo s (resolveEach (lending filled) (load (lending filled) []) borrower.source
      borrower.imports) 2 true ["/l/x.dcs"]
      ((["l", "x.dcs"], defining "/l/x.dcs") :: s.known) := by
  have here : Certain s (inDirectory (lending filled) (load (lending filled) []) borrower.source
      (importLine 0 1 10 false ["f"]) ⟨"/l"⟩) true [] s.known :=
    stored_filled.1.certain_known (q := defining "/l/f.dcs") rfl rfl shelf_paths.2.1
      (by rw [start]; rfl)
  have one : Certain s (resolveImport (lending filled) (load (lending filled) []) borrower.source
      (importLine 0 1 10 false ["f"])) true [] s.known :=
    certain_resolveImport rfl (finds_here here)
  have there : ∀ s' : Session, s'.known = s.known → Certain s' (inDirectory (lending filled)
      (load (lending filled) []) borrower.source (importLine 11 2 10 false ["x"]) ⟨"/l"⟩) true
      ["/l/x.dcs"] ((["l", "x.dcs"], defining "/l/x.dcs") :: s'.known) := fun s' same =>
    stored_filled.2.certain_plain rfl rfl shelf_paths.2.2.2.2.2.1 (by rw [same, start]; rfl)
      List.not_mem_nil rfl
  have two : ∀ s' : Session, s'.known = s.known → ResolvesUpTo s' (resolveEach (lending filled)
      (load (lending filled) []) borrower.source [importLine 11 2 10 false ["x"]]) 1 true
      ["/l/x.dcs"] ((["l", "x.dcs"], defining "/l/x.dcs") :: s'.known) := by
    intro s' same
    have found : Certain s' (resolveImport (lending filled) (load (lending filled) [])
        borrower.source (importLine 11 2 10 false ["x"])) true ["/l/x.dcs"]
        ((["l", "x.dcs"], defining "/l/x.dcs") :: s'.known) :=
      certain_resolveImport rfl (finds_here (there s' same))
    exact upTo_cons found fun s'' same' => same' ▸ upTo_nil
  exact upTo_cons one fun s' same => same ▸ two s' same

/-- A call that fails for its second import leaves a module, and one that succeeds then adds two. -/
theorem retry_keeps_old_modules :
    let state := retried [⟨"/l"⟩] borrower [.again sparse]
    (parse borrower.source).result = .ok borrower.decls ∧
      ∃ q s, resolveRoot filled state.2 state.1 = .ok (q, none) s ∧
        q.imports.length = 2 ∧ q.modules.length = 3 := by
  intro state
  refine ⟨by cbv, ?_⟩
  have located : projectOf sparse borrower.source = some ⟨"/"⟩ ∧
      projectOf filled borrower.source = some ⟨"/"⟩ := by decide
  have failing := runs_resolveRoot (s := .start [⟨"/l"⟩]) located.1 rfl fun s same =>
    upTo_sparse same
  obtain ⟨⟨p, error⟩, s, run, -, told, new, length, rfl⟩ := ok_of_runs failing
  have left : state = (s, { borrower with modules := borrower.modules ++ new }) := retry_again run
  have libraries : s.libraries = [⟨"/l"⟩] := told.libraries
  have each : ∀ s', s'.known = s.known → ResolvesUpTo s' (resolveEach
      ⟨filled, s.libraries, some ⟨"/"⟩⟩ (load ⟨filled, s.libraries, some ⟨"/"⟩⟩ [])
      borrower.source borrower.imports) 2 true ["/l/x.dcs"]
      ((["l", "x.dcs"], defining "/l/x.dcs") :: s'.known) := by
    intro s' same
    rw [libraries]
    exact upTo_filled (same.trans told.known)
  have succeeding : Runs (resolveRoot filled { borrower with modules := borrower.modules ++ new }) s
      _ _ := runs_resolveRoot located.2 rfl fun s' same => same ▸ each s' same
  obtain ⟨⟨q, error⟩, s', run', none, -, more, length', rfl⟩ := ok_of_runs succeeding
  obtain rfl : error = Option.none := by simpa using none
  rw [left]
  refine ⟨_, s', run', rfl, ?_⟩
  simp [length, length', borrower]

end Frontend.Importing
