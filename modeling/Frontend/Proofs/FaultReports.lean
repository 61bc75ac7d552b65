import Frontend.Proofs.Attempts
import Frontend.Proofs.PlacedFiles

/-!
What a file is rejected with. The attempts at its declarations follow each other through the file:
a fault is not in front of where its attempt begins, nor behind the token in front of which the
attempt stops, and that token is taken by the recovery. So the faults of a file stand in order, no
two of them at one place, and that is the order in which they are told.
-/
namespace Frontend

namespace Grammar

open Grammar.Parser

section Order

variable {good : Position → Prop} {lo : Nat} {c c' mid : Cursor} {a : Attempt}
  {made : List Attempt}

/-- A cursor in front of words is in front of its end last of all. -/
theorem Cursor.Lined.proper (h : c.Lined good) : c.Proper where
  plain t mem := (h.words t mem).isTerminal
  ends := by rw [h.eof]; rfl

/-- A recovery takes the token in front of it. -/
theorem covers_recover_going {w : Token} (going : w.kind.isTerminal = false) :
    Covers good lo (· = w) recover fun _ hi => w.span.start.offset < hi := by
  apply Covers.kind_bind
  intro k
  apply Covers.ite
  · intro terminal
    apply Covers.absurd
    rintro _ ⟨rfl, rfl⟩
    rw [going] at terminal
    cases terminal
  · intro _
    have more : ∀ t, t = w ∧ t.kind = k → t.kind ≠ .eof := by
      rintro _ ⟨rfl, -⟩ eof
      rw [eof] at going
      cases going
    apply Covers.bind (.next more)
    rintro _ mid _ ⟨⟨rfl, -⟩, lies⟩
    apply (Covers.onward .skipWhile).mono
    intro _ hi ⟨le, _⟩
    exact Nat.lt_of_lt_of_le lies.begins le

/-- Behind a recovery is the end, or the token that it was made in front of has been passed. -/
theorem recover_lined (run : recover c = .ok () c') (lined : c.Lined good) :
    c'.Lined good ∧ c.place.offset ≤ c'.place.offset ∧
      (c'.upcoming = [] ∨ (c.token 0).span.start.offset < c'.place.offset) := by
  by_cases going : (c.token 0).kind.isTerminal = false
  · have ends := covers_recover_going going c lined rfl rfl
    rw [run] at ends
    exact ⟨ends.1, ends.2.1, .inr ends.2.2⟩
  · have ended : (c.token 0).kind.isTerminal = true := Bool.eq_true_of_not_eq_false going
    rw [recover_ended ended] at run
    cases run
    refine ⟨lined.receive 0, by simp, .inl ?_⟩
    rw [Cursor.upcoming_receive]
    exact lined.proper.isTerminal_token.mp ended

/-- A cursor behind separators. -/
theorem lined_behind_separators (run : skipSeparators c = .ok () mid) (lined : c.Lined good) :
    (mid.receive 0).Lined good ∧ c.place.offset ≤ (mid.receive 0).place.offset := by
  have skips : Covers good c.place.offset anything skipSeparators fun _ _ => True := .skipWhile
  have ends := skips c lined rfl trivial
  rw [run] at ends
  exact ⟨ends.1.receive 0, by simpa using ends.2.1⟩

/-- Where an attempt ends, and where its fault is. -/
theorem lands_toplevelItem (lined : c.Lined good) :
    Lands good c.place.offset (fun _ _ => True) (toplevelItem full c) := by
  have item : Covers good c.place.offset anything (toplevelItem full) fun _ _ => True :=
    (covers_toplevelItem placed_full).mono fun _ _ _ => trivial
  exact item c lined rfl trivial

/-- An attempt keeps the order of a file. Its fault is behind the place where it is made, and in
front of the place where the file is read on unless that is the end. -/
theorem Attempt.Made.lined (attempt : a.Made c c') (lined : c.Lined good) :
    c'.Lined good ∧ c.place.offset ≤ c'.place.offset ∧ ∀ f, a.fault? = some f →
      c.place.offset ≤ f.start.offset ∧
        (c'.upcoming = [] ∨ f.start.offset < c'.place.offset) := by
  cases attempt with
  | read skipped going run =>
    obtain ⟨begins, le⟩ := lined_behind_separators skipped lined
    have ends := lands_toplevelItem begins
    rw [run] at ends
    exact ⟨ends.1, Nat.le_trans le ends.2.1, nofun⟩
  | fail skipped going run recovered =>
    obtain ⟨begins, le⟩ := lined_behind_separators skipped lined
    -- The same run seen twice: with what is good of the file, and with the order alone, which
    -- tells that the fault is not in front of the attempt.
    have ends := lands_toplevelItem begins
    have ends' := lands_toplevelItem begins.onward
    rw [run] at ends ends'
    obtain ⟨ends_lined, le', -, early⟩ := ends
    obtain ⟨c'_lined, le'', passed⟩ := recover_lined recovered (ends_lined.tell _)
    refine ⟨c'_lined, Nat.le_trans le (Nat.le_trans le' le''), ?_⟩
    rintro _ ⟨⟩
    refine ⟨Nat.le_trans le ends'.2.2.1.start_good, passed.imp_right fun behind => ?_⟩
    exact Nat.lt_of_le_of_lt early behind

/-- No attempt is made at the end of a file. -/
theorem Attempts.eq_nil (attempts : Attempts c made c') (proper : c.Proper)
    (none : c.upcoming = []) : made = [] := by
  cases attempts with
  | finish => rfl
  | next attempt rest =>
    obtain ⟨taken, passes, some⟩ := attempt.passes proper
    rw [passes.upcoming proper] at none
    exact absurd (List.append_eq_nil_iff.mp none).1 some

/-- The faults of a file stand in order, no two of them at one place, and the file is read up to its
end. -/
theorem Attempts.faults_ordered (attempts : Attempts c made c') (lined : c.Lined good) :
    (c'.token 0).kind = .eof ∧
      (∀ f ∈ made.filterMap Attempt.fault?, c.place.offset ≤ f.start.offset) ∧
      (made.filterMap Attempt.fault?).Pairwise fun f g => f.start.offset < g.start.offset := by
  induction attempts with
  | @finish c mid skipped ended =>
    obtain ⟨behind, -⟩ := lined_behind_separators skipped lined
    refine ⟨?_, fun f mem => absurd mem List.not_mem_nil, .nil⟩
    have none := behind.proper.isTerminal_token.mp (by simpa using ended)
    rw [Cursor.token, none]
    exact behind.eof
  | @next c mid c' a more attempt rest ih =>
    obtain ⟨lined', le, fault⟩ := attempt.lined lined
    obtain ⟨eof, later, ordered⟩ := ih lined'
    refine ⟨eof, ?_⟩
    cases found : a.fault? with
    | none =>
      rw [List.filterMap_cons_none found]
      exact ⟨fun f mem => Nat.le_trans le (later f mem), ordered⟩
    | some f =>
      obtain ⟨behind, before⟩ := fault f found
      rw [List.filterMap_cons_some found]
      refine ⟨List.forall_mem_cons.mpr ⟨behind, fun g mem => Nat.le_trans le (later g mem)⟩, ?_⟩
      refine .cons (fun g mem => ?_) ordered
      obtain none | before := before
      · rw [rest.eq_nil lined'.proper none] at mem
        cases mem
      · exact Nat.lt_of_lt_of_le before (later g mem)

end Order

/-- At its end a file that nothing has come of has a fault, and nothing else is added. -/
theorem endFault_eof (h : Harvest) {c : Cursor} (eof : (c.token 0).kind = .eof) :
    ∃ h' c', endFault h c = .ok h' c' ∧
      (h.decls = [] → h.faults = [] → h'.faults ≠ []) ∧
      (h.decls ≠ [] ∨ h.faults ≠ [] → h' = h) := by
  by_cases bare : h.decls = [] ∧ h.faults = []
  · refine ⟨{ h with faults := [.across (c.token 0).span (.expected "toplevel" (c.token 0))] },
      (c.receive 0).receive 0, ?_, by simp, by simp [bare]⟩
    simp [endFault, attempt, unexpected, fail, kind, kindAt, peekAt, bind, EStateM.bind, pure,
      EStateM.pure, bare]
  · refine ⟨h, c.receive 0, ?_, fun none none' => absurd ⟨none, none'⟩ bare, fun _ => rfl⟩
    simp [endFault, kind, kindAt, peekAt, bind, EStateM.bind, pure, EStateM.pure, eof, bare]

/-- What several faults of a file make up: an error at the first of them, with a note on each. -/
theorem Rejection.diagnostic_several {r : Rejection} (several : r.more ≠ []) (source : Source) :
    r.diagnostic source = ⟨source, r.first.start, none,
      s!"{r.more.length + 1} error(s) while parsing",
      (r.first :: r.more).map fun f => s!"{f.message} (at {source.cite f.start})"⟩ := by
  rw [Rejection.diagnostic, if_neg (by simpa using several)]
  exact Diagnostic.foldl_noteAt_eq source Fault.start Fault.message _ _

/-- What has come of the declarations of a source is what the source is parsed to. -/
theorem parse_of_harvest {source : Source} {h : Harvest} {c : Cursor}
    (clean : (scan source).errors = [])
    (run : harvest ((Cursor.ofTokens (scan source).tokens).tell (.started source.name)) = .ok h c) :
    (parse source).result = match h.faults.reverse with
      | [] => .ok h.decls.reverse
      | first :: more => .error ((⟨first, more⟩ : Rejection).diagnostic source) := by
  rw [parse_of_clean clean, parseTokens]
  cases faults : h.faults.reverse with
  | nil => simp [file, Parser.tell, bind, EStateM.bind, pure, EStateM.pure, run, faults]
  | cons first more => simp [file, Parser.tell, bind, EStateM.bind, pure, EStateM.pure, run, faults]

/-- What comes of a source without lexical errors is what the attempts at its declarations have come
to, and nothing else unless they have come to nothing. -/
theorem parse_of_attempts {source : Source} {made : List Attempt} {start c' : Cursor}
    (clean : (scan source).errors = [])
    (begun : start = (Cursor.ofTokens (scan source).tokens).tell (.started source.name))
    (attempts : Attempts start made c') :
    let decls := made.filterMap Attempt.decl?
    let faults := made.filterMap Attempt.fault?
    (∀ first more, faults = first :: more →
      (parse source).result = .error ((⟨first, more⟩ : Rejection).diagnostic source)) ∧
    (faults = [] → decls ≠ [] → (parse source).result = .ok decls) ∧
    (faults = [] → decls = [] → ∃ d, (parse source).result = .error d) := by
  subst begun
  intro decls faults
  have lined := (lined_scan clean).tell (.started source.name)
  obtain ⟨eof, -, -⟩ := attempts.faults_ordered lined
  let before := (⟨[], []⟩ : Harvest).after made
  have read : before.decls = decls.reverse := List.append_nil _
  have failed : before.faults = faults.reverse := List.append_nil _
  obtain ⟨h, c, ended, bare, same⟩ := endFault_eof before eof
  have result := parse_of_harvest clean ((attempts.iterate lined.proper).trans ended)
  refine ⟨fun first more several => ?_, fun none some => ?_, fun none nothing => ?_⟩
  · have kept := same (.inr (by simp [failed, several]))
    simp only [kept, failed, List.reverse_reverse, several] at result
    exact result
  · have kept := same (.inl (by simp [read, some]))
    simp only [kept, failed, read, List.reverse_reverse, none] at result
    exact result
  · have some := bare (by simp [read, nothing]) (by simp [failed, none])
    obtain ⟨first, more, listed⟩ := List.exists_cons_of_ne_nil (mt List.reverse_eq_nil_iff.mp some)
    rw [listed] at result
    exact ⟨_, result⟩

end Grammar

open Grammar

/-- What comes of a source without lexical errors is decided by the attempts at its declarations.
Their faults stand in order, no two of them at one place. Several of them make up an error at the
first one that counts them and has a note on each; a fault that is alone is the error itself; and
without one the source is parsed to the declarations that were read, unless there are none. -/
theorem parse_reports_attempts (source : Source) (clean : (scan source).errors = []) :
    let start := (Cursor.ofTokens (scan source).tokens).tell (.started source.name)
    (∃ made c', Attempts start made c') ∧
    ∀ made c', Attempts start made c' →
      let decls := made.filterMap Attempt.decl?
      let faults := made.filterMap Attempt.fault?
      (faults.Pairwise fun f g => f.start.offset < g.start.offset) ∧
      (2 ≤ faults.length → ∃ d, (parse source).result = .error d ∧
        d.message = s!"{faults.length} error(s) while parsing" ∧
        d.notes = (faults.map fun f => s!"{f.message} (at {source.cite f.start})") ∧
        faults.head?.map Fault.start = some d.start) ∧
      (∀ f, faults = [f] → (parse source).result = .error (f.diagnostic source)) ∧
      (faults = [] → ((∃ tree, (parse source).result = .ok tree) ↔ decls ≠ []) ∧
        ∀ tree, (parse source).result = .ok tree → tree = decls) := by
  intro start
  have lined : start.Lined source.HasPosition := (lined_scan clean).tell _
  refine ⟨exists_attempts lined.proper, fun made c' attempts => ?_⟩
  intro decls faults
  obtain ⟨-, -, ordered⟩ := attempts.faults_ordered lined
  obtain ⟨rejected, accepted, bare⟩ := parse_of_attempts clean rfl attempts
  refine ⟨ordered, fun several => ?_, fun f alone => rejected f [] alone, fun none => ?_⟩
  · match listed : faults, several with
    | first :: second :: more, _ =>
      have error := rejected first (second :: more) listed
      rw [Rejection.diagnostic_several (List.cons_ne_nil _ _)] at error
      exact ⟨_, error, rfl, rfl, rfl⟩
  · by_cases nothing : decls = []
    · obtain ⟨d, error⟩ := bare none nothing
      simp [error, nothing]
    · simp [accepted none nothing, nothing, decls]

/-- Two types without names. -/
theorem parse_reports_attempts_two_types :
    let source : Source := .inMemory "a" (Utf8.ofString "type 1\ntype 2")
    (scan source).errors = [] ∧ ∃ d, (parse source).result = .error d ∧
      d.message = "2 error(s) while parsing" ∧
      d.notes = ["Expected name of type but got '1' (at a:1:6)",
        "Expected name of type but got '2' (at a:2:6)"] ∧
      d.start = ⟨5, 1, 6⟩ := by
  intro source
  have clean : (scan source).errors = [] := List.isEmpty_iff.mp (by decide +kernel)
  have two : ∃ made c', Attempts
      ((Cursor.ofTokens (scan source).tokens).tell (.started source.name)) made c' ∧
      made.filterMap Attempt.fault? =
        [⟨.expected "name of type" ⟨.int, "1", ⟨⟨5, 1, 6⟩, ⟨6, 1, 7⟩⟩⟩, ⟨5, 1, 6⟩,
          some ⟨6, 1, 7⟩, []⟩,
        ⟨.expected "name of type" ⟨.int, "2", ⟨⟨12, 2, 6⟩, ⟨13, 2, 7⟩⟩⟩, ⟨12, 2, 6⟩,
          some ⟨13, 2, 7⟩, []⟩] :=
    ⟨_, _, .next (.fail (by cbv) (by decide) (by cbv) (by cbv))
      (.next (.fail (by cbv) (by decide) (by cbv) (by cbv)) (.finish (by cbv) (by decide))), by cbv⟩
  obtain ⟨made, c', attempts, faults⟩ := two
  have told := (parse_reports_attempts source clean).2 made c' attempts
  rw [faults] at told
  obtain ⟨d, error, message, notes, start⟩ := told.2.1 (Nat.le_refl _)
  exact ⟨clean, d, error, message.trans (by decide +kernel), notes.trans (by decide +kernel),
    (Option.some.inj start).symm⟩

end Frontend
