import Frontend.Grammar.File
import Frontend.Proofs.LooseDecls
import Frontend.Proofs.Yields

/-!
Files are the same on looser streams. Only files without faults are compared: a parser that goes on
after a fault looks for the next word that begins a declaration, and where it finds one may depend
on line ends.
-/
namespace Frontend

namespace Grammar

open Token (Kind)
open Frontend.Grammar.Parser Context

/-- One more declaration of a file, or its end, up to the first fault. -/
def declared (rules : Rules) (decls : List Toplevel) :
    Parser (Turn (List Toplevel) (List Toplevel)) := do
  skipSeparators
  if (← kind).isTerminal then
    if decls.isEmpty ∨ (← kind) = .illegal then unexpected "toplevel"
    else pure (.done decls)
  else
    let decl ← toplevelItem rules
    pure (.again (decl :: decls))

/-- The declarations of a file without faults, latest first. -/
def declarations : Parser (List Toplevel) := iterate (declared full) []

theorem attempt_eq_ok {α : Type} {p : Parser α} {c c' : Cursor} {found : Except Fault α}
    (run : attempt p c = .ok found c') :
    (∃ a, found = .ok a ∧ p c = .ok a c') ∨ ∃ f, found = .error f ∧ p c = .error f c' := by
  unfold attempt at run
  cases head : p c with
  | ok a c₁ =>
    rw [head] at run
    cases run
    exact .inl ⟨a, rfl, rfl⟩
  | error f c₁ =>
    rw [head] at run
    cases run
    exact .inr ⟨f, rfl, rfl⟩

section Faults

variable {rules : Rules} {h h' : Harvest} {c c' : Cursor}

/-- A turn after which there is no fault. -/
def Faultless (t : Turn Harvest Harvest) : Prop := t.Keeps (·.faults = []) (·.faults = [])

/-- What is left of a turn when faults do not count. -/
def onlyDecls : Turn Harvest Harvest → Turn (List Toplevel) (List Toplevel)
  | .again h => .again h.decls
  | .done h => .done h.decls

/-- A turn without a fault reads a declaration or comes to the end of the file. -/
theorem declared_of_fileStep {t : Turn Harvest Harvest} (run : fileStep rules h c = .ok t c')
    (clean : h.faults = []) (clean' : Faultless t) :
    declared rules h.decls c = .ok (onlyDecls t) c' := by
  obtain ⟨_, c₁, skipped, run⟩ := bind_eq_ok.mp run
  obtain ⟨k, c₂, seen, run⟩ := bind_eq_ok.mp run
  refine bind_eq_ok.mpr ⟨_, c₁, skipped, bind_eq_ok.mpr ⟨k, c₂, seen, ?_⟩⟩
  by_cases ended : k.isTerminal = true
  · rw [if_pos ended] at run ⊢
    obtain ⟨h', c₃, last, done⟩ := bind_eq_ok.mp run
    cases done
    obtain ⟨k', c₄, seen', last⟩ := bind_eq_ok.mp last
    refine bind_eq_ok.mpr ⟨k', c₄, seen', ?_⟩
    by_cases faulty : h.decls.isEmpty ∨ k' = .illegal
    · rw [if_pos ⟨faulty, by simp [clean]⟩] at last
      obtain ⟨found, c₅, tried, last⟩ := bind_eq_ok.mp last
      obtain ⟨_, rfl, unexpected_⟩ | ⟨f, rfl, -⟩ := attempt_eq_ok tried
      · cases unexpected_
      · cases last
        cases clean'
    · rw [if_neg fun both => faulty both.1] at last
      rw [if_neg faulty]
      cases last
      rfl
  · rw [if_neg ended] at run ⊢
    obtain ⟨found, c₃, tried, run⟩ := bind_eq_ok.mp run
    obtain ⟨decl, rfl, item⟩ | ⟨f, rfl, -⟩ := attempt_eq_ok tried
    · cases run
      exact bind_eq_ok.mpr ⟨decl, c', item, rfl⟩
    · obtain ⟨_, _, _, run⟩ := bind_eq_ok.mp run
      obtain ⟨_, _, _, run⟩ := bind_eq_ok.mp run
      cases run
      cases clean'

/-- A fault is never forgotten. -/
theorem yields_faults (faulty : h.faults ≠ []) :
    Yields (iterate (fileStep rules) h) (·.faults ≠ []) := by
  refine Yields.iterate (fun h : Harvest => h.faults ≠ []) faulty ?_
  intro h faulty
  apply Yields.step
  intro _
  apply Yields.step
  intro k
  apply Yields.ite
  · intro _
    have kept : Yields (endFault h) (·.faults ≠ []) := by
      apply Yields.step
      intro k
      apply Yields.ite
      · intro both
        exact absurd (List.isEmpty_iff.mp both.2) faulty
      · intro _
        exact .pure faulty
    exact kept.bind fun h faulty => .pure faulty
  · intro _
    apply Yields.step
    intro found
    cases found with
    | ok decl => exact .pure faulty
    | error f => exact .step fun _ => .step fun _ => .pure (List.cons_ne_nil _ _)

/-- A file without faults is one declaration behind another. -/
theorem declared_of_harvest (run : iterate (fileStep rules) h c = .ok h' c') (clean : h.faults = [])
    (clean' : h'.faults = []) : iterate (declared rules) h.decls c = .ok h'.decls c' := by
  induction h, c using Parser.iterate.induct (fileStep rules) with
  | case1 h c f mid failed =>
    rw [iterate_error failed] at run
    cases run
  | case2 h c h₁ mid last =>
    rw [iterate_done last] at run
    cases run
    exact iterate_done (declared_of_fileStep last clean clean')
  | case3 h c h₁ mid again less ih =>
    rw [iterate_again again less] at run
    have kept : h₁.faults = [] :=
      Classical.byContradiction fun faulty => yields_faults faulty _ _ _ run clean'
    rw [iterate_again (declared_of_fileStep again clean kept) less]
    exact ih run kept
  | case4 h c h₁ mid again stuck =>
    rw [Parser.iterate, again] at run
    simp [stuck] at run

end Faults

section Runs

variable {gap : ℤ} {rules rules' : Rules} {stack : List Frame} {ph : Phase} {v : View}

/-- A second run that is only an attempt. -/
theorem Matches.attempt_bind {α β γ δ : Type} {x : Context} {p : Parser α} {q : Parser β}
    {mid : α → β → Context → View → Prop} {final : γ → δ → Context → View → Prop}
    {k : α → Parser γ} {l : Except Fault β → Parser δ} (first : Matches gap x v p q mid)
    (then_ : ∀ a b y w, mid a b y w → Matches gap y w (k a) (l (.ok b)) final) :
    Matches gap x v (p >>= k) (attempt q >>= l) final := by
  have tried : Matches gap x v p (attempt q) fun a r y w => ∃ b, r = .ok b ∧ mid a b y w := by
    intro far c d a c' near seen short run
    obtain ⟨b, d', y, run', near', moves, held⟩ := first c d a c' near seen short run
    exact ⟨.ok b, d', y, by simp [attempt, run'], near', moves, b, rfl, held⟩
  apply tried.bind
  rintro a _ y w ⟨b, rfl, held⟩
  exact then_ a b y w held

/-- Both runs read one more declaration, or come to the end of the file. -/
theorem matches_declared (free : rules.Match gap rules') {decls : List Toplevel} {h : Harvest}
    (lines : Lines ph v) (same : decls.map Toplevel.bare = h.decls.map Toplevel.bare)
    (clean : h.faults = []) :
    Matches gap ⟨.block :: stack, ph⟩ v (declared rules decls) (fileStep rules' h) fun t t' y w =>
      Turn.Alike (fun decls h => decls.map Toplevel.bare = h.decls.map Toplevel.bare ∧
          h.faults = [] ∧ ∃ ph, y = ⟨.block :: stack, ph⟩ ∧ Lines ph w)
        (fun decls h => decls.map Toplevel.bare = h.decls.map Toplevel.bare ∧ h.faults = [] ∧
          (w 0).1.isTerminal = true) t t' := by
  apply Matches.skipSeparators_bind lines
  intro ph w lines level _ _
  apply Matches.kind_bind
  apply Matches.ite (by rw [level])
  · intro ended
    unfold endFault
    rw [bind_assoc]
    apply Matches.kind_bind
    have empty : decls.isEmpty = h.decls.isEmpty := by
      simpa using congrArg List.isEmpty same
    rw [empty, level]
    by_cases faulty : h.decls.isEmpty ∨ (w 0).2 = .illegal
    · rw [if_pos faulty]
      exact .unexpected
    · rw [if_neg faulty, if_neg fun both => faulty both.1]
      exact .pure ⟨same, clean, ended⟩
  · intro _
    apply Matches.attempt_bind (matches_toplevelItem free lines.quiet)
    rintro decl decl' _ w ⟨decl_eq, ph, rfl, lines⟩
    apply Matches.pure
    exact ⟨by simp [decl_eq, same], clean, ph, rfl, lines⟩

/-- Both runs read the same declarations up to the end of the file. -/
theorem matches_harvest : Matches gap .start v declarations harvest fun decls h _ w =>
    decls.map Toplevel.bare = h.decls.map Toplevel.bare ∧ h.faults = [] ∧
      (w 0).1.isTerminal = true := by
  apply Matches.iterate fun decls h y w => decls.map Toplevel.bare = h.decls.map Toplevel.bare ∧
    h.faults = [] ∧ ∃ ph, y = ⟨[.block], ph⟩ ∧ Lines ph w
  · exact ⟨rfl, rfl, .fresh, rfl, .fresh⟩
  rintro decls h _ w ⟨same, clean, ph, rfl, lines⟩
  exact matches_declared match_full lines same clean

end Runs

end Grammar

open Grammar

variable {source source' : Source} {tokens tokens' far : List Token} {decls : List Toplevel}

/-- Tokens are parsed to declarations if no declaration has a fault. -/
theorem parseTokens_eq_ok : (parseTokens source tokens).result = .ok decls ↔
    ∃ h c', harvest ((Cursor.ofTokens tokens).tell (.started source.name)) = .ok h c' ∧
      h.faults = [] ∧ h.decls.reverse = decls := by
  unfold parseTokens file
  simp only [Parser.tell, bind, EStateM.bind, pure]
  cases harvest ((Cursor.ofTokens tokens).tell (.started source.name)) with
  | error f c' => simp
  | ok h c' =>
    cases faults : h.faults.reverse with
    | nil =>
      have none : h.faults = [] := List.reverse_eq_nil_iff.mp faults
      simp [none, EStateM.bind, Parser.tell, EStateM.pure]
    | cons first more =>
      have some : h.faults ≠ [] := fun none => by simp [none] at faults
      simp [some, faults, EStateM.pure]

/-- Looser tokens are parsed to the same declarations, and contexts accept all of the tokens. -/
theorem Grammar.Near.parseTokens (source' : Source)
    (near : Near far .start (.ofTokens tokens) (.ofTokens tokens'))
    (parsed : (parseTokens source tokens).result = .ok decls) :
    (∃ decls', (Frontend.parseTokens source' tokens').result = .ok decls' ∧
      decls.map Toplevel.bare = decls'.map Toplevel.bare) ∧
    ∃ y, Context.start.Leads (Cursor.ofTokens tokens).upcoming y := by
  obtain ⟨h, c', run, clean, rfl⟩ := parseTokens_eq_ok.mp parsed
  have run : declarations _ = .ok h.decls c' := declared_of_harvest run rfl clean
  have short : ((Cursor.ofTokens tokens').remaining : ℤ) ≤ (Cursor.ofTokens tokens).remaining +
      ((Cursor.ofTokens tokens').remaining - (Cursor.ofTokens tokens).remaining : ℤ) := by omega
  obtain ⟨h', d', y, run', near', moves, same, clean', ended⟩ :=
    matches_harvest _ ((Cursor.ofTokens tokens').tell (.started source'.name)) _ _ near.tell rfl
      short run
  refine ⟨⟨h'.decls.reverse, parseTokens_eq_ok.mpr ⟨h', d', run', clean', rfl⟩, ?_⟩, y, ?_⟩
  · rw [List.map_reverse, List.map_reverse, same]
  · obtain ⟨taken, upcoming, leads⟩ := moves.leads
    have spent := near'.left.isTerminal_token.mp ended
    rw [spent, List.append_nil] at upcoming
    exact upcoming ▸ leads

/-- What is parsed without faults is a stream that contexts accept. -/
theorem leads_of_parsed (parsed : (parseTokens source tokens).result = .ok decls) :
    ∃ y, Context.start.Leads (Cursor.ofTokens tokens).upcoming y := by
  have near : Near [] .start (.ofTokens tokens) (.ofTokens tokens) :=
    ⟨Cursor.proper_ofTokens tokens, Cursor.proper_ofTokens tokens, rfl, .refl _, .inl rfl⟩
  exact (near.parseTokens source parsed).2

/-- Looser tokens are parsed to the same declarations. -/
theorem parseTokens_loose (parsed : (parseTokens source tokens).result = .ok decls)
    (loose : Loose far .start (Cursor.ofTokens tokens).upcoming (Cursor.ofTokens tokens').upcoming)
    (ends : (Cursor.ofTokens tokens).last.kind = (Cursor.ofTokens tokens').last.kind) :
    ∃ decls', (parseTokens source' tokens').result = .ok decls' ∧
      decls.map Toplevel.bare = decls'.map Toplevel.bare := by
  have near : Near far .start (.ofTokens tokens) (.ofTokens tokens') :=
    ⟨Cursor.proper_ofTokens tokens, Cursor.proper_ofTokens tokens', ends, loose,
      .inr (leads_of_parsed parsed)⟩
  exact (near.parseTokens source' parsed).1

end Frontend
