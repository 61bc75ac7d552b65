import Frontend.Grammar.Stmt
import Frontend.Proofs.NamedTypes
import Frontend.Proofs.ParsedExprs

/-!
The names of statements and expressions, as long as the rules that they call find trees with good
names. Promotion of a block adds no names.
-/
namespace Frontend.Grammar

open Frontend.Grammar.Parser
open Token (Kind)

variable {good : String → Prop} {rules : Rules}

/-- All names of some statements are good. -/
def NamedBlock (good : String → Prop) (stmts : List Stmt) : Prop :=
  ∀ s ∈ stmts, Node.Named good (.stmt s)

theorem NamedBlock.nodes {stmts : List Stmt} (named : NamedBlock good stmts) :
    ∀ m ∈ stmts.map Node.stmt, Node.Named good m :=
  List.forall_mem_map.mpr named

section Promotion

/-- What is known of the parts of a promoted block is known of the branch that it becomes. -/
theorem named_blockValue {parts : List Stmt × Expr}
    (named : NamedBlock good parts.1 ∧ Node.Named good (.expr parts.2)) :
    Node.Named good (.expr (blockValue parts)) := by
  obtain ⟨stmts, value⟩ := parts
  obtain ⟨lead, last⟩ := named
  cases stmts with
  | nil => exact last
  | cons first rest =>
    exact .intro nofun (List.forall_mem_append.mpr
      ⟨NamedBlock.nodes lead, List.forall_mem_singleton.mpr last⟩)

mutual

/-- The value of a statement has the names of the statement. -/
theorem promote_named : ∀ (s : Stmt) {e : Expr}, Node.Named good (.stmt s) → promote s = .ok e →
    Node.Named good (.expr e)
  | ⟨_, .value e⟩, _, .intro _ below, h => by
    cases h
    exact List.forall_mem_singleton.mp below
  | ⟨span, .ifThen cond thenBlock elseBlock⟩, _, .intro _ below, h => by
    obtain ⟨cond_named, below⟩ := List.forall_mem_cons.mp below
    obtain ⟨then_named, else_named⟩ := List.forall_mem_append.mp below
    obtain ⟨then_, else_, then_run, else_run, rfl⟩ := promote_ifThen_eq_ok h
    have then_value := named_blockValue
      (promoteLast_named _ thenBlock (List.forall_mem_map.mp then_named) then_run)
    have else_value := named_blockValue
      (promoteLast_named _ elseBlock (List.forall_mem_map.mp else_named) else_run)
    exact .intro nofun (List.forall_mem_cons.mpr ⟨cond_named,
      List.forall_mem_cons.mpr ⟨then_value, List.forall_mem_singleton.mpr else_value⟩⟩)
  | ⟨span, .switch cases elseBlock⟩, _, .intro _ below, h => by
    obtain ⟨cases_named, else_named⟩ := List.forall_mem_append.mp below
    obtain ⟨values, else_, cases_run, else_run, rfl⟩ := promote_switch_eq_ok h
    have values_named := promoteCases_named _ _ cases cases_named cases_run
    have else_value := named_blockValue
      (promoteLast_named _ elseBlock (List.forall_mem_map.mp else_named) else_run)
    exact .intro nofun (List.forall_mem_append.mpr
      ⟨values_named, List.forall_mem_singleton.mpr else_value⟩)
  | ⟨span, .matchWith subject arms elseBlock⟩, _, .intro _ below, h => by
    obtain ⟨subject_named, below⟩ := List.forall_mem_cons.mp below
    obtain ⟨arms_named, else_named⟩ := List.forall_mem_append.mp below
    obtain ⟨values, else_, arms_run, else_run, rfl⟩ := promote_matchWith_eq_ok h
    have values_named := promoteArms_named _ _ arms arms_named arms_run
    have else_value := named_blockValue
      (promoteLast_named _ elseBlock (List.forall_mem_map.mp else_named) else_run)
    exact .intro nofun (List.forall_mem_cons.mpr ⟨subject_named,
      List.forall_mem_append.mpr ⟨values_named, List.forall_mem_singleton.mpr else_value⟩⟩)

theorem promoteLast_named (hint : Position) : ∀ (stmts : List Stmt) {parts : List Stmt × Expr},
    NamedBlock good stmts → promoteLast hint stmts = .ok parts →
    NamedBlock good parts.1 ∧ Node.Named good (.expr parts.2)
  | [], _, _, h => by cases h
  | [s], _, named, h => by
    obtain ⟨value, run, rfl⟩ := promoteLast_single_eq_ok h
    exact ⟨nofun, promote_named s (named s List.mem_cons_self) run⟩
  | s :: next :: rest, _, named, h => by
    obtain ⟨lead, value, run, rfl⟩ := promoteLast_cons_eq_ok h
    obtain ⟨first_named, rest_named⟩ := List.forall_mem_cons.mp named
    obtain ⟨lead_named, last_named⟩ := promoteLast_named hint (next :: rest) rest_named run
    exact ⟨List.forall_mem_cons.mpr ⟨first_named, lead_named⟩, last_named⟩

theorem promoteCases_named (start : Position) (n : Nat) :
    ∀ (cases : List (Expr × List Stmt)) {values : List (Expr × Expr)},
    (∀ m ∈ cases.flatMap fun c => Node.expr c.1 :: c.2.map .stmt, Node.Named good m) →
    promoteCases start n cases = .ok values →
    ∀ m ∈ values.flatMap fun c => [Node.expr c.1, .expr c.2], Node.Named good m
  | [], _, _, h => by
    cases h
    exact nofun
  | (cond, block) :: rest, _, named, h => by
    obtain ⟨parts, values, run, rest_run, rfl⟩ := promoteCases_cons_eq_ok h
    obtain ⟨first, rest_named⟩ := List.forall_mem_append.mp named
    obtain ⟨cond_named, block_named⟩ := List.forall_mem_cons.mp first
    have value_named := named_blockValue
      (promoteLast_named _ block (List.forall_mem_map.mp block_named) run)
    refine List.forall_mem_cons.mpr ⟨cond_named, List.forall_mem_cons.mpr ⟨value_named, ?_⟩⟩
    exact promoteCases_named start (n + 1) rest rest_named rest_run

theorem promoteArms_named (start : Position) (n : Nat) :
    ∀ (arms : List (Pattern × List Stmt)) {values : List (Pattern × Expr)},
    (∀ m ∈ arms.flatMap fun a => Node.pattern a.1 :: a.2.map .stmt, Node.Named good m) →
    promoteArms start n arms = .ok values →
    ∀ m ∈ values.flatMap fun a => [Node.pattern a.1, .expr a.2], Node.Named good m
  | [], _, _, h => by
    cases h
    exact nofun
  | (pattern, block) :: rest, _, named, h => by
    obtain ⟨parts, values, run, rest_run, rfl⟩ := promoteArms_cons_eq_ok h
    obtain ⟨first, rest_named⟩ := List.forall_mem_append.mp named
    obtain ⟨pattern_named, block_named⟩ := List.forall_mem_cons.mp first
    have value_named := named_blockValue
      (promoteLast_named _ block (List.forall_mem_map.mp block_named) run)
    refine List.forall_mem_cons.mpr ⟨pattern_named, List.forall_mem_cons.mpr ⟨value_named, ?_⟩⟩
    exact promoteArms_named start (n + 1) rest rest_named rest_run

end

/-- The value of a block has the names of the block. -/
theorem promoteBlock_named {hint : Position} {stmts : List Stmt} {e : Expr}
    (named : NamedBlock good stmts) (h : promoteBlock hint stmts = .ok e) :
    Node.Named good (.expr e) := by
  obtain ⟨parts, run, rfl⟩ := promoteBlock_eq_ok h
  exact named_blockValue (promoteLast_named hint stmts named run)

end Promotion

section Branching

theorem finds_block (sound : rules.Naming good) {closers : List Kind} :
    Finds good (block rules closers) (NamedBlock good) := by
  refine .iterate (NamedBlock good) nofun fun stmts named => .step fun _ => .step fun k => ?_
  refine .ite (fun _ => .pure fun s mem => named s (List.mem_reverse.mp mem)) fun _ => ?_
  refine .ite (fun _ => .unexpected) fun _ => sound.statement.bind fun s s_named => .step fun k => ?_
  exact .ite (fun _ => .pure (List.forall_mem_cons.mpr ⟨s_named, named⟩)) fun _ => .unexpected

theorem finds_elseBlock (sound : rules.Naming good) :
    Finds good (elseBlock rules) (NamedBlock good) :=
  .step fun _ => .ite (fun _ => finds_block sound) fun _ => .pure nofun

instance steady_thenOrSeparator {what : String} : Steady (thenOrSeparator what) := Steady.bind

theorem finds_ifStmt (sound : rules.Naming good) :
    Finds good (ifStmt rules) fun s => Node.Named good (.stmt s) := by
  refine .step fun word => (sound.binary 1).bind fun cond cond_named => .step fun _ => ?_
  refine (finds_block sound).bind fun thenBlock then_named => ?_
  refine (finds_elseBlock sound).bind fun elseBlock else_named => .step fun close => ?_
  exact .pure (.intro nofun (List.forall_mem_cons.mpr ⟨cond_named,
    List.forall_mem_append.mpr ⟨then_named.nodes, else_named.nodes⟩⟩))

theorem finds_branches {α : Type} {word : Kind} {what : String} {branch : Parser α}
    {holds : α → Prop} (each : Finds good branch holds) :
    Finds good (branches word what branch) fun all => ∀ b ∈ all, holds b := by
  have turns : Finds good (iterate (fun found => do
      if ← ate word then
        let b ← branch
        pure (.again (b :: found))
      else pure (.done found.reverse)) []) fun all => ∀ b ∈ all, holds b := by
    refine .iterate (fun found => ∀ b ∈ found, holds b) nofun fun found known => ?_
    refine .step fun _ => .ite (fun _ => ?_) fun _ => .pure fun b mem => ?_
    · exact each.bind fun b b_holds => .pure (List.forall_mem_cons.mpr ⟨b_holds, known⟩)
    · exact known b (List.mem_reverse.mp mem)
  exact turns.bind fun all known => .ite (fun _ => .unexpected) fun _ => .pure known

/-- Branches of which each has good names. -/
theorem named_branches {α : Type} {nodes : α → List Node} {all : List α}
    (known : ∀ b ∈ all, ∀ m ∈ nodes b, Node.Named good m) :
    ∀ m ∈ all.flatMap nodes, Node.Named good m := by
  intro m mem
  obtain ⟨b, b_mem, below⟩ := List.mem_flatMap.mp mem
  exact known b b_mem m below

theorem finds_switchCase (sound : rules.Naming good) : Finds good (switchCase rules) fun c =>
    ∀ m ∈ Node.expr c.1 :: c.2.map Node.stmt, Node.Named good m := by
  refine (sound.binary 1).bind fun cond cond_named => .step fun _ => ?_
  exact (finds_block sound).bind fun stmts named =>
    .pure (List.forall_mem_cons.mpr ⟨cond_named, named.nodes⟩)

theorem finds_switchStmt (sound : rules.Naming good) :
    Finds good (switchStmt rules) fun s => Node.Named good (.stmt s) := by
  refine .step fun word => .step fun _ => (finds_branches (finds_switchCase sound)).bind
    fun cases known => ?_
  refine (finds_elseBlock sound).bind fun elseBlock else_named => .step fun close => .pure ?_
  exact .intro nofun (List.forall_mem_append.mpr ⟨named_branches known, else_named.nodes⟩)

theorem finds_matchArm (sound : rules.Naming good) : Finds good (matchArm rules) fun a =>
    ∀ m ∈ Node.pattern a.1 :: a.2.map Node.stmt, Node.Named good m := by
  refine sound.pattern.bind fun p p_named => .step fun _ => ?_
  exact (finds_block sound).bind fun stmts named =>
    .pure (List.forall_mem_cons.mpr ⟨p_named, named.nodes⟩)

theorem finds_matchStmt (sound : rules.Naming good) :
    Finds good (matchStmt rules) fun s => Node.Named good (.stmt s) := by
  refine .step fun word => (sound.binary 1).bind fun subject subject_named => .step fun _ => ?_
  refine (finds_branches (finds_matchArm sound)).bind fun arms known => ?_
  refine (finds_elseBlock sound).bind fun elseBlock else_named => .step fun close => .pure ?_
  exact .intro nofun (List.forall_mem_cons.mpr ⟨subject_named,
    List.forall_mem_append.mpr ⟨named_branches known, else_named.nodes⟩⟩)

end Branching

section Operands

theorem finds_literal (t : Token) (minus : Option Position) :
    Finds good (literal t minus) fun e => Node.Named good (.expr e) := by
  unfold literal
  split
  next value read => cases value <;> exact .pure (.intro nofun nofun)
  next => exact .fail

theorem finds_blockBody (sound : rules.Naming good) (hint : Position) :
    Finds good (blockBody rules hint) fun e => Node.Named good (.expr e) := by
  refine (finds_block sound).bind fun stmts named => .step fun _ => .ofExcept fun e run => ?_
  exact promoteBlock_named named run

/-- Parameters without types, with good names. -/
structure BareParams (good : String → Prop) (params : List Param) : Prop where
  untyped : Untyped params
  names : ∀ name ∈ params.map (·.name), good name

theorem BareParams.nil : BareParams good [] := ⟨nofun, nofun⟩

theorem BareParams.below {params : List Param} (bare : BareParams good params) :
    ∀ m ∈ Node.ofParams params, Node.Named good m := by
  intro m mem
  obtain ⟨p, p_mem, below⟩ := List.mem_flatMap.mp mem
  rw [bare.untyped p p_mem] at below
  exact absurd below List.not_mem_nil

theorem finds_lambdaParams : Finds good lambdaParams (BareParams good) := by
  refine (Finds.commaList Finds.expectIdent).bind fun names known => .pure ⟨?_, ?_⟩
  · intro p mem
    obtain ⟨name, -, rfl⟩ := List.mem_map.mp mem
    rfl
  · rw [List.map_map]
    exact List.forall_mem_map.mpr known

instance steady_doParamsAhead : Steady doParamsAhead where
  keeps _ _ _ _ names run := by cases run; exact names.receive _

theorem named_lambda {span : Span} {isDoBlock : Bool} {params : List Param} {body : Expr}
    (bare : BareParams good params) (named : Node.Named good (.expr body)) :
    Node.Named good (.expr ⟨span, .lambda isDoBlock params body⟩) :=
  .intro bare.names (List.forall_mem_append.mpr ⟨bare.below, List.forall_mem_singleton.mpr named⟩)

theorem finds_doBlock (sound : rules.Naming good) :
    Finds good (doBlock rules) fun e => Node.Named good (.expr e) := by
  refine .step fun word => .step fun ahead => ?_
  refine .ite_bind finds_lambdaParams .nil fun params bare => ?_
  refine (finds_blockBody sound _).bind fun body named => .step fun stop => ?_
  exact .pure (named_lambda bare named)

theorem finds_namedArg (sound : rules.Naming good) :
    Finds good (namedArg rules) fun arg => Node.Named good (.expr arg.2) :=
  .step fun _ => .step fun _ => .step fun _ => (sound.binary 1).bind fun _ named => .pure named

theorem finds_callEnd (sound : rules.Naming good) : Finds good (callEnd rules) fun found =>
    ∀ m ∈ Node.maybe .expr found.2, Node.Named good m := by
  refine .step fun close => .step fun k => .ite (fun _ => ?_) fun _ => .pure nofun
  exact (finds_doBlock sound).bind fun body named => .pure (List.forall_mem_singleton.mpr named)

theorem finds_call (sound : rules.Naming good) {callee : Expr}
    (callee_named : Node.Named good (.expr callee)) :
    Finds good (call rules callee) fun e => Node.Named good (.expr e) := by
  have named : Finds good (do
      let args ← closedList .rparen fun _ => namedArg rules
      let found ← callEnd rules
      pure (⟨⟨callee.span.start, found.1⟩, .callNamed callee args found.2⟩ : Expr))
      fun e => Node.Named good (.expr e) := by
    refine (Finds.closedList fun _ => finds_namedArg sound).bind fun args known => ?_
    refine (finds_callEnd sound).bind fun found block_named => .pure ?_
    exact .intro nofun (List.forall_mem_cons.mpr ⟨callee_named,
      List.forall_mem_append.mpr ⟨List.forall_mem_map.mpr known, block_named⟩⟩)
  have unnamed : Finds good (do
      let args ← closedList .rparen fun _ => rules.expr
      let found ← callEnd rules
      pure (⟨⟨callee.span.start, found.1⟩, .call callee args found.2⟩ : Expr))
      fun e => Node.Named good (.expr e) := by
    refine (Finds.closedList fun _ => sound.binary 1).bind fun args known => ?_
    refine (finds_callEnd sound).bind fun found block_named => .pure ?_
    exact .intro nofun (List.forall_mem_cons.mpr ⟨callee_named,
      List.forall_mem_append.mpr ⟨List.forall_mem_map.mpr known, block_named⟩⟩)
  refine .step fun _ => .step fun _ => .step fun k => ?_
  refine .ite (fun _ => .step fun _ => ?_) fun _ => .step fun _ => ?_
  all_goals
    dsimp only
    exact .ite (fun _ => named) fun _ => unnamed

theorem finds_indexAccess (sound : rules.Naming good) {target : Expr}
    (target_named : Node.Named good (.expr target)) :
    Finds good (indexAccess rules target) fun e => Node.Named good (.expr e) := by
  refine .step fun _ => .step fun _ => (sound.binary 1).bind fun index named => ?_
  exact .step fun _ => .step fun close => .pure (.intro nofun
    (List.forall_mem_cons.mpr ⟨target_named, List.forall_mem_singleton.mpr named⟩))

theorem finds_fieldAccess {target : Expr} (target_named : Node.Named good (.expr target)) :
    Finds good (fieldAccess target) fun e => Node.Named good (.expr e) :=
  .step fun _ => Finds.expectIdent.bind fun _ name_good => .pure
    (.intro (List.forall_mem_singleton.mpr name_good) (List.forall_mem_singleton.mpr target_named))

theorem finds_literalField (sound : rules.Naming good) (before : List (String × Expr)) :
    Finds good (literalField rules before) fun f => good f.1 ∧ Node.Named good (.expr f.2) :=
  Finds.expectIdent.bind fun _ name_good => .step fun _ => .step fun _ => .step fun _ =>
    (sound.binary 1).bind fun _ named => .pure ⟨name_good, named⟩

theorem finds_recordOrTuple (sound : rules.Naming good) :
    Finds good (recordOrTuple rules) fun e => Node.Named good (.expr e) := by
  refine Finds.eat.bind fun name name_good => .step fun opening => ?_
  refine (Finds.closedList (finds_literalField sound)).bind
    fun fields known => .step fun close => .pure ?_
  split
  · refine .intro nofun (List.forall_mem_map.mpr fun e mem => ?_)
    obtain ⟨f, f_mem, rfl⟩ := List.mem_map.mp mem
    exact (known f f_mem).2
  · refine .intro (List.forall_mem_append.mpr ⟨fun text mem => ?_,
      List.forall_mem_map.mpr fun f mem => (known f mem).1⟩)
      (List.forall_mem_map.mpr fun f mem => (known f mem).2)
    obtain ⟨t, there, rfl⟩ := Option.map_eq_some_iff.mp (Option.mem_toList.mp mem)
    exact name_good t there

theorem finds_arrayRest (sound : rules.Naming good) {first : Expr}
    (first_named : Node.Named good (.expr first)) :
    Finds good (arrayRest rules first) fun elems => ∀ e ∈ elems, Node.Named good (.expr e) := by
  refine .iterate (fun elems => ∀ e ∈ elems, Node.Named good (.expr e))
    (List.forall_mem_singleton.mpr first_named) fun elems known => ?_
  have known_back : ∀ e ∈ elems.reverse, Node.Named good (.expr e) :=
    fun e mem => known e (List.mem_reverse.mp mem)
  refine .step fun _ => .ite (fun _ => .step fun _ => .step fun k => ?_) fun _ => .pure known_back
  refine .ite (fun _ => .pure known_back) fun _ => ?_
  exact (sound.binary 1).bind fun e named => .step fun _ =>
    .pure (List.forall_mem_cons.mpr ⟨named, known⟩)

/-- Both parts of a pair have good names. -/
def NamedPair (good : String → Prop) (kv : Expr × Expr) : Prop :=
  ∀ m ∈ [Node.expr kv.1, .expr kv.2], Node.Named good m

theorem NamedPair.intro {key value : Expr} (key_named : Node.Named good (.expr key))
    (value_named : Node.Named good (.expr value)) : NamedPair good (key, value) :=
  List.forall_mem_cons.mpr ⟨key_named, List.forall_mem_singleton.mpr value_named⟩

theorem finds_dictRest (sound : rules.Naming good) {first : Expr × Expr}
    (first_named : NamedPair good first) :
    Finds good (dictRest rules first) fun elems => ∀ kv ∈ elems, NamedPair good kv := by
  refine .iterate (fun elems => ∀ kv ∈ elems, NamedPair good kv)
    (List.forall_mem_singleton.mpr first_named) fun elems known => ?_
  have known_back : ∀ kv ∈ elems.reverse, NamedPair good kv :=
    fun kv mem => known kv (List.mem_reverse.mp mem)
  refine .step fun _ => .ite (fun _ => .step fun _ => .step fun k => ?_) fun _ => .pure known_back
  refine .ite (fun _ => .pure known_back) fun _ => ?_
  refine (sound.binary 1).bind fun key key_named => .step fun _ => .step fun _ => .step fun _ => ?_
  exact (sound.binary 1).bind fun value value_named => .step fun _ =>
    .pure (List.forall_mem_cons.mpr ⟨.intro key_named value_named, known⟩)

theorem finds_elements (sound : rules.Naming good) : Finds good (elements rules) fun form =>
    ∀ span, Node.Named good (.expr ⟨span, form⟩) := by
  refine (sound.binary 1).bind fun first first_named => .step fun _ => .step fun _ => ?_
  refine .ite (fun _ => .step fun _ => (sound.binary 1).bind fun value value_named => ?_) fun _ => ?_
  · exact (finds_dictRest sound (.intro first_named value_named)).bind fun elems known =>
      .pure fun span => .intro nofun (named_branches known)
  · exact (finds_arrayRest sound first_named).bind fun elems known =>
      .pure fun span => .intro nofun (List.forall_mem_map.mpr known)

theorem finds_arrayOrDict (sound : rules.Naming good) :
    Finds good (arrayOrDict rules) fun e => Node.Named good (.expr e) := by
  refine .step fun opening => .step fun _ => .step fun _ => ?_
  refine .ite (fun _ => .step fun _ => .step fun close => .pure (.intro nofun nofun)) fun _ => ?_
  refine .step fun close => ?_
  split
  · exact .pure (.intro nofun nofun)
  · exact (finds_elements sound).bind fun form named => .step fun _ => .step fun close =>
      .pure (named _)

instance steady_lambdaParamsAhead : Steady lambdaParamsAhead := Steady.bind

theorem finds_lambdaBody (sound : rules.Naming good) (hasParams : Bool) :
    Finds good (lambdaBody rules hasParams) fun e => Node.Named good (.expr e) := by
  refine .step fun word => ?_
  split
  · exact finds_blockBody sound _
  · exact .ite (fun _ => .step fun _ => .step fun _ => sound.binary 1) fun _ => sound.binary 1

theorem finds_lambda (sound : rules.Naming good) :
    Finds good (lambda rules) fun e => Node.Named good (.expr e) := by
  refine .step fun arrow => .step fun hasParams => ?_
  refine .ite_bind finds_lambdaParams .nil fun params bare => ?_
  refine (finds_lambdaBody sound _).bind fun body named => .step fun stop => ?_
  exact .pure (named_lambda bare named)

theorem finds_parenthesized (sound : rules.Naming good) :
    Finds good (parenthesized rules) fun e => Node.Named good (.expr e) :=
  .step fun _ => .step fun _ => (sound.binary 1).bind fun _ named => .step fun _ => .step fun _ =>
    .pure named

theorem finds_branchingValue {stmt : Parser Stmt}
    (found : Finds good stmt fun s => Node.Named good (.stmt s)) :
    Finds good (branchingValue stmt) fun e => Node.Named good (.expr e) :=
  found.bind fun s named => .ofExcept fun _ run => promote_named s named run

theorem finds_primary (sound : rules.Naming good) :
    Finds good (primary rules) fun e => Node.Named good (.expr e) := by
  refine .step fun k => .ite (fun _ => .step fun t => finds_literal t none) fun _ => ?_
  split
  · refine .step fun after => .ite (fun _ => finds_recordOrTuple sound) fun _ => ?_
    exact Finds.expectIdent.bind fun name name_good =>
      .pure (.intro (List.forall_mem_singleton.mpr name_good) nofun)
  · exact finds_recordOrTuple sound
  · exact finds_arrayOrDict sound
  · exact finds_parenthesized sound
  · exact finds_lambda sound
  · exact finds_branchingValue (finds_ifStmt sound)
  · exact finds_branchingValue (finds_switchStmt sound)
  · exact finds_branchingValue (finds_matchStmt sound)
  · exact .unexpected

theorem finds_chained (sound : rules.Naming good) :
    Finds good (chained rules) fun e => Node.Named good (.expr e) := by
  refine (finds_primary sound).bind fun operand named => ?_
  refine .iterate (fun e => Node.Named good (.expr e)) named fun e named => .step fun k => ?_
  split
  · exact (finds_call sound named).bind fun e named => .pure named
  · exact (finds_indexAccess sound named).bind fun e named => .pure named
  · exact (finds_fieldAccess named).bind fun e named => .pure named
  · exact .pure named

instance steady_negativeLiteralAhead : Steady negativeLiteralAhead := Steady.bind

theorem finds_prefixed (sound : rules.Naming good) (op : UnaryOp) :
    Finds good (prefixed rules op) fun e => Node.Named good (.expr e) :=
  .step fun _ => sound.unary.bind fun _ named =>
    .pure (.intro nofun (List.forall_mem_singleton.mpr named))

theorem finds_unary (sound : rules.Naming good) :
    Finds good (unary rules) fun e => Node.Named good (.expr e) := by
  refine .step fun k => ?_
  split
  · exact finds_chained sound
  · refine .step fun _ => .ite (fun _ => ?_) fun _ => finds_prefixed sound _
    exact .step fun minus => .step fun t => finds_literal t _
  · exact finds_prefixed sound _

theorem finds_coerced (sound : rules.Naming good) :
    Finds good (coerced rules) fun e => Node.Named good (.expr e) := by
  refine (finds_unary sound).bind fun operand named => ?_
  refine .iterate (fun e => Node.Named good (.expr e)) named fun e named => .step fun _ => ?_
  refine .ite (fun _ => sound.typeExpr.bind fun t t_named => .pure ?_) fun _ => .pure named
  exact .intro nofun (List.forall_mem_cons.mpr ⟨named, List.forall_mem_singleton.mpr t_named⟩)

theorem finds_binary (sound : rules.Naming good) (power : Nat) :
    Finds good (binary rules power) fun e => Node.Named good (.expr e) := by
  refine (finds_coerced sound).bind fun first named => ?_
  refine .iterate (fun e => Node.Named good (.expr e)) named fun lhs named => .step fun k => ?_
  split
  · exact .pure named
  · refine .ite (fun _ => .pure named) fun _ => .step fun _ => .step fun _ => ?_
    exact (sound.binary _).bind fun rhs rhs_named => .pure (.intro nofun
      (List.forall_mem_cons.mpr ⟨named, List.forall_mem_singleton.mpr rhs_named⟩))

end Operands

section Statements

theorem finds_exprList (sound : rules.Naming good) :
    Finds good rules.exprList fun values => ∀ m ∈ values.map Node.expr, Node.Named good m :=
  (Finds.commaList (sound.binary 1)).mono fun _ known => List.forall_mem_map.mpr known

theorem finds_declaration (sound : rules.Naming good) :
    Finds good (declaration rules) fun s => Node.Named good (.stmt s) := by
  refine .step fun word => (Finds.commaList sound.destructuring).bind fun targets known => ?_
  refine .step fun _ => .step fun _ => (finds_exprList sound).bind fun values named => ?_
  exact .step fun stop => .pure (.intro nofun
    (List.forall_mem_append.mpr ⟨List.forall_mem_map.mpr known, named⟩))

theorem finds_definition (sound : rules.Naming good) :
    Finds good (definition rules) fun s => Node.Named good (.stmt s) := by
  refine Finds.expectIdent.bind fun name name_good => .step fun _ => .step fun _ => ?_
  refine (sound.binary 1).bind fun value named => .pure (.intro nofun ?_)
  have target : Node.Named good (.destructuring (.variable name.span name.text)) :=
    .intro (List.forall_mem_singleton.mpr name_good) nofun
  exact List.forall_mem_cons.mpr ⟨target, List.forall_mem_singleton.mpr named⟩

theorem finds_assignment (sound : rules.Naming good) :
    Finds good (assignment rules) fun s => Node.Named good (.stmt s) := by
  refine .step fun first => (Finds.commaList Finds.expectIdent).bind fun names known => ?_
  refine .step fun _ => .step fun _ => (finds_exprList sound).bind fun values named => ?_
  exact .step fun stop => .pure (.intro (List.forall_mem_map.mpr known) named)

theorem finds_exprStmt (sound : rules.Naming good) :
    Finds good (exprStmt rules) fun s => Node.Named good (.stmt s) := by
  refine (finds_binary sound 1).bind fun e named => .step fun assign => ?_
  refine .ite (fun _ => ?_) fun _ => .pure (.intro nofun (List.forall_mem_singleton.mpr named))
  obtain ⟨span, form⟩ := e
  split
  next target index is_index =>
    obtain rfl := is_index
    obtain ⟨-, below⟩ := named
    refine .step fun _ => (sound.binary 1).bind fun value value_named => .pure (.intro nofun ?_)
    exact List.forall_mem_append.mpr ⟨below, List.forall_mem_singleton.mpr value_named⟩
  · exact .fail

theorem finds_retStmt (sound : rules.Naming good) :
    Finds good (retStmt rules) fun s => Node.Named good (.stmt s) := by
  have no_values : Finds good (pure []) fun values : List Expr =>
      ∀ m ∈ values.map Node.expr, Node.Named good m := .pure nofun
  refine .step fun word => .step fun k => ?_
  refine .ite (fun _ => no_values.bind ?_) fun _ => (finds_exprList sound).bind ?_
  all_goals exact fun values named => .step fun stop => .pure (.intro nofun named)

instance steady_bracesEnd {n : Nat} : Steady (bracesEnd n) where
  keeps _ _ _ _ names run := by cases run; exact names.receive _

instance steady_destructuringThenIn : Steady destructuringThenIn := by
  have behind (nameEnd : Nat) : Steady (do
      let stop ← if (← kindAt nameEnd) = .lbrace then bracesEnd nameEnd else pure nameEnd
      if stop = 0 then pure false
      else
        let after ← kindAt stop
        pure (after = .inWord : Bool)) := inferInstance
  unfold destructuringThenIn
  infer_instance

theorem finds_forBody (sound : rules.Naming good) :
    Finds good (forBody rules) fun form => ∀ span, Node.Named good (.stmt ⟨span, form⟩) := by
  refine .step fun each => .ite (fun _ => ?_) fun _ => ?_
  · refine sound.destructuring.bind fun target target_named => .step fun _ => ?_
    refine (sound.binary 1).bind fun range range_named => ?_
    refine (finds_block sound).bind fun body named => .pure fun span => .intro nofun ?_
    exact List.forall_mem_cons.mpr
      ⟨target_named, List.forall_mem_cons.mpr ⟨range_named, named.nodes⟩⟩
  · refine (sound.binary 1).bind fun cond cond_named => ?_
    refine (finds_block sound).bind fun body named => .pure fun span => .intro nofun ?_
    exact List.forall_mem_cons.mpr ⟨cond_named, named.nodes⟩

theorem finds_forStmt (sound : rules.Naming good) :
    Finds good (forStmt rules) fun s => Node.Named good (.stmt s) :=
  .step fun _ => (finds_forBody sound).bind fun _ named => .step fun _ => .pure (named _)

theorem finds_statement (sound : rules.Naming good) :
    Finds good (statement rules) fun s => Node.Named good (.stmt s) := by
  refine .step fun k => ?_
  split
  · exact finds_declaration sound
  · exact finds_declaration sound
  · exact finds_retStmt sound
  · exact finds_ifStmt sound
  · exact finds_switchStmt sound
  · exact finds_matchStmt sound
  · exact finds_forStmt sound
  · refine .step fun after => ?_
    split
    · exact finds_definition sound
    · exact finds_assignment sound
    · exact finds_assignment sound
    · exact finds_exprStmt sound
  · exact finds_exprStmt sound

end Statements

end Frontend.Grammar
