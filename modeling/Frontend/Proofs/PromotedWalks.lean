import Frontend.Proofs.TailBlocks
import Frontend.Tree.Walk

/-!
What promotion does to the walk of a block. A walk enters the nodes of a tree in preorder; noted
down by label and span they make up a list. The list of a promoted block is that of its statements
after an edit script, and the script is known from the tail blocks alone: the statement of a last
expression is dropped, a last construct with branches is relabelled, and a tail block with more than
one statement gets a node in front. Everything else is kept, where it is.
-/
namespace Frontend

/-- A node as a walk shows it: its label and its span. -/
abbrev Mark := String × Span

namespace Node

/-- The mark of a node. -/
def mark (n : Node) : Mark := (n.label, n.span)

/-- The pass that notes the marks of all nodes, latest first. -/
def noting : Pass (List Mark) where
  enter n marks := (true, n.mark :: marks)
  leave _ marks := marks

/-- The marks of the nodes that are entered in walks over some nodes in order. -/
def preorder (nodes : List Node) : List Mark :=
  (nodes.foldl (fun marks n => n.walk noting marks) []).reverse

variable {n : Node} {nodes rest : List Node} {marks : List Mark}

theorem walk_noting : n.walk noting marks =
    n.children.foldl (fun marks m => m.walk noting marks) (n.mark :: marks) := by
  rw [walk_eq]
  rfl

/-- Marks that are there already stay where they are, below the new ones. -/
theorem foldl_noting (under : ∀ n ∈ nodes, ∀ marks, n.walk noting marks =
    n.walk noting [] ++ marks) (marks : List Mark) :
    nodes.foldl (fun marks n => n.walk noting marks) marks =
      nodes.foldl (fun marks n => n.walk noting marks) [] ++ marks := by
  induction nodes generalizing marks with
  | nil => rfl
  | cons n nodes ih =>
    have tail := ih fun m mem => under m (List.mem_cons_of_mem n mem)
    rw [List.foldl_cons, List.foldl_cons, tail, tail (n.walk noting []),
      under n List.mem_cons_self marks, List.append_assoc]

theorem walk_noting_append (n : Node) (marks : List Mark) :
    n.walk noting marks = n.walk noting [] ++ marks := by
  have below : ∀ m ∈ n.children, ∀ marks, m.walk noting marks = m.walk noting [] ++ marks :=
    fun m _ => walk_noting_append m
  rw [walk_noting, walk_noting, foldl_noting below, foldl_noting below [n.mark], List.append_assoc,
    List.singleton_append]
termination_by n
decreasing_by exact sizeOf_child ‹_›

@[simp] theorem preorder_nil : preorder [] = [] := rfl

@[simp] theorem preorder_append : preorder (nodes ++ rest) = preorder nodes ++ preorder rest := by
  rw [preorder, preorder, preorder, List.foldl_append,
    foldl_noting (fun n _ => walk_noting_append n), List.reverse_append]

/-- A node is entered before its children. -/
theorem preorder_single : preorder [n] = n.mark :: preorder n.children := by
  rw [preorder, preorder, List.foldl_cons, List.foldl_nil, walk_noting,
    foldl_noting (fun n _ => walk_noting_append n), List.reverse_append]
  rfl

theorem preorder_cons : preorder (n :: rest) =
    n.mark :: (preorder n.children ++ preorder rest) := by
  rw [← List.singleton_append, preorder_append, preorder_single, List.cons_append]

end Node

namespace Grammar

open Node

/-- What becomes of a node of a walk: it stays, it goes, it changes its label, or it is a new
one. -/
inductive Edit where
  | keep (mark : Mark)
  | drop (mark : Mark)
  | relabel (old new : String) (span : Span)
  | insert (mark : Mark)

namespace Edit

/-- The node that an edit is about, in the walk before. -/
def before : Edit → Option Mark
  | keep mark | drop mark => some mark
  | relabel old _ span => some (old, span)
  | insert _ => none

/-- The node that an edit leaves, in the walk after. -/
def after : Edit → Option Mark
  | keep mark | insert mark => some mark
  | relabel _ new span => some (new, span)
  | drop _ => none

/-- Nodes that stay as they are, with all that is below them. -/
def keepAll (nodes : List Node) : List Edit := (preorder nodes).map keep

/-- The walk that a script starts from. -/
def source (script : List Edit) : List Mark := script.filterMap before

/-- The walk that a script leads to. -/
def target (script : List Edit) : List Mark := script.filterMap after

variable {script more : List Edit} {nodes : List Node}

theorem source_cons (edit : Edit) :
    source (edit :: script) = edit.before.toList ++ source script := by
  cases edit <;> rfl

theorem target_cons (edit : Edit) :
    target (edit :: script) = edit.after.toList ++ target script := by
  cases edit <;> rfl

@[simp] theorem source_append : source (script ++ more) = source script ++ source more :=
  List.filterMap_append

@[simp] theorem target_append : target (script ++ more) = target script ++ target more :=
  List.filterMap_append

@[simp] theorem source_keepAll : source (keepAll nodes) = preorder nodes := by
  rw [source, keepAll, List.filterMap_map]
  exact List.filterMap_some

@[simp] theorem target_keepAll : target (keepAll nodes) = preorder nodes := by
  rw [target, keepAll, List.filterMap_map]
  exact List.filterMap_some

end Edit

open Edit

/-- Where the value of a statement ends: where its expression does, or its construct. -/
def valueStop : Stmt → Position
  | ⟨_, .value e⟩ => e.span.stop
  | s => s.span.stop

/-- The node in front of a tail block with more than one statement. -/
def seqEdits (stmts : List Stmt) : List Edit :=
  match stmts, stmts.getLast? with
  | first :: _ :: _, some last => [.insert ("SeqExpr", ⟨first.span.start, valueStop last⟩)]
  | _, _ => []

mutual

/-- The edits of a statement at the end of a tail block. -/
def promotedEdits : Stmt → List Edit
  | ⟨span, .value e⟩ => .drop ("ExprStmt", span) :: keepAll [.expr e]
  | ⟨span, .ifThen cond thenBlock elseBlock⟩ =>
    .relabel "IfStmt" "IfExpr" span ::
      (keepAll [.expr cond] ++ (seqEdits thenBlock ++ tailEdits thenBlock) ++
        (seqEdits elseBlock ++ tailEdits elseBlock))
  | ⟨span, .switch cases elseBlock⟩ =>
    .relabel "SwitchStmt" "SwitchExpr" span ::
      (caseEdits cases ++ (seqEdits elseBlock ++ tailEdits elseBlock))
  | ⟨span, .matchWith subject arms elseBlock⟩ =>
    .relabel "MatchStmt" "MatchExpr" span ::
      (keepAll [.expr subject] ++ armEdits arms ++ (seqEdits elseBlock ++ tailEdits elseBlock))
  | s => keepAll [.stmt s]

/-- The edits of a tail block: all statements but the last are kept. -/
def tailEdits : List Stmt → List Edit
  | [] => []
  | [s] => promotedEdits s
  | s :: next :: rest => keepAll [.stmt s] ++ tailEdits (next :: rest)

/-- The edits of cases: the conditions are kept. -/
def caseEdits : List (Expr × List Stmt) → List Edit
  | [] => []
  | (cond, block) :: rest =>
    keepAll [.expr cond] ++ (seqEdits block ++ tailEdits block) ++ caseEdits rest

/-- The edits of arms: the patterns are kept. -/
def armEdits : List (Pattern × List Stmt) → List Edit
  | [] => []
  | (arm, block) :: rest =>
    keepAll [.pattern arm] ++ (seqEdits block ++ tailEdits block) ++ armEdits rest

end

/-- The edits of a block that is used as a value. -/
def blockEdits (stmts : List Stmt) : List Edit := seqEdits stmts ++ tailEdits stmts

@[simp] theorem source_seqEdits (stmts : List Stmt) : source (seqEdits stmts) = [] := by
  unfold seqEdits
  split <;> rfl

mutual

/-- The script of a statement starts from the walk over it. -/
theorem source_promotedEdits : ∀ s : Stmt, source (promotedEdits s) = preorder [.stmt s]
  | ⟨span, .value e⟩ => by
    rw [promotedEdits, source_cons, source_keepAll, preorder_single (n := .stmt _)]
    rfl
  | ⟨span, .ifThen cond thenBlock elseBlock⟩ => by
    rw [preorder_single, promotedEdits, source_cons]
    show _ = ("IfStmt", span) ::
      preorder (.expr cond :: (thenBlock.map .stmt ++ elseBlock.map .stmt))
    simp [source_tailEdits thenBlock, source_tailEdits elseBlock, preorder_cons, before]
  | ⟨span, .switch cases elseBlock⟩ => by
    rw [preorder_single, promotedEdits, source_cons]
    show _ = ("SwitchStmt", span) ::
      preorder (cases.flatMap (fun c => .expr c.1 :: c.2.map .stmt) ++ elseBlock.map .stmt)
    simp [source_caseEdits cases, source_tailEdits elseBlock, before]
  | ⟨span, .matchWith subject arms elseBlock⟩ => by
    rw [preorder_single, promotedEdits, source_cons]
    show _ = ("MatchStmt", span) :: preorder (.expr subject ::
      (arms.flatMap (fun a => .pattern a.1 :: a.2.map .stmt) ++ elseBlock.map .stmt))
    simp [source_armEdits arms, source_tailEdits elseBlock, preorder_cons, before]
  | ⟨span, .declare ..⟩ | ⟨span, .assign ..⟩ | ⟨span, .assignIndex ..⟩ | ⟨span, .ret ..⟩
  | ⟨span, .forEach ..⟩ | ⟨span, .whileTrue ..⟩ => by
    rw [promotedEdits]
    · exact source_keepAll
    all_goals nofun

theorem source_tailEdits : ∀ stmts : List Stmt,
    source (tailEdits stmts) = preorder (stmts.map .stmt)
  | [] => rfl
  | [s] => source_promotedEdits s
  | s :: next :: rest => by
    rw [tailEdits, source_append, source_keepAll, source_tailEdits (next :: rest),
      ← preorder_append]
    rfl

theorem source_caseEdits : ∀ cases : List (Expr × List Stmt), source (caseEdits cases) =
    preorder (cases.flatMap fun c => .expr c.1 :: c.2.map .stmt)
  | [] => rfl
  | (cond, block) :: rest => by
    simp [caseEdits, source_tailEdits block, source_caseEdits rest, preorder_cons]

theorem source_armEdits : ∀ arms : List (Pattern × List Stmt), source (armEdits arms) =
    preorder (arms.flatMap fun a => .pattern a.1 :: a.2.map .stmt)
  | [] => rfl
  | (arm, block) :: rest => by
    simp [armEdits, source_tailEdits block, source_armEdits rest, preorder_cons]

end

/-- What a promoted statement is: it ends where its value does, and the script of the statement
leads to the walk over it. -/
structure PromotesTo (s : Stmt) (e : Expr) : Prop where
  stop : e.span.stop = valueStop s
  walk : target (promotedEdits s) = preorder [.expr e]

/-- What the parts of a promoted block are: its statements but the last, and the value of the
last. -/
structure SplitsTo (stmts : List Stmt) (parts : List Stmt × Expr) : Prop where
  front : parts.1 = stmts.dropLast
  stop : ∃ last, stmts.getLast? = some last ∧ parts.2.span.stop = valueStop last
  walk : target (tailEdits stmts) = preorder (parts.1.map .stmt ++ [.expr parts.2])

/-- A block of more than one statement is a node of its own. -/
theorem SplitsTo.block {stmts : List Stmt} {parts : List Stmt × Expr}
    (splits : SplitsTo stmts parts) :
    target (seqEdits stmts ++ tailEdits stmts) = preorder [.expr (blockValue parts)] := by
  obtain ⟨front, value⟩ := parts
  obtain ⟨rfl, ⟨last, found, stop⟩, walk⟩ := splits
  rw [target_append, walk]
  match stmts, found, stop with
  | [s], _, _ => rfl
  | first :: next :: rest, found, stop =>
    have seq : seqEdits (first :: next :: rest) =
        [.insert ("SeqExpr", ⟨first.span.start, valueStop last⟩)] := by
      simp only [seqEdits, found]
    rw [seq, ← stop, preorder_single]
    rfl

mutual

theorem promote_promotesTo : ∀ {s : Stmt} {e : Expr}, promote s = .ok e → PromotesTo s e
  | ⟨span, .value e⟩, _, ok => by
    rw [promote] at ok
    cases ok
    refine ⟨rfl, ?_⟩
    rw [promotedEdits, target_cons, target_keepAll]
    rfl
  | ⟨span, .ifThen cond thenBlock elseBlock⟩, _, ok => by
    obtain ⟨_, _, thenRun, elseRun, rfl⟩ := promote_ifThen_eq_ok ok
    have thenWalk := (promoteLast_splitsTo thenRun).block
    have elseWalk := (promoteLast_splitsTo elseRun).block
    refine ⟨rfl, ?_⟩
    rw [promotedEdits, target_cons, target_append, target_append, thenWalk, elseWalk,
      target_keepAll, ← preorder_append, ← preorder_append, preorder_single (n := .expr ⟨span, _⟩)]
    rfl
  | ⟨span, .switch cases elseBlock⟩, _, ok => by
    obtain ⟨_, _, casesRun, elseRun, rfl⟩ := promote_switch_eq_ok ok
    have elseWalk := (promoteLast_splitsTo elseRun).block
    refine ⟨rfl, ?_⟩
    rw [promotedEdits, target_cons, target_append, target_caseEdits casesRun, elseWalk,
      ← preorder_append, preorder_single (n := .expr ⟨span, _⟩)]
    rfl
  | ⟨span, .matchWith subject arms elseBlock⟩, _, ok => by
    obtain ⟨_, _, armsRun, elseRun, rfl⟩ := promote_matchWith_eq_ok ok
    have elseWalk := (promoteLast_splitsTo elseRun).block
    refine ⟨rfl, ?_⟩
    rw [promotedEdits, target_cons, target_append, target_append, target_keepAll,
      target_armEdits armsRun, elseWalk, ← preorder_append, ← preorder_append,
      preorder_single (n := .expr ⟨span, _⟩)]
    rfl
  | ⟨span, .declare ..⟩, _, ok | ⟨span, .assign ..⟩, _, ok | ⟨span, .assignIndex ..⟩, _, ok
  | ⟨span, .ret ..⟩, _, ok | ⟨span, .forEach ..⟩, _, ok | ⟨span, .whileTrue ..⟩, _, ok => by
    rw [promote] at ok
    · cases ok
    all_goals nofun

theorem promoteLast_splitsTo : ∀ {hint : Position} {stmts : List Stmt} {parts : List Stmt × Expr},
    promoteLast hint stmts = .ok parts → SplitsTo stmts parts
  | _, [], _, ok => by
    rw [promoteLast] at ok
    cases ok
  | _, [s], _, ok => by
    obtain ⟨_, promoted, rfl⟩ := promoteLast_single_eq_ok ok
    obtain ⟨stop, walk⟩ := promote_promotesTo promoted
    exact ⟨rfl, ⟨s, rfl, stop⟩, walk⟩
  | hint, s :: next :: rest, _, ok => by
    obtain ⟨_, _, promoted, rfl⟩ := promoteLast_cons_eq_ok ok
    obtain ⟨front, ⟨last, found, stop⟩, walk⟩ := promoteLast_splitsTo promoted
    refine ⟨congrArg (s :: ·) front, ⟨last, List.getLast?_cons_cons.trans found, stop⟩, ?_⟩
    rw [tailEdits, target_append, target_keepAll, walk, ← preorder_append]
    rfl

theorem target_caseEdits : ∀ {start : Position} {n : Nat} {cases : List (Expr × List Stmt)}
    {values : List (Expr × Expr)}, promoteCases start n cases = .ok values →
      target (caseEdits cases) = preorder (values.flatMap fun c => [.expr c.1, .expr c.2])
  | _, _, [], _, ok => by
    rw [promoteCases] at ok
    cases ok
    rfl
  | start, n, (cond, block) :: rest, _, ok => by
    obtain ⟨_, _, blockRun, restRun, rfl⟩ := promoteCases_cons_eq_ok ok
    have blockWalk := (promoteLast_splitsTo blockRun).block
    rw [caseEdits, target_append, target_append, target_keepAll, blockWalk,
      target_caseEdits restRun, ← preorder_append, ← preorder_append]
    rfl

theorem target_armEdits : ∀ {start : Position} {n : Nat} {arms : List (Pattern × List Stmt)}
    {values : List (Pattern × Expr)}, promoteArms start n arms = .ok values →
      target (armEdits arms) = preorder (values.flatMap fun a => [.pattern a.1, .expr a.2])
  | _, _, [], _, ok => by
    rw [promoteArms] at ok
    cases ok
    rfl
  | start, n, (arm, block) :: rest, _, ok => by
    obtain ⟨_, _, blockRun, restRun, rfl⟩ := promoteArms_cons_eq_ok ok
    have blockWalk := (promoteLast_splitsTo blockRun).block
    rw [armEdits, target_append, target_append, target_keepAll, blockWalk,
      target_armEdits restRun, ← preorder_append, ← preorder_append]
    rfl

end

/-- A block with a value loses no node, has none twice and changes the order of none: the walk over
its statements is edited at the ends of its tail blocks, and the outcome is the walk over the
value. -/
theorem preorder_promoteBlock (hint : Position) {stmts : List Stmt} {e : Expr}
    (ok : promoteBlock hint stmts = .ok e) :
    source (blockEdits stmts) = preorder (stmts.map .stmt) ∧
      target (blockEdits stmts) = preorder [.expr e] := by
  obtain ⟨parts, run, rfl⟩ := promoteBlock_eq_ok ok
  have start := source_tailEdits stmts
  exact ⟨by rw [blockEdits, source_append, source_seqEdits, start, List.nil_append],
    (promoteLast_splitsTo run).block⟩

/-- A block that ends with an `if`, whose `then` has two statements and whose `else` ends with a
`switch`. -/
def nested : List Stmt :=
  let one : Expr := ⟨⟨⟨3, 1, 4⟩, ⟨4, 1, 5⟩⟩, .int 1⟩
  let two : Expr := ⟨⟨⟨20, 3, 1⟩, ⟨21, 3, 2⟩⟩, .int 2⟩
  let switch : Stmt := ⟨⟨⟨24, 4, 3⟩, ⟨60, 7, 6⟩⟩, .switch [(one, [.ofExpr two])] [.ofExpr one]⟩
  [⟨⟨⟨0, 1, 1⟩, ⟨64, 8, 4⟩⟩, .ifThen one [.ofExpr one, .ofExpr two] [switch]⟩]

theorem preorder_promoteBlock_nested : ∃ e, promoteBlock .start nested = .ok e ∧
    source (blockEdits nested) = preorder (nested.map .stmt) ∧
      target (blockEdits nested) = preorder [.expr e] :=
  ⟨_, rfl, preorder_promoteBlock .start rfl⟩

end Grammar

end Frontend
