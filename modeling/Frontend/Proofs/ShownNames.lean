import Mathlib.Algebra.GroupWithZero.Nat
import Frontend.Proofs.Listings

/-!
What a label shows of a source: names, the values of literals, and the path of an import. Numbers
are written in digits, so a newline in a label is one in a name or in the value of a string.
-/
namespace Frontend

/-- The number of newlines in a text. -/
def newlines (text : String) : Nat := text.toList.count '\n'

section Texts

@[simp] theorem newlines_append (a b : String) : newlines (a ++ b) = newlines a + newlines b := by
  simp [newlines]

theorem newlines_eq_zero {text : String} : newlines text = 0 ↔ '\n' ∉ text.toList :=
  List.count_eq_zero

theorem newlines_join (texts : List String) :
    newlines (String.join texts) = (texts.map newlines).sum := by
  induction texts with
  | nil => rfl
  | cons text texts ih => rw [String.join_cons, newlines_append, ih, List.map_cons, List.sum_cons]

theorem newlines_intercalate {sep : String} {texts : List String} (sep_clean : newlines sep = 0)
    (clean : ∀ text ∈ texts, newlines text = 0) : newlines (sep.intercalate texts) = 0 := by
  induction texts with
  | nil => rfl
  | cons text texts ih =>
    obtain ⟨first, rest⟩ := List.forall_mem_cons.mp clean
    cases texts with
    | nil => simpa using first
    | cons next texts =>
      rw [String.intercalate_cons_cons, newlines_append, newlines_append, first, sep_clean, ih rest]

/-- Digits are no newlines. -/
theorem newlines_of_digits {text : String} (digits : ∀ c ∈ text.toList, c.isDigit = true) :
    newlines text = 0 :=
  newlines_eq_zero.mpr fun mem => absurd (digits _ mem) (by decide)

@[simp] theorem newlines_nat (n : Nat) : newlines n.repr = 0 := by
  refine newlines_of_digits fun c mem => ?_
  have digits : c ∈ Nat.toDigits 10 n := by simpa [Nat.repr] using mem
  exact Nat.isDigit_of_mem_toDigits (by decide) (by decide) digits

@[simp] theorem newlines_int (n : Int) : newlines n.repr = 0 := by
  cases n with
  | ofNat n => exact newlines_nat n
  | negSucc n =>
    have text : (Int.negSucc n).repr = "-" ++ (n + 1).repr := rfl
    rw [text, newlines_append, newlines_nat]
    rfl

@[simp] theorem newlines_bool (b : Bool) : newlines (toString b) = 0 := by cases b <;> decide

@[simp] theorem newlines_empty : newlines "" = 0 := rfl

theorem Position.newlines_lineColumn (p : Position) : newlines p.lineColumn = 0 := by
  show newlines (p.line.repr ++ ":" ++ p.column.repr) = 0
  simp only [newlines_append, newlines_nat]
  decide

theorem Span.newlines_lineColumns (s : Span) : newlines s.lineColumns = 0 := by
  show newlines (s.start.lineColumn ++ "-" ++ s.stop.lineColumn) = 0
  simp only [newlines_append, Position.newlines_lineColumn]
  decide

end Texts

namespace Binary64

/-- The digits of a decimal are digits. -/
def Scientific.Plain (s : Scientific) : Prop := ∀ c ∈ s.digits, c.isDigit = true

theorem plain_scientific (count : Nat) (power : Int) : (scientific count power).Plain := by
  intro c mem
  have kept := (List.dropWhile_sublist _).mem (List.mem_reverse.mp mem)
  exact Nat.isDigit_of_mem_toDigits (by decide) (by decide) (List.mem_reverse.mp kept)

/-- The decimal that is found, if one is, has digits only. -/
def Found (hit : Option Scientific) : Prop := ∀ s, hit = some s → s.Plain

theorem found_onGrid? (significand : Nat) (exponent power : Int) (bounds : Nat × Nat × Nat) :
    Found (onGrid? significand exponent power bounds) := by
  have hit (count : Nat) : Found (some (scientific count power)) := by
    rintro s ⟨⟩
    exact plain_scientific count power
  refine iteInduction (motive := Found) (fun _ => hit _) fun _ => ?_
  refine iteInduction (motive := Found) (fun _ => hit _) fun _ => ?_
  exact iteInduction (motive := Found) (fun _ => hit _) fun _ => nofun

theorem plain_shortest (significand : Nat) (exponent : Int) :
    (shortest significand exponent).Plain := by
  unfold shortest
  dsimp only
  cases found : (List.range 17).findSome? fun (n : Nat) => onGrid? significand exponent
      (decimalExponent (significand * (powerRatio 2 exponent).1) (powerRatio 2 exponent).2 - n)
      (rounding significand exponent) with
  | some s =>
    obtain ⟨n, -, hit⟩ := List.exists_of_findSome?_eq_some found
    exact found_onGrid? _ _ _ _ s hit
  | none =>
    rw [Option.getD_none, exact]
    split <;> exact plain_scientific _ _

theorem newline_not_mem_positional {s : Scientific} (plain : s.Plain) : '\n' ∉ positional s := by
  have digits : '\n' ∉ s.digits := fun mem => absurd (plain _ mem) (by decide)
  unfold positional
  split
  · simp [digits]
  · have taken (k : Nat) : '\n' ∉ s.digits.take k := fun mem => digits (List.mem_of_mem_take mem)
    have dropped (k : Nat) : '\n' ∉ s.digits.drop k := fun mem => digits (List.mem_of_mem_drop mem)
    dsimp only
    split <;> simp [taken, dropped]

theorem newline_not_mem_exponential {s : Scientific} (plain : s.Plain) :
    '\n' ∉ exponential s := by
  have digits : '\n' ∉ s.digits := fun mem => absurd (plain _ mem) (by decide)
  have exponent : '\n' ∉ s.exponent.repr.toList := newlines_eq_zero.mp (newlines_int s.exponent)
  unfold exponential
  dsimp only
  split
  next d rest eq =>
    rw [eq, List.mem_cons, not_or] at digits
    split <;> simp [digits, exponent]
  next => simp [exponent]

/-- The text of a number stands on one line. -/
theorem newlines_render (x : Binary64) (layout : Layout) : newlines (x.render layout) = 0 := by
  rw [newlines_eq_zero, render, String.toList_ofList]
  have magnitude : '\n' ∉ (if x.significand = 0 then ['0', '.', '0'] else
      let s := shortest x.significand x.exponent
      if layout.leastPositional ≤ s.exponent ∧ s.exponent ≤ layout.greatestPositional
      then positional s else exponential s) := by
    have plain := plain_shortest x.significand x.exponent
    split
    · decide
    · dsimp only
      split
      · exact newline_not_mem_positional plain
      · exact newline_not_mem_exponential plain
  dsimp only at magnitude ⊢
  split <;> simp [magnitude]

end Binary64

/-- The names that a label shows of what stands in front of braces. -/
def RecordHead.names (head : RecordHead) : List String := head.name.toList ++ head.case.toList

/-- The names in the label of a destructuring. -/
def Destructuring.names : Destructuring → List String
  | .variable _ name => [name]
  | .record _ head fields _ => head.names ++ fields.map (·.1)
  | .rest _ name => name.toList

/-- The names in the label of a pattern. -/
def Pattern.names : Pattern → List String
  | .record _ head fields _ => head.names ++ fields.map (·.1)
  | .variable _ name => [name]
  | .rest _ name => name.toList
  | _ => []

/-- The names in the label of a type. -/
def TypeForm.names : TypeForm → List String
  | .named name | .variable name | .instantiate name _ => [name]
  | .record fields => fields.map (·.1)
  | .case name member => [name, member]
  | .tuple _ | .function _ _ | .typeOf _ => []

/-- The names in the label of a statement. -/
def StmtForm.names : StmtForm → List String
  | .assign names _ => names
  | _ => []

/-- The names in the label of an expression. -/
def ExprForm.names : ExprForm → List String
  | .variable name | .field _ name => [name]
  | .record name fields => name.toList ++ fields.map (·.1)
  | .lambda _ params _ => params.map (·.name)
  | _ => []

/-- The names in the label of a declaration. -/
def Toplevel.names : Toplevel → List String
  | .typedef t => [t.name]
  | .enum e => e.name :: e.cases.map (·.1)
  | .function f => f.name :: f.params.map (·.name)
  | .importing i => i.parents ++ i.imported

namespace Node

/-- The names in the label of a node. -/
def names : Node → List String
  | file _ => []
  | toplevel t => t.names
  | type t => t.form.names
  | pattern p => p.names
  | destructuring d => d.names
  | stmt s => s.form.names
  | expr e => e.form.names

/-- The text that a label shows in quotes: the value of a string. -/
def text : Node → String
  | pattern (.string _ value) => value
  | expr ⟨_, .string value⟩ => value
  | _ => ""

end Node

section Labels

open Label

variable {kind : String} (kind_clean : newlines kind = 0)

@[simp] theorem newlines_withArg (kind arg : String) :
    newlines (withArg kind arg) = newlines kind + newlines arg := by
  simp [withArg, newlines, toString]

@[simp] theorem newlines_withCount (kind what : String) (n : Nat) :
    newlines (withCount kind what n) = newlines kind + newlines what := by
  have number := newlines_nat n
  simp_all [withCount, newlines, toString]

@[simp] theorem newlines_float (x : Binary64) : newlines (float x) = 0 := x.newlines_render _

include kind_clean

theorem newlines_named {name : String} (clean : ∀ text ∈ [name], newlines text = 0) :
    newlines (withArg kind name) = 0 := by
  rw [newlines_withArg, kind_clean, clean name (List.mem_singleton_self _)]

/-- A text in quotes keeps its newlines. -/
theorem newlines_inQuotes (value : String) : newlines (kind ++ value ++ "\"") = newlines value := by
  rw [newlines_append, newlines_append, kind_clean, Nat.zero_add, Nat.add_eq_left]
  decide

theorem newlines_withOptional {name : Option String}
    (clean : ∀ text ∈ name.toList, newlines text = 0) : newlines (withOptional kind name) = 0 := by
  cases name with
  | none => exact kind_clean
  | some text => simp [withOptional, kind_clean, clean text (by simp)]

omit kind_clean

theorem newlines_orAnonym {name : Option String}
    (clean : ∀ text ∈ name.toList, newlines text = 0) : newlines (orAnonym name) = 0 := by
  cases name with
  | none => rfl
  | some text => exact clean text (by simp)

variable {names : List String} (clean : ∀ name ∈ names, newlines name = 0)

include clean

theorem newlines_commas : newlines (commas names) = 0 := newlines_intercalate rfl clean

theorem newlines_braced : newlines (braced names) = 0 := by
  have inner := newlines_commas clean
  simp_all [braced, newlines]

include kind_clean

/-- A kind, a text, and names in braces. -/
theorem newlines_front {front : String} (front_clean : newlines front = 0) :
    newlines (kind ++ front ++ braced names) = 0 := by
  rw [newlines_append, newlines_append, kind_clean, front_clean, newlines_braced clean]

end Labels

section Nodes

open Label

theorem RecordHead.newlines_label {head : RecordHead}
    (clean : ∀ name ∈ head.names, newlines name = 0) : newlines head.label = 0 := by
  obtain ⟨name, member⟩ := head
  obtain ⟨name_clean, member_clean⟩ := List.forall_mem_append.mp clean
  have named := newlines_orAnonym name_clean
  cases member with
  | none => exact named
  | some text =>
    have member := member_clean text (by simp)
    simp_all [RecordHead.label, newlines, toString]

theorem Destructuring.newlines_label : ∀ {d : Destructuring},
    (∀ name ∈ d.names, newlines name = 0) → newlines d.label = 0
  | .variable _ _, clean => newlines_named (by decide) clean
  | .record _ head fields _, clean => by
    obtain ⟨head_clean, fields_clean⟩ := List.forall_mem_append.mp clean
    exact newlines_front (by decide) fields_clean (RecordHead.newlines_label head_clean)
  | .rest _ _, clean => newlines_withOptional (by decide) clean

theorem Pattern.newlines_label : ∀ {p : Pattern},
    (∀ name ∈ p.names, newlines name = 0) → newlines p.label = newlines (Node.pattern p).text
  | .int _ value, _ => newlines_named (by decide) (by simp)
  | .uint _ _, _ => newlines_named (by decide) (by simp)
  | .bool _ _, _ => newlines_named (by decide) (by simp)
  | .float _ _, _ => newlines_named (by decide) (by simp)
  | .string _ value, _ => newlines_inQuotes (by decide) value
  | .variable _ _, clean => newlines_named (by decide) clean
  | .record _ head fields _, clean => by
    obtain ⟨head_clean, fields_clean⟩ := List.forall_mem_append.mp clean
    exact newlines_front (by decide) fields_clean (RecordHead.newlines_label head_clean)
  | .array _ _ _, _ => show newlines "ArrayPattern" = newlines "" by decide
  | .rest _ _, clean => newlines_withOptional (by decide) clean

theorem TypeForm.newlines_label : ∀ {t : TypeForm},
    (∀ name ∈ t.names, newlines name = 0) → newlines t.label = 0
  | .named _, clean => newlines_named (by decide) clean
  | .variable _, clean => newlines_named (by decide) clean
  | .instantiate _ _, clean => newlines_named (by decide) clean
  | .record fields, clean => by
    have all : newlines (braced (fields.map (·.1))) = 0 := newlines_braced clean
    show newlines ("RecordType " ++ braced (fields.map (·.1))) = 0
    rw [newlines_append, all]
    decide
  | .tuple _, _ => show newlines "TupleType" = 0 by decide
  | .function _ _, _ => show newlines "FunctionType" = 0 by decide
  | .typeOf _, _ => show newlines "Typeof" = 0 by decide
  | .case name member, clean => by
    show newlines ("EnumType (" ++ name ++ "::" ++ member ++ ")") = 0
    simp only [newlines_append, clean name (by simp [names]), clean member (by simp [names])]
    decide

theorem StmtForm.newlines_label {s : StmtForm} (clean : ∀ name ∈ s.names, newlines name = 0) :
    newlines s.label = 0 := by
  cases s with
  | declare mutable targets values => cases mutable <;> exact newlines_withCount _ _ _
  | assign names values =>
    exact newlines_named (by decide) (List.forall_mem_singleton.mpr (newlines_commas clean))
  | ret | ifThen | switch | matchWith | forEach | whileTrue | value | assignIndex =>
    rw [label]; decide

theorem ExprForm.newlines_label (span : Span) : ∀ {e : ExprForm},
    (∀ name ∈ e.names, newlines name = 0) → newlines e.label = newlines (Node.expr ⟨span, e⟩).text
  | .int _, _ => newlines_named (by decide) (by simp)
  | .uint _, _ => newlines_named (by decide) (by simp)
  | .bool _, _ => newlines_named (by decide) (by simp)
  | .float _, _ => newlines_named (by decide) (by simp)
  | .string value, _ => newlines_inQuotes (by decide) value
  | .variable _, clean => newlines_named (by decide) clean
  | .field _ _, clean => newlines_named (by decide) clean
  | .unary op _, _ => newlines_named (by decide) (by cases op <;> decide)
  | .binary op _ _, _ => newlines_named (by decide) (by cases op <;> decide)
  | .array _, _ => newlines_withCount _ _ _
  | .dict _, _ => newlines_withCount _ _ _
  | .tuple _ _, _ => newlines_withCount _ _ _
  | .record name fields, clean => by
    obtain ⟨name_clean, fields_clean⟩ := List.forall_mem_append.mp clean
    exact newlines_front (by decide) fields_clean (newlines_orAnonym name_clean)
  | .lambda _ params _, clean =>
    newlines_named (by decide) (List.forall_mem_singleton.mpr (newlines_commas clean))
  | .seq _ _, _ => show newlines "SeqExpr" = 0 by decide
  | .ifThen _ _ _, _ => show newlines "IfExpr" = 0 by decide
  | .switch _ _, _ => show newlines "SwitchExpr" = 0 by decide
  | .matchWith _ _ _, _ => show newlines "MatchExpr" = 0 by decide
  | .coerce _ _, _ => show newlines "CoerceExpr" = 0 by decide
  | .index _ _, _ => show newlines "IndexAccess" = 0 by decide
  | .call _ _ _, _ => show newlines "FuncCall" = 0 by decide
  | .callNamed _ _ _, _ => show newlines "FuncCallNamed" = 0 by decide

/-- Names with dots between them stand on one line if what is in front of them and what is behind them
does. -/
theorem newlines_dotted {front last : String} {parents : List String}
    (front_clean : newlines front = 0) (parents_clean : ∀ name ∈ parents, newlines name = 0)
    (last_clean : newlines last = 0) :
    newlines (if parents.isEmpty then front ++ last
      else front ++ ".".intercalate parents ++ "." ++ last) = 0 := by
  have dot : newlines "." = 0 := by decide
  split
  · rw [newlines_append, front_clean, last_clean]
  · rw [newlines_append, newlines_append, newlines_append, front_clean, dot, last_clean,
      newlines_intercalate dot parents_clean]

/-- The path of an import stands on one line. -/
theorem Import.newlines_path {i : Import}
    (clean : ∀ name ∈ i.parents ++ i.imported, newlines name = 0) : newlines i.path = 0 := by
  obtain ⟨parents_clean, imported_clean⟩ := List.forall_mem_append.mp clean
  have head : newlines (if i.relative then "." else "") = 0 := by split <;> decide
  refine newlines_dotted head parents_clean ?_
  split
  next name one => exact imported_clean name (by simp [one])
  next => exact newlines_braced imported_clean

/-- Names between commas, in parentheses behind a name. -/
theorem newlines_heading {kind name : String} {names : List String} (kind_clean : newlines kind = 0)
    (clean : ∀ text ∈ name :: names, newlines text = 0) :
    newlines (kind ++ name ++ "(" ++ commas names ++ ")") = 0 := by
  obtain ⟨name_clean, names_clean⟩ := List.forall_mem_cons.mp clean
  simp only [newlines_append, kind_clean, name_clean, newlines_commas names_clean]
  decide

theorem Toplevel.newlines_label : ∀ {t : Toplevel},
    (∀ name ∈ t.names, newlines name = 0) → newlines t.label = 0
  | .typedef _, clean => newlines_named (by decide) clean
  | .enum _, clean => newlines_heading (by decide) clean
  | .function _, clean => newlines_heading (by decide) clean
  | .importing _, clean =>
    newlines_named (by decide) (List.forall_mem_singleton.mpr (Import.newlines_path clean))

namespace Node

/-- The newlines in a label are those of the string that it shows, if the names have none. -/
theorem newlines_label {n : Node} (clean : ∀ name ∈ n.names, newlines name = 0) :
    newlines n.label = newlines n.text := by
  cases n with
  | file decls => exact newlines_withCount _ _ _
  | toplevel t => exact Toplevel.newlines_label clean
  | type t => exact TypeForm.newlines_label clean
  | pattern p => exact Pattern.newlines_label clean
  | destructuring d => exact Destructuring.newlines_label clean
  | stmt s => exact StmtForm.newlines_label clean
  | expr e =>
    obtain ⟨span, form⟩ := e
    exact ExprForm.newlines_label span clean

/-- The line of a node without the newline before it: indentation, label and range. -/
def row (n : Node) (depth : Nat) : String :=
  String.join (List.replicate depth "-   ") ++ n.label ++ " (" ++ n.span.lineColumns ++ ")"

theorem line_eq (n : Node) (depth : Nat) : n.line depth = "\n" ++ n.row depth := by
  simp [line, row, String.append_assoc, toString]

theorem newlines_row {n : Node} (clean : ∀ name ∈ n.names, newlines name = 0) (depth : Nat) :
    newlines (n.row depth) = newlines n.text := by
  have indent : newlines (String.join (List.replicate depth "-   ")) = 0 := by
    rw [newlines_join, List.map_replicate, List.sum_replicate_nat]
    exact Nat.mul_zero depth
  simp only [row, newlines_append, indent, n.span.newlines_lineColumns, newlines_label clean]
  exact Nat.zero_add _

end Node

end Nodes

end Frontend
