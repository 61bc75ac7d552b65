import Frontend.Proofs.ImportGraph
import Frontend.Proofs.ReadFiles
import Frontend.Proofs.SpacedWords

/-!
Imports that are written again. The path of an import has no spaces; its names end in front of the
dots, commas and braces between them. So a line with the path comes apart into the words that spell
the import, and is parsed as the same import.
-/
namespace Frontend

open Token (Kind)

section Text

/-- Names with a dot behind each of them, in front of a text. -/
def dotted (parents : List String) (more : List Char) : List Char :=
  parents.foldr (fun n more => n.toList ++ '.' :: more) more

theorem dotted_append (parents : List String) (last more : List Char) :
    dotted parents (last ++ more) = dotted parents last ++ more := by
  induction parents with
  | nil => rfl
  | cons n parents ih => simpa [dotted] using ih

/-- What a path ends with. -/
def importedText : List String → List Char
  | [name] => name.toList
  | names => '\x7b' :: (",".intercalate names).toList ++ ['\x7d']

theorem toList_dotted {parents : List String} (some : parents ≠ []) (more : List Char) :
    (".".intercalate parents).toList ++ '.' :: more = dotted parents more := by
  induction parents with
  | nil => exact absurd rfl some
  | cons n parents ih =>
    cases parents with
    | nil => simp [dotted]
    | cons next parents =>
      have rest := ih (List.cons_ne_nil _ _)
      simp only [String.toList_intercalate, List.map_cons] at rest ⊢
      simpa [dotted, List.intercalate_cons_cons] using rest

/-- The path of an import is written in three parts. -/
theorem toList_path {i : Import} (some : i.parents ≠ []) :
    i.path.toList =
      (if i.relative then ['.'] else []) ++ dotted i.parents (importedText i.imported) := by
  obtain ⟨span, relative, parents, imported⟩ := i
  have dot : (if relative then "." else "").toList = if relative then ['.'] else [] := by
    cases relative <;> rfl
  have head : parents.isEmpty = false := by simpa using some
  rw [← toList_dotted some, ← dot]
  rcases imported with _ | ⟨name, _ | ⟨next, names⟩⟩ <;>
    simp [Import.path, importedText, head, List.append_assoc]

end Text

namespace Scan

open Lexeme Lexicon

variable {name : String} {kind : Kind} {more : List Char} {words : List Word}

/-- A name in front of what cannot go on with it. -/
theorem Worded.ident (is_word : IsWord .ident name.toList) (stop : Lexeme.run isIdentRest more = 0)
    (rest : Worded more words) : Worded (name.toList ++ more) (ident name :: words) := by
  have read := @read_ident_append none _ more is_word stop
  have first := Worded.cons (List.forall_mem_nil _) is_word (by decide) read rest
  rwa [List.nil_append, String.ofList_toList] at first

/-- Characters that are words wherever they stand. -/
def lone : List (Char × Kind) :=
  [('\x7b', .lbrace), ('\x7d', .rbrace), (',', .comma), ('*', .star), ('\n', .newline)]

theorem Worded.lone (c : Char) (kind : Kind) (mem : (c, kind) ∈ lone) (rest : Worded more words) :
    Worded (c :: more) (spelled kind :: words) := by
  have each : ∀ entry ∈ Scan.lone, entry.2.spelling.toList = [entry.1] ∧ entry.2.spelling ≠ "" ∧
      entry.2 ≠ .comment := by decide
  obtain ⟨text, some, line⟩ : kind.spelling.toList = [c] ∧ kind.spelling ≠ "" ∧ kind ≠ .comment :=
    each _ mem
  have is_word : IsWord kind [c] := text ▸ .spelled some
  have read : Lexeme.read none (c :: more) = .token kind 1 := by
    simp only [Scan.lone, List.mem_cons, Prod.mk.injEq, List.not_mem_nil, or_false] at mem
    obtain ⟨rfl, rfl⟩ | ⟨rfl, rfl⟩ | ⟨rfl, rfl⟩ | ⟨rfl, rfl⟩ | ⟨rfl, rfl⟩ := mem <;>
      cases more <;> rfl
  have same : String.ofList [c] = kind.spelling := by rw [← text, String.ofList_toList]
  have first := Worded.cons (List.forall_mem_nil _) is_word line read rest
  rwa [same] at first

/-- A dot that no other one stands behind. -/
theorem Worded.dot (alone : more.head? ≠ some '.') (rest : Worded more words) :
    Worded ('.' :: more) (spelled .dot :: words) := by
  have read : Lexeme.read none ('.' :: more) = .token .dot 1 := by
    unfold Lexeme.read
    split
    case h_3 same =>
      cases same
      exact absurd rfl alone
    case h_8 same =>
      cases same
      cases more <;> rfl
    all_goals
      next same => cases same
  have is_word : IsWord .dot ['.'] := @IsWord.spelled .dot (by decide)
  exact Worded.cons (List.forall_mem_nil _) is_word (by decide) read rest

/-- The reserved word in front of a path. -/
theorem Worded.importing (rest : Worded (' ' :: more) words) :
    Worded ("import".toList ++ ' ' :: more) (spelled .importWord :: words) := by
  have is_word : IsWord .importWord "import".toList := @IsWord.spelled .importWord (by decide)
  have read := @read_word_append none _ _ (' ' :: more) is_word (by decide)
    (opensIn_cons (List.mem_singleton_self _))
  exact Worded.cons (List.forall_mem_nil _) is_word (by decide) read rest

/-- A space in front of words. -/
theorem Worded.space (some : words ≠ []) (rest : Worded more words) :
    Worded (' ' :: more) words := by
  cases rest with
  | nil => exact absurd rfl some
  | @cons kind gap word more words blank is_word line read rest =>
    have wider : ∀ c ∈ ' ' :: gap, isBlank c = true := List.forall_mem_cons.mpr ⟨rfl, blank⟩
    exact Worded.cons wider is_word line read rest

/-- Names with commas between them. -/
theorem Worded.names {names : List String}
    (are_names : ∀ n ∈ name :: names, IsWord .ident n.toList)
    (stop : Lexeme.run isIdentRest more = 0) (rest : Worded more words) :
    Worded ((",".intercalate (name :: names)).toList ++ more) (nameWords (name :: names) words) := by
  induction names generalizing name with
  | nil =>
    have is_word := are_names name List.mem_cons_self
    simpa [nameWords, listed, behindCommas] using rest.ident is_word stop
  | cons next names ih =>
    obtain ⟨is_word, are_names⟩ := List.forall_mem_cons.mp are_names
    have comma := (ih are_names).lone ',' .comma (by decide)
    have first := comma.ident is_word (run_cons_of_neg (by decide))
    simpa [nameWords, listed, behindCommas, List.intercalate_cons_cons] using first

/-- What a path ends with is the star, or names. -/
theorem Worded.imported {imported : List String} (are : Grammar.AreImported imported)
    (stop : Lexeme.run isIdentRest more = 0) (rest : Worded more words) :
    Worded (importedText imported ++ more) (importedWords imported words) := by
  obtain rfl | ⟨some, are_names⟩ := are
  · exact rest.lone '*' .star (by decide)
  rcases imported with _ | ⟨name, _ | ⟨next, names⟩⟩
  · exact absurd rfl some
  · have is_word := are_names name List.mem_cons_self
    have other : name ≠ "*" := by
      rintro rfl
      have read := @read_ident_append none _ [] is_word rfl
      cases read
    simpa [importedText, importedWords, other] using rest.ident is_word stop
  · have close := rest.lone '\x7d' .rbrace (by decide)
    have inner := close.names are_names (run_cons_of_neg (by decide))
    simpa [importedText, importedWords] using inner.lone '\x7b' .lbrace (by decide)

theorem head?_ident (is_word : IsWord .ident name.toList) :
    (name.toList ++ more).head? ≠ some '.' := by
  obtain ⟨is_name, plain⟩ := is_word.isName
  rw [List.head?_append_of_ne_nil _ is_name.ne_nil]
  exact fun dot => plain (List.mem_of_head? dot)

theorem head?_imported {imported : List String} (are : Grammar.AreImported imported) :
    (importedText imported ++ more).head? ≠ some '.' := by
  obtain rfl | ⟨some, are_names⟩ := are
  · nofun
  rcases imported with _ | ⟨name, _ | ⟨next, names⟩⟩
  · exact absurd rfl some
  · exact head?_ident (are_names name List.mem_cons_self)
  · nofun

theorem head?_dotted {parents : List String} (are_names : ∀ n ∈ parents, IsWord .ident n.toList)
    (head : more.head? ≠ some '.') : (dotted parents more).head? ≠ some '.' := by
  cases parents with
  | nil => exact head
  | cons n parents => exact head?_ident (are_names n List.mem_cons_self)

/-- The names of a path and what it ends with. -/
theorem Worded.path {parents imported : List String}
    (are_names : ∀ n ∈ parents, IsWord .ident n.toList) (are : Grammar.AreImported imported)
    (stop : Lexeme.run isIdentRest more = 0) (rest : Worded more words) :
    Worded (dotted parents (importedText imported ++ more))
      (Grammar.pathWords parents imported words) := by
  induction parents with
  | nil => exact rest.imported are stop
  | cons n parents ih =>
    obtain ⟨is_word, are_names⟩ := List.forall_mem_cons.mp are_names
    have head := head?_dotted are_names (@head?_imported more imported are)
    have dot := (ih are_names).dot head
    exact dot.ident is_word (run_cons_of_neg (by decide))

end Scan

namespace Import

open Scan

variable {i : Import}

/-- The line of an import comes apart into what the import is spelled from. -/
theorem worded_line (parents : Grammar.AreNames i.parents)
    (imported : Grammar.AreImported i.imported) :
    Worded ("import " ++ i.path ++ "\n").toList (fileWords [.importing i]) := by
  obtain ⟨some, are_names⟩ := parents
  have newline := Worded.nil.lone '\n' .newline (by decide)
  have path := newline.path are_names imported rfl
  have head := head?_dotted are_names (@head?_imported ['\n'] _ imported)
  rw [dotted_append] at path head
  have words : Worded (i.path.toList ++ ['\n']) ((if i.relative then (spelled .dot :: ·) else id)
      (Grammar.pathWords i.parents i.imported [spelled .newline])) := by
    rw [toList_path some]
    cases i.relative with
    | true => exact path.dot head
    | false => exact path
  have nonempty : (if i.relative then (spelled .dot :: ·) else id)
      (Grammar.pathWords i.parents i.imported [spelled .newline]) ≠ [] := by
    obtain ⟨n, parents, eq⟩ := List.exists_cons_of_ne_nil some
    rw [eq]
    cases i.relative <;> exact List.cons_ne_nil _ _
  have line := (words.space nonempty).importing
  rw [String.toList_append, String.toList_append]
  exact line

end Import

/-- Whatever says the same as an import, up to where it stands, is the import somewhere. -/
theorem Toplevel.importing_of_bare {d : Toplevel} {i : Import}
    (same : d.bare = (Toplevel.importing i).bare) : ∃ span, d = .importing { i with span } := by
  cases d with
  | importing j =>
    obtain ⟨_, _, _, _⟩ := i
    simp only [Toplevel.bare, Toplevel.importing.injEq, Import.mk.injEq, true_and] at same
    obtain ⟨rfl, rfl, rfl⟩ := same
    exact ⟨j.span, rfl⟩
  | _ => cases same

/-- An import of a file, written again on a line of its own, is parsed as the same import. -/
theorem parse_printed_import {source : Source} {decls : List Toplevel} {i : Import}
    (parsed : (parse source).result = .ok decls) (mem : i ∈ Toplevel.imports decls)
    {again : Source} (code : again.code = Utf8.ofString ("import " ++ i.path ++ "\n")) :
    ∃ span, (parse again).result = .ok [.importing { i with span }] := by
  obtain ⟨parents, imported⟩ := path_of_import parsed mem
  have spelling := (i.worded_line parents imported).spelling code
  have some : i.imported ≠ [] := by
    obtain star | ⟨some, -⟩ := imported
    · simp [star]
    · exact some
  have legible : ∀ d ∈ [Toplevel.importing i], d.Legible :=
    List.forall_mem_singleton.mpr (Grammar.legible_importing parents.1 some)
  obtain ⟨decls', result, same⟩ := parse_legible (List.cons_ne_nil _ _) legible spelling
  obtain ⟨d, rfl, d_same⟩ := List.map_eq_singleton_iff.mp same
  obtain ⟨span, rfl⟩ := Toplevel.importing_of_bare d_same
  exact ⟨span, result⟩

/-- The import of a name with an apostrophe in front and of one with no letter of the alphabet. -/
theorem parse_printed_import_apostrophe :
    let i : Import := ⟨⟨⟨0, 1, 1⟩, ⟨20, 1, 21⟩⟩, true, ["'a"], ["é", "b"]⟩
    (parse (.inMemory "a" (Utf8.ofString "import .'a . \x7bé, b\x7d"))).result = .ok [.importing i] ∧
      ∃ span, (parse (.inMemory "b" (Utf8.ofString ("import " ++ i.path ++ "\n")))).result =
        .ok [.importing { i with span }] := by
  intro i
  have parsed : (parse (.inMemory "a" (Utf8.ofString "import .'a . \x7bé, b\x7d"))).result =
      .ok [.importing i] := by cbv
  have mem : i ∈ Toplevel.imports [.importing i] := List.mem_cons_self
  have again := @parse_printed_import _ _ _ parsed mem (.inMemory "b" _) rfl
  exact ⟨parsed, again⟩

end Frontend
