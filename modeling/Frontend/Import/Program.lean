import Frontend.FileSystem
import Frontend.Source
import Frontend.Tree.Dump

/-!
Programs and the modules they import. A module holds the program of the file that its import leads
to, and the canonical place of that file: two modules at one place share one program. Listings
show every program once, in the order in which a depth-first look at the modules meets them.
-/
namespace Frontend

mutual

/-- A parsed source, with a module for each import that has been resolved, in order. -/
structure Program where
  source : Source
  decls : List Toplevel
  modules : List Module

/-- What an import stands for. An import of everything has no names; it exposes all names of the
program under a namespace, the last part of the path. -/
structure Module where
  scope : Option String
  imported : List String
  exposesAll : Bool
  place : Place
  program : Program

end

namespace Program

/-- A program whose imports are not resolved yet. -/
def ofDecls (source : Source) (decls : List Toplevel) : Program := ⟨source, decls, []⟩

/-- The imports of a program, in order. -/
def imports (p : Program) : List Import := Toplevel.imports p.decls

/-- The functions of a program, in order. -/
def functions (p : Program) : List Function := Toplevel.functions p.decls

/-- The root node of a program. -/
def node (p : Program) : Node := .file p.decls

/-- The listing of a program as it is printed alone. -/
def dump (p : Program) : String := p.node.dump p.source.name

/-- The state of printing programs: the sink, and the names of sources that are done. -/
structure Listing where
  sink : Sink
  seen : List String

mutual

/-- Prints a program and then those it imports. A source whose name has been seen is left out. -/
def list : Program → Listing → Listing
  | ⟨source, decls, modules⟩, l =>
    if source.name ∈ l.seen then l
    else
      let sink := (Node.file decls).printLine source.name l.sink
      listAll modules ⟨sink, source.name :: l.seen⟩

/-- Prints the programs of modules, one after the other. -/
def listAll : List Module → Listing → Listing
  | [], l => l
  | ⟨_, _, _, _, program⟩ :: rest, l => listAll rest (list program l)

end

/-- Prints a program and all it imports, directly or not, each once. -/
def printAll (p : Program) (sink : Sink) : Sink := (p.list ⟨sink, []⟩).sink

/-- The listing of a program and of all it imports. -/
def listing (p : Program) : String := Utf8.toStringLossy (p.printAll .unbounded).bytes

end Program

end Frontend
