import Frontend.Text.Utf8
import Frontend.Tree.Walk

/-!
The listing of a tree: a header, then a line per node, indented by depth. It is printed piece by
piece into a sink, which may take a limited number of bytes only; a printer whose sink has failed
prints nothing more.
-/
namespace Frontend

/-- Where bytes are written. `room` is the number of bytes it still takes, or no bound. The bytes
taken are kept in pieces, latest first. -/
structure Sink where
  room : Option Nat
  pieces : List (List UInt8)
  failed : Bool

namespace Sink

/-- A sink that takes everything. -/
def unbounded : Sink := ⟨none, [], false⟩

/-- A sink that takes `room` bytes. -/
def bounded (room : Nat) : Sink := ⟨some room, [], false⟩

/-- All bytes taken. -/
def bytes (sink : Sink) : List UInt8 := sink.pieces.reverse.flatten

/-- Writes a text. A sink takes as much of it as there is room for, and fails if that is not
all. -/
def write (sink : Sink) (text : String) : Sink :=
  let piece := Utf8.ofString text
  match sink.room with
  | none => { sink with pieces := piece :: sink.pieces }
  | some room =>
    if piece.length ≤ room then
      { sink with room := some (room - piece.length), pieces := piece :: sink.pieces }
    else ⟨some 0, piece.take room :: sink.pieces, true⟩

end Sink

/-- A printer: its sink, and the depth of the node to be printed next. -/
structure Printer where
  sink : Sink
  depth : Nat

namespace Node

/-- The line of a node at a depth, with the newline before it. -/
def line (n : Node) (depth : Nat) : String :=
  let indent := String.join (List.replicate depth "-   ")
  s!"\n{indent}{n.label} ({n.span.lineColumns})"

/-- The pass that prints. -/
def printing : Pass Printer where
  enter n p :=
    if p.sink.failed then (false, p)
    else
      let sink := p.sink.write (n.line p.depth)
      if sink.failed then (false, ⟨sink, p.depth⟩) else (true, ⟨sink, p.depth + 1⟩)
  leave _ p := ⟨p.sink, p.depth - 1⟩

/-- The first line of the listing of a tree from a source. -/
def header (name : String) : String :=
  if name.isEmpty then "AST:" else s!"AST of {name}:"

/-- Prints the tree below a node into a sink. -/
def print (name : String) (n : Node) (sink : Sink) : Sink :=
  let sink := sink.write (header name)
  if sink.failed then sink else (n.walk printing ⟨sink, 0⟩).sink

/-- Prints the tree below a node and a newline. -/
def printLine (name : String) (n : Node) (sink : Sink) : Sink :=
  let sink := n.print name sink
  if sink.failed then sink else sink.write "\n"

/-- The listing of the tree below a node. -/
def dump (name : String) (n : Node) : String :=
  Utf8.toStringLossy (n.print name .unbounded).bytes

end Node

end Frontend
