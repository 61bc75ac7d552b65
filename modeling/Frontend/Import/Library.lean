import Frontend.Path

/-!
Where libraries are: below the directory of the running program, and in the directories that the
environment lists between colons.
-/
namespace Frontend.Library

/-- The file name extension of sources. -/
def extension : String := "dcs"

/-- The environment variable that lists directories of libraries. -/
def environmentVariable : String := "DACHS_LIB_PATH"

/-- The entries of a list between colons. An empty entry is none. -/
def entries (listed : String) : List Path :=
  let pieces := go listed.toList
  (pieces.filter (· ≠ [])).map fun piece => ⟨String.ofList piece⟩
where
  go : List Char → List (List Char)
    | [] => [[]]
    | c :: rest =>
      if c = ':' then [] :: go rest
      else match go rest with
        | [] => [[c]]
        | piece :: more => (c :: piece) :: more

/-- The directories of libraries, in the order in which they are searched. Relative ones continue
the current directory. -/
def paths (program : Path) (listed : Option String) (current : Path) : List Path :=
  let home := program.parent?.getD ⟨""⟩
  let own := (home.join ⟨"lib"⟩).join ⟨"dachs"⟩
  own :: (entries (listed.getD "")).filterMap fun p => p.absolute? current

/-- Paths as messages show them. -/
def describe (paths : List Path) : String :=
  "[" ++ ", ".intercalate (paths.map fun p => s!"'{p.text}'") ++ "]"

end Frontend.Library
