import Frontend.Import.Library
import Frontend.Proofs.Joins
import Frontend.Source

/-!
Names of sources in files. The path of a file as it is seen from the root has the same components as
the path that it was opened by, and paths with the same components lead to the same place if they
lead anywhere. So the name of a source tells the place of its file.
-/
namespace Frontend

/-- A component that leads on from where one is. -/
inductive Component.Onward : Component → Prop
  | up : Onward .up
  | name {n : String} (is_name : IsName n) : Onward (.name n)

namespace Path

variable {p q whole : Path} {c : Component}

theorem ne_empty_of_absolute (absolute : p.isAbsolute = true) : p.text ≠ "" := by
  intro nothing
  rw [isAbsolute, nothing] at absolute
  cases absolute

theorem components_of_absolute (absolute : p.isAbsolute = true) :
    p.components = .root :: p.segments.filterMap componentOf := by
  rw [components, if_pos absolute]
  rfl

/-- Pieces of a path lead on. -/
theorem onward_of_mem (mem : c ∈ p.segments.filterMap componentOf) : c.Onward := by
  obtain ⟨s, piece, named⟩ := List.mem_filterMap.mp mem
  cases c with
  | up => exact .up
  | name n => exact .name (isName_of_componentOf (whole_of_mem_segmentsOf piece) named).2
  | root | here =>
    unfold componentOf at named
    split at named
    · cases named
    · split at named <;> cases named

theorem isAbsolute_of_components (h : p.components.head? = some .root) : p.isAbsolute = true := by
  by_contra relative
  rw [Bool.not_eq_true] at relative
  exact root_not_mem relative (List.mem_of_mem_head? h)

/-- The components that lead on are those of the pieces. -/
theorem filter_components (p : Path) :
    p.components.filter (fun c => c != .root && c != .here) = p.segments.filterMap componentOf := by
  have onward : (p.segments.filterMap componentOf).filter (fun c => c != .root && c != .here) =
      p.segments.filterMap componentOf := by
    rw [List.filter_eq_self]
    intro c mem
    cases onward_of_mem mem <;> rfl
  rw [components, List.filter_append, onward]
  split
  · rfl
  · split <;> rfl

theorem front_ne_empty (filled : p.text ≠ "") : p.front ≠ "" := by
  rw [front]
  split
  · exact filled
  · simp

theorem join_ne_empty (filled : p.text ≠ "") (relative : q.isAbsolute = false) :
    (p.join q).text ≠ "" := by
  rw [join_eq relative]
  simp [front_ne_empty filled]

/-- What is joined to a path that is not empty leads on from there. -/
theorem components_join_relative (filled : p.text ≠ "") (relative : q.isAbsolute = false) :
    (p.join q).components = p.components ++ q.segments.filterMap componentOf := by
  obtain ⟨nothing, -⟩ | ⟨before, front_eq, same⟩ := p.front_cases
  · exact absurd nothing (front_ne_empty filled)
  · have text : p.front ++ q.text = String.ofList (before ++ '/' :: q.text.toList) := by
      simp [front_eq, String.ext_iff]
    rw [join_eq relative, text, components_slash, ← front_eq, same]
    rfl

theorem components_join_onward (filled : p.text ≠ "") (onward : c.Onward) :
    (p.join (ofComponent c)).components = p.components ++ [c] ∧
      (p.join (ofComponent c)).text ≠ "" := by
  cases onward with
  | up => exact ⟨components_join_relative filled rfl, join_ne_empty filled rfl⟩
  | name is_name => exact ⟨components_join is_name, join_ne_empty filled is_name.not_absolute⟩

theorem components_foldl_onward {cs : List Component} (filled : p.text ≠ "")
    (onward : ∀ c ∈ cs, c.Onward) :
    (cs.foldl (fun p c => p.join (ofComponent c)) p).components = p.components ++ cs ∧
      (cs.foldl (fun p c => p.join (ofComponent c)) p).text ≠ "" := by
  induction cs generalizing p with
  | nil => exact ⟨(List.append_nil _).symm, filled⟩
  | cons c cs ih =>
    obtain ⟨first, onward⟩ := List.forall_mem_cons.mp onward
    obtain ⟨components, filled⟩ := components_join_onward filled first
    obtain ⟨rest, filled⟩ := ih filled onward
    refine ⟨?_, filled⟩
    rw [List.foldl_cons, rest, components, List.append_assoc, List.singleton_append]

/-- Where the path of a file begins as it is seen from the root. -/
def base (p current : Path) : Path :=
  if !p.isAbsolute then current
  else if p.text.toList.take 2 == ['/', '/'] && p.text.toList[2]? != some '/' then ⟨"//"⟩
  else ⟨"/"⟩

/-- The components of a path, one after the other behind another path. -/
def follow (p q : Path) : Path :=
  (q.components.filter fun c => c != .root && c != .here).foldl
    (fun p c => p.join (ofComponent c)) p

theorem absolute?_eq (p current : Path) : p.absolute? current =
    if p.text.isEmpty then none
    else some (if p.text.toList.getLast? == some '/' then ((p.base current).follow p).join ⟨""⟩
      else (p.base current).follow p) := rfl

theorem components_base {fs : FileSystem} (rooted : fs.current.isAbsolute = true) (p : Path) :
    (p.base fs.current).text ≠ "" ∧
      (p.base fs.current).components ++ p.segments.filterMap componentOf =
        (fs.fromRoot p).components := by
  cases absolute : p.isAbsolute with
  | false =>
    have filled := ne_empty_of_absolute rooted
    have start : p.base fs.current = fs.current := by simp [base, absolute]
    rw [start, FileSystem.fromRoot, if_neg (Bool.eq_false_iff.mp absolute)]
    exact ⟨filled, (components_join_relative filled absolute).symm⟩
  | true =>
    have start : (p.base fs.current).text ≠ "" ∧ (p.base fs.current).components = [.root] := by
      rw [base, absolute, if_neg (by decide)]
      split <;> decide
    rw [FileSystem.fromRoot, if_pos absolute, components_of_absolute absolute, start.2]
    exact ⟨start.1, rfl⟩

theorem components_follow (filled : p.text ≠ "") (q : Path) :
    (p.follow q).components = p.components ++ q.segments.filterMap componentOf ∧
      (p.follow q).text ≠ "" := by
  rw [follow, filter_components]
  exact components_foldl_onward filled fun _ => onward_of_mem

/-- The path of a file as it is seen from the root has the same components. -/
theorem components_absolute? {fs : FileSystem} (rooted : fs.current.isAbsolute = true)
    (found : p.absolute? fs.current = some whole) :
    whole.components = (fs.fromRoot p).components := by
  obtain ⟨filled, from_base⟩ := components_base rooted p
  obtain ⟨components, filled⟩ := components_follow filled p
  rw [absolute?_eq] at found
  split at found
  · cases found
  rw [← from_base, ← components, ← Option.some.inj found]
  split
  · have nothing : (segments ⟨""⟩).filterMap componentOf = [] := by decide
    rw [components_join_relative filled rfl, nothing, List.append_nil]
  · rfl

end Path

namespace FileSystem

variable {fs : FileSystem} {links : Nat} {here place place' : Place} {found found' : Option Entry}
  {p q : Path}

/-- A look-up does without pieces that name nothing, if it comes to an end with them. -/
theorem seek_of_blanks {blanks rest : List (List Char)}
    (blank : ∀ s ∈ blanks, Path.componentOf s = none)
    (sought : fs.seek links here (blanks ++ rest) = .ok (place, found)) :
    fs.seek links here rest = .ok (place, found) := by
  induction blanks with
  | nil => exact sought
  | cons s blanks ih =>
    obtain ⟨none, blank⟩ := List.forall_mem_cons.mp blank
    rw [List.cons_append, seek, none] at sought
    split at sought
    · cases sought
    · cases sought
    · cases sought
    · exact ih blank sought

/-- Two look-ups by the same components do not come to different ends. -/
theorem seek_same {segments segments' : List (List Char)}
    (same : segments.filterMap Path.componentOf = segments'.filterMap Path.componentOf)
    (sought : fs.seek links here segments = .ok (place, found))
    (sought' : fs.seek links here segments' = .ok (place', found')) : place = place' := by
  -- The other look-up may have blanks in front of the next piece that names something.
  have next {here : Place} {links : Nat} {segment : List Char} {rest : List (List Char)}
      {segments' : List (List Char)} {c : Component} (named : Path.componentOf segment = some c)
      (same : (segment :: rest).filterMap Path.componentOf =
        segments'.filterMap Path.componentOf)
      (sought' : fs.seek links here segments' = .ok (place', found')) :
      ∃ segment' rest', Path.componentOf segment' = some c ∧
        rest.filterMap Path.componentOf = rest'.filterMap Path.componentOf ∧
        fs.seek links here (segment' :: rest') = .ok (place', found') := by
    rw [List.filterMap_cons_some named] at same
    obtain ⟨blanks, segment', rest', rfl, blank, named', same'⟩ :=
      List.filterMap_eq_cons_iff.mp same.symm
    exact ⟨segment', rest', named', same'.symm, seek_of_blanks blank sought'⟩
  fun_induction seek fs links here segments generalizing segments' with
  | case1 _ here =>
    cases sought
    have blank := List.filterMap_eq_nil_iff.mp same.symm
    rw [← List.append_nil segments'] at sought'
    have ended := seek_of_blanks blank sought'
    rw [seek] at ended
    cases ended
    rfl
  | case6 _ here segment rest directory n named short entry last =>
    cases sought
    obtain ⟨segment', rest', named', same, sought'⟩ := next named same sought'
    rw [seek, directory, named'] at sought'
    dsimp only at sought'
    rw [if_neg short, entry] at sought'
    dsimp only at sought'
    split at sought' <;> cases sought'
    rfl
  | case10 here segment rest directory n named short target entry links filled ih =>
    obtain ⟨segment', rest', named', same, sought'⟩ := next named same sought'
    rw [seek, directory, named'] at sought'
    dsimp only at sought'
    rw [if_neg short, entry] at sought'
    dsimp only at sought'
    rw [if_neg filled] at sought'
    exact ih (by rw [List.filterMap_append, List.filterMap_append, same]) sought sought'
  | case11 links here segment rest directory n named short entry no_link there ih =>
    obtain ⟨segment', rest', named', same, sought'⟩ := next named same sought'
    rw [seek, directory, named'] at sought'
    dsimp only at sought'
    rw [if_neg short, there] at sought'
    cases entry with
    | link target => exact absurd rfl (no_link target)
    | directory | file => exact ih same sought sought'
  | case12 links here segment rest directory named ih =>
    obtain ⟨segment', rest', named', same, sought'⟩ := next named same sought'
    rw [seek, directory, named'] at sought'
    exact ih same sought sought'
  | case13 links here segment rest directory not_name not_up ih =>
    have blank : Path.componentOf segment = none := by
      unfold Path.componentOf at not_name not_up ⊢
      split
      · rfl
      next some =>
        rw [if_neg some] at not_name not_up
        split at not_name
        next up => exact absurd (if_pos up) not_up
        next => exact absurd rfl (not_name _)
    rw [List.filterMap_cons_none blank] at same
    exact ih same sought sought'
  | _ => cases sought

/-- Paths with the same components do not lead to different places. -/
theorem canonical_same (absolute : (fs.fromRoot p).isAbsolute = true)
    (same : (fs.fromRoot p).components = (fs.fromRoot q).components)
    (located : fs.canonical p = .ok place) (located' : fs.canonical q = .ok place') :
    place = place' := by
  have absolute' : (fs.fromRoot q).isAbsolute = true := by
    apply Path.isAbsolute_of_components
    rw [← same, Path.components_of_absolute absolute, List.head?_cons]
  rw [Path.components_of_absolute absolute, Path.components_of_absolute absolute'] at same
  unfold canonical at located located'
  cases found : fs.locate p with
  | error e =>
    rw [found] at located
    cases located
  | ok ends =>
    cases found' : fs.locate q with
    | error e =>
      rw [found'] at located'
      cases located'
    | ok ends' =>
      rw [found] at located
      rw [found'] at located'
      cases located
      cases located'
      exact seek_same (List.cons.inj same).2 (seek_of_locate found) (seek_of_locate found')

theorem isAbsolute_fromRoot (rooted : fs.current.isAbsolute = true) (p : Path) :
    (fs.fromRoot p).isAbsolute = true := by
  cases absolute : p.isAbsolute with
  | true => rwa [fromRoot, if_pos absolute]
  | false =>
    have filled := Path.ne_empty_of_absolute rooted
    apply Path.isAbsolute_of_components
    rw [fromRoot, if_neg (Bool.eq_false_iff.mp absolute),
      Path.components_join_relative filled absolute, Path.components_of_absolute rooted]
    rfl

/-- A file that can be read has a place. -/
theorem exists_canonical_of_read {bytes : List UInt8} (found : fs.read p = .ok bytes) :
    ∃ place, fs.canonical p = .ok place := by
  unfold read at found
  split at found
  · cases found
  split at found
  next there _ located =>
    refine ⟨there, ?_⟩
    rw [canonical, located]
    rfl
  next => cases found
  next => cases found

end FileSystem

namespace Source

variable {fs : FileSystem} {file : Path} {place : Place} {source : Source}

/-- A source in a file is named by an absolute path that leads to the place of the file. -/
theorem place_of_name (rooted : fs.current.isAbsolute = true)
    (located : fs.canonical file = .ok place) (found : fromFile fs file = .ok source) :
    source.onDisk = true ∧ Path.isAbsolute ⟨source.name⟩ = true ∧
      fs.canonical ⟨source.name⟩ = .ok place := by
  unfold fromFile at found
  cases seen : file.absolute? fs.current with
  | none =>
    rw [seen] at found
    cases found
  | some whole =>
    rw [seen] at found
    dsimp only at found
    cases bytes : fs.read whole with
    | error e =>
      rw [bytes] at found
      cases found
    | ok code =>
      rw [bytes] at found
      cases found
      have from_root := FileSystem.isAbsolute_fromRoot rooted file
      have same := (Path.components_absolute? rooted seen).symm
      have absolute : whole.isAbsolute = true := by
        apply Path.isAbsolute_of_components
        rw [← same, Path.components_of_absolute from_root, List.head?_cons]
      have own : fs.fromRoot whole = whole := if_pos absolute
      obtain ⟨place', located'⟩ := FileSystem.exists_canonical_of_read bytes
      have one := FileSystem.canonical_same from_root (own.symm ▸ same) located located'
      exact ⟨rfl, absolute, one ▸ located'⟩

end Source

end Frontend
