import Frontend.FileSystem

/-!
Canonical paths. A place whose names are what a path can spell is written as one path only, and what
is done to that path is done to the place: names go below it, the parent is the place without its
last name. Without links such a path leads to its own place or nowhere.
-/
namespace Frontend

/-- A name as a path can spell it: no slash in it, and no piece that says where to go. -/
structure IsName (n : String) : Prop where
  whole : '/' ∉ n.toList
  named : Path.componentOf n.toList = some (.name n)

/-- A place that can be reached by names. -/
abbrev Place.Named (place : Place) : Prop := ∀ n ∈ place, IsName n

namespace IsName

variable {n : String}

theorem not_blank (h : IsName n) : ¬ (n.toList = [] ∨ n.toList = ['.']) := by
  intro blank
  have named := h.named
  rw [Path.componentOf, if_pos blank] at named
  cases named

theorem ne_nil (h : IsName n) : n.toList ≠ [] := fun empty => h.not_blank (.inl empty)

theorem not_absolute (h : IsName n) : Path.isAbsolute ⟨n⟩ = false := by
  have whole := h.whole
  show (n.toList.head? == some '/') = false
  cases text : n.toList with
  | nil => rfl
  | cons c rest =>
    rw [text] at whole
    simp only [List.head?_cons, beq_eq_false_iff_ne, ne_eq, Option.some.injEq]
    rintro rfl
    exact whole List.mem_cons_self

end IsName

namespace Path

theorem segmentsOf_ne_nil (text : List Char) : segmentsOf text ≠ [] := by
  induction text with
  | nil => exact List.cons_ne_nil _ _
  | cons c rest ih =>
    rw [segmentsOf]
    by_cases slash : c = '/'
    · rw [if_pos slash]
      exact List.cons_ne_nil _ _
    · rw [if_neg slash]
      split <;> exact List.cons_ne_nil _ _

/-- A slash parts the pieces in front of it from those behind it. -/
theorem segmentsOf_slash (front rest : List Char) :
    segmentsOf (front ++ '/' :: rest) = segmentsOf front ++ segmentsOf rest := by
  induction front with
  | nil => rfl
  | cons c front ih =>
    by_cases slash : c = '/'
    · simp [segmentsOf, slash, ih]
    · rw [List.cons_append, segmentsOf, if_neg slash, ih, segmentsOf, if_neg slash]
      cases pieces : segmentsOf front with
      | nil => exact absurd pieces (segmentsOf_ne_nil front)
      | cons s more => rfl

theorem segmentsOf_whole {piece : List Char} (whole : '/' ∉ piece) :
    segmentsOf piece = [piece] := by
  induction piece with
  | nil => rfl
  | cons c piece ih =>
    obtain ⟨other, whole⟩ := List.ne_and_not_mem_of_not_mem_cons whole
    rw [segmentsOf, if_neg (Ne.symm other), ih whole]

/-- A piece without slashes stays whole, in front of what follows behind a slash. -/
theorem segmentsOf_append {piece rest : List Char} (whole : '/' ∉ piece) :
    segmentsOf (piece ++ '/' :: rest) = piece :: segmentsOf rest := by
  rw [segmentsOf_slash, segmentsOf_whole whole, List.singleton_append]

/-- Pieces put together with slashes come apart again. -/
theorem segmentsOf_intercalate {pieces : List (List Char)} (some : pieces ≠ [])
    (whole : ∀ s ∈ pieces, '/' ∉ s) : segmentsOf (['/'].intercalate pieces) = pieces := by
  induction pieces with
  | nil => exact absurd rfl some
  | cons s more ih =>
    obtain ⟨s_whole, whole⟩ := List.forall_mem_cons.mp whole
    cases more with
    | nil => simpa using segmentsOf_whole s_whole
    | cons next rest =>
      rw [List.intercalate_cons_cons, List.append_assoc, List.singleton_append,
        segmentsOf_append s_whole, ih (List.cons_ne_nil _ _) whole]

/-- The pieces of a text put together with slashes are the text. -/
theorem intercalate_segmentsOf (text : List Char) :
    ['/'].intercalate (segmentsOf text) = text := by
  induction text with
  | nil => rfl
  | cons c rest ih =>
    cases pieces : segmentsOf rest with
    | nil => exact absurd pieces (segmentsOf_ne_nil rest)
    | cons s more =>
      rw [pieces] at ih
      by_cases slash : c = '/'
      · rw [segmentsOf, if_pos slash, pieces, List.intercalate_cons_cons, ih, slash]
        rfl
      · rw [segmentsOf, if_neg slash, pieces, ← ih]
        cases more <;> simp [List.intercalate_cons_cons]

/-- No piece has a slash in it. -/
theorem whole_of_mem_segmentsOf {text s : List Char} (mem : s ∈ segmentsOf text) : '/' ∉ s := by
  induction text generalizing s with
  | nil =>
    rw [List.mem_singleton.mp mem]
    exact List.not_mem_nil
  | cons c rest ih =>
    rw [segmentsOf] at mem
    by_cases slash : c = '/'
    · rw [if_pos slash] at mem
      obtain rfl | mem := List.mem_cons.mp mem
      · exact List.not_mem_nil
      · exact ih mem
    · rw [if_neg slash] at mem
      split at mem
      next none => exact absurd none (segmentsOf_ne_nil rest)
      next first more pieces =>
        obtain rfl | mem := List.mem_cons.mp mem
        · intro inside
          obtain rfl | inside := List.mem_cons.mp inside
          · exact slash rfl
          · exact ih (pieces ▸ List.mem_cons_self) inside
        · exact ih (pieces ▸ List.mem_cons_of_mem _ mem)

/-- What a piece names is a name. -/
theorem isName_of_componentOf {s : List Char} {n : String} (whole : '/' ∉ s)
    (named : componentOf s = some (.name n)) : n.toList = s ∧ IsName n := by
  have text : n = String.ofList s := by
    unfold componentOf at named
    split at named
    · cases named
    · split at named <;> cases named
      rfl
  have same : n.toList = s := by rw [text, String.toList_ofList]
  exact ⟨same, ⟨same ▸ whole, same ▸ named⟩⟩

/-- A path that does not begin at the root never comes to it. -/
theorem root_not_mem {p : Path} (free : p.isAbsolute = false) : .root ∉ p.components := by
  have none : ∀ s : List Char, componentOf s ≠ some .root := by
    intro s
    unfold componentOf
    split
    · nofun
    · split <;> nofun
  rw [components, if_neg (by simp [free])]
  intro mem
  obtain mem | mem := List.mem_append.mp mem
  · split at mem <;> simp at mem
  · obtain ⟨s, _, eq⟩ := List.mem_filterMap.mp mem
    exact none s eq

end Path

namespace Place

variable {place other : Place} {n : String}

theorem toList_path (place : Place) :
    place.path.text.toList = '/' :: ['/'].intercalate (place.map String.toList) := by
  simp [path, String.toList_intercalate]

theorem isAbsolute_path (place : Place) : place.path.isAbsolute = true := by
  rw [Path.isAbsolute, toList_path]
  rfl

/-- The path of a place below the root comes apart into the names, behind an empty piece. -/
theorem segments_path (named : place.Named) (below : place ≠ []) :
    place.path.segments = [] :: place.map String.toList := by
  have pieces : Path.segmentsOf (['/'].intercalate (place.map String.toList)) = place.map String.toList := by
    apply Path.segmentsOf_intercalate (by simpa using below)
    intro s mem
    obtain ⟨m, there, rfl⟩ := List.mem_map.mp mem
    exact (named m there).whole
  rw [Path.segments, toList_path, Path.segmentsOf, if_pos rfl, pieces]

theorem filterMap_componentOf (named : place.Named) :
    (place.map String.toList).filterMap Path.componentOf = place.map .name := by
  induction place with
  | nil => rfl
  | cons n more ih =>
    obtain ⟨is_name, named⟩ := List.forall_mem_cons.mp named
    rw [List.map_cons, List.filterMap_cons_some is_name.named, ih named, List.map_cons]

theorem components_path (named : place.Named) :
    place.path.components = .root :: place.map .name := by
  rw [Path.components, if_pos (isAbsolute_path place)]
  by_cases root : place = []
  · subst root
    rfl
  · rw [segments_path named root, List.filterMap_cons_none rfl, filterMap_componentOf named]
    rfl

/-- A path is the path of one place. -/
theorem path_inj (named : place.Named) (other_named : other.Named)
    (same : place.path.components = other.path.components) : place = other := by
  rw [components_path named, components_path other_named] at same
  exact (List.map_inj_right fun _ _ => Component.name.inj).mp (List.cons.inj same).2

theorem named_append_singleton : Place.Named (place ++ [n]) ↔ place.Named ∧ IsName n := by
  simp only [Named, List.forall_mem_append, List.forall_mem_singleton]

theorem path_append_singleton (below : place ≠ []) :
    (place ++ [n]).path = ⟨place.path.text ++ "/" ++ n⟩ := by
  rw [path, path, String.intercalate_append_of_ne_nil below (List.cons_ne_nil _ _)]
  simp [String.append_assoc]

/-- The path of a place ends with a slash and the last name. -/
theorem toList_path_append_singleton (place : Place) (n : String) :
    ∃ before, (place ++ [n]).path.text.toList = before ++ '/' :: n.toList := by
  by_cases root : place = []
  · subst root
    exact ⟨[], by simp [toList_path]⟩
  · exact ⟨place.path.text.toList, by simp [path_append_singleton root]⟩

/-- Only the path of the root ends with a slash. -/
theorem getLast?_path (named : place.Named) (below : place ≠ []) :
    ∃ c, place.path.text.toList.getLast? = some c ∧ c ≠ '/' := by
  obtain ⟨front, n, rfl⟩ := (List.eq_nil_or_concat place).resolve_left below
  rw [List.concat_eq_append] at named ⊢
  obtain ⟨before, text⟩ := toList_path_append_singleton front n
  have is_name := (named_append_singleton.mp named).2
  have last := List.getLast?_eq_some_getLast is_name.ne_nil
  refine ⟨_, ?_, fun slash => is_name.whole (slash ▸ List.getLast_mem is_name.ne_nil)⟩
  rw [text, List.getLast?_append, List.getLast?_cons, last]
  rfl

/-- A name below a place. -/
theorem join_path (named : place.Named) (is_name : IsName n) :
    place.path.join ⟨n⟩ = (place ++ [n]).path := by
  rw [Path.join, if_neg (by simp [is_name.not_absolute])]
  by_cases root : place = []
  · subst root
    rfl
  · obtain ⟨c, last, other⟩ := getLast?_path named root
    have empty : place.path.text.isEmpty = false := by simp [path]
    have ends : (place.path.text.toList.getLast? == some '/') = false := by
      rw [last]
      simpa using other
    rw [empty, ends, path_append_singleton root]
    rfl

/-- The pieces of a path behind the empty one, last one first, have no blank at their head. -/
theorem dropBlank_reverse (named : place.Named) :
    Path.dropBlank ((place.map String.toList).reverse ++ [[]]) =
      (place.map String.toList).reverse ++ [[]] := by
  obtain rfl | ⟨front, n, rfl⟩ := List.eq_nil_or_concat place
  · rfl
  · rw [List.concat_eq_append] at named ⊢
    have is_name := (named_append_singleton.mp named).2
    rw [List.map_append, List.reverse_append, List.map_singleton, List.reverse_singleton,
      List.singleton_append, List.cons_append]
    cases rest : (front.map String.toList).reverse ++ [[]] with
    | nil => simp at rest
    | cons s more => rw [Path.dropBlank, if_neg is_name.not_blank]

/-- Pieces behind an empty one are put together to the path of their place. -/
theorem ofSegments_path (below : place ≠ []) :
    Path.ofSegments ([] :: place.map String.toList) = place.path := by
  cases place with
  | nil => exact absurd rfl below
  | cons n more =>
    have text := toList_path (n :: more)
    rw [Path.ofSegments, List.map_cons, List.intercalate_cons_cons, List.nil_append,
      List.singleton_append, ← List.map_cons, ← text, String.ofList_toList]

theorem parent?_path (named : place.Named) (is_name : IsName n) :
    (place ++ [n]).path.parent? = some place.path := by
  have all_named := named_append_singleton.mpr ⟨named, is_name⟩
  have last : (place ++ [n]).path.components.getLast? = some (.name n) := by
    rw [components_path all_named, List.map_append, ← List.cons_append]
    exact List.getLast?_concat
  have reversed : (place ++ [n]).path.segments.reverse =
      ((place ++ [n]).map String.toList).reverse ++ [[]] := by
    rw [segments_path all_named (by simp), List.reverse_cons]
  have kept : Path.dropBlank ((Path.dropBlank (place ++ [n]).path.segments.reverse).drop 1) =
      (place.map String.toList).reverse ++ [[]] := by
    rw [reversed, dropBlank_reverse all_named]
    simpa using dropBlank_reverse named
  rw [Path.parent?, last]
  dsimp only
  rw [kept, isAbsolute_path]
  by_cases root : place = []
  · subst root
    rfl
  · have back : ((place.map String.toList).reverse ++ [[]]).reverse = [] :: place.map String.toList := by
      simp
    have shown : place.path.text.isEmpty = false := by simp [path]
    rw [back, ofSegments_path root, shown]
    rfl

/-- Names below a place, one after the other. -/
theorem foldl_join_path {base : Place} (named : Place.Named (base ++ place)) :
    place.foldl (fun p n => p.join ⟨n⟩) base.path = (base ++ place).path := by
  induction place generalizing base with
  | nil => rw [List.append_nil, List.foldl_nil]
  | cons n more ih =>
    rw [List.append_cons] at named ⊢
    obtain ⟨base_named, is_name⟩ := named_append_singleton.mp (List.forall_mem_append.mp named).1
    rw [List.foldl_cons, join_path base_named is_name, ih named]

/-- The path of a place is as absolute paths are written. -/
theorem absolute?_path (named : place.Named) (below : place ≠ []) (current : Path) :
    place.path.absolute? current = some place.path := by
  obtain ⟨c, last, other⟩ := getLast?_path named below
  have shown : place.path.text.isEmpty = false := by simp [path]
  have single : (place.path.text.toList.take 2 == ['/', '/']) = false := by
    cases place with
    | nil => exact absurd rfl below
    | cons n more =>
      have is_name := named n List.mem_cons_self
      have whole := is_name.whole
      have first : ∃ rest, ['/'].intercalate ((n :: more).map String.toList) = n.toList ++ rest := by
        cases more with
        | nil => exact ⟨[], by simp⟩
        | cons m more =>
          refine ⟨'/' :: ['/'].intercalate ((m :: more).map String.toList), ?_⟩
          rw [List.map_cons, List.map_cons, List.intercalate_cons_cons, List.append_assoc]
          rfl
      obtain ⟨rest, text⟩ := first
      rw [toList_path, text]
      cases chars : n.toList with
      | nil => exact absurd chars is_name.ne_nil
      | cons c chars' =>
        have other : c ≠ '/' := by
          rintro rfl
          exact whole (chars ▸ List.mem_cons_self)
        simpa using other
  have names : place.path.components.filter (fun c => c != .root && c != .here) =
      place.map .name := by
    rw [components_path named]
    simp [List.filter_eq_self]
  have joined : (place.map .name).foldl (fun q c => q.join (Path.ofComponent c)) ⟨"/"⟩ =
      place.path := by
    rw [List.foldl_map]
    exact @foldl_join_path place [] named
  have ends : (place.path.text.toList.getLast? == some '/') = false := by
    rw [last]
    simpa using other
  simp only [Path.absolute?, shown, names, isAbsolute_path, single, ends, Bool.not_true,
    Bool.false_and, Bool.false_eq_true, if_false, joined]

theorem startsWith_path {base : Place} (named : Place.Named (base ++ place)) :
    (base ++ place).path.startsWith base.path = true := by
  have base_named := (List.forall_mem_append.mp named).1
  rw [Path.startsWith, components_path named, components_path base_named, List.isPrefixOf_iff_prefix,
    List.map_append]
  exact ⟨place.map .name, rfl⟩

end Place

namespace FileSystem

variable {fs : FileSystem} {links : Nat} {here there place : Place} {found : Option Entry}

/-- A file system without symbolic links. -/
def Linkless (fs : FileSystem) : Prop :=
  ∀ place target, fs.entryAt? place ≠ some (.link target)

/-- Where no entry is a link, no look-up comes to one. -/
theorem linkless_of_entries (none : ∀ placed ∈ fs.entries, ∀ target, placed.2 ≠ .link target) :
    fs.Linkless := by
  intro place target found
  unfold entryAt? at found
  split at found
  · cases found
  · obtain ⟨before, after, entries, _⟩ := List.lookup_eq_some_iff.mp found
    apply none (place, .link target) _ target rfl
    rw [entries]
    exact List.mem_append_right _ List.mem_cons_self

/-- Without links a look-up follows the names that it is given. -/
theorem eq_append_of_seek (linkless : fs.Linkless) (named : place.Named)
    (sought : fs.seek links here (place.map String.toList) = .ok (there, found)) :
    there = here ++ place := by
  induction place generalizing here with
  | nil =>
    rw [List.map_nil, seek] at sought
    cases sought
    rw [List.append_nil]
  | cons n more ih =>
    obtain ⟨is_name, named⟩ := List.forall_mem_cons.mp named
    rw [List.map_cons, seek] at sought
    split at sought
    · cases sought
    · cases sought
    · cases sought
    rw [is_name.named] at sought
    dsimp only at sought
    split at sought
    · cases sought
    split at sought
    next =>
      split at sought
      next last =>
        cases sought
        have no_more : more = [] := by simpa using last
        rw [no_more]
      next => cases sought
    next target entry => exact absurd entry (linkless _ target)
    next =>
      have below := ih named sought
      simpa using below

/-- The names on the way to a place are names. -/
theorem named_of_seek {segments : List (List Char)} (here_named : here.Named)
    (whole : ∀ s ∈ segments, '/' ∉ s) (sought : fs.seek links here segments = .ok (there, found)) :
    there.Named := by
  fun_induction seek fs links here segments with
  | case1 _ here =>
    cases sought
    exact here_named
  | case6 _ here segment rest _ n name =>
    cases sought
    have is_name := (Path.isName_of_componentOf (whole _ List.mem_cons_self) name).2
    exact Place.named_append_singleton.mpr ⟨here_named, is_name⟩
  | case10 here segment rest _ n name _ target _ links _ ih =>
    apply ih _ _ sought
    · split
      · exact List.forall_mem_nil _
      · exact here_named
    · intro s mem
      obtain mem | mem := List.mem_append.mp mem
      · exact Path.whole_of_mem_segmentsOf mem
      · exact whole s (List.mem_cons_of_mem _ mem)
  | case11 _ here segment rest _ n name _ _ _ _ ih =>
    have is_name := (Path.isName_of_componentOf (whole _ List.mem_cons_self) name).2
    apply ih (Place.named_append_singleton.mpr ⟨here_named, is_name⟩) _ sought
    exact fun s mem => whole s (List.mem_cons_of_mem _ mem)
  | case12 _ here segment rest _ _ ih =>
    apply ih _ _ sought
    · exact fun n mem => here_named n (List.dropLast_subset _ mem)
    · exact fun s mem => whole s (List.mem_cons_of_mem _ mem)
  | case13 _ here segment rest _ _ _ ih =>
    exact ih here_named (fun s mem => whole s (List.mem_cons_of_mem _ mem)) sought
  | _ => cases sought

/-- What a path leads to is found piece by piece. -/
theorem seek_of_locate {p : Path} {entry : Entry} (located : fs.locate p = .ok (there, entry)) :
    fs.seek linkLimit [] (fs.fromRoot p).segments = .ok (there, some entry) := by
  unfold locate destination at located
  split at located
  · cases located
  split at located
  · cases located
  generalize fs.seek _ _ _ = result at located ⊢
  cases result with
  | error e => cases located
  | ok ends =>
    obtain ⟨place, found⟩ := ends
    cases found <;> cases located
    rfl

theorem named_of_locate {p : Path} {entry : Entry} (located : fs.locate p = .ok (there, entry)) :
    there.Named :=
  named_of_seek (List.forall_mem_nil _) (fun _ mem => Path.whole_of_mem_segmentsOf mem) (seek_of_locate located)

/-- Without links the path of a place leads to that place, if it leads anywhere. -/
theorem eq_of_locate_path (linkless : fs.Linkless) (named : place.Named) (below : place ≠ [])
    {entry : Entry} (located : fs.locate place.path = .ok (there, entry)) : there = place := by
  have sought := seek_of_locate located
  rw [fromRoot, if_pos (Place.isAbsolute_path place), Place.segments_path named below, seek] at sought
  have root : fs.entryAt? [] = some .directory := by rw [entryAt?, if_pos rfl]
  rw [root] at sought
  exact (eq_append_of_seek linkless named sought).trans (List.nil_append _)

theorem eq_of_canonical_path (linkless : fs.Linkless) (named : place.Named) (below : place ≠ [])
    (located : fs.canonical place.path = .ok there) : there = place := by
  unfold canonical at located
  cases found : fs.locate place.path with
  | error e =>
    rw [found] at located
    cases located
  | ok ends =>
    rw [found] at located
    cases located
    exact eq_of_locate_path linkless named below found

end FileSystem

end Frontend
