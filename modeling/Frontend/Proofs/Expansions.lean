import Frontend.Import.Program
import Frontend.Proofs.ImportGraph
import Frontend.Proofs.Listings

/-!
Listings of programs. A program expands to all that it holds, each as often as it is held: the
program itself, and then what its modules expand to. Printing with a set of names that have been
seen leaves out whole programs with all that they hold; where programs of one name are one program,
what is left out has been printed before, or is printed right now around it.
-/
namespace Frontend.Program

mutual

/-- All that a program holds, as often as it is held. -/
def expansion : Program → List Program
  | ⟨source, decls, modules⟩ => ⟨source, decls, modules⟩ :: expansions modules

/-- All that modules hold, one after the other. -/
def expansions : List Module → List Program
  | [] => []
  | ⟨_, _, _, _, program⟩ :: rest => expansion program ++ expansions rest

end

/-- The programs of a list whose names occur there for the first time, where some have been seen. -/
def novel (seen : List String) : List Program → List Program
  | [] => []
  | p :: rest =>
    if p.source.name ∈ seen then novel seen rest
    else p :: novel (p.source.name :: seen) rest

/-- Programs of one name in a graph are one program. -/
def OneNamed (root : Program) : Prop :=
  ∀ p q, root.Holds p → root.Holds q → p.source.name = q.source.name → p = q

/-- The state with one more program printed. -/
def Listing.add (l : Listing) (p : Program) : Listing :=
  ⟨p.node.printLine p.source.name l.sink, p.source.name :: l.seen⟩

variable {root p q : Program} {m : Module} {ms : List Module} {ps qs : List Program} {l : Listing}
  {n : String} {seen : List String} {bound : Nat}

theorem expansions_eq (ms : List Module) : expansions ms = ms.flatMap (·.program.expansion) := by
  induction ms with
  | nil => rfl
  | cons m ms ih =>
    cases m
    rw [expansions, ih, List.flatMap_cons]

theorem expansion_eq (p : Program) :
    p.expansion = p :: p.modules.flatMap (·.program.expansion) := by
  cases p
  rw [expansion, expansions_eq]

theorem sizeOf_program_lt (mem : m ∈ p.modules) : sizeOf m.program < sizeOf p := by
  have inside := List.sizeOf_lt_of_mem mem
  have whole : sizeOf p.modules < sizeOf p := by
    cases p
    simp only [mk.sizeOf_spec]
    omega
  have part : sizeOf m.program < sizeOf m := by
    cases m
    simp only [Module.mk.sizeOf_spec]
    omega
  omega

theorem Holds.trans (first : root.Holds p) (second : p.Holds q) : root.Holds q := by
  induction first with
  | self => exact second
  | module mem _ ih => exact .module mem (ih second)

theorem Holds.sizeOf_le (held : p.Holds q) : sizeOf q ≤ sizeOf p := by
  induction held with
  | self => exact le_rfl
  | module mem _ ih => exact ih.trans (sizeOf_program_lt mem).le

/-- A program expands to what it holds. -/
theorem mem_expansion (p : Program) : q ∈ p.expansion ↔ p.Holds q := by
  rw [expansion_eq, List.mem_cons, List.mem_flatMap]
  have below : ∀ m ∈ p.modules, (q ∈ m.program.expansion ↔ m.program.Holds q) :=
    fun m _ => mem_expansion m.program
  constructor
  · rintro (rfl | ⟨m, mem, inside⟩)
    · exact .self
    · exact .module mem ((below m mem).mp inside)
  · intro held
    cases held with
    | self => exact .inl rfl
    | module mem held => exact .inr ⟨_, mem, (below _ mem).mpr held⟩
termination_by p
decreasing_by exact sizeOf_program_lt ‹_›

section Novel

theorem novel_subset (seen : List String) (ps : List Program) : novel seen ps ⊆ ps := by
  fun_induction novel seen ps with
  | case1 => exact List.Subset.refl _
  | case2 _ p rest _ ih => exact List.subset_cons_of_subset p ih
  | case3 _ p rest _ ih => exact List.cons_subset_cons p ih

/-- The names that have been seen when the novel ones of some programs are printed. -/
theorem mem_seen_novel (l : Listing) (ps : List Program) :
    n ∈ ((novel l.seen ps).foldl Listing.add l).seen ↔
      n ∈ l.seen ∨ ∃ q ∈ ps, q.source.name = n := by
  induction ps generalizing l with
  | nil => simp [novel]
  | cons p ps ih =>
    rw [novel]
    split
    next old =>
      rw [ih]
      simp only [List.exists_mem_cons_iff]
      constructor
      · tauto
      · rintro (there | rfl | there)
        · exact .inl there
        · exact .inl old
        · exact .inr there
    next new =>
      have rest := ih (l.add p)
      have seen : (l.add p).seen = p.source.name :: l.seen := rfl
      rw [seen] at rest
      rw [List.foldl_cons, rest, List.mem_cons, List.exists_mem_cons_iff, eq_comm]
      tauto

theorem mem_seen_foldl (l : Listing) (ps : List Program) :
    n ∈ (ps.foldl Listing.add l).seen ↔ n ∈ l.seen ∨ ∃ q ∈ ps, q.source.name = n := by
  induction ps generalizing l with
  | nil => simp
  | cons p ps ih =>
    have seen : (l.add p).seen = p.source.name :: l.seen := rfl
    rw [List.foldl_cons, ih, seen, List.mem_cons, List.exists_mem_cons_iff, eq_comm]
    tauto

theorem novel_append (l : Listing) (ps qs : List Program) :
    novel l.seen (ps ++ qs) =
      novel l.seen ps ++ novel ((novel l.seen ps).foldl Listing.add l).seen qs := by
  induction ps generalizing l with
  | nil => rfl
  | cons p ps ih =>
    rw [List.cons_append, novel, novel]
    split
    · exact ih l
    · have rest := ih (l.add p)
      have seen : (l.add p).seen = p.source.name :: l.seen := rfl
      rw [seen] at rest
      rw [rest, List.cons_append, List.foldl_cons]

/-- Nothing is novel where all has been seen. -/
theorem novel_eq_nil (all : ∀ q ∈ ps, q.source.name ∈ seen) : novel seen ps = [] := by
  induction ps with
  | nil => rfl
  | cons p ps ih =>
    obtain ⟨first, all⟩ := List.forall_mem_cons.mp all
    rw [novel, if_pos first, ih all]

/-- Novel programs have names of their own. -/
theorem nodup_novel (seen : List String) (ps : List Program) :
    ((novel seen ps).map (·.source.name)).Nodup ∧ ∀ q ∈ novel seen ps, q.source.name ∉ seen := by
  fun_induction novel seen ps with
  | case1 => simp
  | case2 _ _ _ _ ih => exact ih
  | case3 seen p rest new ih =>
    obtain ⟨apart, others⟩ := ih
    constructor
    · rw [List.map_cons, List.nodup_cons, List.mem_map]
      refine ⟨?_, apart⟩
      rintro ⟨q, mem, same⟩
      exact others q mem (same ▸ List.mem_cons_self)
    · rw [List.forall_mem_cons]
      exact ⟨new, fun q mem old => others q mem (List.mem_cons_of_mem _ old)⟩

end Novel

section List

theorem listAll_eq (ms : List Module) (l : Listing) :
    listAll ms l = ms.foldl (fun l m => m.program.list l) l := by
  induction ms generalizing l with
  | nil => rfl
  | cons m ms ih =>
    cases m
    rw [listAll, ih, List.foldl_cons]

theorem list_seen (seen : p.source.name ∈ l.seen) : p.list l = l := by
  cases p
  rw [list, if_pos seen]

theorem list_new (new : p.source.name ∉ l.seen) :
    p.list l = p.modules.foldl (fun l m => m.program.list l) (l.add p) := by
  cases p
  rw [list, if_neg new]
  exact listAll_eq _ _

/-- Where a name has been seen in a graph, everything that the program of that name holds has been
seen, or the program is one of those that are being printed right now, which are large. -/
def Done (root : Program) (bound : Nat) (seen : List String) : Prop :=
  ∀ q, root.Holds q → q.source.name ∈ seen →
    bound ≤ sizeOf q ∨ ∀ r, q.Holds r → r.source.name ∈ seen

theorem Done.nil : Done root bound [] := fun _ _ seen => absurd seen List.not_mem_nil

/-- A program that is begun is being printed as long as what it holds is. -/
theorem Done.add (done : Done root bound l.seen) (one : root.OneNamed) (held : root.Holds p)
    (small : sizeOf p < bound) : Done root (sizeOf p) (l.add p).seen := by
  intro q holds seen
  obtain same | old := List.mem_cons.mp seen
  · exact .inl (one q p holds held same ▸ le_rfl)
  · obtain large | all := done q holds old
    · exact .inl (small.le.trans large)
    · exact .inr fun r held => List.mem_cons_of_mem _ (all r held)

/-- A program that is printed with all that it holds is done. -/
theorem Done.novel (done : Done root bound l.seen) (one : root.OneNamed) (held : root.Holds p) :
    Done root bound ((novel l.seen p.expansion).foldl Listing.add l).seen := by
  intro q holds seen
  simp only [mem_seen_novel, mem_expansion] at seen ⊢
  obtain old | ⟨r, inside, same⟩ := seen
  · obtain large | all := done q holds old
    · exact .inl large
    · exact .inr fun r held => .inl (all r held)
  · obtain rfl := one r q (held.trans inside) holds same
    exact .inr fun s deeper => .inr ⟨s, inside.trans deeper, rfl⟩

/-- Printing the programs of modules, if each prints what is novel. -/
theorem foldl_list (one : root.OneNamed) (held : ∀ m ∈ ms, root.Holds m.program)
    (each : ∀ m ∈ ms, ∀ l, Done root bound l.seen →
      m.program.list l = (novel l.seen m.program.expansion).foldl Listing.add l)
    (done : Done root bound l.seen) :
    ms.foldl (fun l m => m.program.list l) l =
      (novel l.seen (ms.flatMap (·.program.expansion))).foldl Listing.add l := by
  induction ms generalizing l with
  | nil => rfl
  | cons m ms ih =>
    obtain ⟨held_first, held⟩ := List.forall_mem_cons.mp held
    obtain ⟨first, each⟩ := List.forall_mem_cons.mp each
    rw [List.foldl_cons, first l done, ih held each (done.novel one held_first), List.flatMap_cons,
      novel_append, List.foldl_append]

/-- Printing a program prints what is novel among all that it holds. -/
theorem list_eq_novel (one : root.OneNamed) (p : Program) (held : root.Holds p) {bound : Nat}
    (small : sizeOf p < bound) {l : Listing} (done : Done root bound l.seen) :
    p.list l = (novel l.seen p.expansion).foldl Listing.add l := by
  have below : ∀ m ∈ p.modules, ∀ l, Done root (sizeOf p) l.seen →
      m.program.list l = (novel l.seen m.program.expansion).foldl Listing.add l :=
    fun m mem _ done =>
      list_eq_novel one m.program (held.trans (.module mem .self)) (sizeOf_program_lt mem) done
  by_cases seen : p.source.name ∈ l.seen
  · -- The program is not large, so it has been printed before with all that it holds.
    have all := (done p held seen).resolve_left (by omega)
    have nothing := novel_eq_nil fun q mem => all q ((mem_expansion p).mp mem)
    rw [list_seen seen, nothing, List.foldl_nil]
  · rw [list_new seen, expansion_eq, novel, if_neg seen, List.foldl_cons]
    exact foldl_list one (fun m mem => held.trans (.module mem .self)) below
      (done.add one held small)
termination_by p
decreasing_by exact sizeOf_program_lt mem

end List

section Listing

/-- The text that is printed for some programs, one after the other. -/
def textOf (ps : List Program) : String :=
  String.join (ps.map fun q => q.node.listing q.source.name ++ "\n")

theorem offered_add {done : List UInt8} (h : l.sink.Offered none done) (ps : List Program) :
    (ps.foldl Listing.add l).sink.Offered none (done ++ Utf8.ofString (textOf ps)) := by
  induction ps generalizing l done with
  | nil => simpa [textOf, Utf8.ofString, Utf8.encode] using h
  | cons p ps ih =>
    have going : l.sink.failed = false := by simpa using h.failed
    have first := Node.offered_printLine h going p.source.name p.node
    have rest := ih (l := l.add p) first
    have text : textOf (p :: ps) = p.node.listing p.source.name ++ "\n" ++ textOf ps :=
      String.join_cons
    rwa [List.append_assoc, ← Utf8.ofString_append, ← text] at rest

/-- A program whose printing comes down to some programs is listed as those. -/
theorem listing_of_list
    (printed : p.list ⟨.unbounded, []⟩ = ps.foldl Listing.add ⟨.unbounded, []⟩) :
    (p.printAll .unbounded).bytes = Utf8.ofString (textOf ps) ∧ p.listing = textOf ps := by
  have offered := @offered_add ⟨.unbounded, []⟩ [] Sink.offered_unbounded ps
  have bytes : (p.printAll .unbounded).bytes = Utf8.ofString (textOf ps) := by
    rw [printAll, printed]
    exact offered.bytes
  refine ⟨bytes, ?_⟩
  rw [listing, bytes, Utf8.toStringLossy, Utf8.ofString, Utf8.decodeLossy_encode,
    String.ofList_toList]

end Listing

/-- What a listing shows if it is complete: the programs whose names occur for the first time among
all that a program holds, in that order; each of those that it holds is there, once, and no
other. -/
structure ListsEachOnce (p : Program) : Prop where
  bytes : (p.printAll .unbounded).bytes = Utf8.ofString (textOf (novel [] p.expansion))
  text : p.listing = textOf (novel [] p.expansion)
  names : ((novel [] p.expansion).map (·.source.name)).Nodup
  complete : ∀ q, q ∈ novel [] p.expansion ↔ p.Holds q

theorem OneNamed.listsEachOnce (one : p.OneNamed) : p.ListsEachOnce := by
  have printed : p.list ⟨.unbounded, []⟩ =
      (novel [] p.expansion).foldl Listing.add ⟨.unbounded, []⟩ :=
    list_eq_novel one p .self (Nat.lt_succ_self _) .nil
  obtain ⟨bytes, text⟩ := listing_of_list printed
  refine ⟨bytes, text, (nodup_novel _ _).1, fun q => ⟨fun mem => ?_, fun held => ?_⟩⟩
  · exact (mem_expansion p).mp (novel_subset _ _ mem)
  · have seen := (mem_seen_novel ⟨.unbounded, []⟩ p.expansion).mpr
      (.inr ⟨q, (mem_expansion p).mpr held, rfl⟩)
    obtain none | ⟨r, mem, same⟩ := (mem_seen_foldl _ _).mp seen
    · cases none
    · have reached := (mem_expansion p).mp (novel_subset _ _ mem)
      exact one r q reached held same ▸ mem

end Frontend.Program
