import FlowNotation.Catalog
import FlowNotation.Proofs.Ordering

/-! The source files of a directory. A load reads exactly the files below the directory whose names
end as those of sources do, each once, in the order of their paths. -/
namespace FlowNotation.FileTree

def IsFileBelow (t : FileTree) (root : Path) (recursive : Bool) (p : Path) : Prop :=
  -- a file below the directory `root`, at any depth or directly in it
  t.isDirectory root = true ∧ ∃ place rest bytes, t.resolve root = .ok place ∧ p = root ++ rest ∧
    rest ≠ [] ∧ t.entries.get? (place ++ rest) = some (.file bytes) ∧
    (recursive = true ∨ rest.length = 1)

structure SourceOrder (t : FileTree) (root : Path) (recursive : Bool) (paths : List Path) :
    Prop where
  ascending : paths.Pairwise fun p q => p < q
  mem_iff : ∀ p, p ∈ paths ↔ t.IsFileBelow root recursive p ∧ p.hasSourceType = true

variable (t : FileTree) (root : Path) (recursive : Bool)

/-- An entry gives the path of a file below `root` just if it is a file below the place where `root`
stands. -/
theorem below?_eq_some_iff (place : Path) (e : Path × FileEntry) (p : Path) :
    below? place root recursive e = some p ↔ ∃ rest bytes, e = (place ++ rest, .file bytes) ∧
      rest ≠ [] ∧ (recursive = true ∨ rest.length = 1) ∧ p = root ++ rest := by
  obtain ⟨q, e⟩ := e
  cases e with
  | directory => simp [below?]
  | file bytes =>
    simp only [below?, Bool.and_eq_true, List.isPrefixOf_iff_prefix, Bool.or_eq_true,
      decide_eq_true_eq, Option.ite_none_right_eq_some, Option.some.injEq, Prod.mk.injEq]
    constructor
    · rintro ⟨⟨⟨⟨rest, rfl⟩, hne⟩, hdepth⟩, hp⟩
      rw [List.drop_left] at hne hdepth hp
      exact ⟨rest, bytes, ⟨rfl, rfl⟩, hne, hdepth, hp.symm⟩
    · rintro ⟨rest, b, ⟨rfl, hb⟩, hne, hdepth, rfl⟩
      rw [List.drop_left]
      exact ⟨⟨⟨List.prefix_append place rest, hne⟩, hdepth⟩, rfl⟩

theorem mem_filesBelow_iff (hroot : t.isDirectory root = true) (p : Path) :
    p ∈ t.filesBelow root recursive ↔ t.IsFileBelow root recursive p := by
  rw [IsFileBelow, and_iff_right hroot, filesBelow]
  cases t.resolve root with
  | error e => simp
  | ok place =>
    dsimp only
    rw [List.mem_mergeSort, List.mem_filterMap]
    simp only [below?_eq_some_iff]
    constructor
    · rintro ⟨e, he, rest, bytes, rfl, hne, hdepth, rfl⟩
      exact ⟨place, rest, bytes, rfl, rfl, hne, (Table.get?_eq_some_iff _ _ _).mpr he, hdepth⟩
    · rintro ⟨place', rest, bytes, h', rfl, hne, hget, hdepth⟩
      obtain rfl : place = place' := Except.ok.inj h'
      exact ⟨_, (Table.get?_eq_some_iff _ _ _).mp hget, rest, bytes, rfl, hne, hdepth, rfl⟩

/-- The entries of a tree have distinct paths, so no file is found twice. -/
theorem ascending_filesBelow : (t.filesBelow root recursive).Pairwise fun p q => p < q := by
  rw [filesBelow]
  cases t.resolve root with
  | error e => exact .nil
  | ok place =>
    apply Path.ascending_mergeSort
    -- two entries have different paths, and so they differ below their common place
    have hdistinct : t.entries.entries.Pairwise fun e e' => e.1 ≠ e'.1 :=
      List.pairwise_map.mp t.entries.nodup
    apply hdistinct.filterMap
    intro e e' hne p hp p' hp' heq
    obtain ⟨rest, bytes, rfl, _, _, rfl⟩ := (below?_eq_some_iff root recursive place e p).mp hp
    obtain ⟨rest', bytes', rfl, _, _, rfl⟩ := (below?_eq_some_iff root recursive place e' p').mp hp'
    exact hne (congrArg (place ++ ·) (List.append_cancel_left heq))

/-- There is just one order of the source files: that of the files which a load reads. -/
theorem sourceOrder_iff (paths : List Path) :
    t.SourceOrder root recursive paths ↔
      paths = if t.isDirectory root then t.sources root recursive else [] := by
  have hread : t.SourceOrder root recursive
      (if t.isDirectory root then t.sources root recursive else []) := by
    by_cases hroot : t.isDirectory root = true
    · rw [if_pos hroot]
      refine ⟨(t.ascending_filesBelow root recursive).filter _, ?_⟩
      intro p
      rw [sources, List.mem_filter, t.mem_filesBelow_iff root recursive hroot]
    · rw [if_neg hroot]
      exact ⟨.nil, fun p => by simp [IsFileBelow, hroot]⟩
  constructor
  · intro h
    apply Path.eq_of_ascending _ _ h.ascending hread.ascending
    intro p
    rw [h.mem_iff, hread.mem_iff]
  · rintro rfl
    exact hread

theorem exists_sourceOrder : ∃ paths, t.SourceOrder root recursive paths :=
  ⟨_, (t.sourceOrder_iff root recursive _).mpr rfl⟩

/-- The order aside, the source files are those that the entries give. -/
theorem SourceOrder.perm_entries {t : FileTree} {root : Path} {recursive : Bool}
    {paths : List Path} (h : t.SourceOrder root recursive paths)
    (hroot : t.isDirectory root = true) (place : Path) (hplace : t.resolve root = .ok place) :
    paths.Perm ((t.entries.entries.filterMap (below? place root recursive)).filter
      Path.hasSourceType) := by
  rw [t.sourceOrder_iff, if_pos hroot, sources, filesBelow, hplace] at h
  rw [h]
  exact (List.mergeSort_perm _ _).filter _

/-- Paths that ascend are those of the source files if the entries give the same ones. -/
theorem SourceOrder.eq_of_entries {t : FileTree} {root : Path} {recursive : Bool}
    {paths : List Path} (h : t.SourceOrder root recursive paths)
    (hroot : t.isDirectory root = true) (place : Path) (hplace : t.resolve root = .ok place)
    (found : List Path) (hfound : ((t.entries.entries.filterMap
      (below? place root recursive)).filter Path.hasSourceType).Perm found)
    (hascending : found.Pairwise fun p q => p < q) : paths = found := by
  have hperm := (h.perm_entries hroot place hplace).trans hfound
  exact Path.eq_of_ascending paths found h.ascending hascending fun p => hperm.mem_iff

end FlowNotation.FileTree
