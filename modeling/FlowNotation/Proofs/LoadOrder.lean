import FlowNotation.Proofs.Loads
import FlowNotation.Proofs.SourceNames

/-! The order of a load. A load reads the source files below a directory in the order of their paths,
each once, and so the file of the greatest path settles what stays under a code. -/
namespace FlowNotation

namespace FileTree

structure IsGreatestOf (t : FileTree) (paths : List Path) (code : Text) (p : Path) (text : String)
    (n : Notation) : Prop where
  -- of the files listed, `p` has the greatest path among those that give a notation of a code;
  -- `text` and `n` are what it gives
  mem : p ∈ paths
  readSource_eq : t.readSource p = .ok text
  parse_eq : (Notation.parse text).result = .ok n
  code_eq : n.code = code
  greatest : ∀ q ∈ paths, ∀ text m, t.readNotation q = .ok (text, m) → m.code = code → q ≤ p

def LacksCode (t : FileTree) (paths : List Path) (code : Text) : Prop :=
  ∀ p ∈ paths, ∀ text n, t.readNotation p = .ok (text, n) → n.code ≠ code

section Sources

variable (t : FileTree) (root : Path) (recursive : Bool)

theorem isFileBelow_direct_iff (p : Path) :
    t.IsFileBelow root false p ↔ t.IsFileBelow root true p ∧ p.dropLast = root := by
  have hdirect : ∀ rest : Path, rest ≠ [] → ((root ++ rest).dropLast = root ↔ rest.length = 1) := by
    intro rest hrest
    rw [List.dropLast_append_of_ne_nil hrest, List.append_right_eq_self, ← List.length_eq_zero_iff,
      List.length_dropLast]
    have hpos := List.length_pos_iff.mpr hrest
    omega
  constructor
  · rintro ⟨hroot, place, rest, bytes, hplace, rfl, hrest, hfile, hdepth⟩
    have hlength : rest.length = 1 := hdepth.resolve_left Bool.false_ne_true
    exact ⟨⟨hroot, place, rest, bytes, hplace, rfl, hrest, hfile, .inl rfl⟩,
      (hdirect rest hrest).mpr hlength⟩
  · rintro ⟨⟨hroot, place, rest, bytes, hplace, rfl, hrest, hfile, _⟩, hparent⟩
    exact ⟨hroot, place, rest, bytes, hplace, rfl, hrest, hfile,
      .inr ((hdirect rest hrest).mp hparent)⟩

theorem ascending_sources : (t.sources root recursive).Pairwise fun p q => p < q :=
  (t.ascending_filesBelow root recursive).filter _

/-- The sources are the files below the directory that have the name of a source. -/
theorem mem_sources_iff (hroot : t.isDirectory root = true) (p : Path) :
    p ∈ t.sources root recursive ↔ t.IsFileBelow root recursive p ∧ IsSourceName p.name := by
  rw [sources, List.mem_filter, t.mem_filesBelow_iff root recursive hroot, p.hasSourceType_iff]

/-- Without recursion the sources are those that stand in the directory itself. -/
theorem sources_direct (hroot : t.isDirectory root = true) :
    t.sources root false = (t.sources root true).filter fun p => p.dropLast = root := by
  apply Path.eq_of_ascending _ _ (t.ascending_sources root false)
    ((t.ascending_sources root true).filter _)
  intro p
  rw [List.mem_filter, t.mem_sources_iff root false hroot, t.mem_sources_iff root true hroot,
    t.isFileBelow_direct_iff, decide_eq_true_iff]
  exact and_right_comm

end Sources

/-! ## The last registration -/

section Last

variable {t : FileTree} {paths : List Path} {read : List (String × Notation)} (code : Text)

theorem IsGreatestOf.cons {p q : Path} {text : String} {n : Notation}
    (h : t.IsGreatestOf paths code p text n) (hq : q ≤ p) :
    t.IsGreatestOf (q :: paths) code p text n where
  mem := List.mem_cons_of_mem q h.mem
  readSource_eq := h.readSource_eq
  parse_eq := h.parse_eq
  code_eq := h.code_eq
  greatest := by
    intro q' hq' text' m hm hcode
    rcases List.mem_cons.mp hq' with rfl | hq'
    · exact hq
    · exact h.greatest q' hq' text' m hm hcode

/-- Of files in the order of their paths, the last registration under a code comes from the file of the
greatest path. -/
theorem ReadsAs.last?_cases (hpaths : paths.Pairwise fun p q => p < q) (h : t.ReadsAs paths read) :
    (∃ p text n, t.IsGreatestOf paths code p text n ∧
      Registration.last? (Catalog.registrations read) code = some (.loaded text n)) ∨
    t.LacksCode paths code ∧ Registration.last? (Catalog.registrations read) code = none := by
  -- from the front: a later file of the same code has the greater path
  induction h with
  | nil => exact .inr ⟨fun _ hp => absurd hp List.not_mem_nil, rfl⟩
  | @cons p r paths read hr _ ih =>
    obtain ⟨text, n⟩ := r
    obtain ⟨hp, hpaths⟩ := List.pairwise_cons.mp hpaths
    have hstep := Registration.last?_cons (.loaded text n) (Catalog.registrations read) code
    rcases ih hpaths with ⟨q, text', n', hq, hlast⟩ | ⟨hlacks, hlast⟩
    · rw [hlast] at hstep
      exact .inl ⟨q, text', n', hq.cons code (hp q hq.mem).le, hstep⟩
    · rw [hlast] at hstep
      by_cases hcode : n.code = code
      · obtain ⟨hsource, hparse⟩ := (t.readNotation_eq_ok_iff p text n).mp hr
        refine .inl ⟨p, text, n, ⟨List.mem_cons_self, hsource, hparse, hcode, ?_⟩, ?_⟩
        · intro q hq text' m hm hcode'
          rcases List.mem_cons.mp hq with rfl | hq
          · exact le_refl q
          · exact absurd hcode' (hlacks q hq text' m hm)
        · exact hstep.trans (if_pos hcode)
      · refine .inr ⟨?_, hstep.trans (if_neg hcode)⟩
        intro q hq text' m hm
        rcases List.mem_cons.mp hq with rfl | hq
        · cases hr.symm.trans hm
          exact hcode
        · exact hlacks q hq text' m hm

end Last
end FileTree

namespace Catalog

variable (c : Catalog) (t : FileTree) (root : Path) (recursive : Bool)

/-- A load that succeeds has read all source files of its directory and registered them in order. -/
theorem exists_readsAs_of_load (hroot : t.isDirectory root = true) (ns : List Notation) (d : Catalog)
    (h : c.load t root recursive = (.ok ns, d)) :
    ∃ read, t.ReadsAs (t.sources root recursive) read ∧ ns = read.map Prod.snd ∧
      d = c.addAll (registrations read) := by
  rw [c.load_of_isDirectory t root recursive hroot] at h
  split at h
  · next hnil =>
    cases h
    exact ⟨[], hnil ▸ .nil, rfl, rfl⟩
  · split at h
    · cases h
    · split at h
      · cases h
      · next read hread =>
        cases h
        exact ⟨read, (readAll_eq_ok_iff t _ read).mp hread, rfl, rfl⟩

/-- A load reads each source file below its directory once, in the order of their paths, and one that is
not recursive reads those among them that stand directly in the directory. So what it leaves under a code
comes from the file of the greatest path. -/
theorem load_takes_greatest_path (hroot : t.isDirectory root = true) :
    (∀ recursive, (t.sources root recursive).Pairwise (fun p q => p < q) ∧
      ∀ p, p ∈ t.sources root recursive ↔ t.IsFileBelow root recursive p ∧ IsSourceName p.name) ∧
    t.sources root false = (t.sources root true).filter (fun p => p.dropLast = root) ∧
    ∀ recursive ns d, c.load t root recursive = (.ok ns, d) →
      ∃ read, t.ReadsAs (t.sources root recursive) read ∧ ns = read.map Prod.snd ∧
        ∀ code, (∃ p text n, t.IsGreatestOf (t.sources root recursive) code p text n ∧
            d.get? code = some n ∧ d.source? code = some text) ∨
          t.LacksCode (t.sources root recursive) code ∧
            d.get? code = c.get? code ∧ d.source? code = c.source? code := by
  refine ⟨?_, t.sources_direct root hroot, ?_⟩
  · intro recursive
    exact ⟨t.ascending_sources root recursive, t.mem_sources_iff root recursive hroot⟩
  · intro recursive ns d h
    obtain ⟨read, hread, hns, rfl⟩ := c.exists_readsAs_of_load t root recursive hroot ns d h
    have hextends := c.extends_addAll (registrations read)
    refine ⟨read, hread, hns, ?_⟩
    intro code
    have hget := hextends.get?_eq code
    have hsource := hextends.source?_eq code
    rcases hread.last?_cases code (t.ascending_sources root recursive) with
      ⟨p, text, n, hp, hlast⟩ | ⟨hlacks, hlast⟩
    · rw [hlast] at hget hsource
      exact .inl ⟨p, text, n, hp, hget, hsource⟩
    · rw [hlast] at hget hsource
      exact .inr ⟨hlacks, hget, hsource⟩

end Catalog

/-! ## Two intakes

Part by part the revised intake comes after the one in the directory `a`, although as strings their
paths stand the other way round. -/

def revisedLines : List String :=
  ["code: intake\n", "title: Revised intake\n", "flow:\n", "  BEGIN:\n", "    _: END\n"]

def revised : Notation := ⟨⟨"intake", "Revised intake", none, .org⟩, none, ⟨.finish, .empty⟩, none⟩

def revisionTree : FileTree where
  entries.entries := [(["forms"], .directory), (["forms", "a.yml"], .file (bytesOf revisedLines)),
    (["forms", "a"], .directory), (["forms", "a", "b.YAML"], .file (bytesOf intakeLines)),
    (["forms", "a", "b.yaml.txt"], .file [0xFF]), (["forms", "old.yml"], .directory)]
  entries.nodup := by decide +kernel

def revisionPaths : List Path := [["forms", "a", "b.YAML"], ["forms", "a.yml"]]

theorem sources_revisionTree : revisionTree.sources ["forms"] true = revisionPaths := by
  have hroot : revisionTree.isDirectory ["forms"] = true := by decide +kernel
  have hs : revisionTree.SourceOrder ["forms"] true (revisionTree.sources ["forms"] true) :=
    (revisionTree.sourceOrder_iff ["forms"] true _).mpr (if_pos hroot).symm
  exact hs.eq_of_entries hroot ["forms"] (by decide +kernel) revisionPaths (by decide +kernel)
    (by decide +kernel)

theorem readNotation_revised : revisionTree.readNotation ["forms", "a.yml"] =
    .ok (String.join revisedLines, revised) := by
  have hparse : (Notation.parse (String.join revisedLines)).result = .ok revised := by
    rw [Notation.parse, Yaml.decode_join]
    decide +kernel
  exact revisionTree.readNotation_join _ (by decide +kernel) revisedLines (by decide +kernel)
    (by decide +kernel) hparse

/-- The revised intake stays, and the one that was read before it is gone. -/
theorem load_takes_greatest_path_revised :
    revisionTree.isDirectory ["forms"] = true ∧
      "forms/a.yml" < "forms/a/b.YAML" ∧
      ∃ d, (Catalog.mk .empty .empty 2).load revisionTree ["forms"] true = (.ok [intake, revised], d) ∧
        d.get? "intake" = some revised ∧ d.source? "intake" = some (String.join revisedLines) := by
  have hroot : revisionTree.isDirectory ["forms"] = true := by decide +kernel
  have hintake : revisionTree.readNotation ["forms", "a", "b.YAML"] = .ok (intakeSource, intake) :=
    readNotation_of_intakeLines revisionTree _ (by decide +kernel) (by decide +kernel)
  have hread : Catalog.readAll revisionTree revisionPaths =
      .ok [(intakeSource, intake), (String.join revisedLines, revised)] :=
    (Catalog.readAll_eq_ok_iff _ _ _).mpr (.cons hintake (.cons readNotation_revised .nil))
  obtain ⟨d, hload⟩ : ∃ d, (Catalog.mk .empty .empty 2).load revisionTree ["forms"] true =
      (.ok [intake, revised], d) := by
    rw [Catalog.load_of_isDirectory _ _ _ _ hroot, sources_revisionTree, hread]
    exact ⟨_, rfl⟩
  refine ⟨hroot, by decide +kernel, d, hload, ?_⟩
  obtain ⟨-, -, hloads⟩ :=
    Catalog.load_takes_greatest_path (Catalog.mk .empty .empty 2) revisionTree ["forms"] hroot
  obtain ⟨_, -, -, hcodes⟩ := hloads true _ _ hload
  rw [sources_revisionTree] at hcodes
  rcases hcodes "intake" with ⟨p, text, n, hp, hget, hsource⟩ | ⟨hlacks, -, -⟩
  · have hle : ["forms", "a.yml"] ≤ p := hp.greatest _ (by decide +kernel) _ _ readNotation_revised rfl
    have hnotation := (revisionTree.readNotation_eq_ok_iff p text n).mpr ⟨hp.readSource_eq, hp.parse_eq⟩
    rcases List.mem_pair.mp hp.mem with rfl | rfl
    · exact absurd hle (by decide +kernel)
    · cases readNotation_revised.symm.trans hnotation
      exact ⟨hget, hsource⟩
  · exact absurd rfl (hlacks _ (by decide +kernel) _ _ readNotation_revised)

end FlowNotation
