import FlowNotation.Proofs.Fields

/-! Documents as a source spells them. What is spelled is said in terms of shapes and of the numbers
that texts spell; the main statement says that exactly this is read. -/
namespace FlowNotation
open Yaml (Tree)

def Yaml.Tree.SpellsCoordinate (raw : Tree) : Prop :=
  ∃ s d, raw = .text s ∧ Text.readDecimal s = some d ∧ (Binary64.ofDecimal d).isFinite = true

def cornerNames : List String := ["upper_left", "lower_left", "upper_right", "lower_right"]

structure Fields.SpellsPlacement (fs : Fields) : Prop where
  -- a page is counted from one; a corner of any shape but a list of two says nothing
  page : Blank (fs.get? "page") ∨
    ∃ s n, fs.get? "page" = some (.text s) ∧ Text.readInteger s = .ok n ∧ 1 ≤ n
  corner : ∀ name ∈ cornerNames, ∀ a b, fs.get? name = some (.list [a, b]) →
    a.SpellsCoordinate ∧ b.SpellsCoordinate

def Yaml.Tree.SpellsPlacement (raw : Tree) : Prop :=
  Blank (some raw) ∨ ∃ entry : Fields, raw = .map entry.pairs ∧ entry.SpellsPlacement

def Fields.LacksDocument (fs : Fields) : Prop :=
  Blank (fs.get? "document_url") ∧ Blank (fs.get? "document_type") ∧
    Blank (fs.get? "document_mappings")

structure Fields.SpellsDocument (fs : Fields) : Prop where
  url : Blank (fs.get? "document_url") ∨ ∃ s, fs.get? "document_url" = some (.text s)
  type : Blank (fs.get? "document_type") ∨ fs.get? "document_type" = some (.text "pdf") ∨
    fs.get? "document_type" = some (.text "markdown")
  mappings : Blank (fs.get? "document_mappings") ∨
    ∃ ms : Fields, fs.get? "document_mappings" = some (.map ms.pairs) ∧
      ∀ field raw, ms.get? field = some raw → raw.SpellsPlacement

/-! ## Which documents are read -/

/-- A page is missing or a whole number from 1 on. -/
theorem pageOf_eq_ok_iff (place : Text) (raw : Option Tree) (page : Option Nat) :
    pageOf place raw = .ok page ↔
      (raw = none ∧ page = none) ∨
        ∃ s n, raw = some (.text s) ∧ Text.readInteger s = .ok n ∧ 1 ≤ n ∧ page = some n.toNat := by
  cases raw with
  | none => simp [pageOf, eq_comm]
  | some t =>
    cases t with
    | text s =>
      cases hs : Text.readInteger s with
      | error e => simp [pageOf, hs, Except.toOption]
      | ok n =>
        by_cases hn : n < 1
        · have hle : ¬ 1 ≤ n := by omega
          simp [pageOf, hs, Except.toOption, hn, hle]
        · have hle : 1 ≤ n := by omega
          simp [pageOf, hs, Except.toOption, hn, hle, eq_comm]
    | null | list | map => simp [pageOf]

/-- What can be read as a page: a blank, or the text of a whole number from 1 on. -/
theorem exists_page_iff (place : Text) (fs : Fields) :
    (∃ page, pageOf place (fs.value? "page") = .ok page) ↔
      Blank (fs.get? "page") ∨
        ∃ s n, fs.get? "page" = some (.text s) ∧ Text.readInteger s = .ok n ∧ 1 ≤ n := by
  simp only [pageOf_eq_ok_iff, Fields.value?_eq_none_iff, Fields.value?_eq_some_iff]
  constructor
  · intro h
    obtain ⟨page, ⟨hblank, _⟩ | ⟨s, n, ⟨hget, _⟩, hs, hn, _⟩⟩ := h
    · exact Or.inl hblank
    · exact Or.inr ⟨s, n, hget, hs, hn⟩
  · intro h
    by_cases hblank : Blank (fs.get? "page")
    · exact ⟨none, Or.inl ⟨hblank, rfl⟩⟩
    · obtain ⟨s, n, hget, hs, hn⟩ := h.resolve_left hblank
      exact ⟨some n.toNat, Or.inr ⟨s, n, ⟨hget, hblank⟩, hs, hn, rfl⟩⟩

theorem coordinate?_eq_some_iff (raw : Tree) (x : Binary64) :
    coordinate? raw = some x ↔
      ∃ s d, raw = .text s ∧ Text.readDecimal s = some d ∧ Binary64.ofDecimal d = x := by
  cases raw with
  | text s => simp [coordinate?]
  | null | list | map => simp [coordinate?]

theorem exists_coordinate_iff (raw : Tree) :
    (∃ x, coordinate? raw = some x ∧ x.isFinite = true) ↔ raw.SpellsCoordinate := by
  simp only [coordinate?_eq_some_iff, Yaml.Tree.SpellsCoordinate]
  constructor
  · intro h
    obtain ⟨x, ⟨s, d, hraw, hd, rfl⟩, hx⟩ := h
    exact ⟨s, d, hraw, hd, hx⟩
  · intro h
    obtain ⟨s, d, hraw, hd, hx⟩ := h
    exact ⟨Binary64.ofDecimal d, ⟨s, d, hraw, hd, rfl⟩, hx⟩

/-- A list of two is read as a point if both are finite numbers. -/
theorem pointOf_pair_eq_ok_iff (place : Text) (a b : Tree) (p : Option Point) :
    pointOf place (some (.list [a, b])) = .ok p ↔
      ∃ x y, (coordinate? a = some x ∧ x.isFinite = true) ∧
        (coordinate? b = some y ∧ y.isFinite = true) ∧ p = some ⟨x, y⟩ := by
  constructor
  · intro h
    simp only [pointOf] at h
    split at h
    · next x y hx hy =>
      split_ifs at h with hfinite
      obtain ⟨hfx, hfy⟩ := Bool.and_eq_true_iff.mp hfinite
      cases h
      exact ⟨x, y, ⟨hx, hfx⟩, ⟨hy, hfy⟩, rfl⟩
    · cases h
  · intro h
    obtain ⟨x, y, ⟨hx, hfx⟩, ⟨hy, hfy⟩, rfl⟩ := h
    simp only [pointOf, hx, hy, hfx, hfy, Bool.and_self, if_true]

theorem pointOf_of_not_pair (place : Text) (raw : Option Tree)
    (h : ∀ a b, raw ≠ some (.list [a, b])) : pointOf place raw = .ok none := by
  unfold pointOf
  split
  · next a b => exact absurd rfl (h a b)
  · rfl

/-- A point is read when a pair of texts, if it is one, has two coordinates. -/
theorem exists_point_iff (place : Text) (raw : Option Tree) :
    (∃ p, pointOf place raw = .ok p) ↔
      ∀ a b, raw = some (.list [a, b]) → a.SpellsCoordinate ∧ b.SpellsCoordinate := by
  by_cases hpair : ∃ a b, raw = some (.list [a, b])
  · obtain ⟨a, b, rfl⟩ := hpair
    simp only [pointOf_pair_eq_ok_iff, ← exists_coordinate_iff, Option.some.injEq,
      Yaml.Tree.list.injEq, List.cons.injEq, and_true]
    constructor
    · intro h a' b' hab
      obtain ⟨p, x, y, hx, hy, _⟩ := h
      obtain ⟨rfl, rfl⟩ := hab
      exact ⟨⟨x, hx⟩, y, hy⟩
    · intro h
      obtain ⟨⟨x, hx⟩, y, hy⟩ := h a b ⟨rfl, rfl⟩
      exact ⟨some ⟨x, y⟩, x, y, hx, hy, rfl⟩
  · have hraw : ∀ a b, raw ≠ some (.list [a, b]) := fun a b h => hpair ⟨a, b, h⟩
    constructor
    · intro _ a b h
      exact absurd h (hraw a b)
    · intro _
      exact ⟨none, pointOf_of_not_pair place raw hraw⟩

/-- A region is refused only for its corners, each of which is read whatever the others are. -/
theorem exists_quad_iff (place : Text) (fs : Fields) :
    (∃ q, quadOf place fs = .ok q) ↔
      ∀ name ∈ cornerNames, ∀ a b, fs.get? name = some (.list [a, b]) →
        a.SpellsCoordinate ∧ b.SpellsCoordinate := by
  simp only [quadOf, bind_eq_ok_iff]
  constructor
  · intro h
    obtain ⟨_, p, hp, q, hq, r, hr, t, ht, _⟩ := h
    simp only [cornerNames, List.forall_mem_cons, List.not_mem_nil, false_implies, implies_true,
      and_true]
    exact ⟨(exists_point_iff _ _).mp ⟨p, hp⟩, (exists_point_iff _ _).mp ⟨q, hq⟩,
      (exists_point_iff _ _).mp ⟨r, hr⟩, (exists_point_iff _ _).mp ⟨t, ht⟩⟩
  · intro h
    have hcorner : ∀ name ∈ cornerNames, ∃ p, pointOf (place ++ "." ++ name) (fs.get? name) = .ok p :=
      fun name hname => (exists_point_iff _ _).mpr (h name hname)
    simp only [cornerNames, List.forall_mem_cons, List.not_mem_nil, false_implies, implies_true,
      and_true] at hcorner
    obtain ⟨⟨p, hp⟩, ⟨q, hq⟩, ⟨r, hr⟩, t, ht⟩ := hcorner
    cases p <;> cases q <;> cases r <;> cases t <;> exact ⟨_, _, hp, _, hq, _, hr, _, ht, rfl⟩

theorem spellsPlacement_empty : Fields.SpellsPlacement .empty := by
  refine ⟨Or.inl (Or.inl rfl), ?_⟩
  intro name _ a b h
  cases h

/-- Of the fields of a placement only the page and the corners are read. -/
theorem exists_placement_ofFields_iff (place : Text) (fs : Fields) :
    (∃ p : Placement, (do return ⟨← pageOf (place ++ ".page") (fs.value? "page"),
      ← quadOf place fs⟩) = Except.ok p) ↔ fs.SpellsPlacement := by
  simp only [bind_eq_ok_iff]
  constructor
  · intro h
    obtain ⟨_, page, hpage, quad, hquad, _⟩ := h
    exact ⟨(exists_page_iff _ fs).mp ⟨page, hpage⟩, (exists_quad_iff place fs).mp ⟨quad, hquad⟩⟩
  · intro h
    obtain ⟨page, hpage⟩ := (exists_page_iff (place ++ ".page") fs).mpr h.page
    obtain ⟨quad, hquad⟩ := (exists_quad_iff place fs).mpr h.corner
    exact ⟨⟨page, quad⟩, page, hpage, quad, hquad, rfl⟩

/-- A placement is read when the grammar spells one. -/
theorem exists_placement_iff (field : Text) (raw : Tree) :
    (∃ p, Placement.ofTree field raw = .ok p) ↔ raw.SpellsPlacement := by
  have hfields := exists_placement_ofFields_iff ("document_mappings." ++ field)
  unfold Placement.ofTree
  cases hblank : raw.isBlank with
  | true =>
    constructor
    · intro _
      exact Or.inl ((isBlank_iff raw).mp hblank)
    · intro _
      exact (hfields .empty).mpr spellsPlacement_empty
  | false =>
    have hno : ¬ Blank (some raw) := by
      rw [← isBlank_iff, hblank]
      exact Bool.false_ne_true
    simp only [Yaml.Tree.SpellsPlacement, hno, false_or]
    split
    · next h => cases h
    · split
      · next pairs =>
        constructor
        · intro h
          obtain ⟨p, h⟩ := h
          obtain ⟨fs, hfs, h⟩ := (bind_eq_ok_iff _ _ _).mp h
          rw [Fields.ofPairs_eq_ok_iff] at hfs
          exact ⟨fs, congrArg _ hfs, (hfields fs).mp ⟨p, h⟩⟩
        · intro h
          obtain ⟨fs, hmap, hfs⟩ := h
          obtain ⟨p, hp⟩ := (hfields fs).mpr hfs
          refine ⟨p, (bind_eq_ok_iff _ _ _).mpr ⟨fs, ?_, hp⟩⟩
          exact (Fields.ofPairs_eq_ok_iff _ _ fs).mpr (Yaml.Tree.map.inj hmap)
      · next hmap =>
        constructor
        · intro h
          obtain ⟨p, h⟩ := h
          cases h
        · intro h
          obtain ⟨fs, h, _⟩ := h
          exact absurd h (hmap _)

/-- All placements are read when each of them is. -/
theorem exists_placements_iff (raw : Option Tree) :
    (∃ t, placementsOf raw = .ok t) ↔
      raw = none ∨ ∃ ms : Fields, raw = some (.map ms.pairs) ∧
        ∀ field raw, ms.get? field = some raw → raw.SpellsPlacement := by
  unfold placementsOf
  split
  · simp
  · next pairs =>
    simp only [bind_eq_ok_iff, Table.mapValuesM, mapM_eq_ok_iff, Fields.ofPairs_eq_ok_iff,
      Option.some.injEq, Yaml.Tree.map.injEq, reduceCtorEq, false_or]
    constructor
    · intro h
      obtain ⟨_, fs, hpairs, ps, hps, _⟩ := h
      refine ⟨fs, hpairs, ?_⟩
      intro field raw hget
      rw [← exists_placement_iff field]
      exact (exists_forall₂_iff _ _).mp ⟨ps, hps⟩ (field, raw) ((fs.get?_eq_some_iff _ _).mp hget)
    · intro h
      obtain ⟨fs, hpairs, hall⟩ := h
      have hps : ∃ ps, List.Forall₂ (fun e p => Placement.ofTree e.1 e.2 = .ok p) fs.entries ps := by
        rw [exists_forall₂_iff]
        intro e he
        rw [exists_placement_iff]
        exact hall e.1 e.2 ((fs.get?_eq_some_iff _ _).mpr he)
      obtain ⟨ps, hps⟩ := hps
      exact ⟨_, fs, hpairs, ps, hps, rfl⟩
  · next raw hmap =>
    constructor
    · intro h
      obtain ⟨t, h⟩ := h
      cases h
    · intro h
      rcases h with h | ⟨ms, h, _⟩
      · cases h
      · exact absurd (Option.some.inj h) (hmap _)

theorem DocumentType.ofName?_eq_some_iff (s : Text) (t : DocumentType) :
    DocumentType.ofName? s = some t ↔ s = Text.ofString t.name := by
  constructor
  · intro h
    simpa [eq_comm] using List.find?_some h
  · rintro rfl
    cases t <;> decide

/-- A blank type is a PDF; any other one is written by its name. -/
theorem documentType_eq_ok_iff (fs : Fields) (t : DocumentType) :
    (fs.text? "document_type" >>= documentTypeOf) = .ok t ↔
      (Blank (fs.get? "document_type") ∧ t = .pdf) ∨
        fs.get? "document_type" = some (.text (Text.ofString t.name)) := by
  refine Fields.named_eq_ok_iff documentTypeOf DocumentType.ofName? DocumentType.name .pdf
    (fun s => .invalid "document_type" (.unsupported s)) rfl ?_ DocumentType.ofName?_eq_some_iff
    ?_ fs _ t
  · intro s
    cases h : DocumentType.ofName? s <;> simp [documentTypeOf, h]
  · intro t
    cases t <;> decide

theorem exists_documentType_iff (fs : Fields) :
    (∃ t, (fs.text? "document_type" >>= documentTypeOf) = .ok t) ↔
      Blank (fs.get? "document_type") ∨ fs.get? "document_type" = some (.text "pdf") ∨
        fs.get? "document_type" = some (.text "markdown") := by
  simp only [documentType_eq_ok_iff, Fields.exists_named_iff]
  refine or_congr_right ?_
  constructor
  · intro h
    obtain ⟨_ | _, hget⟩ := h
    · exact Or.inl hget
    · exact Or.inr hget
  · intro h
    rcases h with hget | hget
    · exact ⟨.pdf, hget⟩
    · exact ⟨.markdown, hget⟩

theorem exists_mappings_iff (fs : Fields) :
    (∃ ms, placementsOf (fs.value? "document_mappings") = .ok ms) ↔
      Blank (fs.get? "document_mappings") ∨
        ∃ ms : Fields, fs.get? "document_mappings" = some (.map ms.pairs) ∧
          ∀ field raw, ms.get? field = some raw → raw.SpellsPlacement := by
  rw [exists_placements_iff, Fields.value?_eq_none_iff]
  refine or_congr_right (exists_congr fun ms => and_congr_left fun _ => ?_)
  rw [Fields.value?_eq_some_iff]
  refine and_iff_left_of_imp fun hget => ?_
  rw [hget]
  exact not_blank_map _

theorem all_isNone_iff_lacksDocument (fs : Fields) :
    (["document_url", "document_type", "document_mappings"].all fun k =>
      (fs.value? k).isNone) = true ↔ fs.LacksDocument := by
  simp [Fields.value?_eq_none_iff, Fields.LacksDocument]

theorem Document.ofFields_of_lacksDocument (fs : Fields) (h : fs.LacksDocument) :
    Document.ofFields fs = .ok none := by
  rw [ofFields, if_pos ((all_isNone_iff_lacksDocument fs).mpr h)]
  rfl

/-- The fields of a document are all blank, or each is read on its own. -/
theorem exists_document_iff (fs : Fields) :
    (∃ d, Document.ofFields fs = .ok d) ↔ fs.LacksDocument ∨ fs.SpellsDocument := by
  by_cases hlacks : fs.LacksDocument
  · constructor
    · intro _
      exact Or.inl hlacks
    · intro _
      exact ⟨none, Document.ofFields_of_lacksDocument fs hlacks⟩
  · rw [or_iff_right hlacks]
    simp only [Document.ofFields, all_isNone_iff_lacksDocument, hlacks, if_false, bind_eq_ok_iff,
      Fields.text?_eq_ok_iff]
    constructor
    · intro h
      obtain ⟨_, s, hs, type, htype, ms, hms, url, hurl, _⟩ := h
      have htype : (fs.text? "document_type" >>= documentTypeOf) = .ok type :=
        (bind_eq_ok_iff _ _ _).mpr ⟨s, (fs.text?_eq_ok_iff _ s).mpr hs, htype⟩
      exact ⟨(Fields.exists_writesText_iff _).mp ⟨url, hurl⟩,
        (exists_documentType_iff fs).mp ⟨type, htype⟩, (exists_mappings_iff fs).mp ⟨ms, hms⟩⟩
    · intro h
      obtain ⟨url, hurl⟩ := (Fields.exists_writesText_iff _).mpr h.url
      obtain ⟨type, htype⟩ := (exists_documentType_iff fs).mpr h.type
      obtain ⟨ms, hms⟩ := (exists_mappings_iff fs).mpr h.mappings
      obtain ⟨s, hs, htype⟩ := (bind_eq_ok_iff _ _ _).mp htype
      exact ⟨_, s, (fs.text?_eq_ok_iff _ s).mp hs, type, htype, ms, hms, url, hurl, rfl⟩

end FlowNotation
