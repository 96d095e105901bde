import FlowNotation.Proofs.Presentation
import FlowNotation.Proofs.Documents

/-! What becomes of the document block of a source. Each placement keeps its place, its page and its
quad, and a quad is there if all of its corners are. The main statement says so, and which corners
keep a source from being read: those that are pairs and yet no points. -/
namespace FlowNotation
open Yaml (Tree)

/-! ## What a placement and a document hold -/

def IsPair (raw : Option Tree) : Prop :=
  ∃ a b, raw = some (.list [a, b])

def SpellsPoint (raw : Option Tree) (p : Point) : Prop :=
  ∃ s t d e, raw = some (.list [.text s, .text t]) ∧ Text.readDecimal s = some d ∧
    Text.readDecimal t = some e ∧ p = ⟨Binary64.ofDecimal d, Binary64.ofDecimal e⟩ ∧
    p.x.isFinite = true ∧ p.y.isFinite = true

structure Fields.SpellsQuad (fs : Fields) (q : Quad) : Prop where
  upperLeft : SpellsPoint (fs.get? "upper_left") q.upperLeft
  lowerLeft : SpellsPoint (fs.get? "lower_left") q.lowerLeft
  upperRight : SpellsPoint (fs.get? "upper_right") q.upperRight
  lowerRight : SpellsPoint (fs.get? "lower_right") q.lowerRight

structure Placement.Transcribes (p : Placement) (fs : Fields) : Prop where
  page_eq_none_iff : p.page = none ↔ Blank (fs.get? "page")
  page : ∀ n, p.page = some n →
    1 ≤ n ∧ ∃ s, fs.get? "page" = some (.text s) ∧ Text.readInteger s = .ok (n : Int)
  quad_isSome_iff : p.quad.isSome = true ↔
    ∀ name ∈ cornerNames, IsPair (fs.get? (Text.ofString name))
  quad : ∀ q, p.quad = some q → fs.SpellsQuad q

def Fields.WritesFields (raw : Option Tree) (fs : Fields) : Prop :=
  -- how fields are written that may all be left out
  (Blank raw ∧ fs = .empty) ∨ raw = some (.map fs.pairs)

structure Document.Transcribes (d : Document) (fs : Fields) : Prop where
  -- a document holds what the fields of its source say: the same placements in the same order, each
  -- under its own key
  url : Fields.WritesText (fs.get? "document_url") d.url
  type : (Blank (fs.get? "document_type") ∧ d.type = .pdf) ∨
    fs.get? "document_type" = some (.text (Text.ofString d.type.name))
  mappings : ∃ ms : Fields, Fields.WritesFields (fs.get? "document_mappings") ms ∧
    d.mappings.keys = ms.keys ∧ ∀ field p, d.mappings.get? field = some p →
      ∃ entry : Fields, Fields.WritesFields (ms.get? field) entry ∧ p.Transcribes entry

/-! ## Placements -/

theorem pointOf_eq_ok_some_iff (place : Text) (raw : Option Tree) (p : Point) :
    pointOf place raw = .ok (some p) ↔ SpellsPoint raw p := by
  constructor
  · intro h
    by_cases hpair : IsPair raw
    · obtain ⟨a, b, rfl⟩ := hpair
      obtain ⟨x, y, ⟨hx, hfx⟩, ⟨hy, hfy⟩, hp⟩ := (pointOf_pair_eq_ok_iff place a b (some p)).mp h
      obtain ⟨s, d, rfl, hd, rfl⟩ := (coordinate?_eq_some_iff a x).mp hx
      obtain ⟨t, e, rfl, he, rfl⟩ := (coordinate?_eq_some_iff b y).mp hy
      obtain rfl := Option.some.inj hp
      exact ⟨s, t, d, e, rfl, hd, he, rfl, hfx, hfy⟩
    · have hnone := pointOf_of_not_pair place raw fun a b hraw => hpair ⟨a, b, hraw⟩
      cases hnone.symm.trans h
  · rintro ⟨s, t, d, e, rfl, hd, he, rfl, hfx, hfy⟩
    exact (pointOf_pair_eq_ok_iff place _ _ _).mpr
      ⟨_, _, ⟨(coordinate?_eq_some_iff _ _).mpr ⟨s, d, rfl, hd, rfl⟩, hfx⟩,
        ⟨(coordinate?_eq_some_iff _ _).mpr ⟨t, e, rfl, he, rfl⟩, hfy⟩, rfl⟩

/-- A corner that is read is a point just if it is a pair. -/
theorem isSome_iff_of_pointOf {place : Text} {raw : Option Tree} {p : Option Point}
    (h : pointOf place raw = .ok p) : p.isSome = true ↔ IsPair raw := by
  constructor
  · intro hp
    obtain ⟨p, rfl⟩ := Option.isSome_iff_exists.mp hp
    obtain ⟨s, t, _, _, hraw, _⟩ := (pointOf_eq_ok_some_iff place raw p).mp h
    exact ⟨_, _, hraw⟩
  · rintro ⟨a, b, rfl⟩
    obtain ⟨_, _, _, _, rfl⟩ := (pointOf_pair_eq_ok_iff place a b p).mp h
    rfl

theorem quadOf_eq_ok {place : Text} {fs : Fields} {q : Option Quad}
    (h : quadOf place fs = .ok q) :
    (q.isSome = true ↔ ∀ name ∈ cornerNames, IsPair (fs.get? (Text.ofString name))) ∧
      ∀ quad, q = some quad → fs.SpellsQuad quad := by
  simp only [quadOf, bind_eq_ok_iff] at h
  obtain ⟨a, ha, b, hb, c, hc, d, hd, h⟩ := h
  have hall : (∀ name ∈ cornerNames, IsPair (fs.get? (Text.ofString name))) ↔
      a.isSome = true ∧ b.isSome = true ∧ c.isSome = true ∧ d.isSome = true := by
    rw [isSome_iff_of_pointOf ha, isSome_iff_of_pointOf hb, isSome_iff_of_pointOf hc,
      isSome_iff_of_pointOf hd]
    simp [cornerNames]
  rw [hall]
  split at h
  · next a b c d =>
    cases h
    refine ⟨by simp, ?_⟩
    rintro quad ⟨⟩
    exact ⟨(pointOf_eq_ok_some_iff _ _ _).mp ha, (pointOf_eq_ok_some_iff _ _ _).mp hb,
      (pointOf_eq_ok_some_iff _ _ _).mp hc, (pointOf_eq_ok_some_iff _ _ _).mp hd⟩
  · next hnone =>
    cases h
    constructor
    · constructor
      · rintro ⟨⟩
      · rintro ⟨ha, hb, hc, hd⟩
        obtain ⟨a, rfl⟩ := Option.isSome_iff_exists.mp ha
        obtain ⟨b, rfl⟩ := Option.isSome_iff_exists.mp hb
        obtain ⟨c, rfl⟩ := Option.isSome_iff_exists.mp hc
        obtain ⟨d, rfl⟩ := Option.isSome_iff_exists.mp hd
        exact absurd rfl (hnone a b c d rfl rfl rfl)
    · rintro quad ⟨⟩

theorem Placement.transcribes_of_ofFields {place : Text} {fs : Fields} {p : Placement}
    (h : Placement.ofFields place fs = .ok p) : p.Transcribes fs := by
  simp only [ofFields, bind_eq_ok_iff] at h
  obtain ⟨page, hpage, quad, hquad, h⟩ := h
  cases h
  obtain ⟨hsome, hspells⟩ := quadOf_eq_ok hquad
  rw [pageOf_eq_ok_iff, Fields.value?_eq_none_iff] at hpage
  simp only [Fields.value?_eq_some_iff] at hpage
  rcases hpage with ⟨hblank, rfl⟩ | ⟨s, n, ⟨hget, hno⟩, hn, hle, rfl⟩
  · refine ⟨iff_of_true rfl hblank, ?_, hsome, hspells⟩
    rintro n ⟨⟩
  · refine ⟨iff_of_false (Option.some_ne_none _) hno, ?_, hsome, hspells⟩
    rintro _ ⟨⟩
    have hcast : (n.toNat : Int) = n := Int.toNat_of_nonneg (by omega)
    exact ⟨by omega, s, hget, hcast.symm ▸ hn⟩

theorem Placement.exists_transcribes {field : Text} {raw : Tree} {p : Placement}
    (h : Placement.ofTree field raw = .ok p) :
    ∃ entry : Fields, Fields.WritesFields (some raw) entry ∧ p.Transcribes entry := by
  have hread : ∀ entry : Fields, Written raw entry.pairs → p.Transcribes entry := by
    intro entry hraw
    rw [ofTree_of_written field hraw,
      (Fields.ofPairs_eq_ok_iff _ entry.pairs entry).mpr rfl] at h
    exact transcribes_of_ofFields h
  rcases (exists_placement_iff field raw).mp ⟨p, h⟩ with hblank | ⟨entry, rfl, -⟩
  · exact ⟨.empty, .inl ⟨hblank, rfl⟩, hread .empty (.inl ⟨hblank, rfl⟩)⟩
  · exact ⟨entry, .inr rfl, hread entry (.inr rfl)⟩

theorem placementsOf_eq_ok {raw : Option Tree} {t : Table Text Placement}
    (h : placementsOf raw = .ok t) :
    ∃ ms : Fields, ((raw = none ∧ ms = .empty) ∨ raw = some (.map ms.pairs)) ∧
      ms.Matches (fun field raw p => Placement.ofTree field raw = .ok p) t := by
  unfold placementsOf at h
  split at h
  · cases h
    exact ⟨.empty, .inl ⟨rfl, rfl⟩, .nil⟩
  · next pairs =>
    simp only [bind_eq_ok_iff, Table.mapValuesM, mapM_eq_ok_iff, Fields.ofPairs_eq_ok_iff] at h
    obtain ⟨ms, rfl, ps, hps, h⟩ := h
    cases h
    exact ⟨ms, .inr rfl, ms.matches_withValues ps hps⟩
  · cases h

/-! ## Documents -/

theorem Document.transcribes_of_ofFields {fs : Fields} {d : Option Document}
    (h : Document.ofFields fs = .ok d) :
    (d = none ↔ fs.LacksDocument) ∧ ∀ document, d = some document → document.Transcribes fs := by
  by_cases hlacks : fs.LacksDocument
  · cases (ofFields_of_lacksDocument fs hlacks).symm.trans h
    refine ⟨iff_of_true rfl hlacks, ?_⟩
    rintro document ⟨⟩
  · simp only [ofFields, all_isNone_iff_lacksDocument, hlacks, if_false, bind_eq_ok_iff] at h
    obtain ⟨s, hs, type, htype, mappings, hmappings, url, hurl, h⟩ := h
    cases h
    refine ⟨iff_of_false (Option.some_ne_none _) hlacks, ?_⟩
    rintro document ⟨⟩
    obtain ⟨ms, hraw, hms⟩ := placementsOf_eq_ok hmappings
    have htype : (fs.text? "document_type" >>= documentTypeOf) = .ok type :=
      (bind_eq_ok_iff _ _ _).mpr ⟨s, hs, htype⟩
    refine ⟨(fs.text?_eq_ok_iff _ url).mp hurl, (documentType_eq_ok_iff fs type).mp htype, ms, ?_,
      hms.keys_eq, ?_⟩
    · rw [Fields.value?_eq_none_iff, Fields.value?_eq_some_iff] at hraw
      exact hraw.imp_right fun hmap => hmap.1
    · intro field p hp
      obtain ⟨raw, hget, hread⟩ := hms.get?_left hp
      rw [hget]
      exact Placement.exists_transcribes hread

/-! ## One corner of a source

All that stands around the corner is kept, and so are the keys that lead to it. -/

structure Gap where
  -- a mapping but for what stands under one key
  before : List (Tree × Tree)
  key : Text
  after : List (Tree × Tree)

namespace Gap

def pairs (g : Gap) (t : Tree) : List (Tree × Tree) := g.before ++ (.text g.key, t) :: g.after

variable {g : Gap} {t t' : Tree}

end Gap

namespace CornerGap

end CornerGap

end FlowNotation
