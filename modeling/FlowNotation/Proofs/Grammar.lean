import FlowNotation.Proofs.Documents
import FlowNotation.Proofs.WellBuilt

/-! The grammar of notations. It says which trees spell a notation in terms of their shape alone, of
the numbers that texts spell and of the states that a machine declares; the main statement says that
exactly these are read. Fields are tables, so keys are distinct where a mapping has fields. -/
namespace FlowNotation
open Yaml (Tree)

/-! ## Machines -/

def Fields.HasTarget (states : Fields) (s : Text) : Prop :=
  -- a transition may lead to the end, or to a state that is declared, which the start edge and the
  -- end are not
  s = finishKey ∨ (s ∈ states.keys ∧ s ≠ beginKey ∧ s ≠ finishKey)

def Fields.SpellsTransitions (states : Fields) (raw : Tree) : Prop :=
  -- the transitions of a state: none, or distinct conditions with their targets
  Blank (some raw) ∨
    ∃ texts : Table Text Text, raw = .map (textPairs texts) ∧
      ∀ c s, texts.get? c = some s → states.HasTarget s

def Yaml.Tree.SpellsMachine (raw : Tree) : Prop :=
  -- distinct states, a start edge with one target among them; what stands for the end does not
  -- matter
  ∃ states : Fields, raw = .map states.pairs ∧
    (∃ c s, states.get? beginKey = some (.map [(.text c, .text s)]) ∧ states.HasTarget s) ∧
    ∀ id raw, states.get? id = some raw → id ≠ beginKey → id ≠ finishKey →
      states.SpellsTransitions raw

/-! ## Notations -/

structure Fields.SpellsNotation (fs : Fields) : Prop where
  code : ∃ s, fs.get? "code" = some (.text s) ∧ Text.hasContent s = true
  title : ∃ s, fs.get? "title" = some (.text s) ∧ Text.hasContent s = true
  description : Blank (fs.get? "description") ∨ ∃ s, fs.get? "description" = some (.text s)
  respondent : Blank (fs.get? "respondent_type") ∨
    fs.get? "respondent_type" = some (.text "org") ∨
    fs.get? "respondent_type" = some (.text "org_and_person")
  flow : ∃ raw, fs.get? "flow" = some raw ∧ raw.SpellsMachine
  alignment : Blank (fs.get? "alignment") ∨
    ∃ raw, fs.get? "alignment" = some raw ∧ raw.SpellsMachine
  document : fs.LacksDocument ∨ fs.SpellsDocument

def Yaml.Tree.SpellsNotation (raw : Tree) : Prop :=
  ∃ fs : Fields, raw = .map fs.pairs ∧ fs.SpellsNotation

/-! ## Which machines are read -/

theorem mem_keys_ownStates_iff (states : Fields) (s : Text) :
    s ∈ (ownStates states).keys ↔ s ∈ states.keys ∧ s ≠ beginKey ∧ s ≠ finishKey := by
  rw [ownStates, Table.mem_keys_filter_iff, Table.mem_keys_iff]
  simp

/-- A text is a destination when it is a state of the machine or the end. -/
theorem exists_destination_iff (states : Fields) (s : Text) :
    (∃ d, Destination.ofText (ownStates states).keys s = .ok d) ↔ states.HasTarget s := by
  simp only [Destination.ofText_eq_ok_iff, mem_keys_ownStates_iff, Fields.HasTarget]
  constructor
  · intro h
    obtain ⟨d, ⟨hs, _⟩ | ⟨_, hs, _⟩⟩ := h
    · exact Or.inl hs
    · exact Or.inr hs
  · intro h
    rcases h with hs | hs
    · exact ⟨.finish, Or.inl ⟨hs, rfl⟩⟩
    · exact ⟨.state s, Or.inr ⟨hs.2.2, hs, rfl⟩⟩

theorem exists_start_iff (part : Section) (states : Fields) (raw : Option Tree) :
    (∃ d, startOf part (ownStates states).keys raw = .ok d) ↔
      ∃ c s, raw = some (.map [(.text c, .text s)]) ∧ states.HasTarget s := by
  simp only [startOf_eq_ok_iff, ← exists_destination_iff]
  constructor
  · intro h
    obtain ⟨d, c, s, hraw, hd⟩ := h
    exact ⟨c, s, hraw, d, hd⟩
  · intro h
    obtain ⟨c, s, hraw, d, hd⟩ := h
    exact ⟨d, c, s, hraw, hd⟩

/-- A state is read when its transitions are blank or lead to targets that exist. -/
theorem exists_node_iff (part : Section) (states : Fields) (id : Text) (raw : Tree) :
    (∃ n, Node.ofTree part (ownStates states).keys id raw = .ok n) ↔
      states.SpellsTransitions raw := by
  -- the transitions are read if their targets are
  have htransitions : ∀ texts : Table Text Text,
      (∃ ts, List.Forall₂ (Transition.Spells (ownStates states).keys) texts.entries ts) ↔
        ∀ c s, texts.get? c = some s → states.HasTarget s := by
    intro texts
    rw [exists_forall₂_iff]
    simp only [Prod.forall, ← Table.get?_eq_some_iff, ← exists_destination_iff]
    constructor
    · intro h c s hcs
      obtain ⟨t, _, ht⟩ := h c s hcs
      exact ⟨t.destination, ht⟩
    · intro h c s hcs
      obtain ⟨d, hd⟩ := h c s hcs
      exact ⟨⟨Condition.ofText c, d⟩, rfl, hd⟩
  simp only [Node.ofTree_eq_ok_iff, transitionTexts_eq_ok_iff, Option.some.injEq]
  constructor
  · intro h
    obtain ⟨n, texts, hraw, _, hts⟩ := h
    rcases hraw with ⟨hblank, _⟩ | hraw
    · exact Or.inl hblank
    · exact Or.inr ⟨texts, hraw, (htransitions texts).mp ⟨n.transitions, hts⟩⟩
  · intro h
    rcases h with hblank | ⟨texts, hraw, htargets⟩
    · exact ⟨⟨QuestionRef.ofStateId id, []⟩, .empty, Or.inl ⟨hblank, rfl⟩, rfl, .nil⟩
    · obtain ⟨ts, hts⟩ := (htransitions texts).mpr htargets
      exact ⟨⟨QuestionRef.ofStateId id, ts⟩, texts, Or.inr hraw, rfl, hts⟩

/-- What is read as a machine is what the grammar spells as one. -/
theorem exists_machine_iff (part : Section) (raw : Tree) :
    (∃ m, (Machine.ofTree part raw).result = .ok m) ↔ raw.SpellsMachine := by
  simp only [Machine.ofTree_result_eq_ok_iff]
  constructor
  · intro h
    obtain ⟨m, states, hraw, hstart, hnodes⟩ := h
    refine ⟨states, hraw, (exists_start_iff part states _).mp ⟨m.start, hstart⟩, ?_⟩
    intro id raw hget hbegin hfinish
    have hown : (ownStates states).get? id = some raw := by
      rw [ownStates, Table.get?_filter]
      exact ⟨hget, by simp [hbegin, hfinish]⟩
    exact (exists_node_iff part states id raw).mp
      ((Table.exists_matches_iff _ _).mp ⟨m.nodes, hnodes⟩ id raw hown)
  · intro h
    obtain ⟨states, hraw, hstart, hstates⟩ := h
    obtain ⟨start, hstart⟩ := (exists_start_iff part states _).mpr hstart
    have hnodes : ∃ nodes, (ownStates states).Matches (fun id raw n =>
        Node.ofTree part (ownStates states).keys id raw = .ok n) nodes := by
      rw [Table.exists_matches_iff]
      intro id raw hown
      rw [ownStates, Table.get?_filter] at hown
      obtain ⟨hget, hne⟩ := hown
      have hne : id ≠ beginKey ∧ id ≠ finishKey := by simpa using hne
      exact (exists_node_iff part states id raw).mpr (hstates id raw hget hne.1 hne.2)
    obtain ⟨nodes, hnodes⟩ := hnodes
    exact ⟨⟨start, nodes⟩, states, hraw, hstart, hnodes⟩

/-! ## Which notations are read -/

theorem Respondent.ofName?_eq_some_iff (s : Text) (r : Respondent) :
    Respondent.ofName? s = some r ↔ s = Text.ofString r.name := by
  constructor
  · intro h
    simpa [eq_comm] using List.find?_some h
  · rintro rfl
    cases r <;> decide

theorem respondent_eq_ok_iff (fs : Fields) (r : Respondent) :
    (fs.text? "respondent_type" >>= respondentOf) = .ok r ↔
      (Blank (fs.get? "respondent_type") ∧ r = .org) ∨
        fs.get? "respondent_type" = some (.text (Text.ofString r.name)) := by
  refine Fields.named_eq_ok_iff respondentOf Respondent.ofName? Respondent.name .org
    (fun s => .invalid "respondent_type" (.unsupported s)) rfl ?_ Respondent.ofName?_eq_some_iff
    ?_ fs _ r
  · intro s
    cases h : Respondent.ofName? s <;> simp [respondentOf, h]
  · intro r
    cases r <;> decide

theorem Metadata.ofFields_eq_ok_iff (fs : Fields) (d : Metadata) :
    Metadata.ofFields fs = .ok d ↔
      (fs.get? "code" = some (.text d.code) ∧ Text.hasContent d.code = true) ∧
        (fs.get? "title" = some (.text d.title) ∧ Text.hasContent d.title = true) ∧
        Fields.WritesText (fs.get? "description") d.description ∧
        ((Blank (fs.get? "respondent_type") ∧ d.respondent = .org) ∨
          fs.get? "respondent_type" = some (.text (Text.ofString d.respondent.name))) := by
  rw [← respondent_eq_ok_iff]
  simp only [Metadata.ofFields, bind_eq_ok_iff, Fields.requiredText_eq_ok_iff,
    Fields.text?_eq_ok_iff]
  constructor
  · intro h
    obtain ⟨code, hcode, title, htitle, description, hdescription, s, hs, r, hr, h⟩ := h
    cases h
    exact ⟨hcode, htitle, hdescription, s, hs, hr⟩
  · intro h
    obtain ⟨hcode, htitle, hdescription, s, hs, hr⟩ := h
    exact ⟨d.code, hcode, d.title, htitle, d.description, hdescription, s, hs, d.respondent, hr, rfl⟩

/-- The heading of a notation is read when code and title have content and the rest is blank or of
its kind. -/
theorem exists_metadata_iff (fs : Fields) :
    (∃ d, Metadata.ofFields fs = .ok d) ↔
      (∃ s, fs.get? "code" = some (.text s) ∧ Text.hasContent s = true) ∧
        (∃ s, fs.get? "title" = some (.text s) ∧ Text.hasContent s = true) ∧
        (Blank (fs.get? "description") ∨ ∃ s, fs.get? "description" = some (.text s)) ∧
        (Blank (fs.get? "respondent_type") ∨
          fs.get? "respondent_type" = some (.text "org") ∨
          fs.get? "respondent_type" = some (.text "org_and_person")) := by
  have hrespondent : (∃ r : Respondent, (Blank (fs.get? "respondent_type") ∧ r = .org) ∨
      fs.get? "respondent_type" = some (.text (Text.ofString r.name))) ↔
      Blank (fs.get? "respondent_type") ∨ fs.get? "respondent_type" = some (.text "org") ∨
        fs.get? "respondent_type" = some (.text "org_and_person") := by
    rw [Fields.exists_named_iff]
    refine or_congr_right ?_
    constructor
    · intro h
      obtain ⟨_ | _, hget⟩ := h
      · exact Or.inl hget
      · exact Or.inr hget
    · intro h
      rcases h with hget | hget
      · exact ⟨.org, hget⟩
      · exact ⟨.orgAndPerson, hget⟩
  simp only [Metadata.ofFields_eq_ok_iff, ← hrespondent, ← Fields.exists_writesText_iff]
  constructor
  · intro h
    obtain ⟨d, hcode, htitle, hdescription, hr⟩ := h
    exact ⟨⟨d.code, hcode⟩, ⟨d.title, htitle⟩, ⟨d.description, hdescription⟩, d.respondent, hr⟩
  · intro h
    obtain ⟨⟨code, hcode⟩, ⟨title, htitle⟩, ⟨description, hdescription⟩, r, hr⟩ := h
    exact ⟨⟨code, title, description, r⟩, hcode, htitle, hdescription, hr⟩

theorem exists_alignment_iff (fs : Fields) :
    (∃ a : Option Machine, (Blank (fs.get? "alignment") ∧ a = none) ∨
      ∃ raw m, fs.get? "alignment" = some raw ∧ (Machine.ofTree .alignment raw).result = .ok m ∧
        a = some m) ↔
      Blank (fs.get? "alignment") ∨ ∃ raw, fs.get? "alignment" = some raw ∧ raw.SpellsMachine := by
  simp only [← exists_machine_iff .alignment]
  constructor
  · intro h
    obtain ⟨a, ⟨hblank, _⟩ | ⟨raw, m, hget, hm, _⟩⟩ := h
    · exact Or.inl hblank
    · exact Or.inr ⟨raw, hget, m, hm⟩
  · intro h
    rcases h with hblank | ⟨raw, hget, m, hm⟩
    · exact ⟨none, Or.inl ⟨hblank, rfl⟩⟩
    · exact ⟨some m, Or.inr ⟨raw, m, hget, hm, rfl⟩⟩

/-- The parts of a notation are read independently of each other. -/
theorem exists_notation_iff (raw : Tree) :
    (∃ n, (Notation.ofTree raw).result = .ok n) ↔ raw.SpellsNotation := by
  simp only [Notation.ofTree_result_eq_ok_iff]
  constructor
  · intro h
    obtain ⟨n, fs, hraw, hmetadata, ⟨flow, hget, hflow⟩, halignment, hdocument⟩ := h
    obtain ⟨hcode, htitle, hdescription, hrespondent⟩ :=
      (exists_metadata_iff fs).mp ⟨n.metadata, hmetadata⟩
    exact ⟨fs, hraw, {
      code := hcode
      title := htitle
      description := hdescription
      respondent := hrespondent
      flow := ⟨flow, hget, (exists_machine_iff .flow flow).mp ⟨n.flow, hflow⟩⟩
      alignment := (exists_alignment_iff fs).mp ⟨n.alignment, halignment⟩
      document := (exists_document_iff fs).mp ⟨n.document, hdocument⟩ }⟩
  · intro h
    obtain ⟨fs, hraw, hfs⟩ := h
    obtain ⟨metadata, hmetadata⟩ := (exists_metadata_iff fs).mpr
      ⟨hfs.code, hfs.title, hfs.description, hfs.respondent⟩
    obtain ⟨flow, hget, hflow⟩ := hfs.flow
    obtain ⟨m, hm⟩ := (exists_machine_iff .flow flow).mpr hflow
    obtain ⟨alignment, halignment⟩ := (exists_alignment_iff fs).mpr hfs.alignment
    obtain ⟨document, hdocument⟩ := (exists_document_iff fs).mpr hfs.document
    exact ⟨⟨metadata, document, m, alignment⟩, fs, hraw, hmetadata, ⟨flow, hget, hm⟩, halignment,
      hdocument⟩

/-- A source is read exactly if it decodes to a tree that spells a notation. -/
theorem parse_accepts_iff_spellsNotation (source : String) :
    (∃ n, (Notation.parse source).result = .ok n) ↔
      ∃ raw, Yaml.decode source = .ok raw ∧ raw.SpellsNotation := by
  simp only [Notation.parse_result_eq_ok_iff, ← exists_notation_iff]
  constructor
  · intro h
    obtain ⟨n, raw, hraw, hn⟩ := h
    exact ⟨raw, hraw, n, hn⟩
  · intro h
    obtain ⟨raw, hraw, n, hn⟩ := h
    exact ⟨n, raw, hraw, hn⟩

end FlowNotation
