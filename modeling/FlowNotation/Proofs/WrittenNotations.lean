import FlowNotation.Proofs.OutlineTrees
import FlowNotation.Proofs.Rendering

/-! Notations as their authors write them: each machine's states on lines of their own, and below
each state its transitions. -/
namespace FlowNotation
open Yaml (Tree Outline)

/-! ## The lines of a notation -/

def Text.plain (t : Text) : String :=
  -- a half has no character to stand for it; names and headings are without halves
  String.ofList (t.filterMap fun
    | .char c => some c
    | .half _ => none)

theorem Text.plain_ofChars (cs : List Char) : (Text.ofChars cs).plain = String.ofList cs := by
  rw [plain, ofChars, List.filterMap_map]
  exact congrArg String.ofList List.filterMap_some

def Transition.line (t : Transition) : String :=
  "    " ++ t.condition.spelling.plain ++ ": " ++ t.destination.spelling.plain

def Machine.lines (m : Machine) : List String :=
  -- the start edge comes first; a state without transitions has nothing below it
  "  BEGIN:" :: ("    _: " ++ m.start.spelling.plain) ::
    m.nodes.entries.flatMap fun e =>
      ("  " ++ e.1.plain ++ ":") :: e.2.transitions.map Transition.line

def Notation.lines (n : Notation) : List String :=
  ("code: " ++ n.metadata.code.plain) :: ("title: " ++ n.metadata.title.plain) ::
    "flow:" :: n.flow.lines ++
      match n.alignment with
      | none => []
      | some m => "alignment:" :: m.lines

def Notation.written (n : Notation) : String :=
  String.join (n.lines.map (· ++ "\n"))

/-! ## Names -/

structure Text.IsName (s : Text) : Prop where
  -- a word of letters and digits of ASCII and underscores, which is no word for null
  length : 1 ≤ s.length ∧ s.length ≤ 1000
  letters : ∀ c ∈ s, c.has (fun c => c.isAlphanum || c = '_') = true
  not_null : s ∉ ([("null" : Text), "Null", "NULL"] : List Text)

instance (s : Text) : Decidable s.IsName :=
  decidable_of_iff ((1 ≤ s.length ∧ s.length ≤ 1000) ∧
    (∀ c ∈ s, c.has (fun c => c.isAlphanum || c = '_') = true) ∧
      s ∉ ([("null" : Text), "Null", "NULL"] : List Text))
    ⟨fun h => ⟨h.1, h.2.1, h.2.2⟩, fun h => ⟨h.1, h.2, h.3⟩⟩

def Text.IsHeading (s : Text) : Prop :=
  -- words with single spaces between them
  ∃ words, Outline.IsPhrase words ∧ s = Text.ofChars ([' '].intercalate words)

def Node.choices (n : Node) : List Text :=
  n.transitions.filterMap fun t => match t.condition with
    | .any => none
    | .choice expected => some expected

structure Machine.HasNames (m : Machine) : Prop where
  id : ∀ id ∈ m.nodes.keys, id.IsName
  choice : ∀ e ∈ m.nodes.entries, ∀ s ∈ e.2.choices, s.IsName

structure Notation.HasNames (n : Notation) : Prop where
  -- a notation without a description and a document, for an organisation, in which everything has a
  -- name
  code : n.metadata.code.IsHeading
  title : n.metadata.title.IsHeading
  description_eq : n.metadata.description = none
  respondent_eq : n.metadata.respondent = .org
  document_eq : n.document = none
  machine : ∀ part m, (part, m) ∈ n.machines → m.WellBuilt ∧ m.HasNames

/-- A text whose code points all are characters of a kind is a list of such characters. -/
theorem Text.exists_eq_ofChars (p : Char → Bool) (s : Text) (h : ∀ c ∈ s, c.has p = true) :
    ∃ w : List Char, s = Text.ofChars w ∧ ∀ c ∈ w, p c = true := by
  induction s with
  | nil => exact ⟨[], rfl, nofun⟩
  | cons c s ih =>
    obtain ⟨w, rfl, hw⟩ := ih fun d hd => h d (List.mem_cons_of_mem c hd)
    have hc := h c List.mem_cons_self
    cases c with
    | char c => exact ⟨c :: w, rfl, List.forall_mem_cons.mpr ⟨hc, hw⟩⟩
    | half i => cases hc

/-- A name shows as the key that it is. -/
theorem Text.IsName.exists_key {s : Text} (h : s.IsName) :
    ∃ w, s = Text.ofChars w ∧ s.plain.toList = w ∧ Outline.IsKey w := by
  obtain ⟨w, rfl, hw⟩ := Text.exists_eq_ofChars _ s h.letters
  have hlength := h.length
  rw [Text.ofChars, List.length_map] at hlength
  have hne : w ≠ [] := List.ne_nil_of_length_pos hlength.1
  refine ⟨w, rfl, by rw [Text.plain_ofChars, String.toList_ofList], ⟨hne, hw⟩, ?_, ?_⟩
  · rw [Yaml.keyReach]
    omega
  · have htilde : Text.ofChars w ≠ "~" := by
      intro he
      have hletter := h.letters (.char '~') (he ▸ List.mem_cons_self)
      cases hletter
    have hempty : Text.ofChars w ≠ "" := fun he => hne (List.map_eq_nil_iff.mp he)
    have hnull := h.not_null
    simp only [List.mem_cons, List.not_mem_nil, or_false, not_or] at hnull
    simp only [Tree.nullWords, List.mem_cons, List.not_mem_nil, or_false, not_or]
    exact ⟨htilde, hnull.1, hnull.2.1, hnull.2.2, hempty⟩

theorem Text.IsName.ofChars_toList {s : Text} (h : s.IsName) :
    Text.ofChars s.plain.toList = s := by
  obtain ⟨w, hs, hw, _⟩ := h.exists_key
  rw [hw, hs]

theorem Text.IsName.isKey {s : Text} (h : s.IsName) : Outline.IsKey s.plain.toList := by
  obtain ⟨w, _, hw, hkey⟩ := h.exists_key
  rw [hw]
  exact hkey

theorem Text.IsName.isPhrase {s : Text} (h : s.IsName) : Outline.IsPhrase [s.plain.toList] := by
  refine ⟨by simp, ?_, ?_⟩
  · intro w hw
    rw [List.mem_singleton.mp hw]
    exact h.isKey.word
  · rw [List.intercalate_singleton]
    exact h.isKey.not_null

/-! ## Outlines -/

def Transition.outline (t : Transition) : List Char × Outline :=
  (t.condition.spelling.plain.toList, .phrase [t.destination.spelling.plain.toList])

def Machine.outline (m : Machine) : List (List Char × Outline) :=
  ("BEGIN".toList, .entries [("_".toList, .phrase [m.start.spelling.plain.toList])]) ::
    m.nodes.entries.map fun e =>
      (e.1.plain.toList, .entries (e.2.transitions.map Transition.outline))

def Notation.outline (code title : List (List Char)) (n : Notation) :
    List (List Char × Outline) :=
  ("code".toList, .phrase code) :: ("title".toList, .phrase title) ::
    ("flow".toList, .entries n.flow.outline) ::
      match n.alignment with
      | none => []
      | some m => [("alignment".toList, .entries m.outline)]

def endedLines (ls : List String) : List Char :=
  ls.flatMap fun l => l.toList ++ ['\n']

/-- The lines of the transitions are those of their outline, four columns in. -/
theorem endedLines_transitions (ts : List Transition) :
    endedLines (ts.map Transition.line) = Outline.lines 4 (ts.map Transition.outline) := by
  induction ts with
  | nil => rfl
  | cons t ts ih =>
    rw [endedLines] at ih ⊢
    rw [List.map_cons, List.flatMap_cons, ih, List.map_cons, Transition.outline, Outline.lines,
      Outline.behind, List.intercalate_singleton, Transition.line]
    simp [List.replicate]

/-- The lines of a machine are those of its outline, two columns in. -/
theorem Machine.endedLines_lines (m : Machine) :
    endedLines m.lines = Outline.lines 2 m.outline := by
  have hnodes : ∀ es : List (Text × Node),
      endedLines (es.flatMap fun e =>
        ("  " ++ e.1.plain ++ ":") :: e.2.transitions.map Transition.line) =
      Outline.lines 2 (es.map fun e =>
        (e.1.plain.toList, .entries (e.2.transitions.map Transition.outline))) := by
    intro es
    induction es with
    | nil => rfl
    | cons e es ih =>
      have htransitions := endedLines_transitions e.2.transitions
      rw [endedLines] at ih htransitions ⊢
      rw [List.flatMap_cons, List.flatMap_append, List.flatMap_cons, htransitions, ih, List.map_cons,
        Outline.lines, Outline.behind]
      simp [List.replicate]
  have hnodes := hnodes m.nodes.entries
  rw [endedLines] at hnodes ⊢
  rw [Machine.lines, List.flatMap_cons, List.flatMap_cons, hnodes, Machine.outline, Outline.lines]
  simp [Outline.behind, Outline.lines, List.replicate]

/-- The lines of a notation are those of its outline. -/
theorem Notation.endedLines_lines (n : Notation) (code title : List (List Char))
    (hcode : n.metadata.code = Text.ofChars ([' '].intercalate code))
    (htitle : n.metadata.title = Text.ofChars ([' '].intercalate title)) :
    endedLines n.lines = Outline.lines 0 (n.outline code title) := by
  have hflow := n.flow.endedLines_lines
  rw [endedLines] at hflow ⊢
  rw [Notation.lines, hcode, htitle, Text.plain_ofChars, Text.plain_ofChars, Notation.outline]
  cases n.alignment with
  | none => simp [Outline.behind, Outline.lines, hflow]
  | some m =>
    have halignment := m.endedLines_lines
    rw [endedLines] at halignment
    simp [Outline.behind, Outline.lines, List.flatMap_append, hflow, halignment]

theorem Notation.toList_written (n : Notation) : n.written.toList = endedLines n.lines := by
  rw [Notation.written, String.toList_join, endedLines, List.flatMap_map]
  simp

/-! ## Trees of outlines -/

namespace Yaml.Outline

theorem arePlain_iff (es : List (List Char × Outline)) :
    ArePlain es ↔ ∀ e ∈ es, IsKey e.1 ∧ e.2.IsPlain := by
  induction es with
  | nil => exact ⟨fun _ => nofun, fun _ => trivial⟩
  | cons e es ih => rw [ArePlain, ih, List.forall_mem_cons, and_assoc]

theorem pairs_eq_map (es : List (List Char × Outline)) :
    pairs es = es.map fun e => (.text (Text.ofChars e.1), e.2.toTree) := by
  induction es with
  | nil => rfl
  | cons e es ih => rw [pairs, ih, List.map_cons]

end Yaml.Outline

def Yaml.Tree.bare : Tree → Tree
  -- a mapping without pairs is left out
  | .map [] => .null
  | t => t

theorem Yaml.Outline.toTree_entries (es : List (List Char × Outline)) :
    (Outline.entries es).toTree = (Tree.map (Outline.pairs es)).bare := by
  cases es with
  | nil => rfl
  | cons e es => rfl

/-! ## Machines -/

theorem isName_key (s : Text) (h : s = beginKey ∨ s = finishKey ∨ s = anyKey) : s.IsName := by
  rcases h with rfl | rfl | rfl
  · exact ⟨by decide, by decide, by decide⟩
  · exact ⟨by decide, by decide, by decide⟩
  · exact ⟨by decide, by decide, by decide⟩

namespace Machine

variable {m : Machine} (hm : m.WellBuilt) (hnames : m.HasNames)
include hnames

theorem HasNames.destination (d : Destination) (hd : ∀ s, d = .state s → s ∈ m.nodes.keys) :
    d.spelling.IsName := by
  cases d with
  | state s => exact hnames.id s (hd s rfl)
  | finish => exact isName_key finishKey (by simp)

include hm

theorem HasNames.transition {e : Text × Node} (he : e ∈ m.nodes.entries) {t : Transition}
    (ht : t ∈ e.2.transitions) : t.condition.spelling.IsName ∧ t.destination.spelling.IsName := by
  have hget := (m.nodes.get?_eq_some_iff e.1 e.2).mpr he
  constructor
  · cases hc : t.condition with
    | any => exact isName_key anyKey (by simp)
    | choice w =>
      have hchoice : w ∈ e.2.choices := List.mem_filterMap.mpr ⟨t, ht, by rw [hc]⟩
      exact hnames.choice e he w hchoice
  · exact hnames.destination t.destination ((hm.node e.1 e.2 hget).destination_declared t ht)

/-- A machine with names is written in keys and words alone. -/
theorem HasNames.arePlain_outline : Outline.ArePlain m.outline := by
  rw [Outline.arePlain_iff]
  intro e he
  rcases List.mem_cons.mp he with rfl | he
  · have hstart := (hnames.destination m.start hm.start_declared).isPhrase
    exact ⟨(isName_key beginKey (by simp)).isKey, (isName_key anyKey (by simp)).isKey, hstart,
      trivial⟩
  · obtain ⟨e, hmem, rfl⟩ := List.mem_map.mp he
    have hid : e.1.IsName := hnames.id e.1 (List.mem_map_of_mem hmem)
    refine ⟨hid.isKey, (Outline.arePlain_iff _).mpr ?_⟩
    intro t ht
    obtain ⟨t', ht', rfl⟩ := List.mem_map.mp ht
    have hspelled := hnames.transition hm hmem ht'
    exact ⟨hspelled.1.isKey, hspelled.2.isPhrase⟩

/-- The tree of the outline is the one that lists the machine, but for states without transitions.
-/
theorem HasNames.pairs_outline :
    Outline.pairs m.outline = m.listing.map fun e => (.text e.1, e.2.bare) := by
  have htransition : ∀ e ∈ m.nodes.entries, Outline.pairs (e.2.transitions.map Transition.outline) =
      e.2.transitions.map fun t => (.text t.condition.spelling, .text t.destination.spelling) := by
    intro e he
    rw [Outline.pairs_eq_map, List.map_map]
    apply List.map_congr_left
    intro t ht
    have ht := hnames.transition hm he ht
    simp only [Function.comp_apply, Transition.outline, Outline.toTree, List.intercalate_singleton,
      ht.1.ofChars_toList, ht.2.ofChars_toList]
  have hstart := hnames.destination m.start hm.start_declared
  rw [Outline.pairs_eq_map, outline, listing, List.map_cons, List.map_cons, List.map_map,
    List.map_map]
  congr 1
  · simp only [Outline.toTree, Outline.pairs, List.intercalate_singleton, hstart.ofChars_toList]
    rfl
  · apply List.map_congr_left
    intro e he
    have hid : e.1.IsName := hnames.id e.1 (List.mem_map_of_mem he)
    simp only [Function.comp_apply, hid.ofChars_toList, Outline.toTree_entries, htransition e he]
    rfl

end Machine

/-- A state's transitions may be left out instead of being an empty mapping. -/
theorem Node.ofTree_bare (part : Section) (declared : List Text) (id : Text) (raw : Tree) :
    Node.ofTree part declared id raw.bare = Node.ofTree part declared id raw := by
  unfold Yaml.Tree.bare
  split
  · rfl
  · rfl

theorem Fields.pairs_injective {fs fs' : Fields} (h : fs.pairs = fs'.pairs) : fs = fs' := by
  have hinj : Function.Injective fun e : Text × Tree => (Tree.text e.1, e.2) := by
    intro e e' he
    rw [Prod.mk.injEq, Tree.text.injEq] at he
    exact Prod.ext he.1 he.2
  obtain ⟨entries, _⟩ := fs
  obtain ⟨entries', _⟩ := fs'
  have hentries : entries = entries' := List.map_injective_iff.mpr hinj h
  subst hentries
  rfl

def Fields.bare (fs : Fields) : Fields := fs.mapValues fun _ t => t.bare

/-- A machine is read alike when states without transitions have nothing below them. -/
theorem Machine.ofTree_bare (part : Section) (m : Machine) (states : Fields)
    (h : (Machine.ofTree part (.map states.pairs)).result = .ok m) :
    (Machine.ofTree part (.map (Fields.pairs states.bare))).result = .ok m := by
  rw [Machine.ofTree_result_eq_ok_iff] at h ⊢
  obtain ⟨states', hstates, hstart, hnodes⟩ := h
  obtain rfl := Fields.pairs_injective (Tree.map.inj hstates)
  have hentries : (ownStates states.bare).entries =
      (ownStates states).entries.map fun e => (e.1, e.2.bare) := by
    simp only [ownStates, Fields.bare, Table.filter, Table.mapValues, List.filter_map]
    rfl
  have hkeys : (ownStates states.bare).keys = (ownStates states).keys := by
    rw [Table.keys, hentries, List.map_map]
    rfl
  refine ⟨_, rfl, ?_, ?_⟩
  · obtain ⟨c, s, hraw, hd⟩ := (startOf_eq_ok_iff _ _ _ _).mp hstart
    rw [startOf_eq_ok_iff, Fields.bare, Table.get?_mapValues, hraw, ← Fields.bare, hkeys]
    exact ⟨c, s, rfl, hd⟩
  · rw [Table.Matches, hentries, hkeys, List.forall₂_map_left_iff]
    refine hnodes.imp fun e e' he => ⟨he.1, ?_⟩
    rw [Node.ofTree_bare]
    exact he.2

/-- A well-built machine with names is read back from its outline. -/
theorem Machine.HasNames.ofTree_outline (part : Section) {m : Machine} (hm : m.WellBuilt)
    (hnames : m.HasNames) :
    (Machine.ofTree part (Outline.entries m.outline).toTree).result = .ok m := by
  let states : Fields := ⟨m.listing, m.nodup_listing hm⟩
  have htree : (Outline.entries m.outline).toTree = .map (Fields.pairs states.bare) := by
    show Yaml.Tree.map (Outline.pairs m.outline) = _
    rw [hnames.pairs_outline hm, Fields.pairs, Fields.bare, Table.mapValues, List.map_map]
    rfl
  have hlisting : Yaml.Tree.map (Fields.pairs states) = m.toTree := by
    dsimp only [Machine.toTree, Fields.pairs, states, Machine.listing]
    rw [List.map_cons, List.map_map]
    rfl
  have hread := m.ofTree_toTree part hm
  rw [← hlisting] at hread
  rw [htree]
  exact Machine.ofTree_bare part m states hread

/-! ## Notations -/

def Notation.writtenFields (n : Notation) : List (Text × Option Tree) :=
  [("code", some (.text n.metadata.code)), ("title", some (.text n.metadata.title)),
    ("flow", some (Outline.entries n.flow.outline).toTree),
    ("alignment", n.alignment.map fun m => (Outline.entries m.outline).toTree)]

theorem Notation.nodup_writtenFields (n : Notation) : (n.writtenFields.map Prod.fst).Nodup := by
  change (["code", "title", "flow", "alignment"] : List Text).Nodup
  decide

theorem Text.isBlank_of_isLetter {c : Char} (h : Yaml.isLetter c = true) :
    Text.isBlank c = false := by
  have hrange := Yaml.toNat_of_isLetter h
  simp only [Text.isBlank, Text.blanks, Text.Ranges.contains, List.any_cons, List.any_nil]
  simp
  omega

theorem Text.IsHeading.hasContent {s : Text} (h : s.IsHeading) : Text.hasContent s = true := by
  obtain ⟨words, hwords, rfl⟩ := h
  obtain ⟨w, words, rfl⟩ := List.exists_cons_of_ne_nil hwords.ne_nil
  obtain ⟨c, w, rfl⟩ := List.exists_cons_of_ne_nil (hwords.isWord w List.mem_cons_self).ne_nil
  obtain ⟨rest, hrest⟩ := exists_intercalate_cons [' '] (c :: w) words
  have hc := (hwords.isWord (c :: w) List.mem_cons_self).letters c List.mem_cons_self
  rw [hrest, Text.hasContent, Text.ofChars, List.map_append, List.map_cons, List.cons_append,
    List.any_cons, CodePoint.has, Text.isBlank_of_isLetter hc]
  rfl

/-- The fields that are written are what the notation is read from. -/
theorem Notation.HasNames.readsFrom {n : Notation} (h : n.HasNames) :
    n.ReadsFrom (Fields.ofListing n.writtenFields n.nodup_writtenFields) := by
  have hl := n.nodup_writtenFields
  have hget := Fields.get?_ofListing n.writtenFields hl
  have hcode := hget "code" (some (.text n.metadata.code)) (by simp [writtenFields])
  have htitle := hget "title" (some (.text n.metadata.title)) (by simp [writtenFields])
  have hflow := hget "flow" (some (Outline.entries n.flow.outline).toTree) (by simp [writtenFields])
  have halignment := hget "alignment"
    (n.alignment.map fun m => (Outline.entries m.outline).toTree) (by simp [writtenFields])
  have hmissing : ∀ k ∈ (["description", "respondent_type", "document_url", "document_type",
      "document_mappings"] : List Text),
      (Fields.ofListing n.writtenFields hl).get? k = none := by
    have hkeys : n.writtenFields.map Prod.fst = ["code", "title", "flow", "alignment"] := rfl
    intro k hk
    apply Fields.get?_ofListing_of_not_mem
    rw [hkeys]
    revert k
    decide
  refine ⟨?_, ?_, ?_, ?_⟩
  · rw [Metadata.ofFields_eq_ok_iff, h.description_eq]
    exact ⟨⟨hcode, h.code.hasContent⟩, ⟨htitle, h.title.hasContent⟩,
      Or.inl (hmissing "description" (by simp)),
      Or.inl ⟨Or.inl (hmissing "respondent_type" (by simp)), h.respondent_eq⟩⟩
  · have hm := h.machine .flow n.flow List.mem_cons_self
    exact ⟨_, hflow, hm.2.ofTree_outline .flow hm.1⟩
  · rw [halignment]
    cases ha : n.alignment with
    | none => exact Or.inl ⟨Or.inl rfl, rfl⟩
    | some m =>
      have hm := h.machine .alignment m (by simp [machines, ha])
      exact Or.inr ⟨_, m, rfl, hm.2.ofTree_outline .alignment hm.1, rfl⟩
  · rw [h.document_eq]
    exact Document.ofFields_of_lacksDocument _ ⟨Or.inl (hmissing "document_url" (by simp)),
      Or.inl (hmissing "document_type" (by simp)), Or.inl (hmissing "document_mappings" (by simp))⟩

/-- A notation with names is written in keys and words alone. -/
theorem Notation.HasNames.arePlain_outline {n : Notation} (h : n.HasNames)
    {code title : List (List Char)} (hcode : Outline.IsPhrase code)
    (htitle : Outline.IsPhrase title) : Outline.ArePlain (n.outline code title) := by
  have hkeys : ∀ k ∈ ["code", "title", "flow", "alignment"], Outline.IsKey k.toList := by
    intro k hk
    simp only [List.mem_cons, List.not_mem_nil, or_false] at hk
    rcases hk with rfl | rfl | rfl | rfl
    all_goals exact ⟨by decide, by decide, by decide⟩
  have hm := h.machine .flow n.flow List.mem_cons_self
  refine ⟨hkeys "code" (by simp), hcode, hkeys "title" (by simp), htitle, hkeys "flow" (by simp),
    hm.2.arePlain_outline hm.1, ?_⟩
  cases ha : n.alignment with
  | none => exact trivial
  | some m =>
    have hm := h.machine .alignment m (by simp [machines, ha])
    exact ⟨hkeys "alignment" (by simp), hm.2.arePlain_outline hm.1, trivial⟩

/-- A notation of names is read from the lines that spell it. -/
theorem parse_written (n : Notation) (h : n.HasNames) :
    (Notation.parse n.written).result = .ok n := by
  obtain ⟨code, hcode, hcode_eq⟩ := h.code
  obtain ⟨title, htitle, htitle_eq⟩ := h.title
  have htext : n.written = String.ofList (Outline.lines 0 (n.outline code title)) := by
    rw [← n.endedLines_lines code title hcode_eq htitle_eq, ← n.toList_written,
      String.ofList_toList]
  have htree : Yaml.Tree.map (Outline.pairs (n.outline code title)) =
      .map (Fields.pairs (Fields.ofListing n.writtenFields n.nodup_writtenFields)) := by
    rw [Fields.pairs_ofListing, Notation.outline, Notation.writtenFields, hcode_eq, htitle_eq]
    cases n.alignment with
    | none => rfl
    | some m => rfl
  rw [Notation.parse_result_eq_ok_iff]
  refine ⟨_, ?_, (Notation.ofTree_result_eq_ok_iff _ n).mpr ⟨_, htree, h.readsFrom⟩⟩
  rw [htext]
  exact Yaml.decode_lines _ (by simp [Notation.outline]) (h.arePlain_outline hcode htitle)

/-- The intake notation is written as the source it was read from, and read back. -/
theorem parse_written_intake : intake.written = intakeSource ∧ intake.HasNames ∧
    (Notation.parse intake.written).result = .ok intake := by
  have hnames : intake.HasNames := by
    refine ⟨⟨["intake".toList], by decide, by decide⟩,
      ⟨["Entity".toList, "intake".toList], by decide, by decide⟩, rfl, rfl, rfl, ?_⟩
    intro part m hm
    have hwell := Notation.wellBuilt_of_parse intakeSource intake parse_intakeSource part m hm
    simp only [Notation.machines, intake, Option.map_none, Option.toList_none, List.mem_singleton,
      Prod.mk.injEq] at hm
    rw [hm.2] at hwell ⊢
    exact ⟨hwell, by decide +kernel, by decide +kernel⟩
  exact ⟨by decide +kernel, hnames, parse_written intake hnames⟩

structure Machine.IsDistinct (m : Machine) : Prop where
  -- what names have to satisfy: no two choices of a state are the same, and none is read as any
  -- answer; no state is named for the start or the end, and every edge leads to a state that is
  -- there
  start : ∀ s ∈ m.start.state?, s ∈ m.nodes.keys
  id : ∀ s ∈ m.nodes.keys, s ≠ beginKey ∧ s ≠ finishKey
  node : ∀ e ∈ m.nodes.entries, e.2.question = QuestionRef.ofStateId e.1 ∧ e.2.choices.Nodup ∧
    anyKey ∉ e.2.choices ∧ ∀ s ∈ e.2.successors, s ∈ m.nodes.keys

def Notation.ofState (title : Text) (ts : List Transition) : Notation where
  metadata := ⟨"c", title, none, .org⟩
  document := none
  flow := ⟨.state "a", [("a", ⟨⟨"a", []⟩, ts⟩)], List.nodup_singleton _⟩
  alignment := none

def circle : Notation :=
  -- a state with two transitions that take any answer
  .ofState "t" [⟨.any, .state "a"⟩, ⟨.any, .finish⟩]

def titledWithColon : Notation := .ofState "t: u" [⟨.any, .finish⟩]

/-- Distinct names are not enough. A transition that takes any answer is spelled as every other one of
its kind, and a state that has two of them cannot be written. Nor can a title with a colon in it. -/
theorem not_parse_written :
    (circle.metadata.code.IsHeading ∧ circle.metadata.title.IsHeading ∧
      circle.flow.HasNames ∧ circle.flow.IsDistinct ∧
      circle.written = String.join ["code: c\n", "title: t\n", "flow:\n", "  BEGIN:\n",
        "    _: a\n", "  a:\n", "    _: a\n", "    _: END\n"] ∧
      (Notation.parse circle.written).result =
        .error (.shape (.repeatedCondition anyKey "flow.a"))) ∧
    (titledWithColon.metadata.code.IsHeading ∧
      titledWithColon.flow.HasNames ∧ titledWithColon.flow.IsDistinct ∧
      titledWithColon.written = String.join ["code: c\n", "title: t: u\n", "flow:\n",
        "  BEGIN:\n", "    _: a\n", "  a:\n", "    _: END\n"] ∧
      (Notation.parse titledWithColon.written).result = .error (.unreadable .malformed)) := by
  have hcircle : circle.written = String.join ["code: c\n", "title: t\n", "flow:\n",
      "  BEGIN:\n", "    _: a\n", "  a:\n", "    _: a\n", "    _: END\n"] := by decide +kernel
  have hcolon : titledWithColon.written = String.join ["code: c\n", "title: t: u\n", "flow:\n",
      "  BEGIN:\n", "    _: a\n", "  a:\n", "    _: END\n"] := by decide +kernel
  have hcode : ("c" : Text).IsHeading := ⟨["c".toList], by decide, by decide⟩
  have htitle : ("t" : Text).IsHeading := ⟨["t".toList], by decide, by decide⟩
  constructor
  · refine ⟨hcode, htitle, ⟨by decide, by decide⟩, ⟨by decide, by decide, by decide +kernel⟩,
      hcircle, ?_⟩
    rw [Notation.parse, Yaml.decode, Yaml.read, hcircle, String.toList_join]
    decide +kernel
  · refine ⟨hcode, ⟨by decide, by decide⟩, ⟨by decide, by decide, by decide +kernel⟩,
      hcolon, ?_⟩
    rw [Notation.parse, Yaml.decode, Yaml.read, hcolon, String.toList_join]
    decide +kernel

end FlowNotation
