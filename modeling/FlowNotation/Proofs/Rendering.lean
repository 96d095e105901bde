import FlowNotation.Proofs.Grammar

/-! The tree that lists a notation. Reading takes it back to the notation; and what is read from any
tree is well-built, which is all that a notation needs to be listed. -/
namespace FlowNotation
open Yaml (Tree)

/-! ## The tree of a notation -/

def Condition.spelling : Condition → Text
  | any => anyKey
  | choice expected => expected

def Destination.spelling : Destination → Text
  | state id => id
  | finish => finishKey

def Node.toTree (n : Node) : Tree :=
  .map (n.transitions.map fun t => (.text t.condition.spelling, .text t.destination.spelling))

def Machine.toTree (m : Machine) : Tree :=
  -- the start edge comes first and takes any answer
  .map ((.text beginKey, .map [(.text anyKey, .text m.start.spelling)]) ::
    m.nodes.entries.map fun e => (.text e.1, e.2.toTree))

def Notation.listing (absent : String → Option Tree) (n : Notation) :
    List (Text × Option Tree) :=
  -- the fields of a notation without a document. `absent` says how a field is written that has
  -- nothing to say; `none` leaves it out
  [("code", some (.text n.metadata.code)), ("title", some (.text n.metadata.title)),
    ("description", (n.metadata.description.map .text).or (absent "description")),
    ("respondent_type", some (.text (Text.ofString n.metadata.respondent.name))),
    ("flow", some n.flow.toTree),
    ("alignment", (n.alignment.map Machine.toTree).or (absent "alignment"))]

def Notation.toTree (absent : String → Option Tree) (n : Notation) : Tree :=
  .map ((n.listing absent).filterMap fun e => e.2.map fun t => (.text e.1, t))

structure Notation.WellBuilt (n : Notation) : Prop where
  -- a notation that keeps what reading guarantees
  code_hasContent : Text.hasContent n.metadata.code = true
  title_hasContent : Text.hasContent n.metadata.title = true
  description_ne : n.metadata.description ≠ some []
  machine : ∀ part m, (part, m) ∈ n.machines → m.WellBuilt

/-! ## Reading a machine back -/

/-- A condition is read back from its spelling, but for a choice that is spelled as the condition
for any answer. -/
theorem Condition.ofText_spelling (c : Condition) (h : c ≠ .choice anyKey) :
    Condition.ofText c.spelling = c := by
  cases c with
  | any => rfl
  | choice expected =>
    have hne : expected ≠ anyKey := fun he => h (congrArg Condition.choice he)
    rw [spelling, ofText, if_neg hne]

/-- A destination is read back from its spelling where its state is declared. -/
theorem Destination.ofText_spelling (declared : List Text) (d : Destination)
    (h : ∀ s, d = .state s → s ∈ declared ∧ s ≠ finishKey) :
    Destination.ofText declared d.spelling = .ok d := by
  rw [ofText_eq_ok_iff]
  cases d with
  | state s =>
    obtain ⟨hs, hne⟩ := h s rfl
    exact Or.inr ⟨hne, hs, rfl⟩
  | finish => exact Or.inl ⟨rfl, rfl⟩

/-- A well-built node is read back from its tree. -/
theorem Node.ofTree_toTree (part : Section) (declared : List Text) (id : Text) (n : Node)
    (h : n.WellBuilt declared id) (hfinish : finishKey ∉ declared) :
    Node.ofTree part declared id n.toTree = .ok n := by
  have hcondition : ∀ t ∈ n.transitions, Condition.ofText t.condition.spelling = t.condition :=
    fun t ht => t.condition.ofText_spelling (h.choice_ne_any t ht)
  have hn : ((n.transitions.map fun t => (t.condition.spelling, t.destination.spelling)).map
      Prod.fst).Nodup := by
    -- conditions that are spelled alike are read alike, so they are the same
    have hinj := List.inj_on_of_nodup_map h.conditions_nodup
    rw [List.map_map]
    refine List.Nodup.map_on ?_ (List.Nodup.of_map _ h.conditions_nodup)
    intro t ht u hu htu
    refine hinj ht hu ?_
    rw [← hcondition t ht, ← hcondition u hu]
    exact congrArg Condition.ofText htu
  rw [Node.ofTree_eq_ok_iff]
  refine ⟨⟨_, hn⟩, ?_, h.question_eq, ?_⟩
  · rw [transitionTexts_eq_ok_iff]
    exact Or.inr (by simp [Node.toTree, textPairs, Function.comp_def])
  · rw [List.forall₂_map_left_iff, List.forall₂_same]
    intro t ht
    refine ⟨(hcondition t ht).symm, Destination.ofText_spelling declared _ ?_⟩
    intro s hs
    have hdeclared := h.destination_declared t ht s hs
    exact ⟨hdeclared, fun he => hfinish (he ▸ hdeclared)⟩

def Machine.listing (m : Machine) : List (Text × Tree) :=
  (beginKey, .map [(.text anyKey, .text m.start.spelling)]) ::
    m.nodes.entries.map fun e => (e.1, e.2.toTree)

theorem Machine.nodup_listing (m : Machine) (h : m.WellBuilt) :
    (m.listing.map Prod.fst).Nodup := by
  have hbegin : beginKey ∉ m.nodes.keys := fun hmem => (h.id_ne _ hmem).1 rfl
  rw [listing, List.map_cons, List.map_map, List.nodup_cons]
  exact ⟨hbegin, m.nodes.nodup⟩

theorem Machine.entries_ownStates_listing (m : Machine) (h : m.WellBuilt) :
    (ownStates ⟨m.listing, m.nodup_listing h⟩).entries =
      m.nodes.entries.map fun e => (e.1, e.2.toTree) := by
  dsimp only [ownStates, Table.filter, listing]
  rw [List.filter_cons_of_neg (by simp), List.filter_eq_self]
  intro e he
  obtain ⟨e', he', rfl⟩ := List.mem_map.mp he
  have hne := h.id_ne e'.1 (List.mem_map_of_mem he')
  simp [hne.1, hne.2]

/-- A well-built machine is read back from its tree. -/
theorem Machine.ofTree_toTree (part : Section) (m : Machine) (h : m.WellBuilt) :
    (Machine.ofTree part m.toTree).result = .ok m := by
  have hfinish : finishKey ∉ m.nodes.keys := fun hmem => (h.id_ne _ hmem).2 rfl
  have hown := m.entries_ownStates_listing h
  have hkeys : (ownStates ⟨m.listing, m.nodup_listing h⟩).keys = m.nodes.keys := by
    rw [Table.keys, hown, List.map_map]
    rfl
  rw [Machine.ofTree_result_eq_ok_iff]
  refine ⟨⟨m.listing, m.nodup_listing h⟩, ?_, ?_, ?_⟩
  · dsimp only [toTree, Fields.pairs, listing]
    rw [List.map_cons, List.map_map]
    rfl
  · have hstart : Table.get? (⟨m.listing, m.nodup_listing h⟩ : Fields) beginKey =
        some (.map [(.text anyKey, .text m.start.spelling)]) :=
      (Table.get?_eq_some_iff _ _ _).mpr List.mem_cons_self
    rw [startOf_eq_ok_iff]
    refine ⟨anyKey, m.start.spelling, hstart, Destination.ofText_spelling _ _ ?_⟩
    intro s hs
    have hdeclared := h.start_declared s hs
    rw [hkeys]
    exact ⟨hdeclared, fun he => hfinish (he ▸ hdeclared)⟩
  -- each node is read against the states that it was declared with
  · rw [Table.Matches, hown, hkeys, List.forall₂_map_left_iff, List.forall₂_same]
    intro e he
    have hnode := h.node e.1 e.2 ((m.nodes.get?_eq_some_iff _ _).mpr he)
    exact ⟨rfl, Node.ofTree_toTree part _ e.1 e.2 hnode hfinish⟩

/-! ## Reading a notation back -/

def Fields.ofListing (l : List (Text × Option Tree)) (hl : (l.map Prod.fst).Nodup) : Fields where
  -- fields that may be left out, as a table of those that are written
  entries := l.filterMap fun e => e.2.map fun t => (e.1, t)
  nodup := by
    rw [List.map_filterMap]
    refine hl.sublist ?_
    induction l with
    | nil => exact List.Sublist.slnil
    | cons e l ih =>
      obtain ⟨k, _ | t⟩ := e
      · exact (ih (List.Nodup.of_cons hl)).cons k
      · exact (ih (List.Nodup.of_cons hl)).cons_cons k

theorem Fields.get?_ofListing_eq_some_iff (l : List (Text × Option Tree))
    (hl : (l.map Prod.fst).Nodup) (k : Text) (t : Tree) :
    (ofListing l hl).get? k = some t ↔ (k, some t) ∈ l := by
  simp [Table.get?_eq_some_iff, ofListing, List.mem_filterMap]

/-- A field is found under its name as it was listed. -/
theorem Fields.get?_ofListing (l : List (Text × Option Tree)) (hl : (l.map Prod.fst).Nodup)
    (k : Text) (o : Option Tree) (h : (k, o) ∈ l) : (ofListing l hl).get? k = o := by
  ext t
  rw [get?_ofListing_eq_some_iff]
  constructor
  · intro ht
    exact congrArg Prod.snd (List.inj_on_of_nodup_map hl h ht rfl)
  · rintro rfl
    exact h

theorem Fields.get?_ofListing_of_not_mem (l : List (Text × Option Tree))
    (hl : (l.map Prod.fst).Nodup) (k : Text) (h : k ∉ l.map Prod.fst) :
    (ofListing l hl).get? k = none := by
  rw [Option.eq_none_iff_forall_ne_some]
  intro t ht
  rw [get?_ofListing_eq_some_iff] at ht
  exact h (List.mem_map_of_mem ht)

theorem Fields.pairs_ofListing (l : List (Text × Option Tree)) (hl : (l.map Prod.fst).Nodup) :
    (ofListing l hl).pairs = l.filterMap fun e => e.2.map fun t => (.text e.1, t) := by
  simp [pairs, ofListing, List.map_filterMap, Option.map_map, Function.comp_def]

theorem Notation.nodup_listing (absent : String → Option Tree) (n : Notation) :
    ((n.listing absent).map Prod.fst).Nodup := by
  change (["code", "title", "description", "respondent_type", "flow", "alignment"] : List Text).Nodup
  decide

theorem writesText_or (raw : Option Tree) (hraw : Blank raw) (s : Option Text) (hs : s ≠ some []) :
    Fields.WritesText ((s.map Tree.text).or raw) s := by
  cases s with
  | none => exact hraw
  | some s => exact ⟨fun h => hs (congrArg some h), rfl⟩

/-- Reading takes the tree that lists a well-built notation back to that notation. -/
theorem Notation.ofTree_toTree (absent : String → Option Tree)
    (habsent : ∀ name, Blank (absent name)) (n : Notation) (h : n.WellBuilt)
    (hd : n.document = none) : (Notation.ofTree (n.toTree absent)).result = .ok n := by
  have hl := n.nodup_listing absent
  have hget := Fields.get?_ofListing (n.listing absent) hl
  have hcode := hget "code" (some (.text n.metadata.code)) (by simp [listing])
  have htitle := hget "title" (some (.text n.metadata.title)) (by simp [listing])
  have hdescription := hget "description"
    ((n.metadata.description.map .text).or (absent "description")) (by simp [listing])
  have hrespondent := hget "respondent_type"
    (some (.text (Text.ofString n.metadata.respondent.name))) (by simp [listing])
  have hflow := hget "flow" (some n.flow.toTree) (by simp [listing])
  have halignment := hget "alignment" ((n.alignment.map Machine.toTree).or (absent "alignment"))
    (by simp [listing])
  have hmissing : (Fields.ofListing (n.listing absent) hl).LacksDocument := by
    have hnone := Fields.get?_ofListing_of_not_mem (n.listing absent) hl
    have hkeys : (n.listing absent).map Prod.fst =
        ["code", "title", "description", "respondent_type", "flow", "alignment"] := rfl
    rw [hkeys] at hnone
    exact ⟨Or.inl (hnone _ (by decide)), Or.inl (hnone _ (by decide)), Or.inl (hnone _ (by decide))⟩
  rw [ofTree_result_eq_ok_iff]
  refine ⟨Fields.ofListing (n.listing absent) hl, ?_, ?_, ?_, ?_, ?_⟩
  · rw [Fields.pairs_ofListing]
    rfl
  · rw [Metadata.ofFields_eq_ok_iff, hdescription]
    exact ⟨⟨hcode, h.code_hasContent⟩, ⟨htitle, h.title_hasContent⟩,
      writesText_or _ (habsent _) _ h.description_ne, Or.inr hrespondent⟩
  · exact ⟨n.flow.toTree, hflow, n.flow.ofTree_toTree .flow (h.machine .flow _ List.mem_cons_self)⟩
  · cases ha : n.alignment with
    | none =>
      rw [halignment, ha]
      exact Or.inl ⟨habsent _, rfl⟩
    | some m =>
      rw [halignment, ha]
      have hm : m.WellBuilt := h.machine .alignment m (by simp [machines, ha])
      exact Or.inr ⟨m.toTree, m, rfl, m.ofTree_toTree .alignment hm, rfl⟩
  · rw [hd]
    exact Document.ofFields_of_lacksDocument _ hmissing

/-- Whatever is read from a tree is well built. -/
theorem Notation.wellBuilt_of_ofTree_eq_ok (raw : Tree) (n : Notation)
    (h : (Notation.ofTree raw).result = .ok n) : n.WellBuilt := by
  obtain ⟨fs, _, hn⟩ := (ofTree_result_eq_ok_iff raw n).mp h
  obtain ⟨hcode, htitle, hdescription, _⟩ := (Metadata.ofFields_eq_ok_iff fs _).mp hn.metadata
  refine ⟨hcode.2, htitle.2, ?_, fun part m => wellBuilt_of_ofTree raw n h part m⟩
  intro he
  rw [he] at hdescription
  exact hdescription.1 rfl

/-- Reading inverts listing, and its image is known: what is read is well-built, and a well-built
notation without a document is read from every source that decodes to the tree that lists it. -/
theorem parse_inverts_toTree :
    (∀ source n, (Notation.parse source).result = .ok n → n.WellBuilt) ∧
      ∀ n : Notation, n.WellBuilt → n.document = none →
        ∀ absent : String → Option Tree, (∀ name, Blank (absent name)) →
          ∀ source, Yaml.decode source = .ok (n.toTree absent) →
            (Notation.parse source).result = .ok n := by
  refine ⟨?_, ?_⟩
  · intro source n h
    obtain ⟨raw, _, hraw⟩ := (Notation.parse_result_eq_ok_iff source n).mp h
    exact Notation.wellBuilt_of_ofTree_eq_ok raw n hraw
  · intro n hn hd absent habsent source hsource
    rw [Notation.parse_result_eq_ok_iff]
    exact ⟨_, hsource, Notation.ofTree_toTree absent habsent n hn hd⟩

def filing : Notation where
  -- a filing is signed again until the respondent agrees, and read by a reviewer who leads on to
  -- nothing
  metadata := ⟨"filing", "Filing", none, .orgAndPerson⟩
  document := none
  flow := ⟨.state "sign",
    [("sign", ⟨⟨"sign", []⟩, [⟨.choice "agreed", .finish⟩, ⟨.any, .state "sign"⟩]⟩)], by decide⟩
  alignment := some ⟨.state "review__for_court",
    [("review__for_court", ⟨⟨"review", ["for_court"]⟩, []⟩)], by decide⟩

def filingSource : String :=
  String.join
  ["respondent_type: org_and_person\n", "code: filing\n", "title: Filing\n",
    "alignment:\n", "  END: nowhere\n", "  review__for_court:\n", "  BEGIN:\n",
    "    first: review__for_court\n",
    "flow:\n", "  sign:\n", "    agreed: END\n", "    _: sign\n", "  BEGIN:\n", "    _: sign\n"]

def filingListed : String :=
  String.join
  ["code: filing\n", "title: Filing\n", "description: ~\n", "respondent_type: org_and_person\n",
    "flow:\n", "  BEGIN:\n", "    _: sign\n", "  sign:\n", "    agreed: END\n", "    _: sign\n",
    "alignment:\n", "  BEGIN:\n", "    _: review__for_court\n", "  review__for_court: \x7b\x7d\n"]

theorem parse_inverts_toTree_filing :
    (Notation.parse filingSource).result = .ok filing ∧ filing.WellBuilt ∧
      Yaml.decode filingListed = .ok (filing.toTree fun _ => some .null) ∧
      (Notation.parse filingListed).result = .ok filing := by
  obtain ⟨himage, hinverse⟩ := parse_inverts_toTree
  have hsource : (Notation.parse filingSource).result = .ok filing := by
    rw [Notation.parse, Yaml.decode, Yaml.read, filingSource, String.toList_join]
    decide +kernel
  have hwell : filing.WellBuilt := himage filingSource filing hsource
  have hlisted : Yaml.decode filingListed = .ok (filing.toTree fun _ => some .null) := by
    rw [Yaml.decode, Yaml.read, filingListed, String.toList_join]
    decide +kernel
  have hnull : ∀ _ : String, Blank (some .null) := fun _ => Or.inr (Or.inl rfl)
  exact ⟨hsource, hwell, hlisted, hinverse filing hwell rfl _ hnull filingListed hlisted⟩

end FlowNotation
