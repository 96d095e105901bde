import FlowNotation.Proofs.Fields
import Mathlib.Data.List.Nodup

/-! What reading guarantees of the machines of a notation: every destination is a declared state,
and the conditions of a node are distinct. -/
namespace FlowNotation

structure Node.WellBuilt (declared : List Text) (id : Text) (n : Node) : Prop where
  -- a node that may stand under `id` in a machine with the states `declared`
  question_eq : n.question = QuestionRef.ofStateId id
  conditions_nodup : (n.transitions.map Transition.condition).Nodup
  choice_ne_any : ∀ t ∈ n.transitions, t.condition ≠ .choice anyKey
  destination_declared : ∀ t ∈ n.transitions, ∀ s, t.destination = .state s → s ∈ declared

structure Machine.WellBuilt (m : Machine) : Prop where
  -- a machine that leads nowhere but to its own states
  id_ne : ∀ s ∈ m.nodes.keys, s ≠ beginKey ∧ s ≠ finishKey
  start_declared : ∀ s, m.start = .state s → s ∈ m.nodes.keys
  node : ∀ s n, m.nodes.get? s = some n → n.WellBuilt m.nodes.keys s

theorem Condition.ofText_injective (s t : Text) (h : Condition.ofText s = Condition.ofText t) :
    s = t := by
  unfold Condition.ofText at h
  split_ifs at h with hs ht
  · exact hs.trans ht.symm
  · exact Condition.choice.inj h

theorem Condition.ofText_ne_choice_any (s : Text) : Condition.ofText s ≠ .choice anyKey := by
  unfold Condition.ofText
  split_ifs with hs
  · exact Condition.noConfusion
  · exact fun h => hs (Condition.choice.inj h)

theorem Destination.ofText_eq_ok_iff (declared : List Text) (s : Text) (d : Destination) :
    Destination.ofText declared s = .ok d ↔
      (s = finishKey ∧ d = .finish) ∨ (s ≠ finishKey ∧ s ∈ declared ∧ d = .state s) := by
  unfold Destination.ofText
  split_ifs with hf hd
  · simp [hf, eq_comm]
  · simp [hf, List.contains_iff_mem.mp hd, eq_comm]
  · have hno : s ∉ declared := fun h => hd (List.contains_iff_mem.mpr h)
    simp [hf, hno]

theorem Destination.declared_of_ofText (declared : List Text) (s : Text) (d : Destination)
    (h : Destination.ofText declared s = .ok d) (t : Text) (ht : d = .state t) : t ∈ declared := by
  rcases (Destination.ofText_eq_ok_iff declared s d).mp h with ⟨_, hd⟩ | ⟨_, hs, hd⟩
  · cases hd.symm.trans ht
  · cases hd.symm.trans ht
    exact hs

/-- The start edge is read from a mapping with one pair. -/
theorem startOf_eq_ok_iff (part : Section) (declared : List Text) (raw : Option Yaml.Tree)
    (d : Destination) :
    startOf part declared raw = .ok d ↔
      ∃ c s, raw = some (.map [(.text c, .text s)]) ∧ Destination.ofText declared s = .ok d := by
  simp only [startOf, bind_eq_ok_iff, transitionTexts_eq_ok_iff]
  constructor
  · intro h
    obtain ⟨texts, hraw, h⟩ := h
    split at h
    · cases h
    · next s hvalues =>
      obtain ⟨⟨c, s'⟩, hentries, hs⟩ := List.map_eq_singleton_iff.mp hvalues
      dsimp only at hs
      subst hs
      rcases hraw with ⟨_, rfl⟩ | hraw
      · cases hentries
      · exact ⟨c, s', by rw [hraw, textPairs, hentries]; rfl, h⟩
    · cases h
  · intro h
    obtain ⟨c, s, hraw, h⟩ := h
    exact ⟨⟨[(c, s)], List.nodup_singleton c⟩, Or.inr hraw, h⟩

theorem start_declared_of_startOf (part : Section) (declared : List Text)
    (raw : Option Yaml.Tree) (d : Destination) (h : startOf part declared raw = .ok d) (s : Text)
    (hs : d = .state s) : s ∈ declared := by
  obtain ⟨_, t, _, ht⟩ := (startOf_eq_ok_iff part declared raw d).mp h
  exact Destination.declared_of_ofText declared t d ht s hs

def Transition.Spells (declared : List Text) (e : Text × Text) (t : Transition) : Prop :=
  -- a transition as it is read from the texts of its condition and its destination
  t.condition = Condition.ofText e.1 ∧ Destination.ofText declared e.2 = .ok t.destination

/-- A node asks the question of its id and has the transitions that are written. -/
theorem Node.ofTree_eq_ok_iff (part : Section) (declared : List Text) (id : Text)
    (raw : Yaml.Tree) (n : Node) :
    Node.ofTree part declared id raw = .ok n ↔
      ∃ texts, transitionTexts (part.name ++ "." ++ id) (some raw) = .ok texts ∧
        n.question = QuestionRef.ofStateId id ∧
        List.Forall₂ (Transition.Spells declared) texts.entries n.transitions := by
  -- the loop reads one transition from one pair of texts
  have hstep : ∀ (e : Text × Text) (t : Transition),
      (do return (⟨Condition.ofText e.1, ← Destination.ofText declared e.2⟩ : Transition)) =
        Except.ok t ↔ t.Spells declared e := by
    intro e t
    rw [bind_eq_ok_iff]
    constructor
    · intro h
      obtain ⟨d, hd, ht⟩ := h
      cases ht
      exact ⟨rfl, hd⟩
    · intro h
      obtain ⟨hc, hd⟩ := h
      exact ⟨t.destination, hd, congrArg Except.ok (by rw [← hc])⟩
  simp only [Node.ofTree, Table.mapValuesM, bind_eq_ok_iff, mapM_eq_ok_iff, hstep]
  constructor
  · intro h
    obtain ⟨texts, ht, ts, hts, hn⟩ := h
    cases hn
    exact ⟨texts, ht, rfl, hts⟩
  · intro h
    obtain ⟨texts, ht, hq, hts⟩ := h
    exact ⟨texts, ht, n.transitions, hts, congrArg Except.ok (by rw [← hq])⟩

/-- A node that is read has distinct conditions and declared targets. -/
theorem Node.wellBuilt_of_ofTree (part : Section) (declared : List Text) (id : Text)
    (raw : Yaml.Tree) (n : Node) (h : Node.ofTree part declared id raw = .ok n) :
    n.WellBuilt declared id := by
  obtain ⟨texts, _, hq, hts⟩ := (Node.ofTree_eq_ok_iff part declared id raw n).mp h
  have hc : n.transitions.map Transition.condition = texts.keys.map Condition.ofText := by
    have he : List.Forall₂ (· = ·) (n.transitions.map Transition.condition)
        (texts.keys.map Condition.ofText) := by
      rw [Table.keys, List.map_map, List.forall₂_map_left_iff, List.forall₂_map_right_iff]
      exact (hts.imp fun _ _ hs => hs.1).flip
    exact List.forall₂_eq_eq_eq ▸ he
  refine ⟨hq, ?_, ?_, ?_⟩
  -- the texts are the keys of a table, and different texts are different conditions
  · rw [hc]
    exact List.Nodup.map (fun s t => Condition.ofText_injective s t) texts.nodup
  · intro t ht
    obtain ⟨e, _, hs⟩ := exists_left_of_forall₂ hts ht
    rw [hs.1]
    exact Condition.ofText_ne_choice_any e.1
  · intro t ht s hd
    obtain ⟨e, _, hs⟩ := exists_left_of_forall₂ hts ht
    exact Destination.declared_of_ofText declared e.2 t.destination hs.2 s hd

def ownStates (states : Table Text Yaml.Tree) : Table Text Yaml.Tree :=
  -- the states that get nodes: all but the start edge's key and the final one
  states.filter fun k _ => k ≠ beginKey && k ≠ finishKey

/-- A machine is read from a mapping of states: its start from the start edge's entry, and a node
from each of its own states. -/
theorem Machine.ofTree_result_eq_ok_iff (part : Section) (raw : Yaml.Tree) (m : Machine) :
    (Machine.ofTree part raw).result = .ok m ↔
      ∃ states : Fields, raw = .map states.pairs ∧
        startOf part (ownStates states).keys (states.get? beginKey) = .ok m.start ∧
        (ownStates states).Matches (fun id raw n =>
          Node.ofTree part (ownStates states).keys id raw = .ok n) m.nodes := by
  -- a node is the one read, whether a warning was noted or not
  have hnode : ∀ declared id raw n,
      ((do
        let n ← Node.ofTree part declared id raw
        if n.shadowed ≠ [] then Reading.warn ⟨id, part, n.shadowed.length⟩
        return n : Reading Node).result = .ok n) ↔ Node.ofTree part declared id raw = .ok n := by
    intro declared id raw n
    rw [Reading.result_bind, Reading.result_lift, bind_eq_ok_iff]
    constructor
    · intro h
      obtain ⟨n', hn', h⟩ := h
      split_ifs at h
      · cases h
        exact hn'
      · cases h
        exact hn'
    · intro h
      refine ⟨n, h, ?_⟩
      split_ifs
      · rfl
      · rfl
  simp only [Machine.ofTree, Table.mapValuesM, Reading.result_bind (α := Table _ _),
    Reading.result_bind (α := Destination), Reading.result_bind (α := List Node),
    Reading.result_lift, Reading.result_mapM, Reading.result_pure, bind_eq_ok_iff, mapM_eq_ok_iff,
    hnode, stateTrees_eq_ok_iff, Table.matches_iff]
  constructor
  · intro h
    obtain ⟨states, hstates, start, hstart, nodes, hnodes, hm⟩ := h
    cases hm
    exact ⟨states, hstates, hstart, nodes, hnodes, rfl⟩
  · intro h
    obtain ⟨states, hstates, hstart, nodes, hnodes, hm⟩ := h
    exact ⟨states, hstates, m.start, hstart, nodes, hnodes, congrArg Except.ok (by
      cases m
      cases hm
      rfl)⟩

/-- A machine that is read is well built. -/
theorem Machine.wellBuilt_of_ofTree (part : Section) (raw : Yaml.Tree) (m : Machine)
    (h : (Machine.ofTree part raw).result = .ok m) : m.WellBuilt := by
  obtain ⟨states, _, hstart, hnodes⟩ := (Machine.ofTree_result_eq_ok_iff part raw m).mp h
  -- the declared states, against which destinations were read, are the ones that got nodes
  have hk : m.nodes.keys = (ownStates states).keys := hnodes.keys_eq
  refine ⟨?_, ?_, ?_⟩
  · intro s hs
    rw [hk, ownStates, Table.mem_keys_filter_iff] at hs
    obtain ⟨_, _, hne⟩ := hs
    simpa using hne
  · intro s hs
    rw [hk]
    exact start_declared_of_startOf part _ _ m.start hstart s hs
  · intro s n hn
    obtain ⟨raw, _, hr⟩ := hnodes.get?_left hn
    rw [hk]
    exact Node.wellBuilt_of_ofTree part _ s raw n hr

theorem Machine.not_blank_of_ofTree (part : Section) (raw : Yaml.Tree) (m : Machine)
    (h : (Machine.ofTree part raw).result = .ok m) : ¬ Blank (some raw) := by
  obtain ⟨states, rfl, _⟩ := (Machine.ofTree_result_eq_ok_iff part raw m).mp h
  exact not_blank_map _

/-- A field from which a machine is read has something to say. -/
theorem Fields.value?_eq_some_of_machine (fs : Fields) (name : String) (part : Section)
    (raw : Yaml.Tree) (m : Machine) (hget : fs.get? name = some raw)
    (hm : (Machine.ofTree part raw).result = .ok m) : fs.value? name = some raw := by
  rw [value?_eq_some_iff, hget]
  exact ⟨rfl, Machine.not_blank_of_ofTree part raw m hm⟩

structure Notation.ReadsFrom (n : Notation) (fs : Fields) : Prop where
  -- the parts of a notation as they are read from fields, each from its own
  metadata : Metadata.ofFields fs = .ok n.metadata
  flow : ∃ raw, fs.get? "flow" = some raw ∧ (Machine.ofTree .flow raw).result = .ok n.flow
  alignment : (Blank (fs.get? "alignment") ∧ n.alignment = none) ∨
    ∃ raw m, fs.get? "alignment" = some raw ∧ (Machine.ofTree .alignment raw).result = .ok m ∧
      n.alignment = some m
  document : Document.ofFields fs = .ok n.document

theorem Notation.readsFrom_of_ofTree (raw : Yaml.Tree) (n : Notation)
    (h : (Notation.ofTree raw).result = .ok n) :
    ∃ fs : Fields, raw = .map fs.pairs ∧ n.ReadsFrom fs := by
  unfold Notation.ofTree at h
  split at h
  · simp only [Reading.result_bind, Reading.result_lift, bind_eq_ok_iff,
      Fields.ofPairs_eq_ok_iff] at h
    obtain ⟨fs, rfl, metadata, hmetadata, h⟩ := h
    refine ⟨fs, rfl, ?_⟩
    split at h
    · next flow hflow =>
      obtain ⟨hget, _⟩ := (fs.value?_eq_some_iff "flow" flow).mp hflow
      obtain ⟨m, hm, h⟩ := (bind_eq_ok_iff _ _ _).mp (Reading.result_bind _ _ ▸ h)
      split at h
      -- without an alignment there is nothing more to read
      · next hnone =>
        rw [Fields.value?_eq_none_iff] at hnone
        simp only [Reading.result_bind, Reading.result_lift, Reading.result_pure,
          bind_eq_ok_iff] at h
        obtain ⟨alignment, ha, document, hdocument, h⟩ := h
        cases ha
        cases h
        exact ⟨hmetadata, ⟨flow, hget, hm⟩, Or.inl ⟨hnone, rfl⟩, hdocument⟩
      · next raw hsome =>
        obtain ⟨hraw, _⟩ := (fs.value?_eq_some_iff "alignment" raw).mp hsome
        simp only [Reading.result_bind, Reading.result_lift, Reading.result_pure,
          Reading.result_map, bind_eq_ok_iff, map_eq_ok_iff] at h
        obtain ⟨_, ⟨m', hm', rfl⟩, document, hdocument, h⟩ := h
        cases h
        exact ⟨hmetadata, ⟨flow, hget, hm⟩, Or.inr ⟨raw, m', hraw, hm', rfl⟩, hdocument⟩
    · cases h
  · cases h

/-- Fields that say what a notation has are read as the notation. -/
theorem Notation.ofTree_of_readsFrom (fs : Fields) (n : Notation) (h : n.ReadsFrom fs) :
    (Notation.ofTree (.map fs.pairs)).result = .ok n := by
  obtain ⟨metadata, document, m, alignment⟩ := n
  obtain ⟨hmetadata, ⟨flow, hflow, hm⟩, ha, hdocument⟩ := h
  have hfs : Fields.ofPairs "notation" fs.pairs = .ok fs :=
    (Fields.ofPairs_eq_ok_iff "notation" fs.pairs fs).mpr rfl
  simp only [Notation.ofTree, Reading.result_bind, Reading.result_lift, bind_eq_ok_iff]
  refine ⟨fs, hfs, metadata, hmetadata, ?_⟩
  rw [fs.value?_eq_some_of_machine "flow" .flow flow m hflow hm]
  rcases ha with ⟨hblank, rfl⟩ | ⟨raw, m', hget, hm', rfl⟩
  · rw [(fs.value?_eq_none_iff "alignment").mpr hblank]
    simp only [Reading.result_bind, Reading.result_lift, Reading.result_pure, bind_eq_ok_iff]
    exact ⟨m, hm, none, rfl, document, hdocument, rfl⟩
  · rw [fs.value?_eq_some_of_machine "alignment" .alignment raw m' hget hm']
    simp only [Reading.result_bind, Reading.result_lift, Reading.result_pure,
      Reading.result_map, bind_eq_ok_iff, map_eq_ok_iff]
    exact ⟨m, hm, some m', ⟨m', hm', rfl⟩, document, hdocument, rfl⟩

/-- A notation is read from the fields of a mapping. -/
theorem Notation.ofTree_result_eq_ok_iff (raw : Yaml.Tree) (n : Notation) :
    (Notation.ofTree raw).result = .ok n ↔
      ∃ fs : Fields, raw = .map fs.pairs ∧ n.ReadsFrom fs := by
  constructor
  · exact Notation.readsFrom_of_ofTree raw n
  · intro h
    obtain ⟨fs, rfl, hn⟩ := h
    exact Notation.ofTree_of_readsFrom fs n hn

theorem Notation.wellBuilt_of_ofTree (raw : Yaml.Tree) (n : Notation)
    (h : (Notation.ofTree raw).result = .ok n) (part : Section) (m : Machine)
    (hm : (part, m) ∈ n.machines) : m.WellBuilt := by
  obtain ⟨_, _, hn⟩ := (Notation.ofTree_result_eq_ok_iff raw n).mp h
  obtain ⟨_, ⟨flow, _, hflow⟩, ha, _⟩ := hn
  simp only [Notation.machines, List.mem_cons, Option.mem_toList, Option.map_eq_some_iff,
    Prod.mk.injEq] at hm
  rcases hm with ⟨rfl, rfl⟩ | ⟨m', hm', rfl, rfl⟩
  · exact Machine.wellBuilt_of_ofTree .flow flow n.flow hflow
  · rcases ha with ⟨_, ha⟩ | ⟨alignment, m'', _, hread, ha⟩
    · cases hm'.symm.trans ha
    · cases hm'.symm.trans ha
      exact Machine.wellBuilt_of_ofTree .alignment alignment m' hread

/-- What is read from a source is what is read from the tree that it decodes to. -/
theorem Notation.parse_result_eq_ok_iff (source : String) (n : Notation) :
    (Notation.parse source).result = .ok n ↔
      ∃ raw, Yaml.decode source = .ok raw ∧ (Notation.ofTree raw).result = .ok n := by
  unfold Notation.parse
  cases Yaml.decode source with
  | error e =>
    constructor
    · intro h
      cases h
    · intro h
      obtain ⟨raw, hraw, _⟩ := h
      cases hraw
  | ok raw => simp

/-- The machines of a notation that was read are well-built. -/
theorem Notation.wellBuilt_of_parse (source : String) (n : Notation)
    (h : (Notation.parse source).result = .ok n) (part : Section) (m : Machine)
    (hm : (part, m) ∈ n.machines) : m.WellBuilt := by
  obtain ⟨raw, _, hraw⟩ := (Notation.parse_result_eq_ok_iff source n).mp h
  exact Notation.wellBuilt_of_ofTree raw n hraw part m hm

/-! ## A form

The intake of a company asks for its kind until the answer is known. An LLC is asked for its name
and may go back; a trust is asked for its trustee forever. -/

def intakeLines : List String :=
  ["code: intake\n", "title: Entity intake\n", "flow:\n",
    "  BEGIN:\n", "    _: kind\n",
    "  kind:\n", "    llc: name__for_llc\n", "    trust: trustee\n", "    _: kind\n",
    "  name__for_llc:\n", "    again: kind\n", "    _: END\n",
    "  trustee:\n", "    _: trustee\n"]

def intakeSource : String := String.join intakeLines

def intakeKind : Node :=
  ⟨⟨"kind", []⟩, [⟨.choice "llc", .state "name__for_llc"⟩, ⟨.choice "trust", .state "trustee"⟩,
    ⟨.any, .state "kind"⟩]⟩

def intakeName : Node :=
  ⟨⟨"name", ["for_llc"]⟩, [⟨.choice "again", .state "kind"⟩, ⟨.any, .finish⟩]⟩

def intakeTrustee : Node := ⟨⟨"trustee", []⟩, [⟨.any, .state "trustee"⟩]⟩

def intakeFlow : Machine where
  start := .state "kind"
  nodes.entries :=
    [("kind", intakeKind), ("name__for_llc", intakeName), ("trustee", intakeTrustee)]
  nodes.nodup := by decide +kernel

def intake : Notation := ⟨⟨"intake", "Entity intake", none, .org⟩, none, intakeFlow, none⟩

theorem parse_intakeSource : (Notation.parse intakeSource).result = .ok intake := by
  -- line by line, since the kernel decodes long strings slowly
  rw [Notation.parse, intakeSource, Yaml.decode_join]
  decide +kernel

end FlowNotation
