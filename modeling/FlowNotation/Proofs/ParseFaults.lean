import FlowNotation.Notation.Parse
import FlowNotation.Proofs.LexerFaults
import FlowNotation.Proofs.Readings

/-! Why a source is refused. Whatever tree it spells, to make a notation of it fails with faults that
are told to the author alone; only texts that cannot be read have others, and these texts spell out
why. -/
namespace FlowNotation
open Yaml (Tree)

inductive SourceFault.Own : SourceFault → Prop
  -- the faults that parsing tells the author of a source
  | broken : Own (.unreadable .malformed)
  | shape (fault : ShapeFault) : Own (.shape fault)
  | missing (field : Text) : Own (.missing field)
  | invalid (field : Text) (fault : ValueFault) : Own (.invalid field fault)
  | duplicateState (id : Text) : Own (.duplicateState id)
  | unknownState (id : Text) : Own (.unknownState id)

/-- A fault of the notation's own is always reported. -/
theorem SourceFault.Own.isReported {e : SourceFault} (h : e.Own) : e.isReported = true := by
  cases h <;> rfl

abbrev Tells {α : Type} (r : Except SourceFault α) : Prop :=
  -- a step from a tree that fails with a fault of its own at most
  Ends r (fun _ => True) SourceFault.Own

/-- A list of entries is collected, or the fault is one entry's or a repeated key. -/
theorem tells_collect {ι α : Type} {read : ι → Except SourceFault (Text × α)}
    {again : Text → SourceFault} (items : List ι) (hread : ∀ i, Tells (read i))
    (hagain : ∀ k, (again k).Own) : Tells (Table.collect read again items) :=
  ends_foldlM fun t i => (hread i).bind fun e _ => by
    obtain ⟨k, a⟩ := e
    dsimp only
    split
    · exact hagain k
    · trivial

/-- Two readings in a row fail as one of them does. -/
theorem tells_reading {α β : Type} {r : Reading α} {f : α → Reading β} (h : Tells r.result)
    (hf : ∀ a, Tells (f a).result) : Tells (r >>= f).result := by
  rw [Reading.result_bind]
  exact h.bind fun a _ => hf a

/-! ## Fields -/

namespace Fields

variable (fs : Fields) (name : String)

theorem tells_ofPairs (place : Text) (pairs : List (Tree × Tree)) :
    Tells (ofPairs place pairs) := by
  refine tells_collect pairs (fun p => ?_) fun k => .shape _
  split
  · trivial
  · exact .shape _

theorem tells_text? : Tells (fs.text? name) := by
  rw [text?]
  split
  · trivial
  · trivial
  · exact .shape _

theorem tells_requiredText : Tells (fs.requiredText name) := by
  refine (fs.tells_text? name).bind fun s _ => ?_
  split
  · exact ends_ite (fun _ => trivial) fun _ => .missing _
  · exact .missing _

end Fields

/-! ## Machines -/

section Machine

variable (part : Section) (declared : List Text)

theorem tells_destination (s : Text) : Tells (Destination.ofText declared s) :=
  ends_ite (fun _ => trivial) fun _ => ends_ite (fun _ => trivial) fun _ => .unknownState _

theorem tells_transitionTexts (place : Text) (raw : Option Tree) :
    Tells (transitionTexts place raw) := by
  rw [transitionTexts]
  split
  · trivial
  · refine tells_collect _ (fun p => ?_) fun c => .shape _
    split
    · trivial
    · exact .shape _
  · exact .shape _

/-- A machine that is no mapping of states has a fault of its own. -/
theorem tells_stateTrees (raw : Tree) : Tells (stateTrees part raw) := by
  rw [stateTrees.eq_def]
  split
  · refine tells_collect _ (fun p => ?_) fun c => .duplicateState _
    split
    · trivial
    · exact .shape _
  · exact .shape _

theorem tells_startOf (raw : Option Tree) : Tells (startOf part declared raw) := by
  refine (tells_transitionTexts _ raw).bind fun texts _ => ?_
  split
  · exact .missing _
  · exact tells_destination declared _
  · exact .invalid _ _

/-- A state is read, or one of its transitions is at fault. -/
theorem tells_node (id : Text) (raw : Tree) : Tells (Node.ofTree part declared id raw) := by
  refine (tells_transitionTexts _ _).bind fun texts _ => ?_
  refine (ends_mapM fun e _ => ?_).bind fun _ _ => trivial
  exact (tells_destination declared e.2).bind fun _ _ => trivial

/-- A machine is read, or has a fault of its own. -/
theorem tells_machine (raw : Tree) : Tells (Machine.ofTree part raw).result := by
  rw [Machine.ofTree]
  refine tells_reading (tells_stateTrees part raw) fun states => ?_
  refine tells_reading (tells_startOf part _ _) fun start => ?_
  refine tells_reading ?_ fun _ => trivial
  rw [Table.mapValuesM, Reading.result_mapM]
  refine ends_mapM fun e _ => tells_reading (tells_node part _ e.1 e.2) fun n => ?_
  -- a warning is no fault
  split
  · trivial
  · trivial

end Machine

/-! ## Documents -/

section Document

variable (place : Text) (fs : Fields)

theorem tells_pageOf (raw : Option Tree) : Tells (pageOf place raw) := by
  rw [pageOf.eq_def]
  split
  · trivial
  · dsimp only
    split
    · exact .invalid _ _
    · exact ends_ite (fun _ => .invalid _ _) fun _ => trivial

theorem tells_pointOf (raw : Option Tree) : Tells (pointOf place raw) := by
  rw [pointOf.eq_def]
  split
  · split
    · exact ends_ite (fun _ => trivial) fun _ => .invalid _ _
    · exact .invalid _ _
  · trivial

/-- Four corners are read, or one of them has a coordinate that is no number. -/
theorem tells_quadOf : Tells (quadOf place fs) := by
  refine (tells_pointOf _ _).bind fun _ _ => (tells_pointOf _ _).bind fun _ _ =>
    (tells_pointOf _ _).bind fun _ _ => (tells_pointOf _ _).bind fun _ _ => ?_
  split
  · trivial
  · trivial

theorem tells_placement (field : Text) (raw : Tree) : Tells (Placement.ofTree field raw) := by
  have hend : ∀ fs, Tells (do
      let page ← pageOf ("document_mappings." ++ field ++ ".page") (fs.value? "page")
      let quad ← quadOf ("document_mappings." ++ field) fs
      return (⟨page, quad⟩ : Placement)) :=
    fun fs => (tells_pageOf _ _).bind fun _ _ => (tells_quadOf _ fs).bind fun _ _ => trivial
  rw [Placement.ofTree.eq_def]
  refine ends_ite (fun _ => hend .empty) fun _ => ?_
  split
  · exact (Fields.tells_ofPairs _ _).bind fun fs _ => hend fs
  · exact .shape _

theorem tells_placementsOf (raw : Option Tree) : Tells (placementsOf raw) := by
  rw [placementsOf.eq_def]
  split
  · trivial
  · refine (Fields.tells_ofPairs _ _).bind fun fs _ => ?_
    exact (ends_mapM fun e _ => tells_placement e.1 e.2).bind fun _ _ => trivial
  · exact .shape _

theorem tells_documentTypeOf (name : Option Text) : Tells (documentTypeOf name) := by
  rw [documentTypeOf.eq_def]
  split
  · trivial
  · split
    · trivial
    · exact .invalid _ _

/-- A document is read, or has a fault of its own. -/
theorem tells_document : Tells (Document.ofFields fs) := by
  rw [Document.ofFields]
  refine ends_ite (fun _ => trivial) fun _ => ?_
  refine (fs.tells_text? _).bind fun name _ => (tells_documentTypeOf name).bind fun _ _ => ?_
  exact (tells_placementsOf _).bind fun _ _ => (fs.tells_text? _).bind fun _ _ => trivial

end Document

/-! ## Notations -/

section Notation

variable (fs : Fields)

theorem tells_respondentOf (name : Option Text) : Tells (respondentOf name) := by
  rw [respondentOf.eq_def]
  split
  · trivial
  · split
    · trivial
    · exact .invalid _ _

/-- The heading is read, or has a fault of its own. -/
theorem tells_metadata : Tells (Metadata.ofFields fs) := by
  refine (fs.tells_requiredText _).bind fun _ _ => (fs.tells_requiredText _).bind fun _ _ => ?_
  refine (fs.tells_text? _).bind fun _ _ => (fs.tells_text? _).bind fun name _ => ?_
  exact (tells_respondentOf name).bind fun _ _ => trivial

/-- Whatever tree is made into a notation, a failure is told to the author. -/
theorem tells_notation (raw : Tree) : Tells (Notation.ofTree raw).result := by
  rw [Notation.ofTree.eq_def]
  split
  · refine tells_reading (Fields.tells_ofPairs _ _) fun fs => ?_
    refine tells_reading (tells_metadata fs) fun metadata => ?_
    split
    · rename_i flow _
      refine tells_reading (tells_machine .flow flow) fun flow => ?_
      -- the document comes last, with an alignment and without
      have hend : ∀ alignment, Tells (do
          let document ← (Document.ofFields fs : Reading (Option Document))
          return (⟨metadata, document, flow, alignment⟩ : Notation)).result :=
        fun _ => tells_reading (tells_document fs) fun _ => trivial
      split
      · exact hend none
      · rename_i raw _
        refine tells_reading ?_ hend
        have halignment := tells_machine .alignment raw
        rw [Reading.result_map]
        cases hresult : (Machine.ofTree .alignment raw).result with
        | ok m => trivial
        | error e =>
          rw [hresult] at halignment
          exact halignment
    · exact .missing _
  · exact .shape _

/-- A text that is not read as a notation is refused for a reason of its own, told to its author, or
it spells out an escape or a version that stops the reader. -/
theorem parse_tells_or_grounded (source : String) :
    (∃ n, (Notation.parse source).result = .ok n) ∨
      (∃ e, (Notation.parse source).result = .error e ∧ e.Own) ∨
      ∃ cause, (Notation.parse source).result = .error (.unreadable cause) ∧ cause ≠ .malformed ∧
        cause.Grounded source.toList := by
  have hread := Yaml.ends_read Tree.ofScalar source
  rw [Notation.parse, Yaml.decode]
  cases hdecode : Yaml.read Tree.ofScalar source with
  | error cause =>
    rw [hdecode] at hread
    -- only a broken grammar is told to the author; other causes have grounds in the text
    by_cases hcause : cause = .malformed
    · subst hcause
      exact .inr (.inl ⟨_, rfl, .broken⟩)
    · exact .inr (.inr ⟨cause, rfl, hcause, hread⟩)
  | ok raw =>
    have hraw := tells_notation raw
    dsimp only
    cases hresult : (Notation.ofTree raw).result with
    | ok n => exact .inl ⟨n, rfl⟩
    | error e =>
      rw [hresult] at hraw
      exact .inr (.inl ⟨e, rfl, hraw⟩)

/-- An escape of more than 31 bits is such a reason. -/
theorem parse_wideEscape :
    (Notation.parse "c: \"\\UFFFFFFFF\"\n").result = .error (.unreadable .escapeTooWide) ∧
      ¬ (SourceFault.unreadable .escapeTooWide).Own := by
  refine ⟨by decide +kernel, ?_⟩
  rintro ⟨⟩

end Notation

end FlowNotation
