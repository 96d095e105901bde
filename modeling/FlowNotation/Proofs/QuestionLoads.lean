import FlowNotation.Proofs.Loads
import FlowNotation.Proofs.QuestionRows
import FlowNotation.Question.Load
import Mathlib.Data.List.Induction

/-! Loads of question catalogues. A catalogue is made of all rows of its file or not at all, and of rows
with one code the last counts. So neither the order of the others matters nor that in which a mapping of
choices is written. -/
namespace FlowNotation.Questions

/-! ## The rows of a file -/

inductive Holds : Value → List Value → Prop
  -- a document holds a list of rows, or a mapping with such a list
  | bare (rows : List Value) : Holds (.list rows) rows
  | listed (fields : List (Text × Value)) (rows : List Value)
      (h : (Value.mapping fields).field? "questions" = some (.list rows)) :
      Holds (.mapping fields) rows
  | unlisted (fields : List (Text × Value))
      (h : (Value.mapping fields).field? "questions" = none) : Holds (.mapping fields) []
  | empty (data : Value) (h : data.isEmpty = true) : Holds data []

theorem rowsOf_of_holds {data : Value} {rows : List Value} (h : Holds data rows) :
    rowsOf data = rows := by
  cases h with
  | bare => cases rows <;> rfl
  | listed fields _ h =>
    cases fields with
    | nil => cases h
    | cons f fields => simp only [rowsOf, Value.isEmpty, List.isEmpty_cons, h]; rfl
  | unlisted fields h =>
    cases fields with
    | nil => rfl
    | cons f fields => simp only [rowsOf, Value.isEmpty, List.isEmpty_cons, h]; rfl
  | empty _ h => simp only [rowsOf, h, if_true]

def Lists (bytes : List UInt8) (rows : List Value) : Prop :=
  ∃ cs data, Text.decodeUtf8 bytes = .ok cs ∧
    (Yaml.read Yaml.Tree.ofScalarText (String.ofList (Text.unifyLineEnds cs))).bind Value.ofTree =
      .ok data ∧ Holds data rows

/-- A file that lists rows is loaded as its rows are. -/
theorem ofBytes_of_lists {bytes : List UInt8} {rows : List Value} (h : Lists bytes rows) :
    ofBytes bytes = (ofRows rows).mapError .row := by
  obtain ⟨cs, data, hcs, hdata, hrows⟩ := h
  have hdecode : (Text.decodeUtf8 bytes).mapError QuestionsFault.undecodable = .ok cs :=
    (mapError_eq_ok_iff _ _ cs).mpr hcs
  have hread := (mapError_eq_ok_iff _ QuestionsFault.unreadable data).mpr hdata
  rw [ofBytes, hdecode]
  simp only [bind, Except.bind]
  rw [ofText, hread, ← rowsOf_of_holds hrows]
  rfl

/-! ## The last row of a code -/

def IsLastRow (rows : List Value) (code : Text) (row : Value) : Prop :=
  ∃ before after, rows = before ++ row :: after ∧ row.code? = some code ∧
    ∀ r ∈ after, r.code? ≠ some code

def lastRow? (rows : List Value) (code : Text) : Option Value :=
  rows.reverse.find? fun row => row.code? = some code

theorem lastRow?_eq_some_iff (rows : List Value) (code : Text) (row : Value) :
    lastRow? rows code = some row ↔ IsLastRow rows code row := by
  rw [lastRow?, IsLastRow, List.find?_eq_some_iff_append]
  simp only [decide_eq_true_eq, Bool.not_eq_true', decide_eq_false_iff_not]
  constructor
  · rintro ⟨hcode, after, before, hsplit, hafter⟩
    refine ⟨before.reverse, after.reverse, ?_, hcode, ?_⟩
    · rw [← List.reverse_reverse rows, hsplit]
      simp
    · intro r hr
      exact hafter r (List.mem_reverse.mp hr)
  · rintro ⟨before, after, rfl, hcode, hafter⟩
    refine ⟨hcode, after.reverse, before.reverse, by simp, ?_⟩
    intro r hr
    exact hafter r (List.mem_reverse.mp hr)

theorem ofDefinitions_concat (ds : List Definition) (d : Definition) :
    ofDefinitions (ds ++ [d]) = (ofDefinitions ds).insert d.code d := by
  simp [ofDefinitions, Table.ofList]

/-- Under a code stands the last definition with it. -/
theorem get?_ofDefinitions (ds : List Definition) (code : Text) :
    (ofDefinitions ds).get? code = ds.reverse.find? fun d => d.code = code := by
  induction ds using List.reverseRecOn with
  | nil => rfl
  | append_singleton ds d ih =>
    rw [ofDefinitions_concat, Table.get?_insert, ih, List.reverse_concat, List.find?_cons]
    by_cases h : d.code = code
    · rw [if_pos h.symm, decide_eq_true h]
    · rw [if_neg (Ne.symm h), decide_eq_false h]

/-- A definition of a code is found where a row of the code is. -/
theorem find?_of_forall₂ (code : Text) {rows : List Value} {ds : List Definition}
    (h : List.Forall₂ (fun row d => Definition.ofRow row = .ok d) rows ds) :
    (ds.find? fun d => d.code = code) =
      (rows.find? fun row => row.code? = some code).bind fun row => (Definition.ofRow row).toOption := by
  induction h with
  | nil => rfl
  | @cons row d rows ds hd _ ih =>
    have hrow := (Definition.columns_of_ofRow hd).1
    rw [List.find?_cons, List.find?_cons, hrow]
    by_cases hcode : d.code = code
    · simp [hcode, hd, Except.toOption]
    · simpa [hcode] using ih

/-! ## Catalogues -/

theorem ofRows_eq_ok_iff (rows : List Value) (qs : Questions) :
    ofRows rows = .ok qs ↔ ∃ ds, List.Forall₂ (fun row d => Definition.ofRow row = .ok d) rows ds ∧
      qs = ofDefinitions ds := by
  simp only [ofRows, bind_eq_ok_iff, mapM_eq_ok_iff]
  refine exists_congr fun ds => and_congr_right fun _ => ?_
  exact ⟨fun h => (Except.ok.inj h).symm, fun h => congrArg Except.ok h.symm⟩

def FirstFault (rows : List Value) (cause : RowFault) : Prop :=
  -- all rows before the first one that cannot be converted can be, and `cause` is why it cannot
  ∃ before row after, rows = before ++ row :: after ∧
    (∀ r ∈ before, ∃ d, Definition.ofRow r = .ok d) ∧ Definition.ofRow row = .error cause

theorem ofRows_eq_error_iff (rows : List Value) (cause : RowFault) :
    ofRows rows = .error cause ↔ FirstFault rows cause := by
  rw [FirstFault, ← mapM_eq_error_iff, ofRows, bind_eq_error_iff]
  refine or_iff_left ?_
  rintro ⟨ds, -, h⟩
  cases h

/-- A catalogue is loaded when every row can be converted. -/
theorem exists_ofRows_iff (rows : List Value) :
    (∃ qs, ofRows rows = .ok qs) ↔ ∀ row ∈ rows, ∃ d, Definition.ofRow row = .ok d := by
  simp only [ofRows_eq_ok_iff]
  rw [← exists_forall₂_iff]
  constructor
  · rintro ⟨_, ds, hds, _⟩
    exact ⟨ds, hds⟩
  · rintro ⟨ds, hds⟩
    exact ⟨_, ds, hds, rfl⟩

theorem get?_of_ofRows {rows : List Value} {qs : Questions} (h : ofRows rows = .ok qs) (code : Text) :
    qs.get? code = (lastRow? rows code).bind fun row => (Definition.ofRow row).toOption := by
  obtain ⟨ds, hds, rfl⟩ := (ofRows_eq_ok_iff rows qs).mp h
  rw [get?_ofDefinitions, lastRow?]
  exact find?_of_forall₂ code (List.forall₂_reverse_iff.mpr hds)

/-- A question is found with what the last row of its code says. -/
theorem get?_of_ofRows_eq_some_iff {rows : List Value} {qs : Questions} (h : ofRows rows = .ok qs)
    (code : Text) (d : Definition) : qs.get? code = some d ↔
      ∃ row, IsLastRow rows code row ∧ Definition.ofRow row = .ok d := by
  have hconverts : ∀ row, (Definition.ofRow row).toOption = some d ↔ Definition.ofRow row = .ok d := by
    intro row
    cases Definition.ofRow row with
    | error cause => exact iff_of_false (fun h => nomatch h) (fun h => nomatch h)
    | ok d' => simp [Except.toOption]
  simp only [get?_of_ofRows h, Option.bind_eq_some_iff, lastRow?_eq_some_iff, hconverts]

/-! ## Other orders -/

def DistinctCodes (rows : List Value) : Prop :=
  rows.Pairwise fun r r' => ∀ code, r.code? = some code → r'.code? ≠ some code

structure Reordered (rows rows' : List Value) : Prop where
  -- the same rows, of which those with one code stand in the same order
  perm : rows.Perm rows'
  sameOrder : ∀ code, rows.filter (fun r => r.code? = some code) =
    rows'.filter fun r => r.code? = some code

/-- Where no code stands twice, every order of the rows is as good. -/
theorem reordered_of_distinctCodes {rows rows' : List Value} (h : rows.Perm rows')
    (hdistinct : DistinctCodes rows) : Reordered rows rows' := by
  refine ⟨h, ?_⟩
  intro code
  have hdistinct' : DistinctCodes rows' :=
    h.pairwise hdistinct fun hrr' c hc' hc => hrr' c hc hc'
  -- of one code there is at most one row, and so just one order
  apply (h.filter _).eq_of_pairwise _ (hdistinct.filter _) (hdistinct'.filter _)
  intro r r' hr hr' hrr' _
  have hcode : r.code? = some code := by simpa using (List.mem_filter.mp hr).2
  have hcode' : r'.code? = some code := by simpa using (List.mem_filter.mp hr').2
  exact absurd hcode' (hrr' code hcode)

/-- Two neighbours of different codes may change places. -/
theorem reordered_swap (before after : List Value) (r r' : Value)
    (h : ∀ code, r.code? = some code → r'.code? ≠ some code) :
    Reordered (before ++ r :: r' :: after) (before ++ r' :: r :: after) := by
  refine ⟨(List.Perm.swap r' r after).append_left before, ?_⟩
  intro code
  by_cases hcode : r.code? = some code
  · simp [hcode, h code hcode]
  · simp [List.filter_cons, hcode]

theorem lastRow?_of_reordered {rows rows' : List Value} (h : Reordered rows rows') (code : Text) :
    lastRow? rows code = lastRow? rows' code := by
  rw [lastRow?, lastRow?, ← List.head?_filter, ← List.head?_filter, List.filter_reverse,
    List.filter_reverse, h.sameOrder]

structure SameCatalogue {ε : Type} (result result' : Except ε Questions) : Prop where
  -- both loads fail, or both give a catalogue with the same definitions
  returns : (∃ qs, result = .ok qs) ↔ ∃ qs, result' = .ok qs
  get?_eq : ∀ qs qs', result = .ok qs → result' = .ok qs' → ∀ code, qs.get? code = qs'.get? code

theorem SameCatalogue.mapError {ε δ : Type} {result result' : Except ε Questions}
    (h : SameCatalogue result result') (f : ε → δ) :
    SameCatalogue (result.mapError f) (result'.mapError f) where
  returns := by simpa only [mapError_eq_ok_iff] using h.returns
  get?_eq := by simpa only [mapError_eq_ok_iff] using h.get?_eq

theorem sameCatalogue_of_reordered {rows rows' : List Value} (h : Reordered rows rows') :
    SameCatalogue (ofRows rows) (ofRows rows') where
  returns := by
    rw [exists_ofRows_iff, exists_ofRows_iff]
    simp only [h.perm.mem_iff]
  get?_eq := by
    intro qs qs' hqs hqs' code
    rw [get?_of_ofRows hqs, get?_of_ofRows hqs', lastRow?_of_reordered h]

theorem ofRows_of_reshuffled {rows rows' : List Value}
    (h : List.Forall₂ Value.Reshuffled rows rows') : ofRows rows = ofRows rows' := by
  have hmap : rows.mapM Definition.ofRow = rows'.mapM Definition.ofRow :=
    mapM_congr_forall₂ (h.imp fun _ _ hrow => hrow.ofRow_eq)
  rw [ofRows, ofRows, hmap]

/-- A load converts all rows of a file, and the last one of each code stays, or it fails for the first row
that cannot be converted. A mapping of choices is put in order and a list of choices is kept as it is. So
the catalogue does not depend on the order of rows of different codes, nor on that of the entries of a
mapping of choices. -/
theorem ofBytes_of_rows (bytes : List UInt8) (rows : List Value) (hrows : Lists bytes rows) :
    ((∃ qs, ofBytes bytes = .ok qs) ↔ ∀ row ∈ rows, ∃ d, Definition.ofRow row = .ok d) ∧
    (∀ qs, ofBytes bytes = .ok qs → ∀ code d, qs.get? code = some d ↔
      ∃ row, IsLastRow rows code row ∧ Definition.ofRow row = .ok d) ∧
    (∀ fault, ofBytes bytes = .error fault ↔ ∃ cause, FirstFault rows cause ∧ fault = .row cause) ∧
    (∀ (row : Value) (t : Table Text Value), row.field? "choices" = some (.mapping t.entries) →
      ∃ choices, Choice.ListsEntries t choices ∧
        (∀ u : Table Text Value, u.entries.Perm t.entries →
          choicesOf (.mapping u.entries) = .ok choices) ∧
        ∀ d, Definition.ofRow row = .ok d → d.choices = choices) ∧
    (∀ (row : Value) (items : List Value), row.field? "choices" = some (.list items) →
      (∀ item ∈ items, ∃ choice, Choice.Of item choice) →
      ∃ choices, List.Forall₂ Choice.Of items choices ∧ choicesOf (.list items) = .ok choices ∧
        ∀ d, Definition.ofRow row = .ok d → d.choices = choices) ∧
    (∀ mid, rows.Perm mid → DistinctCodes rows → Reordered rows mid) ∧
    ∀ mid bytes' rows', Reordered rows mid → List.Forall₂ Value.Reshuffled mid rows' →
      Lists bytes' rows' → SameCatalogue (ofBytes bytes) (ofBytes bytes') := by
  -- the choices of a definition are those that its row was read with
  have hread : ∀ (row raw : Value) choices, row.field? "choices" = some raw →
      choicesOf raw = .ok choices → ∀ d, Definition.ofRow row = .ok d → d.choices = choices := by
    intro row raw choices hraw hchoices d hd
    have hcolumn := (Definition.columns_of_ofRow hd).2
    rw [hraw, Option.getD_some, hchoices] at hcolumn
    exact (Except.ok.inj hcolumn).symm
  rw [ofBytes_of_lists hrows]
  refine ⟨?_, ?_, ?_, ?_, ?_, ?_, ?_⟩
  · simp only [mapError_eq_ok_iff, exists_ofRows_iff]
  · intro qs hqs code d
    rw [mapError_eq_ok_iff] at hqs
    exact get?_of_ofRows_eq_some_iff hqs code d
  · intro fault
    simp only [mapError_eq_error_iff, ofRows_eq_error_iff]
  · intro row t ht
    obtain ⟨choices, hchoices, hlists⟩ := choicesOf_mapping t
    refine ⟨choices, hlists, ?_, hread row _ choices ht hchoices⟩
    intro u hu
    rw [choicesOf_eq_of_perm u t hu, hchoices]
  · intro row items hitems hof
    obtain ⟨choices, hchoices, hlists⟩ := exists_choicesOf_list items hof
    exact ⟨choices, hlists, hchoices, hread row _ choices hitems hchoices⟩
  · intro mid hperm hdistinct
    exact reordered_of_distinctCodes hperm hdistinct
  · intro mid bytes' rows' hreordered hreshuffled hrows'
    rw [ofBytes_of_lists hrows', ← ofRows_of_reshuffled hreshuffled]
    exact (sameCatalogue_of_reordered hreordered).mapError QuestionsFault.row

/-! ## Two shelves

They hold the same rows. Of the two rows for the kind the first one gives a mapping of choices, written in
either order, and the second one takes its place. -/

def kinds : Table Text Value where
  entries := [("b", .text "B"), ("a", .text "A")]
  nodup := by decide

def kindsBackwards : Table Text Value where
  entries := [("a", .text "A"), ("b", .text "B")]
  nodup := by decide

def kindRow (choices : Value) : Value :=
  .mapping [("code", .text "kind"), ("type", .text "radio"), ("choices", choices)]

def kindItems : List Value := [.text "b", .mapping [("value", .text "a")], .text "b"]

def nameRow : Value := .mapping [("code", .text "name"), ("type", .text "text")]

def shelfLines : List String :=
  ["- {code: kind, type: radio, choices: {b: B, a: A}}\n", "- {code: name, type: text}\n",
    "- {code: kind, type: radio, choices: [b, {value: a}, b]}\n"]

def otherShelfLines : List String :=
  ["- {code: kind, type: radio, choices: {a: A, b: B}}\n",
    "- {code: kind, type: radio, choices: [b, {value: a}, b]}\n", "- {code: name, type: text}\n"]

def kindTree (choices : Yaml.Tree) : Yaml.Tree :=
  .map [(.text "code", .text "kind"), (.text "type", .text "radio"), (.text "choices", choices)]

def kindItemsTree : Yaml.Tree := .list [.text "b", .map [(.text "value", .text "a")], .text "b"]

def nameTree : Yaml.Tree := .map [(.text "code", .text "name"), (.text "type", .text "text")]

/-- What a file lists is found through the tree of its lines. -/
theorem lists_of_lines (lines : List String) (tree : Yaml.Tree) (data : Value) (rows : List Value)
    (hplain : ArePlain lines)
    (htree : Yaml.Tree.ofTokens Yaml.Tree.ofScalarText
      (Yaml.tokens (lines.flatMap String.toList)) = .ok tree)
    (hdata : Value.ofTree tree = .ok data) (hrows : Holds data rows) :
    Lists (bytesOf lines) rows := by
  refine ⟨_, data, hplain.decodeUtf8_bytesOf, ?_, hrows⟩
  rw [hplain.unifyLineEnds, Yaml.read, String.toList_ofList, htree]
  exact hdata

theorem lists_shelf :
    Lists (bytesOf shelfLines) [kindRow (.mapping kinds.entries), nameRow, kindRow (.list kindItems)] :=
  lists_of_lines shelfLines
    (.list [kindTree (.map [(.text "b", .text "B"), (.text "a", .text "A")]), nameTree,
      kindTree kindItemsTree])
    _ _ (by decide +kernel) (by decide +kernel) rfl (.bare _)

theorem lists_otherShelf : Lists (bytesOf otherShelfLines)
    [kindRow (.mapping kindsBackwards.entries), kindRow (.list kindItems), nameRow] :=
  lists_of_lines otherShelfLines
    (.list [kindTree (.map [(.text "a", .text "A"), (.text "b", .text "B")]), kindTree kindItemsTree,
      nameTree])
    _ _ (by decide +kernel) (by decide +kernel) rfl (.bare _)

/-- The list of choices stays, in its own order, and neither of the other orders matters. -/
theorem ofBytes_of_rows_shelf :
    Lists (bytesOf shelfLines) [kindRow (.mapping kinds.entries), nameRow, kindRow (.list kindItems)] ∧
    (∀ d, Definition.ofRow (kindRow (.mapping kinds.entries)) = .ok d →
      d.choices = [⟨"a", "A"⟩, ⟨"b", "B"⟩]) ∧
    (∃ qs, ofBytes (bytesOf shelfLines) = .ok qs ∧
      qs.get? "kind" = some ⟨"kind", .radio, [], none, [⟨"b", "b"⟩, ⟨"a", "a"⟩, ⟨"b", "b"⟩]⟩) ∧
    SameCatalogue (ofBytes (bytesOf shelfLines)) (ofBytes (bytesOf otherShelfLines)) := by
  have hconverts : ∀ row ∈ [kindRow (.mapping kinds.entries), nameRow, kindRow (.list kindItems)],
      ∃ d, Definition.ofRow row = .ok d := by
    simp only [List.forall_mem_cons, List.not_mem_nil, false_implies, implies_true, and_true]
    exact ⟨⟨_, rfl⟩, ⟨_, rfl⟩, ⟨_, rfl⟩⟩
  obtain ⟨hreturns, hlast, -, hsorted, -, -, hsame⟩ :=
    ofBytes_of_rows (bytesOf shelfLines) _ lists_shelf
  refine ⟨lists_shelf, ?_, ?_, ?_⟩
  · intro d hd
    obtain ⟨choices, hlists, -, hchoices⟩ := hsorted (kindRow (.mapping kinds.entries)) kinds rfl
    have hsorted : Choice.ListsEntries kinds [⟨"a", "A"⟩, ⟨"b", "B"⟩] :=
      ⟨List.Perm.swap _ _ _, List.pairwise_pair.mpr (by unfold Text.Before; decide)⟩
    rw [hchoices d hd, hlists.unique hsorted (.refl _)]
  · obtain ⟨qs, hqs⟩ := hreturns.mpr hconverts
    have hlist : IsLastRow _ "kind" (kindRow (.list kindItems)) :=
      ⟨[kindRow (.mapping kinds.entries), nameRow], [], rfl, rfl,
        fun r hr => absurd hr List.not_mem_nil⟩
    exact ⟨qs, hqs, (hlast qs hqs _ _).mpr ⟨_, hlist, rfl⟩⟩
  · apply hsame [kindRow (.mapping kinds.entries), kindRow (.list kindItems), nameRow] _ _ _ _
      lists_otherShelf
    · apply reordered_swap [kindRow (.mapping kinds.entries)] [] nameRow
      rintro _ ⟨⟩
      decide
    · exact .cons (.choices [_, _] [] kinds kindsBackwards (.swap _ _ _))
        (.cons (.refl _) (.cons (.refl _) .nil))

end FlowNotation.Questions
