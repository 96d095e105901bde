import FlowNotation.Proofs.ReaderFaults

/-! Why a text has no tree. Every step of the lexer stays in the text and fails for what stands there;
to put the tokens together adds no fault of its own. -/
namespace FlowNotation.Yaml

namespace Lexer

def Within (cs : List Char) (l : Lexer) : Prop :=
  l.cursor.Within cs

variable {cs : List Char} {l : Lexer}

/-! ## Parts of a step -/

/-- Blanks, comments and line breaks are skipped without leaving the text. -/
theorem within_skipGaps (rounds : List Char) (h : l.Within cs) : (l.skipGaps rounds).Within cs := by
  induction rounds generalizing l with
  | nil => exact h
  | cons r rounds ih =>
    have hspaces : (skipSpaces l.cursor).Within cs := Cursor.Within.skipWhile h _
    have hcomment : Cursor.Within cs (if (skipSpaces l.cursor).rest.head? = some '#' then
        (skipSpaces l.cursor).skipWhile (fun ch => !isBreak ch) else skipSpaces l.cursor) := by
      split
      · exact hspaces.skipWhile _
      · exact hspaces
    rw [skipGaps]
    generalize (if (skipSpaces l.cursor).rest.head? = some '#' then
      (skipSpaces l.cursor).skipWhile (fun ch => !isBreak ch) else skipSpaces l.cursor) = c
      at hcomment ⊢
    split
    · exact ih hcomment.next
    · exact hcomment

theorem cursor_closeTo (l : Lexer) (column : Option Nat) : (l.closeTo column).cursor = l.cursor := by
  rw [closeTo]
  split
  · rfl
  · rfl

theorem cursor_openAt (l : Lexer) (column : Nat) (t : Token) :
    (l.openAt column t).cursor = l.cursor := by
  rw [openAt]
  split
  · rfl
  · rfl

/-- To give up a candidate reads nothing; a required key among them is malformed. -/
theorem ends_dropCandidate (l : Lexer) :
    Ends l.dropCandidate (fun l' => l'.cursor = l.cursor) (Fault.Grounded cs) := by
  rw [dropCandidate]
  split
  · split
    · trivial
    · rfl
  · rfl

theorem ends_dropStale (l : Lexer) :
    Ends l.dropStale (fun l' => l'.cursor = l.cursor) (Fault.Grounded cs) := by
  rw [dropStale]
  split
  · trivial
  · rfl

theorem ends_noteCandidate (l : Lexer) :
    Ends l.noteCandidate (fun l' => l'.cursor = l.cursor) (Fault.Grounded cs) := by
  rw [noteCandidate]
  split
  · exact (ends_dropCandidate l).bind fun l hl => hl
  · rfl

theorem ends_closeAll (l : Lexer) :
    Ends l.closeAll (fun l' => l'.cursor = l.cursor) (Fault.Grounded cs) :=
  (ends_dropCandidate _).bind fun _ hl => hl.trans (l.cursor_closeTo none)

/-- To settle in front of the next token keeps the lexer in the text. -/
theorem ends_settle (h : l.Within cs) : Ends l.settle (Within cs) (Fault.Grounded cs) := by
  refine (ends_dropStale _).bind fun l' hl => ?_
  change (l'.closeTo _).Within cs
  rw [Within, cursor_closeTo, hl]
  exact within_skipGaps _ h

/-! ## Tokens -/

theorem Within.next {l' : Lexer} (h : l.Within cs) (hl : l'.cursor = l.cursor) :
    l'.cursor.next.Within cs := by
  rw [hl]
  exact Cursor.Within.next h

theorem ends_openFlow (t : Token) (h : l.Within cs) :
    Ends (l.openFlow t) (Within cs) (Fault.Grounded cs) :=
  (ends_noteCandidate l).bind fun _ hl => h.next hl

/-- A closing bracket is read within the text. -/
theorem ends_closeFlow (t : Token) (h : l.Within cs) :
    Ends (l.closeFlow t) (Within cs) (Fault.Grounded cs) := by
  refine (ends_dropCandidate l).bind fun l hl => ?_
  split
  · trivial
  · exact h.next hl

theorem ends_flowEntry (h : l.Within cs) : Ends l.flowEntry (Within cs) (Fault.Grounded cs) :=
  (ends_dropCandidate l).bind fun _ hl => h.next hl

/-- Outside of flow collections a block collection is opened before a step goes on, if one may start.
-/
theorem ends_opening (t : Token) {go : Lexer → Except Fault Lexer} (h : l.Within cs)
    (hgo : ∀ l : Lexer, l.Within cs → Ends (go l) (Within cs) (Fault.Grounded cs)) :
    Ends (if l.inFlow then pure l >>= go
      else if l.keyAllowed then pure (l.openAt l.cursor.column t) >>= go
      else throw Fault.malformed >>= go) (Within cs) (Fault.Grounded cs) := by
  split
  · exact hgo l h
  · split
    · apply hgo
      rw [Within, cursor_openAt]
      exact h
    · trivial

theorem ends_blockEntry (h : l.Within cs) : Ends l.blockEntry (Within cs) (Fault.Grounded cs) :=
  ends_opening .blockSequenceStart h fun _ hl =>
    (ends_dropCandidate _).bind fun _ hl' => hl.next hl'

theorem ends_explicitKey (h : l.Within cs) : Ends l.explicitKey (Within cs) (Fault.Grounded cs) :=
  ends_opening .blockMappingStart h fun _ hl =>
    (ends_dropCandidate _).bind fun _ hl' => hl.next hl'

/-- A colon is read within the text, or has a fault that the text shows. -/
theorem ends_colon (h : l.Within cs) : Ends l.colon (Within cs) (Fault.Grounded cs) := by
  rw [colon]
  split
  · dsimp only
    split
    · exact h.next rfl
    · exact h.next rfl
  · exact ends_opening .blockMappingStart h fun _ hl => hl.next rfl

/-- A `%` line is a directive, or has a fault that the text shows. -/
theorem ends_directive {rest : List Char} (hrest : l.cursor.rest = '%' :: rest) (h : l.Within cs) :
    Ends l.directive (Within cs) (Fault.Grounded cs) := by
  refine (ends_closeAll l).bind fun l' hl => ?_
  have hwithin : l'.cursor.Within cs := hl ▸ h
  exact (ends_readDirective (hl ▸ hrest) hwithin).bind fun _ hx => hx

theorem ends_documentMark (t : Token) (h : l.Within cs) :
    Ends (l.documentMark t) (Within cs) (Fault.Grounded cs) :=
  (ends_closeAll l).bind fun l' hl => Cursor.Within.skip (show l'.cursor.Within cs from hl ▸ h) 3

/-- What a reader keeps within the text, the lexer around it keeps there. -/
theorem ends_nodePart {read : Cursor → Except Fault (Token × Cursor)} (h : l.Within cs)
    (hread : ∀ c : Cursor, c.Within cs → Ends (read c) (fun x => x.2.Within cs) (Fault.Grounded cs)) :
    Ends (l.nodePart read) (Within cs) (Fault.Grounded cs) :=
  (ends_noteCandidate l).bind fun l' hl => (hread l'.cursor (hl ▸ h)).bind fun _ hx => hx

theorem ends_quotedScalar (quote : Quote) (h : l.Within cs) :
    Ends (l.quotedScalar quote) (Within cs) (Fault.Grounded cs) :=
  ends_nodePart h fun _ hc => (ends_readQuoted quote hc).bind fun _ hx => hx

theorem ends_plainScalar (h : l.Within cs) : Ends l.plainScalar (Within cs) (Fault.Grounded cs) :=
  (ends_noteCandidate l).bind fun l' hl =>
    within_readPlain _ _ (show l'.cursor.Within cs from hl ▸ h)

theorem ends_blockScalar (folded : Bool) (h : l.Within cs) :
    Ends (l.blockScalar folded) (Within cs) (Fault.Grounded cs) :=
  (ends_dropCandidate l).bind fun l' hl =>
    (ends_readBlock folded _ (show l'.cursor.Within cs from hl ▸ h)).bind fun _ hx => hx

/-- One token is read within the text, or its fault is grounded there. Every token has its own lemma
above; this one is the choice among them. -/
theorem ends_readToken {ch : Char} {rest : List Char} (hrest : l.cursor.rest = ch :: rest)
    (h : l.Within cs) : Ends (l.readToken ch rest) (Within cs) (Fault.Grounded cs) := by
  rw [readToken]
  -- the branches as `readToken` tries them; of the text only a directive has to know what it reads
  refine ends_ite (fun hp => ends_directive (hp.1 ▸ hrest) h) fun _ => ?_
  refine ends_ite (fun _ => ends_documentMark _ h) fun _ => ?_
  refine ends_ite (fun _ => ends_openFlow _ h) fun _ => ?_
  refine ends_ite (fun _ => ends_openFlow _ h) fun _ => ?_
  refine ends_ite (fun _ => ends_closeFlow _ h) fun _ => ?_
  refine ends_ite (fun _ => ends_closeFlow _ h) fun _ => ?_
  refine ends_ite (fun _ => ends_flowEntry h) fun _ => ?_
  refine ends_ite (fun _ => ends_blockEntry h) fun _ => ?_
  refine ends_ite (fun _ => ends_explicitKey h) fun _ => ?_
  refine ends_ite (fun _ => ends_colon h) fun _ => ?_
  refine ends_ite (fun _ => ends_nodePart h fun c hc => ?_) fun _ => ?_
  · exact (ends_readAnchorName hc).bind fun _ hx => hx
  refine ends_ite (fun _ => ends_nodePart h fun c hc => ?_) fun _ => ?_
  · exact (ends_readAnchorName hc).bind fun _ hx => hx
  refine ends_ite (fun _ => ends_nodePart h fun c hc => ?_) fun _ => ?_
  · exact (ends_readTag hc).bind fun _ hx => hx
  refine ends_ite (fun _ => ends_blockScalar false h) fun _ => ?_
  refine ends_ite (fun _ => ends_blockScalar true h) fun _ => ?_
  refine ends_ite (fun _ => ends_quotedScalar .single h) fun _ => ?_
  refine ends_ite (fun _ => ends_quotedScalar .double h) fun _ => ?_
  exact ends_ite (fun _ => ends_plainScalar h) fun _ => trivial

/-! ## The whole text -/

/-- The step lemma: one round of the lexer stays in the text or fails for what stands there. -/
theorem ends_step (h : l.Within cs) :
    Ends l.step (fun x => x.1.Within cs) (Fault.Grounded cs) := by
  rw [step]
  refine (ends_settle h).bind fun l hl => ?_
  split
  · refine (ends_closeAll l).bind fun l' hl' => ?_
    change l'.cursor.Within cs
    exact hl' ▸ hl
  · rename_i hrest
    exact (ends_readToken hrest hl).bind fun _ hl => hl

/-- The run lemma: the fault that ends the tokens is grounded in the text. -/
theorem grounded_tokensFrom (rounds : List Char) (h : l.Within cs) (e : Fault)
    (he : (tokensFrom rounds l).fault = some e) : e.Grounded cs := by
  -- the fault is that of the first step that fails, and all steps before it stay in the text
  induction rounds generalizing l with
  | nil =>
    cases he
    trivial
  | cons r rounds ih =>
    have hstep := ends_step h
    rw [tokensFrom] at he
    split at he
    · rename_i heq
      rw [heq] at hstep
      cases he
      exact hstep
    · cases he
    · rename_i heq
      rw [heq] at hstep
      exact ih hstep he

end Lexer

/-! ## From tokens to a tree -/

namespace Assembly

variable {cs : List Char} (scalar : Text → Bool → Tree) (handles : List String) (s : Assembly)

theorem ends_takeAnchor : Ends s.takeAnchor (fun _ => True) (Fault.Grounded cs) := by
  rw [takeAnchor]
  split
  · trivial
  · exact ends_ite (fun _ => trivial) fun _ => trivial

/-- A finished node without a place is malformed; to place it has no other fault. -/
theorem ends_place (n : Tree) (anchor : Option String) :
    Ends (s.place scalar n anchor) (fun _ => True) (Fault.Grounded cs) := by
  unfold place
  dsimp only
  split
  · exact ends_ite (fun _ => trivial) fun _ => trivial
  · split
    · trivial
    · trivial

theorem ends_placeLeaf (n : Tree) :
    Ends (s.placeLeaf scalar n) (fun _ => True) (Fault.Grounded cs) :=
  s.ends_takeAnchor.bind fun x _ => ends_place scalar x.2 n x.1

theorem ends_openFrame (f : Frame) : Ends (s.openFrame f) (fun _ => True) (Fault.Grounded cs) :=
  s.ends_takeAnchor.bind fun _ _ => trivial

theorem ends_checkHandle : Ends (s.checkHandle handles) (fun _ => True) (Fault.Grounded cs) :=
  ends_ite (fun _ => trivial) fun _ => trivial

/-- A token that begins a node fails for no reason of its own. -/
theorem ends_beginNode (t : Token) (r : Except Fault Assembly)
    (h : s.beginNode scalar handles t = some r) :
    Ends r (fun _ => True) (Fault.Grounded cs) := by
  unfold beginNode at h
  split at h
  -- an alias
  · split at h
    all_goals cases h
    split
    · exact ends_place scalar _ _ _
    · exact ends_ite (fun _ => ends_place scalar _ _ _) fun _ => trivial
  -- an anchor
  · split at h
    all_goals cases h
    trivial
  -- a tag
  · split at h
    all_goals cases h
    exact ends_ite (fun _ => ends_checkHandle handles _) fun _ => trivial
  · cases h
    exact ends_placeLeaf scalar s _
  -- the starts of collections
  · cases h
    exact s.ends_openFrame _
  · cases h
    exact s.ends_openFrame _
  · split at h
    all_goals cases h
    exact s.ends_openFrame _
  · split at h
    all_goals cases h
    exact s.ends_openFrame _
  · split at h
    all_goals cases h
    exact s.ends_openFrame _
  · cases h

theorem ends_omitNode (t : Token) :
    Ends (s.omitNode scalar t) (fun _ => True) (Fault.Grounded cs) :=
  ends_ite (fun _ => trivial) fun _ => ends_ite (fun _ => ends_placeLeaf scalar s _) fun _ =>
    ends_ite (fun _ => ends_placeLeaf scalar s _) fun _ => trivial

theorem ends_endIndentless (t : Token) :
    Ends (s.endIndentless scalar t) (fun _ => True) (Fault.Grounded cs) := by
  rw [endIndentless]
  split
  · exact ends_ite (fun _ => trivial) fun _ => ends_place scalar _ _ _
  · trivial

theorem ends_turn (t : Token) : Ends (s.turn scalar t) (fun _ => True) (Fault.Grounded cs) := by
  rw [turn]
  split
  · trivial
  · split
    · trivial
    · exact ends_place scalar _ _ _
    · trivial

/-- Whatever stands on the stack, one more token adds no fault of its own. -/
theorem ends_feed (t : Token) :
    Ends (s.feed scalar handles t) (fun _ => True) (Fault.Grounded cs) := by
  rw [feed]
  refine (ends_checkHandle handles s).bind fun s _ => ?_
  split
  · rename_i r heq
    split at heq
    · exact ends_beginNode scalar handles s t r heq
    · cases heq
  · exact (ends_omitNode scalar s t).bind fun s _ => (ends_endIndentless scalar s t).bind fun s _ =>
      ends_turn scalar _ t

theorem ends_finish : Ends (s.finish scalar handles) (fun _ => True) (Fault.Grounded cs) := by
  rw [finish]
  refine (ends_checkHandle handles s).bind fun s _ => ends_ite (fun _ => ?_) fun _ => ?_
  · refine (ends_placeLeaf scalar s _).bind fun s _ => ?_
    dsimp only
    split
    · trivial
    · trivial
  · rw [pure_bind]
    dsimp only
    split
    · trivial
    · trivial

end Assembly

section Document

variable {cs : List Char} (scalar : Text → Bool → Tree) (ts : Tokens)

theorem ends_handlesOf (ds : List Directive) :
    Ends (handlesOf ds) (fun _ => True) (Fault.Grounded cs) :=
  ends_ite (fun _ => trivial) fun _ => trivial

/-- To take the next token passes the lexer's fault on. -/
theorem ends_readOn (h : ∀ e, ts.fault = some e → e.Grounded cs) :
    Ends ts.readOn (fun _ => True) (Fault.Grounded cs) := by
  rw [Tokens.readOn]
  split
  · rename_i e he
    exact h e he
  · trivial

theorem ends_endDocument (h : ∀ e, ts.fault = some e → e.Grounded cs) (rest : List Token) :
    Ends (ts.endDocument rest) (fun _ => True) (Fault.Grounded cs) := by
  rw [Tokens.endDocument]
  split
  · exact ends_readOn ts h
  · refine (ends_handlesOf _).bind fun _ _ => ?_
    exact ends_ite (fun _ => (ends_readOn ts h).bind fun _ _ => trivial) fun _ => trivial

/-- To put tokens together adds no fault of its own but the broken grammar. -/
theorem ends_ofTokens (h : ∀ e, ts.fault = some e → e.Grounded cs) :
    Ends (Tree.ofTokens scalar ts) (fun _ => True) (Fault.Grounded cs) := by
  have hmore : ∀ (p : Prop) [Decidable p] (go : Unit → Except Fault Tree),
      Ends (go ()) (fun _ => True) (Fault.Grounded cs) →
      Ends (if p then ts.readOn >>= go else go ()) (fun _ => True) (Fault.Grounded cs) :=
    fun _ _ _ hgo => ends_ite (fun _ => (ends_readOn ts h).bind fun _ _ => hgo) fun _ => hgo
  have hend : ∀ (s : Assembly) (rest : List Token) (n : Tree), Ends (do
      ts.endDocument rest
      if s.recursive then throw Fault.malformed else pure n) (fun _ => True) (Fault.Grounded cs) :=
    fun _ rest _ => (ends_endDocument ts h rest).bind fun _ _ =>
      ends_ite (fun _ => trivial) fun _ => trivial
  rw [Tree.ofTokens]
  split
  rename_i directives body _
  -- `hmore` is for the two places where the tokens may be used up, `hend` for what ends the document
  refine (ends_handlesOf directives).bind fun handles _ => ?_
  apply hmore
  refine ends_ite (fun _ => trivial) fun _ => ?_
  dsimp only
  refine ends_ite (fun _ => trivial) fun _ => ?_
  refine (ends_foldlM fun s t => Assembly.ends_feed scalar handles s t).bind fun s _ => ?_
  apply hmore
  refine ends_ite (fun _ => hend s _ _) fun _ => ?_
  exact (Assembly.ends_finish scalar handles s).bind fun n _ => hend s _ n

end Document

/-! ## From the text on -/

def opened (cs : List Char) : List Char :=
  -- a text whose line breaks are uniform
  (Text.unifyLineEnds cs).map fun c => if c = '\x85' then '\n' else c

variable {cs w : List Char}

/-- A text without a line break that begins at one is empty. -/
theorem eq_nil_of_prefix_break {rest : List Char} (hline : '\n' ∉ w) (h : w <+: '\n' :: rest) :
    w = [] := by
  cases w with
  | nil => rfl
  | cons c w => exact absurd ((List.cons_prefix_cons.mp h).1 ▸ List.mem_cons_self) hline

/-- Within a line nothing changes when a text is opened. -/
theorem prefix_of_prefix_opened (hline : '\n' ∉ w) (h : w <+: opened cs) : w <+: cs := by
  rw [opened] at h
  -- `w` does not hold the breaks that the other cases put in place, so it ends before them
  fun_induction Text.unifyLineEnds cs generalizing w with
  | case1 => exact h
  | case2 rest ih | case3 rest _ ih =>
    rw [eq_nil_of_prefix_break hline h]
    exact List.nil_prefix
  | case4 c rest _ _ ih =>
    cases w with
    | nil => exact List.nil_prefix
    | cons d w =>
      rw [List.map_cons, List.cons_prefix_cons] at h
      have hne : c ≠ '\x85' := by
        intro hc
        rw [if_pos hc] at h
        exact hline (h.1 ▸ List.mem_cons_self)
      rw [if_neg hne] at h
      obtain ⟨rfl, h⟩ := h
      have hw : '\n' ∉ w := fun hmem => hline (List.mem_cons_of_mem _ hmem)
      exact List.cons_prefix_cons.mpr ⟨rfl, ih hw h⟩

theorem infix_of_infix_cons {v rest : List Char} {c : Char} (hfront : w <+: c :: v → w <:+: cs)
    (htail : w <:+: v → w <:+: rest) (hrest : rest <:+ cs) (h : w <:+: c :: v) : w <:+: cs := by
  rcases List.infix_cons_iff.mp h with h | h
  · exact hfront h
  · exact (htail h).trans hrest.isInfix

/-- What stands on one line of the opened text stands in the text itself. -/
theorem infix_of_infix_opened (hline : '\n' ∉ w) (h : w <:+: opened cs) : w <:+: cs := by
  have hopened : ∀ cs, w <+: opened cs → w <:+: cs :=
    fun _ h => (prefix_of_prefix_opened hline h).isInfix
  have hfront := hopened cs
  rw [opened] at h hfront
  fun_induction Text.unifyLineEnds cs with
  | case1 => exact h
  | case2 rest ih =>
    exact infix_of_infix_cons hfront (fun h => ih h (hopened rest))
      (List.suffix_append ['\r', '\n'] rest) h
  | case3 rest _ ih =>
    exact infix_of_infix_cons hfront (fun h => ih h (hopened rest)) (List.suffix_cons _ rest) h
  | case4 c rest _ _ ih =>
    exact infix_of_infix_cons hfront (fun h => ih h (hopened rest)) (List.suffix_cons _ rest) h

theorem infix_of_infix_start (hline : '\n' ∉ w) (h : w <:+: (Cursor.start cs).rest) : w <:+: cs := by
  apply infix_of_infix_opened hline
  apply h.trans
  change (if (opened cs).head? = some '\uFEFF' then (opened cs).tail else opened cs) <:+: opened cs
  split
  · exact (List.tail_suffix _).isInfix
  · exact List.infix_rfl

/-- The start of a version number has no line break. -/
theorem StartsVersion.not_mem {front : List Char} (h : StartsVersion front) : '\n' ∉ front := by
  have hdigits : ∀ digits : List Char, (∀ d ∈ digits, d.isDigit = true) → '\n' ∉ digits :=
    fun digits h hmem => absurd (h _ hmem) (by decide)
  induction h with
  | first spaces hspaces =>
    have hspace : '\n' ∉ spaces := fun hmem => absurd (hspaces _ hmem) (by decide)
    rw [List.mem_append, not_or]
    exact ⟨by decide, hspace⟩
  | second front digits _ h ih =>
    rw [List.mem_append, List.mem_append, not_or, not_or]
    exact ⟨⟨ih, hdigits digits h⟩, by decide⟩

/-- A fault that an opened text spells out stands in the text as it was written. -/
theorem Fault.Grounded.of_start {e : Fault} (h : e.Grounded (Cursor.start cs).rest) :
    e.Grounded cs := by
  have hescape : ∀ n, HoldsEscape (Cursor.start cs).rest n → HoldsEscape cs n := by
    rintro n ⟨digits, hlength, hhex, hinfix, hn⟩
    have hline : '\n' ∉ '\\' :: 'U' :: digits := by
      intro hmem
      rw [List.mem_cons, List.mem_cons] at hmem
      rcases hmem with h | h | h
      · exact absurd h (by decide)
      · exact absurd h (by decide)
      · exact absurd (hhex _ h) (by decide)
    exact ⟨digits, hlength, hhex, infix_of_infix_start hline hinfix, hn⟩
  cases e with
  | malformed => trivial
  | codePointTooLarge =>
    obtain ⟨n, hn, hlarge⟩ := h
    exact ⟨n, hescape n hn, hlarge⟩
  | escapeTooWide =>
    obtain ⟨n, hn, hwide⟩ := h
    exact ⟨n, hescape n hn, hwide⟩
  | versionTooLong n =>
    obtain ⟨⟨front, digits, hfront, hdigits, hlength, hinfix⟩, hlong⟩ := h
    have hline : '\n' ∉ front ++ digits := by
      rw [List.mem_append, not_or]
      exact ⟨hfront.not_mem, fun hmem => absurd (hdigits _ hmem) (by decide)⟩
    exact ⟨⟨front, digits, hfront, hdigits, hlength, infix_of_infix_start hline hinfix⟩, hlong⟩

/-- A text that cannot be read is broken, or it spells out what else is wrong with it. -/
theorem ends_read (scalar : Text → Bool → Tree) (text : String) :
    Ends (read scalar text) (fun _ => True) (Fault.Grounded text.toList) := by
  apply ends_ofTokens
  intro e he
  rw [tokens] at he
  split at he
  · have hstart : (Lexer.start text.toList).Within (Cursor.start text.toList).rest :=
      List.suffix_rfl
    exact (Lexer.grounded_tokensFrom _ hstart e he).of_start
  · cases he
    trivial

end FlowNotation.Yaml
