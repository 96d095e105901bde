import FlowNotation.Proofs.FlowSteps

/-! Trees written in flow style, and the tokens of what is written. -/
namespace FlowNotation.Yaml
open Text

/-! ## Writing a tree -/

namespace Tree

variable (upper : Bool)

mutual

def flow : Tree → List Char
  -- null is a tilde, a text is quoted, and what belongs to a collection stands between brackets
  | null => ['~']
  | text s => quoted upper s
  | list items => '[' :: [',', ' '].intercalate (flowItems items) ++ [']']
  | map pairs => '{' :: [',', ' '].intercalate (flowPairs pairs) ++ ['}']

def flowItems : List Tree → List (List Char)
  | [] => []
  | t :: rest => t.flow :: flowItems rest

def flowPairs : List (Tree × Tree) → List (List Char)
  -- each key stands behind a question mark, each value behind a colon
  | [] => []
  | (k, v) :: rest => (['?', ' '] ++ k.flow ++ [' ', ':', ' '] ++ v.flow) :: flowPairs rest

end

example : (map [(text "~", list [null, text []])]).flow false =
    "\x7b? \"\\U0000007e\" : [~, \"\"]\x7d".toList := by decide

mutual

def flowTokens : Tree → List Token
  | null => [.scalar (ofChars ['~']) true]
  | text s => [.scalar s false]
  | list items =>
    .flowSequenceStart :: [.flowEntry].intercalate (flowItemTokens items) ++ [.flowSequenceEnd]
  | map pairs =>
    .flowMappingStart :: [.flowEntry].intercalate (flowPairTokens pairs) ++ [.flowMappingEnd]

def flowItemTokens : List Tree → List (List Token)
  | [] => []
  | t :: rest => t.flowTokens :: flowItemTokens rest

def flowPairTokens : List (Tree × Tree) → List (List Token)
  | [] => []
  | (k, v) :: rest => ([.key] ++ k.flowTokens ++ [.value] ++ v.flowTokens) :: flowPairTokens rest

end

end Tree

namespace Lexer

/-! ## Reading a tree -/

theorem plainStops_nil (inFlow : Bool) : PlainStops inFlow [] := ⟨rfl, rfl, rfl⟩

/-- A plain scalar in a flow collection ends before a comma, -/
theorem plainStops_comma (rest : List Char) : PlainStops true (',' :: rest) := by
  have hrun : plainRun true (',' :: rest) = 0 := by simp [plainRun, flowIndicators]
  exact ⟨hrun, hrun, by simp [isBreak]⟩

/-- before a closing bracket, -/
theorem Bracket.plainStops_closing (b : Bracket) {rest : List Char} :
    PlainStops true (b.closing :: rest) := by
  have hrun : plainRun true (b.closing :: rest) = 0 := by
    cases b with
    | square => simp [plainRun, flowIndicators, closing]
    | curly => simp [plainRun, flowIndicators, closing]
  cases b with
  | square => exact ⟨hrun, hrun, by simp [isBreak, closing]⟩
  | curly => exact ⟨hrun, hrun, by simp [isBreak, closing]⟩

/-- and anywhere before a colon between spaces. -/
theorem plainStops_of_colon (inFlow : Bool) (rest : List Char) :
    PlainStops inFlow (' ' :: ':' :: ' ' :: rest) := by
  refine ⟨?_, ?_, ?_⟩
  · simp [plainRun, isWhite]
  · simp [plainRun, endsAtColon, atBlank, isWhite]
  · simp [isBreak]

structure ReadsFlow (cs : List Char) (ts : List Token) : Prop where
  -- of the text `cs` the tokens `ts` are read, wherever a node may stand
  ascii : ∀ c ∈ cs, isAscii c = true
  dropWhile_eq : ∀ rest, (cs ++ rest).dropWhile (· = ' ') = cs ++ rest
  reads : ∀ (l : Lexer) (rest : List Char), l.Unbound → PlainStops l.inFlow rest →
    l.ahead = cs ++ rest → l.ReadsNode ts (rest.dropWhile (· = ' '))

structure ReadsEntry (cs : List Char) (ts : List Token) : Prop where
  -- of the text `cs` the tokens `ts` are read, behind an opening bracket or a comma
  ascii : ∀ c ∈ cs, isAscii c = true
  dropWhile_eq : ∀ rest, (cs ++ rest).dropWhile (· = ' ') = cs ++ rest
  reads : ∀ (l : Lexer) (rest : List Char), l.Unbound → l.inFlow = true → PlainStops true rest →
    l.ahead = cs ++ rest → ∃ l' : Lexer, l.Passes ts l' ∧ l'.ahead = rest.dropWhile (· = ' ')

theorem ReadsFlow.entry {cs : List Char} {ts : List Token} (h : ReadsFlow cs ts) :
    ReadsEntry cs ts := by
  refine ⟨h.ascii, h.dropWhile_eq, ?_⟩
  intro l rest hl hflow hstops hahead
  obtain ⟨l', hpasses, hahead', -⟩ := h.reads l rest hl (hflow ▸ hstops) hahead
  exact ⟨l', hpasses, hahead'⟩

/-- A pair is a key behind its question mark and a value behind its colon. -/
theorem ReadsFlow.pair {k v : List Char} {ks vs : List Token} (hk : ReadsFlow k ks)
    (hv : ReadsFlow v vs) :
    ReadsEntry (['?', ' '] ++ k ++ [' ', ':', ' '] ++ v) ([.key] ++ ks ++ [.value] ++ vs) := by
  refine ⟨?_, fun rest => rfl, ?_⟩
  · intro c hc
    simp only [List.mem_append, List.mem_cons, List.not_mem_nil, or_false] at hc
    rcases hc with (((rfl | rfl) | hc) | (rfl | rfl | rfl)) | hc
    · decide
    · decide
    · exact hk.ascii c hc
    · decide
    · decide
    · decide
    · exact hv.ascii c hc
  intro l rest h hflow hstops hahead
  have hquestion : l.ahead = '?' :: ' ' :: (k ++ ' ' :: ':' :: ' ' :: (v ++ rest)) := by
    rw [hahead]
    simp
  obtain ⟨l₁, hpasses₁, hrest₁, hkey₁, hnone₁⟩ := h.question hflow hquestion
  have hahead₁ : l₁.ahead = k ++ ' ' :: ':' :: ' ' :: (v ++ rest) := by
    rw [ahead, hrest₁]
    exact hk.dropWhile_eq _
  obtain ⟨l₂, hpasses₂, hahead₂, -, hnone₂⟩ :=
    hk.reads l₁ _ hpasses₁.unbound (plainStops_of_colon _ _) hahead₁
  have hflow₂ : l₂.inFlow = true := (hpasses₁.trans hpasses₂).outer.inFlow_eq.trans hflow
  -- the key is no candidate, so the colon belongs to the question mark
  obtain ⟨l₃, hpasses₃, hrest₃⟩ := hpasses₂.unbound.value hflow₂ (hnone₂ hkey₁ hnone₁) hahead₂
  have hall := (hpasses₁.trans hpasses₂).trans hpasses₃
  have hahead₃ : l₃.ahead = v ++ rest := by
    rw [ahead, hrest₃]
    exact hv.dropWhile_eq rest
  obtain ⟨l₄, hpasses₄, hahead₄⟩ :=
    hv.entry.reads l₃ rest hpasses₃.unbound (hall.outer.inFlow_eq.trans hflow) hstops hahead₃
  exact ⟨l₄, hall.trans hpasses₄, hahead₄⟩

theorem ascii_entries {css : List (List Char)} {tss : List (List Token)}
    (hentries : List.Forall₂ ReadsEntry css tss) :
    ∀ c ∈ [',', ' '].intercalate css, isAscii c = true := by
  have hseparator : ∀ c ∈ [',', ' '], isAscii c = true := List.all_eq_true.mp (by decide)
  have hall : ∀ cs ∈ css, ∀ c ∈ cs, isAscii c = true := by
    induction hentries with
    | nil => exact nofun
    | cons hentry _ ih => exact List.forall_mem_cons.mpr ⟨hentry.ascii, ih⟩
  intro c hc
  rcases mem_or_exists_mem_of_mem_intercalate _ _ c hc with hc | ⟨cs, hcs, hc⟩
  · exact hseparator c hc
  · exact hall cs hcs c hc

/-- An entry or the closing bracket comes first, and neither starts with a space. -/
theorem dropWhile_entries {css : List (List Char)} {tss : List (List Token)}
    (hentries : List.Forall₂ ReadsEntry css tss) (b : Bracket) (rest : List Char) :
    ([',', ' '].intercalate css ++ b.closing :: rest).dropWhile (· = ' ') =
      [',', ' '].intercalate css ++ b.closing :: rest := by
  cases hentries with
  | nil => exact b.dropWhile_closing rest
  | @cons cs ts css tss hentry hentries =>
    obtain ⟨more, hmore⟩ := exists_intercalate_cons [',', ' '] cs css
    rw [hmore, List.append_assoc]
    exact hentry.dropWhile_eq _

/-- The entries of a collection, up to the bracket that closes it. -/
theorem Unbound.readsEntries {css : List (List Char)} {tss : List (List Token)}
    (hentries : List.Forall₂ ReadsEntry css tss) (b : Bracket) (rest : List Char) {l : Lexer}
    (h : l.Unbound) (hflow : l.inFlow = true)
    (hahead : l.ahead = [',', ' '].intercalate css ++ b.closing :: rest) :
    ∃ l' : Lexer, l.Passes ([.flowEntry].intercalate tss) l' ∧
      l'.ahead = b.closing :: rest := by
  -- the lexer stands in front of the first entry that is left
  induction hentries generalizing l with
  | nil => exact ⟨l, ⟨.refl, h, rfl, .refl _⟩, hahead⟩
  | @cons cs ts css tss hentry hentries ih =>
    cases hentries with
    | nil =>
      rw [List.intercalate_singleton] at hahead ⊢
      obtain ⟨l', hpasses, hahead'⟩ := hentry.reads l _ h hflow b.plainStops_closing hahead
      exact ⟨l', hpasses, hahead'.trans (b.dropWhile_closing rest)⟩
    | @cons cs' ts' css tss hentry' hentries =>
      rw [List.intercalate_cons_cons] at hahead ⊢
      have hcomma : l.ahead =
          cs ++ ',' :: ' ' :: ([',', ' '].intercalate (cs' :: css) ++ b.closing :: rest) := by
        rw [hahead]
        simp
      obtain ⟨l₁, hpasses₁, hahead₁⟩ := hentry.reads l _ h hflow (plainStops_comma _) hcomma
      obtain ⟨l₂, hpasses₂, hrest₂⟩ := hpasses₁.unbound.comma hahead₁
      have hpasses := hpasses₁.trans hpasses₂
      have hahead₂ : l₂.ahead = [',', ' '].intercalate (cs' :: css) ++ b.closing :: rest := by
        rw [ahead, hrest₂]
        exact dropWhile_entries (.cons hentry' hentries) b rest
      obtain ⟨l₃, hpasses₃, hahead₃⟩ :=
        ih hpasses.unbound (hpasses.outer.inFlow_eq.trans hflow) hahead₂
      exact ⟨l₃, hpasses.trans hpasses₃, hahead₃⟩

theorem ReadsFlow.collection (b : Bracket) {css : List (List Char)} {tss : List (List Token)}
    (hentries : List.Forall₂ ReadsEntry css tss) :
    ReadsFlow (b.opening :: [',', ' '].intercalate css ++ [b.closing])
      (b.first :: [.flowEntry].intercalate tss ++ [b.last]) := by
  refine ⟨?_, ?_, ?_⟩
  · intro c hc
    simp only [List.mem_append, List.mem_cons, List.not_mem_nil, or_false] at hc
    rcases hc with (rfl | hc) | rfl
    · exact b.isAscii_opening
    · exact ascii_entries hentries c hc
    · exact b.isAscii_closing
  · exact fun rest => b.dropWhile_opening _
  · intro l rest h _ hahead
    have hbracket : l.ahead =
        b.opening :: ([',', ' '].intercalate css ++ b.closing :: rest) := by
      rw [hahead]
      simp
    refine h.readsNode_collection b _ rest _ hbracket ?_
    intro l' h' hflow hrest
    apply h'.readsEntries hentries b rest hflow
    rw [ahead, hrest]
    exact dropWhile_entries hentries b rest

variable (upper : Bool)

mutual

theorem readsFlow (t : Tree) : ReadsFlow (t.flow upper) t.flowTokens := by
  cases t with
  | null =>
    exact ⟨by simp [Tree.flow, isAscii], fun _ => rfl, fun l rest h hstops hahead =>
      h.readsNode_null rest hahead hstops⟩
  | text s =>
    exact ⟨isAscii_quoted upper s, fun _ => rfl, fun l rest h _ hahead =>
      h.readsNode_text upper s rest hahead⟩
  | list items => exact .collection .square (readsFlow_items items)
  | map pairs => exact .collection .curly (readsFlow_pairs pairs)

theorem readsFlow_items (items : List Tree) :
    List.Forall₂ ReadsEntry (Tree.flowItems upper items) (Tree.flowItemTokens items) := by
  cases items with
  | nil => exact .nil
  | cons t rest => exact .cons (readsFlow t).entry (readsFlow_items rest)

theorem readsFlow_pairs (pairs : List (Tree × Tree)) :
    List.Forall₂ ReadsEntry (Tree.flowPairs upper pairs) (Tree.flowPairTokens pairs) := by
  match pairs with
  | [] => exact .nil
  | (k, v) :: rest => exact .cons ((readsFlow k).pair (readsFlow v)) (readsFlow_pairs rest)

end

/-- At the end of the text nothing is left to close. -/
theorem Unbound.exists_step_nil {l : Lexer} (h : l.Unbound) (hahead : l.ahead = []) :
    ∃ l', l.step = .ok (l', true) ∧ l'.tokens = l.tokens := by
  obtain ⟨l₀, h₀⟩ := h.exists_settlesTo_ahead (by simp [hahead]) (by simp [hahead])
  have hclose : l₀.closeAll = .ok { l₀ with candidate := none, keyAllowed := false } := by
    rw [closeAll, h₀.unbound.closeTo_eq, h₀.unbound.dropCandidate_eq]
    rfl
  exact ⟨_, step_of_settle_nil h₀.settle_eq (h₀.rest_eq.trans hahead) hclose, h₀.tokens_eq⟩

end Lexer

/-- The tokens of a written tree are those of the tree. -/
theorem tokens_flow (upper : Bool) (t : Tree) :
    tokens (t.flow upper) = ⟨t.flowTokens, none⟩ := by
  have hflow := Lexer.readsFlow upper t
  let l : Lexer := ⟨⟨t.flow upper, 0, 0, 0⟩, [], 0, [], true, none, []⟩
  have hunbound : l.Unbound := ⟨rfl, nofun, nofun⟩
  have hahead : l.ahead = t.flow upper ++ [] := by
    have hdrop := hflow.dropWhile_eq []
    rw [List.append_nil] at hdrop ⊢
    exact hdrop
  obtain ⟨l', hpasses, hahead', -⟩ :=
    hflow.reads l [] hunbound (Lexer.plainStops_nil _) hahead
  obtain ⟨l'', hstep, htokens⟩ := hpasses.unbound.exists_step_nil hahead'
  rw [tokens_of_ascii _ hflow.ascii,
    Lexer.tokensFrom_of_reads hpasses.reads hstep _ (Nat.lt_succ_self _), htokens,
    hpasses.tokens_eq, List.append_nil, List.reverse_reverse]

end FlowNotation.Yaml
