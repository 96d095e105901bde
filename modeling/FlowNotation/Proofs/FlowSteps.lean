import FlowNotation.Proofs.Escapes
import Mathlib.Data.List.DropRight

/-! Steps of the lexer within flow collections. Brackets alone tell where a collection ends, so no
block collection is ever opened and no key is ever required; a key is announced by its question
mark, so that the colon behind it finds no candidate. -/
namespace FlowNotation.Yaml
open Text

namespace Lexer

/-! ## Lexers within flow collections -/

def Keeps (k k' : Option Candidate) : Prop :=
  -- a level of collections stays without a candidate if it has none
  k = none → k' = none

theorem Keeps.trans {k k' k'' : Option Candidate} (h : Keeps k k') (h' : Keeps k' k'') :
    Keeps k k'' := fun hk => h' (h hk)

theorem keeps_filter (k : Option Candidate) (p : Candidate → Bool) : Keeps k (k.filter p) := by
  intro hk
  rw [hk, Option.filter_none]

def KeepsAll (ks ks' : List (Option Candidate)) : Prop :=
  -- as many collections are open, and no level of them has won a candidate
  List.Forall₂ Keeps ks ks'

theorem KeepsAll.refl (ks : List (Option Candidate)) : KeepsAll ks ks :=
  List.forall₂_same.mpr fun _ _ hk => hk

theorem KeepsAll.trans {ks ks' ks'' : List (Option Candidate)} (h : KeepsAll ks ks')
    (h' : KeepsAll ks' ks'') : KeepsAll ks ks'' := by
  induction h generalizing ks'' with
  | nil => exact h'
  | cons hk _ ih =>
    cases h' with
    | cons hk' h' => exact .cons (hk.trans hk') (ih h')

/-- Whether the lexer is in brackets depends on how many levels are open. -/
theorem KeepsAll.inFlow_eq {l l' : Lexer} (h : KeepsAll l.outer l'.outer) :
    l'.inFlow = l.inFlow := by
  have hlength := h.length_eq
  have hempty : l'.outer.isEmpty = l.outer.isEmpty := by
    rw [Bool.eq_iff_iff, List.isEmpty_iff_length_eq_zero, List.isEmpty_iff_length_eq_zero, hlength]
  rw [inFlow, inFlow, hempty]

structure Unbound (l : Lexer) : Prop where
  -- no block collection is open, and no key is required
  indents_eq : l.indents = []
  candidate : ∀ k, l.candidate = some k → k.required = false
  outer : ∀ k, some k ∈ l.outer → k.required = false

/-- Where nothing is bound, giving up the candidate at hand leaves it so. -/
theorem Unbound.of_candidate_eq_none {l l' : Lexer} (h : l.Unbound)
    (hindents : l'.indents = l.indents) (hcandidate : l'.candidate = none)
    (houter : l'.outer = l.outer) : l'.Unbound where
  indents_eq := hindents.trans h.indents_eq
  candidate := by
    intro k hk
    rw [hcandidate] at hk
    cases hk
  outer := houter ▸ h.outer

/-- Where nothing is bound, stale candidates are dropped without a fault. -/
theorem Unbound.dropStale_eq {l : Lexer} (h : l.Unbound) :
    l.dropStale = .ok { l with
      candidate := l.candidate.filter fun k => !k.isStale l.cursor
      outer := l.outer.map fun k => k.filter fun k => !k.isStale l.cursor } := by
  have hfree : ¬ l.candidates.any (fun k => k.isStale l.cursor && k.required) = true := by
    simp only [List.any_eq_true, Bool.and_eq_true, not_exists, not_and]
    intro k hk _
    rcases (l.mem_candidates_iff k).mp hk with hk | hk
    · simp [h.candidate k hk]
    · simp [h.outer k hk]
  rw [dropStale, if_neg hfree]
  rfl

theorem Unbound.dropCandidate_eq {l : Lexer} (h : l.Unbound) :
    l.dropCandidate = .ok { l with candidate := none } := by
  unfold dropCandidate
  split
  · next k hk =>
    rw [h.candidate k hk]
    rfl
  · next hk =>
    rw [← hk]
    rfl

/-- Where no key is allowed, a node leaves the candidate as it is. -/
theorem Unbound.exists_noteCandidate {l : Lexer} (h : l.Unbound) :
    ∃ k, l.noteCandidate = .ok { l with candidate := k } ∧
      (∀ k', k = some k' → k'.required = false) ∧ (l.keyAllowed = false → k = l.candidate) := by
  unfold noteCandidate
  by_cases hkey : l.keyAllowed = true
  · rw [if_pos hkey, h.dropCandidate_eq]
    refine ⟨_, rfl, ?_, fun hno => absurd hkey (by simp [hno])⟩
    intro k hk
    obtain rfl := Option.some.inj hk
    simp [h.indents_eq]
  · rw [if_neg hkey]
    exact ⟨l.candidate, rfl, h.candidate, fun _ => rfl⟩

theorem Unbound.closeTo_eq {l : Lexer} (h : l.Unbound) (column : Option Nat) :
    l.closeTo column = l := by
  obtain ⟨c, ts, n, is, a, k, ks⟩ := l
  have his : is = [] := h.indents_eq
  simp [closeTo, his]

/-! ## Settling on a line -/

structure SettlesTo (l l₀ : Lexer) (cs : List Char) : Prop where
  -- on its way to the next token, the lexer comes to stand in front of `cs`
  ahead_eq : l.ahead = cs
  settle_eq : l.settle = .ok l₀
  rest_eq : l₀.cursor.rest = cs
  unbound : l₀.Unbound
  tokens_eq : l₀.tokens = l.tokens
  keyAllowed_eq : l₀.keyAllowed = l.keyAllowed
  candidate : Keeps l.candidate l₀.candidate
  outer : KeepsAll l.outer l₀.outer

theorem Unbound.exists_settlesTo_ahead {l : Lexer} (h : l.Unbound)
    (hcomment : l.ahead.head? ≠ some '#') (hbreak : l.ahead.head?.any isBreak = false) :
    ∃ l₀, l.SettlesTo l₀ l.ahead := by
  let c := skipSpaces l.cursor
  let fresh := fun k : Option Candidate => k.filter fun k => !k.isStale c
  let l₀ := { l with cursor := c, candidate := fresh l.candidate, outer := l.outer.map fresh }
  have hunbound : l₀.Unbound := by
    refine ⟨h.indents_eq, ?_, ?_⟩
    · intro k hk
      exact h.candidate k (Option.filter_eq_some_iff.mp hk).1
    · intro k hk
      obtain ⟨k', hk', he⟩ := List.mem_map.mp hk
      have hk'' : k' = some k := (Option.filter_eq_some_iff.mp he).1
      exact h.outer k (hk'' ▸ hk')
  have hmoved : (l.moveTo c).Unbound := ⟨h.indents_eq, h.candidate, h.outer⟩
  have hsettle : l.settle = .ok l₀ :=
    settle_of_ahead hcomment hbreak hmoved.dropStale_eq (hunbound.closeTo_eq _)
  refine ⟨l₀, rfl, hsettle, l.cursor.rest_skipWhile _, hunbound, rfl, rfl, keeps_filter _ _, ?_⟩
  rw [KeepsAll, List.forall₂_map_right_iff, List.forall₂_same]
  exact fun k _ => keeps_filter k _

theorem Unbound.exists_settlesTo {l : Lexer} (h : l.Unbound) {ch : Char} {rest : List Char}
    (hahead : l.ahead = ch :: rest) (hcomment : ch ≠ '#') (hbreak : isBreak ch = false) :
    ∃ l₀, l.SettlesTo l₀ (ch :: rest) := by
  obtain ⟨l₀, h₀⟩ := h.exists_settlesTo_ahead (by simp [hahead, hcomment]) (by simp [hahead, hbreak])
  exact ⟨l₀, hahead ▸ h₀⟩

/-! ## Reading tokens -/

structure Passes (l : Lexer) (ts : List Token) (l' : Lexer) : Prop where
  -- from `l` to `l'` the tokens `ts` are read, all within the same collections
  reads : Relation.ReflTransGen Reads l l'
  unbound : l'.Unbound
  tokens_eq : l'.tokens = ts.reverse ++ l.tokens
  outer : KeepsAll l.outer l'.outer

theorem Passes.trans {l l' l'' : Lexer} {ts ts' : List Token} (h : l.Passes ts l')
    (h' : l'.Passes ts' l'') : l.Passes (ts ++ ts') l'' where
  reads := h.reads.trans h'.reads
  unbound := h'.unbound
  tokens_eq := by rw [h'.tokens_eq, h.tokens_eq, List.reverse_append, List.append_assoc]
  outer := h.outer.trans h'.outer

/-- A token that is read after settling is one step. -/
theorem SettlesTo.reads {l l₀ l' : Lexer} {ch : Char} {rest : List Char}
    (h : l.SettlesTo l₀ (ch :: rest)) (htoken : l₀.readToken ch rest = .ok l')
    (hrest : l'.cursor.rest <:+ rest) : Reads l l' := by
  refine ⟨step_of_settle h.settle_eq h.rest_eq htoken, ?_⟩
  have hle : (ch :: rest).length ≤ l.cursor.rest.length := by
    rw [← h.ahead_eq]
    exact (List.dropWhile_suffix _).length_le
  have hle' := hrest.length_le
  rw [List.length_cons] at hle
  omega

theorem SettlesTo.rest_next {l l₀ : Lexer} {ch : Char} {rest : List Char}
    (h : l.SettlesTo l₀ (ch :: rest)) : l₀.cursor.next.rest = rest := by
  rw [Cursor.rest_next, h.rest_eq, List.tail_cons]

/-- A token that neither opens nor closes a collection. -/
theorem SettlesTo.passes {l l₀ l' : Lexer} {ch : Char} {rest : List Char} {t : Token}
    (h : l.SettlesTo l₀ (ch :: rest)) (htoken : l₀.readToken ch rest = .ok l')
    (hrest : l'.cursor.rest <:+ rest) (hunbound : l'.Unbound)
    (htokens : l'.tokens = t :: l₀.tokens) (houter : l'.outer = l₀.outer) :
    l.Passes [t] l' where
  reads := .single (h.reads htoken hrest)
  unbound := hunbound
  tokens_eq := by
    rw [htokens, h.tokens_eq]
    rfl
  outer := houter ▸ h.outer

/-! ## Indicators -/

/-- A comma ends an entry, whatever stands behind it. -/
theorem Unbound.comma {l : Lexer} (h : l.Unbound) {rest : List Char}
    (hahead : l.ahead = ',' :: rest) :
    ∃ l', l.Passes [.flowEntry] l' ∧ l'.cursor.rest = rest := by
  obtain ⟨l₀, h₀⟩ := h.exists_settlesTo hahead (by decide) (by decide)
  have htoken : l₀.readToken ',' rest =
      .ok { { l₀ with candidate := none }.single .flowEntry with keyAllowed := true } := by
    simp only [readToken, h₀.rest_eq, atDocumentMark]
    simp [flowEntry, h₀.unbound.dropCandidate_eq, bind, Except.bind, pure, Except.pure]
  have hrest := h₀.rest_next
  refine ⟨_, h₀.passes htoken ?_ ?_ rfl rfl, hrest⟩
  · exact hrest ▸ List.suffix_rfl
  · exact h₀.unbound.of_candidate_eq_none rfl rfl rfl

/-- Behind a question mark no key may start, and none has started. -/
theorem Unbound.question {l : Lexer} (h : l.Unbound) (hflow : l.inFlow = true)
    {rest : List Char} (hahead : l.ahead = '?' :: rest) :
    ∃ l', l.Passes [.key] l' ∧ l'.cursor.rest = rest ∧ l'.keyAllowed = false ∧
      l'.candidate = none := by
  obtain ⟨l₀, h₀⟩ := h.exists_settlesTo hahead (by decide) (by decide)
  have hflow₀ : l₀.inFlow = true := h₀.outer.inFlow_eq.trans hflow
  have htoken : l₀.readToken '?' rest =
      .ok { { l₀ with candidate := none }.single .key with keyAllowed := false } := by
    simp only [readToken, h₀.rest_eq, atDocumentMark]
    simp [explicitKey, hflow₀, h₀.unbound.dropCandidate_eq, bind, Except.bind, pure, Except.pure]
  have hrest := h₀.rest_next
  refine ⟨_, h₀.passes htoken ?_ ?_ rfl rfl, hrest, rfl, rfl⟩
  · exact hrest ▸ List.suffix_rfl
  · exact h₀.unbound.of_candidate_eq_none rfl rfl rfl

/-- Without a candidate, a colon belongs to the key that was announced. -/
theorem Unbound.value {l : Lexer} (h : l.Unbound) (hflow : l.inFlow = true)
    (hkey : l.candidate = none) {rest : List Char} (hahead : l.ahead = ':' :: rest) :
    ∃ l', l.Passes [.value] l' ∧ l'.cursor.rest = rest := by
  obtain ⟨l₀, h₀⟩ := h.exists_settlesTo hahead (by decide) (by decide)
  have hflow₀ : l₀.inFlow = true := h₀.outer.inFlow_eq.trans hflow
  have hkey₀ : l₀.candidate = none := h₀.candidate hkey
  have htoken : l₀.readToken ':' rest = .ok { l₀.single .value with keyAllowed := false } := by
    simp only [readToken, h₀.rest_eq, atDocumentMark]
    simp [colon, hflow₀, hkey₀, bind, Except.bind, pure, Except.pure]
  have hrest := h₀.rest_next
  have hunbound := h₀.unbound
  refine ⟨_, h₀.passes htoken ?_ ⟨hunbound.indents_eq, hunbound.candidate, hunbound.outer⟩ rfl rfl,
    hrest⟩
  exact hrest ▸ List.suffix_rfl

/-! ## Brackets -/

inductive Bracket
  | square
  | curly

namespace Bracket

def opening : Bracket → Char
  | square => '['
  | curly => '{'

def closing : Bracket → Char
  | square => ']'
  | curly => '}'

def first : Bracket → Token
  | square => .flowSequenceStart
  | curly => .flowMappingStart

def last : Bracket → Token
  | square => .flowSequenceEnd
  | curly => .flowMappingEnd

variable (b : Bracket)

theorem isAscii_opening : isAscii b.opening = true := by cases b <;> decide

theorem isAscii_closing : isAscii b.closing = true := by cases b <;> decide

theorem dropWhile_opening (rest : List Char) :
    (b.opening :: rest).dropWhile (· = ' ') = b.opening :: rest := by cases b <;> rfl

theorem dropWhile_closing (rest : List Char) :
    (b.closing :: rest).dropWhile (· = ' ') = b.closing :: rest := by cases b <;> rfl

theorem readToken_opening (l : Lexer) (rest : List Char)
    (h : l.cursor.rest = b.opening :: rest) : l.readToken b.opening rest = l.openFlow b.first := by
  cases b with
  | square => simp [readToken, h, atDocumentMark, opening, first]
  | curly => simp [readToken, h, atDocumentMark, opening, first]

theorem readToken_closing (l : Lexer) (rest : List Char)
    (h : l.cursor.rest = b.closing :: rest) : l.readToken b.closing rest = l.closeFlow b.last := by
  cases b with
  | square => simp [readToken, h, atDocumentMark, closing, last]
  | curly => simp [readToken, h, atDocumentMark, closing, last]

end Bracket

/-- An opening bracket starts a level without candidate, and keeps the candidate that it may itself
be for the level around. -/
theorem Unbound.opening {l : Lexer} (h : l.Unbound) (b : Bracket) {rest : List Char}
    (hahead : l.ahead = b.opening :: rest) :
    ∃ (l' : Lexer) (k : Option Candidate) (outer : List (Option Candidate)),
      Reads l l' ∧ l'.Unbound ∧ l'.tokens = b.first :: l.tokens ∧ l'.cursor.rest = rest ∧
        l'.outer = k :: outer ∧ KeepsAll l.outer outer ∧
          (l.keyAllowed = false → Keeps l.candidate k) := by
  have hcomment : b.opening ≠ '#' := by cases b <;> decide
  have hbreak : isBreak b.opening = false := by cases b <;> decide
  obtain ⟨l₀, h₀⟩ := h.exists_settlesTo hahead hcomment hbreak
  obtain ⟨k, hnote, hrequired, hkeeps⟩ := h₀.unbound.exists_noteCandidate
  have htoken : l₀.readToken b.opening rest =
      .ok { { l₀ with candidate := k }.single b.first with
        keyAllowed := true, candidate := none, outer := k :: l₀.outer } := by
    rw [b.readToken_opening l₀ rest h₀.rest_eq, openFlow, hnote]
    rfl
  have hrest := h₀.rest_next
  refine ⟨_, k, l₀.outer, h₀.reads htoken ?_, ⟨h₀.unbound.indents_eq, nofun, ?_⟩,
    congrArg (b.first :: ·) h₀.tokens_eq, hrest, rfl, h₀.outer, ?_⟩
  · exact hrest ▸ List.suffix_rfl
  · intro k' hk'
    rcases List.mem_cons.mp hk' with hk' | hk'
    · exact hrequired k' hk'.symm
    · exact h₀.unbound.outer k' hk'
  · intro hkey
    rw [hkeeps (h₀.keyAllowed_eq.trans hkey)]
    exact h₀.candidate

/-- A closing bracket brings back what the level around it had. -/
theorem Unbound.closing {l : Lexer} (h : l.Unbound) (b : Bracket) {rest : List Char}
    (hahead : l.ahead = b.closing :: rest) {k : Option Candidate} {outer : List (Option Candidate)}
    (houter : l.outer = k :: outer) :
    ∃ l', Reads l l' ∧ l'.Unbound ∧ l'.tokens = b.last :: l.tokens ∧ l'.cursor.rest = rest ∧
      KeepsAll outer l'.outer ∧ l'.keyAllowed = false ∧ Keeps k l'.candidate := by
  have hcomment : b.closing ≠ '#' := by cases b <;> decide
  have hbreak : isBreak b.closing = false := by cases b <;> decide
  obtain ⟨l₀, h₀⟩ := h.exists_settlesTo hahead hcomment hbreak
  have hkeeps := h₀.outer
  rw [houter] at hkeeps
  obtain ⟨k₀, outer₀, hk₀, houter₀, heq⟩ := List.forall₂_cons_left_iff.mp hkeeps
  have htoken : l₀.readToken b.closing rest =
      .ok { { l₀ with candidate := none }.single b.last with
        keyAllowed := false, candidate := k₀, outer := outer₀ } := by
    rw [b.readToken_closing l₀ rest h₀.rest_eq, closeFlow, h₀.unbound.dropCandidate_eq]
    simp only [bind, Except.bind, heq]
    rfl
  have hrest := h₀.rest_next
  have hmem : ∀ k', some k' ∈ k₀ :: outer₀ → k'.required = false := by
    rw [← heq]
    exact h₀.unbound.outer
  refine ⟨_, h₀.reads htoken ?_, ⟨h₀.unbound.indents_eq, ?_, ?_⟩,
    congrArg (b.last :: ·) h₀.tokens_eq, hrest, houter₀, rfl, hk₀⟩
  · exact hrest ▸ List.suffix_rfl
  · intro k' hk'
    exact hmem k' (hk' ▸ List.mem_cons_self)
  · exact fun k' hk' => hmem k' (List.mem_cons_of_mem _ hk')

def ReadsNode (l : Lexer) (ts : List Token) (rest : List Char) : Prop :=
  -- The node that starts in front of `l` has the tokens `ts`, and `rest` is left behind it. Behind
  -- it no key may start; if none might start before it, then it is no candidate either.
  ∃ l', l.Passes ts l' ∧ l'.ahead = rest ∧ l'.keyAllowed = false ∧
    (l.keyAllowed = false → Keeps l.candidate l'.candidate)

/-- A collection, once its entries are read up to the closing bracket. -/
theorem Unbound.readsNode_collection {l : Lexer} (h : l.Unbound) (b : Bracket)
    (inner rest : List Char) (ts : List Token) (hahead : l.ahead = b.opening :: inner)
    (hinner : ∀ l' : Lexer, l'.Unbound → l'.inFlow = true → l'.cursor.rest = inner →
      ∃ l'' : Lexer, l'.Passes ts l'' ∧ l''.ahead = b.closing :: rest) :
    l.ReadsNode (b.first :: ts ++ [b.last]) (rest.dropWhile (· = ' ')) := by
  obtain ⟨l₁, k, outer, hreads, hunbound, htokens, hrest, houter, hkeeps, hkey⟩ :=
    h.opening b hahead
  have hflow : l₁.inFlow = true := by
    rw [inFlow, houter]
    rfl
  obtain ⟨l₂, hpasses, hahead₂⟩ := hinner l₁ hunbound hflow hrest
  -- the entries leave the level around the collection open, so there is one to go back to
  have hlevels := hpasses.outer
  rw [houter] at hlevels
  obtain ⟨k₂, outer₂, hk₂, hkeeps₂, houter₂⟩ := List.forall₂_cons_left_iff.mp hlevels
  obtain ⟨l₃, hreads₃, hunbound₃, htokens₃, hrest₃, hkeeps₃, hallowed₃, hkey₃⟩ :=
    hpasses.unbound.closing b hahead₂ houter₂
  refine ⟨l₃, ⟨?_, hunbound₃, ?_, ?_⟩, ?_, hallowed₃, ?_⟩
  · exact (Relation.ReflTransGen.single hreads).trans (hpasses.reads.tail hreads₃)
  · rw [htokens₃, hpasses.tokens_eq, htokens]
    simp
  · exact hkeeps.trans (KeepsAll.trans hkeeps₂ hkeeps₃)
  · rw [ahead, hrest₃]
  · intro hno
    exact ((hkey hno).trans hk₂).trans hkey₃

/-! ## Scalars -/

structure PlainStops (inFlow : Bool) (rest : List Char) : Prop where
  -- a plain scalar ends in front of `rest`, and so does its line's last gap
  plainRun_eq : plainRun inFlow rest = 0
  plainRun_ahead_eq : plainRun inFlow (rest.dropWhile (· = ' ')) = 0
  not_break : (rest.dropWhile (· = ' ')).head?.any isBreak = false

/-- A tilde is a plain scalar of its own where the scalar stops. -/
theorem readPlain_tilde (inFlow : Bool) (indent : Nat) (c : Cursor) (rest : List Char)
    (hrest : c.rest = '~' :: rest) (hstops : PlainStops inFlow rest) :
    ∃ c', readPlain inFlow indent c = ⟨['~'], c', false⟩ ∧ c'.rest = rest.dropWhile (· = ' ') := by
  have hskip : (c.skip 1).rest = rest := by
    rw [Cursor.rest_skip, hrest]
    rfl
  have hrun : plainRun inFlow c.rest = 1 := by
    rw [hrest, plainRun, hstops.plainRun_eq]
    cases inFlow with
    | false => simp [isWhite, isBreak]
    | true => simp [isWhite, isBreak, flowIndicators]
  have hgap : plainGap (c.skip 1) =
      (rest.takeWhile (· = ' '), (c.skip 1).skipWhile (· = ' '), false) := by
    rw [plainGap_of_line _ (by rw [hskip]; exact hstops.not_break), hskip]
  have hbehind : ((c.skip 1).skipWhile (· = ' ')).rest = rest.dropWhile (· = ' ') := by
    rw [Cursor.rest_skipWhile, hskip]
  refine ⟨(c.skip 1).skipWhile (· = ' '), ?_, hbehind⟩
  rw [readPlain, Cursor.rounds, plainFrom_run inFlow indent _ _ _ _ _ c ['~'] rest hrest hrun
    (by simp) (by simp [hrest]), List.length_singleton, hgap]
  dsimp only
  split
  · rfl
  -- the spaces behind the scalar might belong to it, but no run follows them
  · rw [hrest, plainFrom, if_pos (Or.inr (by rw [hbehind]; exact hstops.plainRun_ahead_eq))]
    rfl

/-- Behind a scalar no key may start, and the scalar is a candidate only where a key was allowed. -/
theorem SettlesTo.readsNode_scalar {l l₀ : Lexer} {ch : Char} {inner rest : List Char}
    (h₀ : l.SettlesTo l₀ (ch :: inner)) {k : Option Candidate}
    (hrequired : ∀ k', k = some k' → k'.required = false)
    (hkeeps : l₀.keyAllowed = false → k = l₀.candidate) {t : Token} {c : Cursor}
    (htoken : l₀.readToken ch inner =
      .ok { { l₀ with candidate := k }.emit t with cursor := c, keyAllowed := false })
    (hsuffix : c.rest <:+ inner) (hrest : c.rest.dropWhile (· = ' ') = rest) :
    l.ReadsNode [t] rest := by
  refine ⟨_, h₀.passes htoken hsuffix ⟨h₀.unbound.indents_eq, hrequired, h₀.unbound.outer⟩ rfl rfl,
    hrest, rfl, ?_⟩
  intro hno
  show Keeps l.candidate k
  rw [hkeeps (h₀.keyAllowed_eq.trans hno)]
  exact h₀.candidate

/-- A tilde is read as a plain scalar, the blank. -/
theorem Unbound.readsNode_null {l : Lexer} (h : l.Unbound) (rest : List Char)
    (hahead : l.ahead = '~' :: rest) (hstops : PlainStops l.inFlow rest) :
    l.ReadsNode [.scalar (ofChars ['~']) true] (rest.dropWhile (· = ' ')) := by
  obtain ⟨l₀, h₀⟩ := h.exists_settlesTo hahead (by decide) (by decide)
  obtain ⟨k, hnote, hrequired, hkeeps⟩ := h₀.unbound.exists_noteCandidate
  have hflow₀ : ({ l₀ with candidate := k } : Lexer).inFlow = l.inFlow := h₀.outer.inFlow_eq
  obtain ⟨c, hread, hrest⟩ := readPlain_tilde l.inFlow { l₀ with candidate := k }.innerColumn
    l₀.cursor rest h₀.rest_eq hstops
  have htoken : l₀.readToken '~' rest = .ok { { l₀ with candidate := k }.emit
      (.scalar (ofChars ['~']) true) with cursor := c, keyAllowed := false } := by
    rw [l₀.readToken_of_plain '~' rest h₀.rest_eq (by decide) (by decide) (by decide)]
    simp only [plainScalar, hnote, bind, Except.bind, hflow₀, hread]
    rfl
  apply h₀.readsNode_scalar hrequired hkeeps htoken (hrest ▸ List.dropWhile_suffix _)
  rw [hrest, List.dropWhile_idempotent]

/-- A quoted text is read as one scalar that is not plain. -/
theorem Unbound.readsNode_text (upper : Bool) {l : Lexer} (h : l.Unbound) (s : Text)
    (rest : List Char) (hahead : l.ahead = quoted upper s ++ rest) :
    l.ReadsNode [.scalar s false] (rest.dropWhile (· = ' ')) := by
  let body := s.flatMap (escape upper) ++ ['"'] ++ rest
  have hahead' : l.ahead = '"' :: body := by
    rw [hahead, quoted]
    rfl
  obtain ⟨l₀, h₀⟩ := h.exists_settlesTo hahead' (by decide) (by decide)
  obtain ⟨k, hnote, hrequired, hkeeps⟩ := h₀.unbound.exists_noteCandidate
  obtain ⟨c, hread, hrest⟩ := readQuoted_quoted upper s l₀.cursor rest h₀.rest_eq
  have htoken : l₀.readToken '"' body = .ok { { l₀ with candidate := k }.emit
      (.scalar s false) with cursor := c, keyAllowed := false } := by
    have hquote : l₀.readToken '"' body = l₀.quotedScalar .double := by
      simp [readToken, h₀.rest_eq, atDocumentMark]
    rw [hquote]
    simp only [quotedScalar, nodePart, hnote, bind, Except.bind, hread]
    rfl
  apply h₀.readsNode_scalar hrequired hkeeps htoken (hrest ▸ List.suffix_append _ _)
  rw [hrest]

end Lexer
end FlowNotation.Yaml
