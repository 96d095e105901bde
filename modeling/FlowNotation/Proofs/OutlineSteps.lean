import FlowNotation.Proofs.Words
import Mathlib.Data.List.TakeWhile

/-! Steps of the lexer through indented lines. A level of lines opens a block collection at its first
key; it is closed in front of the next line that stands further left, so what is said of a level is
said of the lexer once that has happened. -/
namespace FlowNotation.Yaml
open Text

namespace Lexer

/-! ## In front of a line -/

structure AtLine (l : Lexer) (n : Nat) (cs : List Char) : Prop where
  -- the next token is the one that starts at the next line's column `n`, in front of `cs`
  outer_eq : l.outer = []
  candidate_eq : l.candidate = none
  length_le : cs.length ≤ l.cursor.rest.length
  exists_cursor : ∃ c, l.skipGaps l.cursor.rounds = { l with cursor := c, keyAllowed := true } ∧
    c.rest = cs ∧ c.column = n

structure ClosesTo (l : Lexer) (n : Nat) (is : List Nat) (ts : List Token) : Prop where
  -- once the levels right of column `n` are closed, the levels `is` are open and the tokens are
  -- `ts`
  indents_eq : l.indents.dropWhile (n < ·) = is
  tokens_eq : List.replicate (l.indents.takeWhile (n < ·)).length .blockEnd ++ l.tokens = ts

theorem takeWhile_of_head {is : List Nat} {n : Nat} (h : is.head?.all (· ≤ n) = true) :
    is.takeWhile (n < ·) = [] := by
  cases is with
  | nil => rfl
  | cons i is =>
    have hi : i ≤ n := by simpa using h
    simp [hi]

/-- Levels that do not stand further right stay open. -/
theorem closesTo_of_head {l : Lexer} {n : Nat} (h : l.indents.head?.all (· ≤ n) = true) :
    l.ClosesTo n l.indents l.tokens := by
  have hdeeper := takeWhile_of_head h
  constructor
  · rw [← drop_length_takeWhile, hdeeper]
    rfl
  · rw [hdeeper]
    rfl

theorem closesTo_of_indents {l : Lexer} {n m : Nat} {is : List Nat} (h : l.indents = n :: is)
    (hn : n ≤ m) : l.ClosesTo m (n :: is) l.tokens := by
  rw [← h]
  apply closesTo_of_head
  simpa [h] using hn

theorem closeTo_of_head {l : Lexer} {n : Nat} (h : l.indents.head?.all (· ≤ n) = true) :
    l.closeTo (some n) = l := by
  unfold closeTo
  split
  · rfl
  · simp [takeWhile_of_head h]

/-- Further left, more levels are closed. -/
theorem ClosesTo.left {l : Lexer} {n m : Nat} {is is' : List Nat} {ts ts' : List Token}
    (h : l.ClosesTo m is ts) (hn : n ≤ m) (his : is.dropWhile (n < ·) = is')
    (hts : List.replicate (is.takeWhile (n < ·)).length .blockEnd ++ ts = ts') :
    l.ClosesTo n is' ts' := by
  have hsplit := List.takeWhile_append_dropWhile (p := (m < ·)) (l := l.indents)
  have hdeep : ∀ i ∈ l.indents.takeWhile (m < ·), decide (n < i) = true := by
    intro i hi
    have hm := List.mem_takeWhile_imp hi
    simp only [decide_eq_true_eq] at hm ⊢
    omega
  rw [h.indents_eq] at hsplit
  constructor
  · rw [← hsplit, List.dropWhile_append_of_pos hdeep, his]
  · rw [← hsplit, List.takeWhile_append_of_pos hdeep, List.length_append, Nat.add_comm,
      List.replicate_add, List.append_assoc, h.tokens_eq, hts]

theorem ClosesTo.exists_closeTo {l : Lexer} {n : Nat} {is : List Nat} {ts : List Token}
    (h : l.ClosesTo n is ts) (houter : l.outer = []) :
    ∃ m, l.closeTo (some n) = { l with indents := is, tokens := ts, count := m } := by
  have hflow : l.inFlow = false := by
    rw [inFlow, houter]
    rfl
  refine ⟨l.count + (l.indents.takeWhile (n < ·)).length, ?_⟩
  rw [closeTo, hflow, ← h.indents_eq, ← h.tokens_eq, ← drop_length_takeWhile]
  rfl

theorem AtLine.exists_settle {l : Lexer} {n : Nat} {cs : List Char} (h : l.AtLine n cs)
    {is : List Nat} {ts : List Token} (hcloses : l.ClosesTo n is ts) :
    ∃ c m, l.settle = .ok ⟨c, ts, m, is, true, none, []⟩ ∧ c.rest = cs ∧ c.column = n := by
  obtain ⟨c, hgaps, hrest, hcolumn⟩ := h.exists_cursor
  have hcloses' : ({ l with cursor := c, keyAllowed := true } : Lexer).ClosesTo n is ts :=
    ⟨hcloses.indents_eq, hcloses.tokens_eq⟩
  obtain ⟨m, hclose⟩ := hcloses'.exists_closeTo h.outer_eq
  refine ⟨c, m, ?_, hrest, hcolumn⟩
  have hstale : ({ l with cursor := c, keyAllowed := true } : Lexer).dropStale =
      .ok { l with cursor := c, keyAllowed := true } := by
    simp [dropStale, candidates, h.outer_eq, h.candidate_eq, pure, Except.pure]
  rw [settle, hgaps, hstale]
  show Except.ok (closeTo (some c.column) { l with cursor := c, keyAllowed := true }) = _
  rw [hcolumn, hclose, h.outer_eq, h.candidate_eq]

/-! ## Keys -/

inductive Opens (n : Nat) (is : List Nat) : List Nat → List Token → Prop
  -- a level at column `n` within the levels `is`: it is opened by the key to come, or it is open
  | first (h : is.head?.all (· < n) = true) : Opens n is is [.blockMappingStart]
  | next : Opens n is (n :: is) []

theorem readToken_of_isLetter {l : Lexer} {ch : Char} {rest : List Char}
    (hrest : l.cursor.rest = ch :: rest) (hch : isLetter ch = true) :
    l.readToken ch rest = l.plainScalar := by
  apply readToken_of_plain _ _ _ hrest (not_mem_indicators_of_isLetter hch)
    (ne_of_isLetter hch '.' (by decide))
  rw [isWhite_of_isLetter hch, isBreak_of_isLetter hch]
  rfl

/-- A key where one is allowed becomes the candidate. -/
theorem plainScalar_key (c : Cursor) (ts : List Token) (m : Nat) (is : List Nat) (k rest : List Char)
    (hk : IsWord k) (hrest : c.rest = k ++ ':' :: rest) (hblank : atBlank rest = true) :
    ∃ required, plainScalar ⟨c, ts, m, is, true, none, []⟩ =
      .ok ⟨⟨':' :: rest, c.index + k.length, c.line, c.column + k.length⟩,
        .scalar (ofChars k) true :: ts, m + 1, is, false,
        some ⟨m, required, c.index, c.line, c.column⟩, []⟩ := by
  let required := decide (is.head? = some c.column)
  let l : Lexer := ⟨c, ts, m, is, true, some ⟨m, required, c.index, c.line, c.column⟩, []⟩
  have hnote : noteCandidate ⟨c, ts, m, is, true, none, []⟩ = .ok l := rfl
  have hflow : l.inFlow = false := rfl
  have hread : readPlain false l.innerColumn l.cursor =
      ⟨k, ⟨':' :: rest, c.index + k.length, c.line, c.column + k.length⟩, false⟩ := by
    rw [readPlain_key l.innerColumn c k rest hk hrest hblank, c.skip_word k _ hk hrest]
  refine ⟨required, ?_⟩
  simp only [plainScalar, hnote, bind, Except.bind, hflow, hread]
  rfl

/-- A colon behind the candidate. The candidate stands on the same line and is near enough. -/
theorem exists_step_colon {n : Nat} {is is' : List Nat} {opening : List Token}
    (hopens : Opens n is is' opening) (index line m : Nat) (required : Bool) (t : Token)
    (ts : List Token) (rest : List Char) (length : Nat) (hlength : length ≤ keyReach)
    (hblank : atBlank rest = true) :
    ∃ c m', step ⟨⟨':' :: rest, index + length, line, n + length⟩, t :: ts, m + 1, is', false,
        some ⟨m, required, index, line, n⟩, []⟩ =
      .ok (⟨c, .value :: t :: .key :: opening ++ ts, m', n :: is, false, none, []⟩, false) ∧
      c.rest = rest ∧ n < c.column := by
  let l : Lexer := ⟨⟨':' :: rest, index + length, line, n + length⟩, t :: ts, m + 1, is', false,
    some ⟨m, required, index, line, n⟩, []⟩
  have hahead : l.ahead = ':' :: rest := rfl
  -- the candidate has not moved out of reach on the way from its key
  have hstale : l.dropStale = .ok l := by
    have hfresh : Candidate.isStale ⟨m, required, index, line, n⟩ l.cursor = false := by
      simp only [Candidate.isStale, l, ne_eq, not_true_eq_false, decide_false, Bool.false_or,
        decide_eq_false_iff_not]
      omega
    simp [dropStale, candidates, hfresh, l, pure, Except.pure]
  have hclose : l.closeTo (some (n + length)) = l := by
    apply closeTo_of_head
    -- a level that is open stands no further right than the key
    cases hopens with
    | first h =>
      cases is with
      | nil => rfl
      | cons i is =>
        have hi : i < n := by simpa using h
        have hle : i ≤ n + length := by omega
        simpa [l] using hle
    | next => simp [l]
  have hsettle : l.settle = .ok l :=
    settle_of_ahead (by simp [hahead]) (by simp [hahead, isBreak]) hstale hclose
  have htoken : l.readToken ':' rest = l.colon := by
    simp [readToken, l, hblank, atDocumentMark]
  have hcolon : l.colon = .ok ⟨l.cursor.next, .value :: t :: .key :: opening ++ ts,
      m + 1 + (opening ++ [Token.key]).length + 1, n :: is, false, none, []⟩ := by
    have hafter : m + 1 - m = 1 := by omega
    cases hopens with
    | first h => simp [colon, l, inFlow, h, insertAt, hafter, single, emit, moveTo, pure, Except.pure]
    | next => simp [colon, l, inFlow, insertAt, hafter, single, emit, moveTo, pure, Except.pure]
  refine ⟨_, _, step_of_settle hsettle rfl (htoken.trans hcolon), ?_, ?_⟩
  · rw [Cursor.rest_next]
    rfl
  · show n < l.cursor.next.column
    have hcolumn : l.cursor.next.column = n + length + 1 := rfl
    omega

/-- A key and its colon are read, and open a level unless it is open. -/
theorem AtLine.reads_key {l : Lexer} {n : Nat} {k rest : List Char}
    (h : l.AtLine n (k ++ ':' :: rest)) (hk : IsWord k) (hlength : k.length ≤ keyReach)
    (hblank : atBlank rest = true) {is is' : List Nat} {opening ts : List Token}
    (hcloses : l.ClosesTo n is' ts) (hopens : Opens n is is' opening) :
    ∃ c m, Relation.ReflTransGen Reads l ⟨c, .value :: .scalar (ofChars k) true :: .key ::
        opening ++ ts, m, n :: is, false, none, []⟩ ∧ c.rest = rest ∧ n < c.column := by
  obtain ⟨c, m, hsettle, hrest, rfl⟩ := h.exists_settle hcloses
  obtain ⟨required, hplain⟩ := plainScalar_key c ts m is' k rest hk hrest hblank
  obtain ⟨c', m', hcolon, hrest', hcolumn⟩ := exists_step_colon hopens c.index c.line m required
    (.scalar (ofChars k) true) ts rest k.length hlength hblank
  have hlexed : Reads l ⟨⟨':' :: rest, c.index + k.length, c.line, c.column + k.length⟩,
      .scalar (ofChars k) true :: ts, m + 1, is', false,
      some ⟨m, required, c.index, c.line, c.column⟩, []⟩ := by
    have hlt : (':' :: rest).length < l.cursor.rest.length := by
      have hle := h.length_le
      have hpos := List.length_pos_of_ne_nil hk.ne_nil
      rw [List.length_append] at hle
      omega
    obtain ⟨ch, k, rfl⟩ := List.exists_cons_of_ne_nil hk.ne_nil
    have htoken := readToken_of_isLetter (l := ⟨c, ts, m, is', true, none, []⟩) hrest
      (hk.letters ch List.mem_cons_self)
    exact ⟨step_of_settle hsettle hrest (htoken.trans hplain), hlt⟩
  have hcolon' : Reads ⟨⟨':' :: rest, c.index + k.length, c.line, c.column + k.length⟩,
      .scalar (ofChars k) true :: ts, m + 1, is', false,
      some ⟨m, required, c.index, c.line, c.column⟩, []⟩ ⟨c', .value :: .scalar (ofChars k) true ::
        .key :: opening ++ ts, m', c.column :: is, false, none, []⟩ :=
    ⟨hcolon, by rw [hrest']; exact Nat.lt_succ_self _⟩
  exact ⟨c', m', .tail (.single hlexed) hcolon', hrest', hcolumn⟩

/-! ## Values -/

theorem atLine_of_start (c : Cursor) (ts : List Token) (m : Nat) (is : List Nat)
    (h : c.rest.head?.all isLetter = true) :
    AtLine ⟨c, ts, m, is, true, none, []⟩ c.column c.rest := by
  let l : Lexer := ⟨c, ts, m, is, true, none, []⟩
  have hspaces : c.skipWhile (· = ' ') = c := by
    have htake := takeWhile_space 0 c.rest (head?_ne_of_letter h ' ' (by decide))
    rw [List.replicate_zero, List.nil_append] at htake
    rw [Cursor.skipWhile, htake]
    rfl
  have hahead : l.ahead = c.rest := by
    rw [ahead, ← Cursor.rest_skipWhile, hspaces]
  refine ⟨rfl, rfl, Nat.le_refl _, c, ?_, rfl, rfl⟩
  rw [Cursor.rounds, skipGaps_of_ahead _ (by rw [hahead]; exact head?_ne_of_letter h '#' (by decide))
    (by rw [hahead]; exact head?_isBreak_of_letter h)]
  exact congrArg _ hspaces

/-- Nothing stands behind the colon on its line. -/
theorem atLine_of_lineEnd (c : Cursor) (ts : List Token) (m : Nat) (is : List Nat)
    {text cs : List Char} {n : Nat} (h : Follows text n cs) (hrest : c.rest = '\n' :: text) :
    AtLine ⟨c, ts, m, is, false, none, []⟩ n cs := by
  let l : Lexer := ⟨c.next, ts, m, is, true, none, []⟩
  have hnext : c.next = ⟨text, c.index + 1, c.line + 1, 0⟩ := by
    rw [Cursor.next, hrest]
    rfl
  have hspaces : c.next.skipWhile (· = ' ') = ⟨cs, c.index + 1 + n, c.line + 1, 0 + n⟩ := by
    rw [hnext, Cursor.skipWhile_space _ n cs (head?_ne_of_letter h.letter ' ' (by decide))
      h.text_eq]
  have hahead : l.ahead = cs := by
    rw [ahead, ← Cursor.rest_skipWhile]
    exact congrArg Cursor.rest hspaces
  have hlength : cs.length ≤ c.rest.length := by
    rw [hrest, h.text_eq]
    simp
    omega
  refine ⟨rfl, rfl, hlength, _, ?_, congrArg Cursor.rest hspaces, ?_⟩
  -- the break allows a key, and the next round comes to the line
  · have hround : skipGaps c.rounds ⟨c, ts, m, is, false, none, []⟩ = l.skipGaps c.rest := by
      rw [Cursor.rounds, skipGaps]
      simp [skipSpaces, Cursor.skipWhile, Cursor.skip, hrest, isBreak, inFlow, l]
    show skipGaps c.rounds _ = _
    rw [hround, hrest, l.skipGaps_of_ahead
      (by rw [hahead]; exact head?_ne_of_letter h.letter '#' (by decide))
      (by rw [hahead]; exact head?_isBreak_of_letter h.letter)]
    rfl
  · rw [hspaces, Nat.zero_add]

/-- A phrase behind the colon, up to the next line. -/
theorem exists_step_phrase (c : Cursor) (ts : List Token) (m n : Nat) (is : List Nat)
    (ws : List (List Char)) (hne : ws ≠ []) (hws : ∀ w ∈ ws, IsWord w) {text cs : List Char}
    {n' : Nat} (h : Follows text n' cs) (hn : n' ≤ n) (hcolumn : n < c.column)
    (hrest : c.rest = ' ' :: [' '].intercalate ws ++ '\n' :: text) :
    ∃ c', Reads ⟨c, ts, m, n :: is, false, none, []⟩
        ⟨c', .scalar (ofChars ([' '].intercalate ws)) true :: ts, m + 1, n :: is, true, none, []⟩ ∧
      c'.rest = cs ∧ c'.column = n' := by
  let body := [' '].intercalate ws ++ '\n' :: text
  let d : Cursor := ⟨body, c.index + 1, c.line, c.column + 1⟩
  let l : Lexer := ⟨d, ts, m, n :: is, false, none, []⟩
  obtain ⟨w, ws', rfl⟩ := List.exists_cons_of_ne_nil hne
  obtain ⟨tail, htail⟩ := exists_intercalate_cons [' '] w ws'
  have hbody : body = w ++ (tail ++ '\n' :: text) := by
    simp only [body, htail, List.append_assoc]
  have hletter : body.head?.all isLetter = true := by
    rw [hbody]
    exact (hws w List.mem_cons_self).letter_append _
  have hspaces : c.skipWhile (· = ' ') = d :=
    c.skipWhile_space 1 body (head?_ne_of_letter hletter ' ' (by decide)) hrest
  have hahead : ahead ⟨c, ts, m, n :: is, false, none, []⟩ = body := by
    rw [ahead, ← Cursor.rest_skipWhile]
    exact congrArg Cursor.rest hspaces
  have hsettle : settle ⟨c, ts, m, n :: is, false, none, []⟩ = .ok l := by
    apply settle_of_ahead
    · rw [hahead]
      exact head?_ne_of_letter hletter '#' (by decide)
    · rw [hahead]
      exact head?_isBreak_of_letter hletter
    · show dropStale (moveTo _ (c.skipWhile (· = ' '))) = _
      rw [hspaces]
      rfl
    · apply closeTo_of_head
      simp [l, d]
      omega
  obtain ⟨c', hread, hrest', hcolumn'⟩ := readPlain_phrase (w :: ws') hne hws text cs n' (n + 1) h
    (by omega) d rfl (by simp only [d]; omega)
  have hplain : l.plainScalar = .ok ⟨c', .scalar (ofChars ([' '].intercalate (w :: ws'))) true :: ts,
      m + 1, n :: is, true, none, []⟩ := by
    have hnote : l.noteCandidate = .ok l := rfl
    have hflow : l.inFlow = false := rfl
    have hinner : l.innerColumn = n + 1 := rfl
    have hcursor : l.cursor = d := rfl
    simp only [plainScalar, hnote, bind, Except.bind, hflow, hinner, hcursor, hread]
    rfl
  have hlt : c'.rest.length < c.rest.length := by
    rw [hrest', hrest, h.text_eq]
    simp
    omega
  obtain ⟨ch, w, rfl⟩ := List.exists_cons_of_ne_nil (hws w List.mem_cons_self).ne_nil
  have htoken := readToken_of_isLetter (l := l) hbody
    ((hws _ List.mem_cons_self).letters ch List.mem_cons_self)
  exact ⟨c', ⟨step_of_settle hsettle hbody (htoken.trans hplain), hlt⟩, hrest', hcolumn'⟩

end Lexer
end FlowNotation.Yaml
