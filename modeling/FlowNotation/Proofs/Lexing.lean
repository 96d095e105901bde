import FlowNotation.Yaml.Read
import Mathlib.Data.List.Forall2
import Mathlib.Logic.Relation

/-! From characters to tokens, one step after the other. A chain of steps that comes to the end of a
text gives its tokens; what a step does is said here as far as every way of writing a tree shares
it: how cursors move, how a text starts, how plain runs end. -/
namespace FlowNotation

theorem Text.unifyLineEnds_of_not_mem (cs : List Char) (h : '\r' ∉ cs) : unifyLineEnds cs = cs := by
  fun_induction unifyLineEnds cs with
  | case1 => rfl
  | case2 rest ih => exact absurd List.mem_cons_self h
  | case3 rest _ ih => exact absurd List.mem_cons_self h
  | case4 c rest _ _ ih => rw [ih fun hrest => h (List.mem_cons_of_mem c hrest)]

theorem drop_length_takeWhile {α : Type} (p : α → Bool) (as : List α) :
    as.drop (as.takeWhile p).length = as.dropWhile p := by
  calc as.drop (as.takeWhile p).length
      = (as.takeWhile p ++ as.dropWhile p).drop (as.takeWhile p).length := by
        rw [List.takeWhile_append_dropWhile]
    _ = as.dropWhile p := List.drop_left

theorem exists_intercalate_cons {α : Type} (sep a : List α) (as : List (List α)) :
    ∃ rest, sep.intercalate (a :: as) = a ++ rest := by
  cases as with
  | nil => exact ⟨[], by rw [List.intercalate_singleton, List.append_nil]⟩
  | cons b as => exact ⟨_, (List.intercalate_cons_cons).trans (List.append_assoc _ _ _)⟩

theorem mem_or_exists_mem_of_mem_intercalate {α : Type} (sep : List α) (as : List (List α)) (x : α)
    (h : x ∈ sep.intercalate as) : x ∈ sep ∨ ∃ a ∈ as, x ∈ a := by
  induction as with
  | nil => cases h
  | cons a as ih =>
    cases as with
    | nil =>
      rw [List.intercalate_singleton] at h
      exact Or.inr ⟨a, List.mem_cons_self, h⟩
    | cons b as =>
      rw [List.intercalate_cons_cons, List.mem_append, List.mem_append] at h
      rcases h with (h | h) | h
      · exact Or.inr ⟨a, List.mem_cons_self, h⟩
      · exact Or.inl h
      · rcases ih h with hsep | ⟨c, hc, hx⟩
        · exact Or.inl hsep
        · exact Or.inr ⟨c, List.mem_cons_of_mem a hc, hx⟩

namespace Yaml

/-! ## Cursors -/

namespace Cursor

theorem rest_next (c : Cursor) : c.next.rest = c.rest.tail := by
  unfold next
  split
  · next h =>
    rw [h]
    rfl
  · next ch rest h =>
    rw [h]
    split_ifs
    · rfl
    · rfl
    · rfl

theorem rest_skip (c : Cursor) (n : Nat) : (c.skip n).rest = c.rest.drop n := by
  induction n generalizing c with
  | zero => rfl
  | succ n ih => rw [skip, ih, rest_next, List.drop_tail]

theorem rest_skipWhile (c : Cursor) (p : Char → Bool) :
    (c.skipWhile p).rest = c.rest.dropWhile p := by
  rw [skipWhile, rest_skip, drop_length_takeWhile]

end Cursor

/-! ## Plain scalars -/

/-- A run of a plain scalar is read; what stands behind it tells whether the scalar goes on. -/
theorem plainFrom_run (inFlow : Bool) (indent : Nat) (r : Char) (rounds acc gap : List Char)
    (ended : Bool) (c : Cursor) (w rest : List Char) (hrest : c.rest = w ++ rest)
    (hrun : plainRun inFlow c.rest = w.length) (hne : w ≠ []) (hcomment : c.rest.head? ≠ some '#') :
    plainFrom inFlow indent (r :: rounds) acc gap ended c =
      let (gap', c', ended') := plainGap (c.skip w.length)
      if gap' = [] ∨ (!inFlow && c'.column < indent) then
        ⟨(w.reverse ++ gap ++ acc).reverse, c', ended'⟩
      else plainFrom inFlow indent rounds (w.reverse ++ gap ++ acc) gap'.reverse ended' c' := by
  have hpos : w.length ≠ 0 := fun h => hne (List.eq_nil_of_length_eq_zero h)
  have htake : c.rest.take w.length = w := by
    rw [hrest]
    exact List.take_left
  rw [plainFrom]
  simp only [hrun, hcomment, hpos, or_self, if_false, htake]

/-- Spaces that no line break follows are all that stands behind a run. -/
theorem plainGap_of_line (c : Cursor)
    (h : (c.rest.dropWhile (· = ' ')).head?.any isBreak = false) :
    plainGap c = (c.rest.takeWhile (· = ' '), c.skipWhile (· = ' '), false) := by
  have hrest := c.rest_skipWhile (· = ' ')
  rw [Cursor.skipWhile] at hrest
  rw [plainGap]
  simp only [Cursor.skipWhile, hrest]
  split
  · rfl
  · next ch rest hsplit =>
    rw [hsplit] at h
    simp only [List.head?_cons, Option.any_some] at h
    simp [h]

/-! ## Steps -/

def isAscii (c : Char) : Bool :=
  -- a line feed or a printable character of ASCII
  c = '\n' || (0x20 ≤ c.toNat && c.toNat ≤ 0x7E)

/-- A text of such characters is read as it stands. -/
theorem tokens_of_ascii (cs : List Char) (h : ∀ c ∈ cs, isAscii c = true) :
    tokens cs = Lexer.tokensFrom (' ' :: cs) ⟨⟨cs, 0, 0, 0⟩, [], 0, [], true, none, []⟩ := by
  have hno : ∀ c : Char, isAscii c = false → c ∉ cs := by
    intro c hc hmem
    cases hc.symm.trans (h c hmem)
  have hallowed : cs.all allowed.contains = true := by
    rw [List.all_eq_true]
    intro c hc
    have hascii := h c hc
    simp only [isAscii, Bool.or_eq_true, Bool.and_eq_true, decide_eq_true_eq] at hascii
    rcases hascii with rfl | hascii
    · decide
    · simp [allowed, Text.Ranges.contains, hascii]
  have hbreaks : cs.map (fun c => if c = '\x85' then '\n' else c) = cs := by
    conv_rhs => rw [← List.map_id cs]
    apply List.map_congr_left
    intro c hc
    have hne : c ≠ '\x85' := fun he => hno '\x85' (by decide) (he ▸ hc)
    rw [if_neg hne, id]
  have hmark : cs.head? ≠ some '\uFEFF' := by
    intro hhead
    exact hno '\uFEFF' (by decide) (List.mem_of_head? hhead)
  have hstart : Cursor.start cs = ⟨cs, 0, 0, 0⟩ := by
    rw [Cursor.start, Text.unifyLineEnds_of_not_mem cs (hno '\r' (by decide)), hbreaks]
    simp only [hmark, if_false]
  rw [tokens, if_pos hallowed, Lexer.start, hstart]
  rfl

namespace Lexer

structure Reads (l l' : Lexer) : Prop where
  -- one step leads from `l` to `l'`, over one character at least and not to the end of the text
  step_eq : l.step = .ok (l', false)
  shorter : l'.cursor.rest.length < l.cursor.rest.length

/-- A chain of steps to the end of the text gives all its tokens. -/
theorem tokensFrom_of_reads {l l' l'' : Lexer} (h : Relation.ReflTransGen Reads l l')
    (hend : l'.step = .ok (l'', true)) (rounds : List Char)
    (hrounds : l.cursor.rest.length < rounds.length) :
    tokensFrom rounds l = ⟨l''.tokens.reverse, none⟩ := by
  -- each step uses up one round, and there are more rounds than characters
  induction h using Relation.ReflTransGen.head_induction_on generalizing rounds with
  | refl =>
    obtain ⟨r, rounds, rfl⟩ := List.exists_cons_of_length_pos (Nat.zero_lt_of_lt hrounds)
    rw [tokensFrom, hend]
  | head hstep _ ih =>
    obtain ⟨r, rounds, rfl⟩ := List.exists_cons_of_length_pos (Nat.zero_lt_of_lt hrounds)
    rw [tokensFrom, hstep.step_eq]
    apply ih rounds
    have hshorter := hstep.shorter
    rw [List.length_cons] at hrounds
    omega

/-- A step settles and then reads the token that starts in front of it. -/
theorem step_of_settle {l l₀ l' : Lexer} {ch : Char} {rest : List Char}
    (hsettle : l.settle = .ok l₀) (hrest : l₀.cursor.rest = ch :: rest)
    (htoken : l₀.readToken ch rest = .ok l') : l.step = .ok (l', false) := by
  simp only [step, hsettle, bind, Except.bind, hrest, htoken]
  rfl

theorem step_of_settle_nil {l l₀ l' : Lexer} (hsettle : l.settle = .ok l₀)
    (hrest : l₀.cursor.rest = []) (hclose : l₀.closeAll = .ok l') : l.step = .ok (l', true) := by
  simp only [step, hsettle, bind, Except.bind, hrest, hclose]
  rfl

/-- A character without a meaning of its own starts a plain scalar. -/
theorem readToken_of_plain (l : Lexer) (ch : Char) (rest : List Char)
    (h : l.cursor.rest = ch :: rest) (hindicator : ch ∉ indicators) (hdot : ch ≠ '.')
    (hblank : (isWhite ch || isBreak ch) = false) : l.readToken ch rest = l.plainScalar := by
  have hstarts : startsPlain l.inFlow l.cursor.rest = true := by
    rw [Bool.or_eq_false_iff] at hblank
    simp [h, startsPlain, hblank, hindicator]
  have hmark : atDocumentMark l.cursor.rest = false := by
    have hdash : ch ≠ '-' := fun he => hindicator (he ▸ by decide)
    rw [h, atDocumentMark.eq_def]
    split
    · next he => exact absurd (List.cons.inj he).1 hdash
    · next he => exact absurd (List.cons.inj he).1 hdot
    · rfl
  simp only [indicators, flowIndicators, List.cons_append, List.nil_append, List.mem_cons,
    List.not_mem_nil, or_false, not_or] at hindicator
  simp only [readToken, hindicator, hmark, hstarts, if_false, if_true, false_and, and_false,
    Bool.false_eq_true]

def ahead (l : Lexer) : List Char :=
  l.cursor.rest.dropWhile (· = ' ')

/-- Spaces are all that `skipGaps` finds on a line. -/
theorem skipGaps_of_ahead (l : Lexer) (hcomment : l.ahead.head? ≠ some '#')
    (hbreak : l.ahead.head?.any isBreak = false) (r : Char) (rounds : List Char) :
    l.skipGaps (r :: rounds) = l.moveTo (skipSpaces l.cursor) := by
  have hspaces : (skipSpaces l.cursor).rest = l.ahead := l.cursor.rest_skipWhile _
  rw [skipGaps]
  simp only [hspaces, if_neg hcomment, hbreak, Bool.false_eq_true, if_false]
  rfl

/-- On its line, the lexer settles at the next character that is no space. -/
theorem settle_of_ahead {l l₀ : Lexer} (hcomment : l.ahead.head? ≠ some '#')
    (hbreak : l.ahead.head?.any isBreak = false)
    (hstale : (l.moveTo (skipSpaces l.cursor)).dropStale = .ok l₀)
    (hclose : l₀.closeTo (some l₀.cursor.column) = l₀) : l.settle = .ok l₀ := by
  rw [settle, Cursor.rounds, l.skipGaps_of_ahead hcomment hbreak, hstale]
  exact congrArg Except.ok hclose

theorem mem_candidates_iff (l : Lexer) (k : Candidate) :
    k ∈ l.candidates ↔ l.candidate = some k ∨ some k ∈ l.outer := by
  simp [candidates, eq_comm]

end Lexer
end Yaml
end FlowNotation
