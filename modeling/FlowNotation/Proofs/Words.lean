import FlowNotation.Proofs.Lexing

/-! Words on indented lines. A plain scalar ends at its colon, or at the end of its line if the next
line is indented no further than the entry that it belongs to; the cursor then stands in front of
that line already. -/
namespace FlowNotation.Yaml

/-! ## Words -/

def isLetter (c : Char) : Bool :=
  c.isAlphanum || c = '_'

structure IsWord (w : List Char) : Prop where
  ne_nil : w ≠ []
  letters : ∀ c ∈ w, isLetter c = true

instance (w : List Char) : Decidable (IsWord w) :=
  decidable_of_iff (w ≠ [] ∧ w.all isLetter = true)
    ⟨fun h => ⟨h.1, List.all_eq_true.mp h.2⟩, fun h => ⟨h.1, List.all_eq_true.mpr h.2⟩⟩

theorem ne_of_isLetter {c : Char} (h : isLetter c = true) (d : Char) (hd : isLetter d = false) :
    c ≠ d := by
  intro he
  rw [he, hd] at h
  cases h

theorem toNat_of_isLetter {c : Char} (h : isLetter c = true) :
    0x30 ≤ c.toNat ∧ c.toNat ≤ 0x7A := by
  change (((c.isUpper || c.isLower) || c.isDigit) || decide (c = '_')) = true at h
  simp only [Bool.or_eq_true, decide_eq_true_eq] at h
  rcases h with ((h | h) | h) | rfl
  · have hrange : 65 ≤ c.toNat ∧ c.toNat ≤ 90 := of_decide_eq_true h
    omega
  · obtain ⟨hlow, hhigh⟩ := Bool.and_eq_true_iff.mp h
    have hlow : 97 ≤ c.toNat := of_decide_eq_true hlow
    have hhigh : c.toNat ≤ 122 := of_decide_eq_true hhigh
    omega
  · have hrange : 48 ≤ c.toNat ∧ c.toNat ≤ 57 := Char.isDigit_iff_toNat.mp h
    omega
  · decide

theorem isAscii_of_isLetter {c : Char} (h : isLetter c = true) : isAscii c = true := by
  have hrange := toNat_of_isLetter h
  have hascii : 0x20 ≤ c.toNat ∧ c.toNat ≤ 0x7E := by omega
  simp [isAscii, hascii]

theorem isBreak_of_isLetter {c : Char} (h : isLetter c = true) : isBreak c = false := by
  have hne := ne_of_isLetter h
  simp [isBreak, hne '\n' (by decide), hne '\u2028' (by decide), hne '\u2029' (by decide)]

theorem isWhite_of_isLetter {c : Char} (h : isLetter c = true) : isWhite c = false := by
  have hne := ne_of_isLetter h
  simp [isWhite, hne ' ' (by decide), hne '\t' (by decide)]

theorem not_mem_indicators_of_isLetter {c : Char} (h : isLetter c = true) : c ∉ indicators := by
  have hall : indicators.all (fun d => !isLetter d) = true := by decide
  intro hmem
  have hc := List.all_eq_true.mp hall c hmem
  exact ne_of_isLetter h c (by simpa using hc) rfl

theorem IsWord.letter_append {w : List Char} (hw : IsWord w) (rest : List Char) :
    (w ++ rest).head?.all isLetter = true := by
  obtain ⟨c, w, rfl⟩ := List.exists_cons_of_ne_nil hw.ne_nil
  exact hw.letters c List.mem_cons_self

theorem head?_ne_of_letter {cs : List Char} (h : cs.head?.all isLetter = true) (d : Char)
    (hd : isLetter d = false) : cs.head? ≠ some d := by
  intro hhead
  rw [hhead, Option.all_some, hd] at h
  cases h

theorem head?_isBreak_of_letter {cs : List Char} (h : cs.head?.all isLetter = true) :
    cs.head?.any isBreak = false := by
  cases cs with
  | nil => rfl
  | cons c cs => exact isBreak_of_isLetter h

/-- The spaces in front of a text are taken off it whole. -/
theorem takeWhile_space (n : Nat) (rest : List Char) (h : rest.head? ≠ some ' ') :
    (List.replicate n ' ' ++ rest).takeWhile (· = ' ') = List.replicate n ' ' := by
  have hnil : rest.takeWhile (· = ' ') = [] := by
    cases rest with
    | nil => rfl
    | cons d rest =>
      have hd : d ≠ ' ' := fun he => h (congrArg some he)
      simp [hd]
  rw [List.takeWhile_append_of_pos (by simp), hnil, List.append_nil]

/-! ## Cursors on one line -/

namespace Cursor

def isInline (c : Char) : Bool :=
  -- characters that move the cursor on by one column
  !isBreak c && c ≠ '\uFEFF'

/-- Past characters of one line the column moves as far as the index. -/
theorem skip_inline (c : Cursor) (w rest : List Char) (hw : ∀ ch ∈ w, isInline ch = true)
    (h : c.rest = w ++ rest) :
    c.skip w.length = ⟨rest, c.index + w.length, c.line, c.column + w.length⟩ := by
  induction w generalizing c with
  | nil =>
    rw [List.nil_append] at h
    rw [← h]
    rfl
  | cons ch w ih =>
    have hch := hw ch List.mem_cons_self
    simp only [isInline, Bool.and_eq_true, Bool.not_eq_true', decide_eq_true_eq] at hch
    have hnext : c.next = ⟨w ++ rest, c.index + 1, c.line, c.column + 1⟩ := by
      rw [next, h]
      simp [hch]
    rw [List.length_cons, skip, hnext, ih _ (fun ch' hmem => hw ch' (List.mem_cons_of_mem ch hmem))
      rfl]
    simp only [Cursor.mk.injEq, true_and]
    omega

theorem isInline_of_isLetter {c : Char} (h : isLetter c = true) : isInline c = true := by
  have hne := ne_of_isLetter h '\uFEFF' (by decide)
  simp [isInline, isBreak_of_isLetter h, hne]

theorem skip_word (c : Cursor) (w rest : List Char) (hw : IsWord w) (h : c.rest = w ++ rest) :
    c.skip w.length = ⟨rest, c.index + w.length, c.line, c.column + w.length⟩ :=
  c.skip_inline w rest (fun ch hch => isInline_of_isLetter (hw.letters ch hch)) h

/-- Spaces are passed on their line. -/
theorem skipWhile_space (c : Cursor) (n : Nat) (rest : List Char) (hrest : rest.head? ≠ some ' ')
    (h : c.rest = List.replicate n ' ' ++ rest) :
    c.skipWhile (· = ' ') = ⟨rest, c.index + n, c.line, c.column + n⟩ := by
  have hskip := c.skip_inline (List.replicate n ' ') rest
    (fun ch hch => by rw [List.eq_of_mem_replicate hch]; decide) h
  rw [List.length_replicate] at hskip
  rw [skipWhile, h, takeWhile_space n rest hrest, List.length_replicate, hskip]

end Cursor

/-! ## The next line -/

structure Follows (text : List Char) (n : Nat) (cs : List Char) : Prop where
  -- The text `text` starts with a line that is indented by `n`; `cs` is the text from that line's
  -- first letter on. It is empty if there is no further line.
  text_eq : text = List.replicate n ' ' ++ cs
  letter : cs.head?.all isLetter = true

/-- What follows a line is its first line with content, and there is one such line. -/
theorem Follows.unique {text cs cs' : List Char} {n n' : Nat} (h : Follows text n cs)
    (h' : Follows text n' cs') : n = n' ∧ cs = cs' := by
  have hn := takeWhile_space n cs (head?_ne_of_letter h.letter ' ' (by decide))
  have hn' := takeWhile_space n' cs' (head?_ne_of_letter h'.letter ' ' (by decide))
  rw [← h.text_eq] at hn
  rw [← h'.text_eq, hn] at hn'
  have heq : n = n' := by simpa using congrArg List.length hn'
  refine ⟨heq, ?_⟩
  have htext := h.text_eq.symm.trans h'.text_eq
  rw [heq] at htext
  exact List.append_cancel_left htext

/-- No document mark stands where the next line begins with a word. -/
theorem Follows.not_atDocumentMark {text cs : List Char} {n : Nat} (h : Follows text n cs) :
    atDocumentMark text = false := by
  have hne : text.head? ≠ some '-' ∧ text.head? ≠ some '.' := by
    rw [h.text_eq]
    cases n with
    | zero =>
      exact ⟨head?_ne_of_letter h.letter '-' (by decide),
        head?_ne_of_letter h.letter '.' (by decide)⟩
    | succ n => exact ⟨by simp [List.replicate_succ], by simp [List.replicate_succ]⟩
  rw [atDocumentMark.eq_def]
  split
  · exact absurd rfl hne.1
  · exact absurd rfl hne.2
  · rfl

/-! ## Plain scalars -/

/-- A run of a plain scalar goes on to the end of its word. -/
theorem plainRun_word (w rest : List Char) (hw : ∀ c ∈ w, isLetter c = true)
    (hrest : plainRun false rest = 0) : plainRun false (w ++ rest) = w.length := by
  induction w with
  | nil => exact hrest
  | cons c w ih =>
    have hc := hw c List.mem_cons_self
    have hblank : (isWhite c || isBreak c) = false := by
      rw [isWhite_of_isLetter hc, isBreak_of_isLetter hc]
      rfl
    have hcolon : c ≠ ':' := ne_of_isLetter hc ':' (by decide)
    rw [List.cons_append, plainRun, ih fun d hd => hw d (List.mem_cons_of_mem c hd)]
    simp [hblank, hcolon]

/-- One word of a plain scalar is read, then the gap behind it decides. -/
theorem plainFrom_word (indent : Nat) (r : Char) (rounds acc gap : List Char) (ended : Bool)
    (c : Cursor) (w rest : List Char) (hw : IsWord w) (hrest : c.rest = w ++ rest)
    (hstop : plainRun false rest = 0) :
    plainFrom false indent (r :: rounds) acc gap ended c =
      let (gap', c', ended') := plainGap (c.skip w.length)
      if gap' = [] ∨ c'.column < indent then ⟨(w.reverse ++ gap ++ acc).reverse, c', ended'⟩
      else plainFrom false indent rounds (w.reverse ++ gap ++ acc) gap'.reverse ended' c' := by
  have hrun : plainRun false c.rest = w.length := by
    rw [hrest]
    exact plainRun_word w rest hw.letters hstop
  have hcomment : c.rest.head? ≠ some '#' := by
    rw [hrest]
    exact head?_ne_of_letter (hw.letter_append rest) '#' (by decide)
  rw [plainFrom_run false indent r rounds acc gap ended c w rest hrest hrun hw.ne_nil hcomment]
  simp

/-- A key is a word in front of a colon. -/
theorem readPlain_key (indent : Nat) (c : Cursor) (w rest : List Char) (hw : IsWord w)
    (hrest : c.rest = w ++ ':' :: rest) (hblank : atBlank rest = true) :
    readPlain false indent c = ⟨w, c.skip w.length, false⟩ := by
  have hbehind : (c.skip w.length).rest = ':' :: rest := by
    rw [Cursor.rest_skip, hrest, List.drop_left]
  have hgap : plainGap (c.skip w.length) = ([], c.skip w.length, false) := by
    rw [plainGap_of_line _ (by rw [hbehind]; rfl), Cursor.skipWhile, hbehind]
    rfl
  rw [readPlain, Cursor.rounds, plainFrom_word indent _ _ _ _ _ c w _ hw hrest
    (by simp [plainRun, endsAtColon, hblank]), hgap]
  simp

/-- The gap at the end of a line leads to the next line. -/
theorem plainGap_lineEnd (c : Cursor) (text cs : List Char) (n : Nat)
    (hrest : c.rest = '\n' :: text) (h : Follows text n cs) :
    ∃ c', plainGap c = ([' '], c', true) ∧ c'.rest = cs ∧ c'.column = n := by
  have hnext : c.next = ⟨text, c.index + 1, c.line + 1, 0⟩ := by
    rw [Cursor.next, hrest]
    rfl
  have hspaces : c.next.skipWhile (· = ' ') = ⟨cs, c.index + 1 + n, c.line + 1, 0 + n⟩ := by
    rw [hnext, Cursor.skipWhile_space _ n cs (head?_ne_of_letter h.letter ' ' (by decide)) h.text_eq]
  have hblank : plainBlankLines c.next.rounds [] c.next =
      (some [], c.next.skipWhile (· = ' ')) := by
    rw [Cursor.rounds, plainBlankLines, hnext, h.not_atDocumentMark, ← hnext, hspaces]
    have hbreak := head?_isBreak_of_letter h.letter
    simp only [Bool.false_eq_true, if_false]
    cases cs with
    | nil => rfl
    | cons d cs =>
      have hd : isBreak d = false := hbreak
      simp [hd]
  refine ⟨_, ?_, congrArg Cursor.rest hspaces, ?_⟩
  · rw [plainGap]
    simp [hrest, Cursor.skip, isBreak, hblank, foldBreak]
  · rw [hspaces, Nat.zero_add]

/-- A single space in front of a word. -/
theorem plainGap_space (c : Cursor) (more : List Char) (hrest : c.rest = ' ' :: more)
    (hmore : more.head?.all isLetter = true) :
    plainGap c = ([' '], ⟨more, c.index + 1, c.line, c.column + 1⟩, false) := by
  have hne := head?_ne_of_letter hmore ' ' (by decide)
  have hspace := c.skipWhile_space 1 more hne hrest
  have hdrop := c.rest_skipWhile (· = ' ')
  rw [hspace] at hdrop
  have hbreak : (c.rest.dropWhile (· = ' ')).head?.any isBreak = false := by
    rw [← hdrop]
    exact head?_isBreak_of_letter hmore
  have htake : c.rest.takeWhile (· = ' ') = [' '] := by
    rw [hrest]
    exact takeWhile_space 1 more hne
  rw [plainGap_of_line c hbreak, hspace, htake]

/-- Words with single spaces between them, up to the end of their line. -/
theorem plainFrom_phrase (ws : List (List Char)) (hne : ws ≠ []) (hws : ∀ w ∈ ws, IsWord w)
    (text cs : List Char) (n indent : Nat) (h : Follows text n cs) (hn : n < indent)
    (rounds acc gap : List Char) (ended : Bool) (c : Cursor) (hrounds : ws.length ≤ rounds.length)
    (hrest : c.rest = [' '].intercalate ws ++ '\n' :: text) (hcolumn : indent ≤ c.column) :
    ∃ c', plainFrom false indent rounds acc gap ended c =
        ⟨acc.reverse ++ gap.reverse ++ [' '].intercalate ws, c', true⟩ ∧
      c'.rest = cs ∧ c'.column = n := by
  -- on the words that are left; the gap before them is a single space, or nothing at the start
  induction ws generalizing rounds acc gap ended c with
  | nil => exact absurd rfl hne
  | cons w ws ih =>
    have hw := hws w List.mem_cons_self
    obtain ⟨r, rounds, rfl⟩ := List.exists_cons_of_length_pos (Nat.zero_lt_of_lt hrounds)
    cases ws with
    | nil =>
      rw [List.intercalate_singleton] at hrest ⊢
      have hbehind : (c.skip w.length).rest = '\n' :: text := by
        rw [Cursor.rest_skip, hrest, List.drop_left]
      obtain ⟨c', hgap, hrest', hcolumn'⟩ := plainGap_lineEnd _ text cs n hbehind h
      refine ⟨c', ?_, hrest', hcolumn'⟩
      rw [plainFrom_word indent r rounds acc gap ended c w _ hw hrest
        (by simp [plainRun, isBreak]), hgap]
      simp [hcolumn', hn]
    | cons w' ws =>
      let more := [' '].intercalate (w' :: ws) ++ '\n' :: text
      rw [List.intercalate_cons_cons] at hrest ⊢
      have hrest' : c.rest = w ++ ' ' :: more := by
        rw [hrest]
        simp [more]
      have hmore : more.head?.all isLetter = true := by
        obtain ⟨tail, htail⟩ := exists_intercalate_cons [' '] w' ws
        rw [show more = w' ++ (tail ++ '\n' :: text) by simp [more, htail]]
        exact (hws w' (by simp)).letter_append _
      let d : Cursor := ⟨more, c.index + w.length + 1, c.line, c.column + w.length + 1⟩
      have hgap : plainGap (c.skip w.length) = ([' '], d, false) := by
        rw [c.skip_word w _ hw hrest']
        exact plainGap_space _ more rfl hmore
      obtain ⟨c', hread, hc'⟩ := ih (by simp) (fun v hv => hws v (List.mem_cons_of_mem w hv)) rounds
        (w.reverse ++ gap ++ acc) [' '] false d (by simpa using hrounds) rfl (by simp [d]; omega)
      refine ⟨c', ?_, hc'⟩
      have hright : ¬ d.column < indent := by
        simp only [d]
        omega
      rw [plainFrom_word indent r rounds acc gap ended c w _ hw hrest' (by simp [plainRun, isWhite]),
        hgap]
      simp only [hright]
      simpa using hread

theorem length_le_intercalate (ws : List (List Char)) (hws : ∀ w ∈ ws, IsWord w) :
    ws.length ≤ ([' '].intercalate ws).length := by
  induction ws with
  | nil => exact Nat.le_refl 0
  | cons w ws ih =>
    have hw := List.length_pos_of_ne_nil (hws w List.mem_cons_self).ne_nil
    have ih := ih fun v hv => hws v (List.mem_cons_of_mem w hv)
    cases ws with
    | nil =>
      rw [List.intercalate_singleton]
      exact hw
    | cons w' ws =>
      rw [List.intercalate_cons_cons]
      simp only [List.length_append, List.length_cons] at ih ⊢
      omega

/-- A phrase to the end of its line is one plain scalar: the next line is not indented deeply enough
to go on with it. -/
theorem readPlain_phrase (ws : List (List Char)) (hne : ws ≠ []) (hws : ∀ w ∈ ws, IsWord w)
    (text cs : List Char) (n indent : Nat) (h : Follows text n cs) (hn : n < indent) (c : Cursor)
    (hrest : c.rest = [' '].intercalate ws ++ '\n' :: text) (hcolumn : indent ≤ c.column) :
    ∃ c', readPlain false indent c = ⟨[' '].intercalate ws, c', true⟩ ∧
      c'.rest = cs ∧ c'.column = n := by
  have hrounds : ws.length ≤ c.rounds.length := by
    have hle := length_le_intercalate ws hws
    rw [Cursor.rounds, hrest, List.length_cons, List.length_append]
    omega
  exact plainFrom_phrase ws hne hws text cs n indent h hn c.rounds [] [] false c hrounds hrest hcolumn

end FlowNotation.Yaml
