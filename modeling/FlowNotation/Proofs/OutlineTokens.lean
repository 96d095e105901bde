import FlowNotation.Proofs.OutlineSteps

/-! Outlines: entries on lines of their own, each a key with a phrase behind it or with the entries
of a deeper level below it. -/
namespace FlowNotation.Yaml
open Text

/-! ## Writing an outline -/

inductive Outline
  -- what stands behind a key
  | phrase (words : List (List Char))
  | entries (es : List (List Char × Outline))

namespace Outline

mutual

def behind (n : Nat) : Outline → List Char
  -- what follows the key of an entry at column `n`
  | phrase words => ' ' :: [' '].intercalate words ++ ['\n']
  | entries es => '\n' :: lines (n + 2) es

def lines (n : Nat) : List (List Char × Outline) → List Char
  | [] => []
  | (k, o) :: rest => List.replicate n ' ' ++ k ++ ':' :: o.behind n ++ lines n rest

end

theorem lines_cons_append (n : Nat) (k : List Char) (o : Outline) (es : List (List Char × Outline))
    (text : List Char) : lines n ((k, o) :: es) ++ text =
      List.replicate n ' ' ++ (k ++ ':' :: (o.behind n ++ (lines n es ++ text))) := by
  simp [lines]

def keyTokens (k : List Char) : List Token := [.key, .scalar (ofChars k) true, .value]

mutual

def tokens : Outline → List Token
  | phrase words => [.scalar (ofChars ([' '].intercalate words)) true]
  | entries [] => []
  | entries (e :: es) => .blockMappingStart :: entryTokens (e :: es) ++ [.blockEnd]

def entryTokens : List (List Char × Outline) → List Token
  | [] => []
  | (k, o) :: rest => keyTokens k ++ o.tokens ++ entryTokens rest

end

structure IsKey (k : List Char) : Prop where
  -- a word within reach of the colon behind it, and none that stands for nothing
  word : IsWord k
  length_le : k.length ≤ keyReach
  not_null : ofChars k ∉ Tree.nullWords

structure IsPhrase (words : List (List Char)) : Prop where
  ne_nil : words ≠ []
  isWord : ∀ w ∈ words, IsWord w
  not_null : ofChars ([' '].intercalate words) ∉ Tree.nullWords

instance (words : List (List Char)) : Decidable (IsPhrase words) :=
  decidable_of_iff (words ≠ [] ∧ (∀ w ∈ words, IsWord w) ∧
    ofChars ([' '].intercalate words) ∉ Tree.nullWords)
    ⟨fun h => ⟨h.1, h.2.1, h.2.2⟩, fun h => ⟨h.1, h.2, h.3⟩⟩

mutual

def IsPlain : Outline → Prop
  | phrase words => IsPhrase words
  | entries es => ArePlain es

def ArePlain : List (List Char × Outline) → Prop
  | [] => True
  | (k, o) :: rest => IsKey k ∧ o.IsPlain ∧ ArePlain rest

end

end Outline

namespace Lexer

/-! ## Entries -/

theorem follows_entry (n : Nat) {k : List Char} (hk : IsWord k) (o : Outline)
    (es : List (List Char × Outline)) (text : List Char) :
    Follows (Outline.lines n ((k, o) :: es) ++ text) n
      (k ++ ':' :: (o.behind n ++ (Outline.lines n es ++ text))) :=
  ⟨Outline.lines_cons_append n k o es text, hk.letter_append _⟩

/-- Behind some lines, the next line stands no further right than they do. -/
theorem exists_follows_lines (es : List (List Char × Outline)) (hes : Outline.ArePlain es)
    {text cs : List Char} {n n' : Nat} (h : Follows text n' cs) (hn : n' ≤ n) :
    ∃ m cs', Follows (Outline.lines n es ++ text) m cs' ∧ m ≤ n := by
  match es, hes with
  | [], _ => exact ⟨n', cs, h, hn⟩
  | (k, o) :: rest, hes => exact ⟨n, _, follows_entry n hes.1.word o rest text, Nat.le_refl n⟩

-- The induction is on the outline. What it carries on is which levels are open once those right of
-- the entry's column are closed.
mutual

/-- The step lemma: one entry is read as the tokens of its key and of what is behind it. -/
theorem AtLine.reads_entry {l : Lexer} {n : Nat} {k : List Char} (o : Outline)
    (hk : Outline.IsKey k) (ho : o.IsPlain) {text cs : List Char} {n' : Nat}
    (h : l.AtLine n (k ++ ':' :: (o.behind n ++ text))) (htext : Follows text n' cs) (hn : n' ≤ n)
    {is is' : List Nat} {opening ts : List Token} (hcloses : l.ClosesTo n is' ts)
    (hopens : Opens n is is' opening) :
    ∃ l', Relation.ReflTransGen Reads l l' ∧ l'.AtLine n' cs ∧ l'.ClosesTo n (n :: is)
      ((Outline.keyTokens k ++ o.tokens).reverse ++ opening ++ ts) := by
  cases o with
  | phrase words =>
    obtain ⟨c, m, hkey, hrest, hcolumn⟩ := h.reads_key hk.word hk.length_le rfl hcloses hopens
    obtain ⟨c', hvalue, rfl, rfl⟩ := exists_step_phrase c _ m n is words ho.ne_nil ho.isWord htext
      hn hcolumn (by rw [hrest, Outline.behind]; simp)
    refine ⟨_, hkey.tail hvalue, atLine_of_start _ _ _ _ htext.letter, ?_⟩
    simpa [Outline.tokens, Outline.keyTokens] using closesTo_of_indents rfl (Nat.le_refl n)
  | entries es =>
    obtain ⟨c, m, hkey, hrest, -⟩ := h.reads_key hk.word hk.length_le rfl hcloses hopens
    -- the lexer behind the colon: the entry's own level is the innermost
    let ts₀ := .value :: .scalar (ofChars k) true :: .key :: opening ++ ts
    let l₀ : Lexer := ⟨c, ts₀, m, n :: is, false, none, []⟩
    match es, ho with
    | [], _ =>
      have hself : l₀.ClosesTo n (n :: is) ts₀ := closesTo_of_indents rfl (Nat.le_refl n)
      refine ⟨l₀, hkey, atLine_of_lineEnd c ts₀ m (n :: is) htext hrest, ?_⟩
      simpa [Outline.tokens, Outline.keyTokens, ts₀] using hself
    | (k', o') :: es, ho =>
      have hself : l₀.ClosesTo (n + 2) (n :: is) ts₀ := closesTo_of_indents rfl (by omega)
      have hline := atLine_of_lineEnd c ts₀ m (n :: is)
        (follows_entry (n + 2) ho.1.word o' es text) (by rw [hrest]; rfl)
      obtain ⟨n'', cs'', hmore, hn''⟩ :=
        exists_follows_lines (n := n + 2) es ho.2.2 htext (by omega)
      obtain ⟨l₁, hreads₁, hline₁, hcloses₁⟩ := hline.reads_entry o' ho.1 ho.2.1 hmore hn'' hself
        (.first (by simp))
      obtain ⟨l₂, hreads₂, hline₂, hcloses₂⟩ := hline₁.reads_more es ho.2.2 hmore htext (by omega)
        hcloses₁
      -- in front of the next line the deeper level is closed
      have hleft : l₂.ClosesTo n (n :: is) _ := hcloses₂.left (by omega) (by simp) rfl
      refine ⟨l₂, (hkey.trans hreads₁).trans hreads₂, hline₂, ?_⟩
      simpa [Outline.tokens, Outline.keyTokens, Outline.entryTokens, ts₀] using hleft

/-- The run lemma: entries in the same column are read one after the other. -/
theorem AtLine.reads_more {l : Lexer} {n n₁ : Nat} {cs₁ : List Char}
    (es : List (List Char × Outline)) (hes : Outline.ArePlain es) {text cs : List Char} {n' : Nat}
    (h : l.AtLine n₁ cs₁) (hlines : Follows (Outline.lines n es ++ text) n₁ cs₁)
    (htext : Follows text n' cs) (hn : n' ≤ n) {is : List Nat} {ts : List Token}
    (hcloses : l.ClosesTo n (n :: is) ts) :
    ∃ l', Relation.ReflTransGen Reads l l' ∧ l'.AtLine n' cs ∧
      l'.ClosesTo n (n :: is) ((Outline.entryTokens es).reverse ++ ts) := by
  match es, hes with
  | [], _ =>
    obtain ⟨rfl, rfl⟩ := hlines.unique htext
    exact ⟨l, .refl, h, hcloses⟩
  | (k, o) :: rest, hes =>
    obtain ⟨rfl, rfl⟩ := hlines.unique (follows_entry n hes.1.word o rest text)
    obtain ⟨n'', cs'', hmore, hn''⟩ := exists_follows_lines rest hes.2.2 htext hn
    obtain ⟨l₁, hreads₁, hline₁, hcloses₁⟩ := h.reads_entry o hes.1 hes.2.1 hmore hn'' hcloses .next
    obtain ⟨l₂, hreads₂, hline₂, hcloses₂⟩ := hline₁.reads_more rest hes.2.2 hmore htext hn hcloses₁
    refine ⟨l₂, hreads₁.trans hreads₂, hline₂, ?_⟩
    simpa [Outline.entryTokens] using hcloses₂

end

theorem AtLine.exists_step_nil {l : Lexer} (h : l.AtLine 0 []) {ts : List Token}
    (hcloses : l.ClosesTo 0 [0] ts) :
    ∃ l', l.step = .ok (l', true) ∧ l'.tokens = .blockEnd :: ts := by
  obtain ⟨c, m, hsettle, hrest, -⟩ := h.exists_settle hcloses
  have hclose : closeAll ⟨c, ts, m, [0], true, none, []⟩ =
      .ok ⟨c, .blockEnd :: ts, m + 1, [], false, none, []⟩ := rfl
  exact ⟨_, step_of_settle_nil hsettle hrest hclose, rfl⟩

end Lexer

namespace Outline

mutual

theorem isAscii_behind (n : Nat) (o : Outline) (ho : o.IsPlain) :
    ∀ c ∈ o.behind n, isAscii c = true := by
  intro c hc
  cases o with
  | phrase words =>
    simp only [behind, List.mem_append, List.mem_cons, List.not_mem_nil, or_false] at hc
    rcases hc with (rfl | hc) | rfl
    · decide
    · rcases mem_or_exists_mem_of_mem_intercalate _ _ c hc with hc | ⟨w, hw, hc⟩
      · rw [List.mem_singleton.mp hc]
        decide
      · exact isAscii_of_isLetter ((ho.isWord w hw).letters c hc)
    · decide
  | entries es =>
    rw [behind, List.mem_cons] at hc
    rcases hc with rfl | hc
    · decide
    · exact isAscii_lines (n + 2) es ho c hc

theorem isAscii_lines (n : Nat) (es : List (List Char × Outline)) (hes : ArePlain es) :
    ∀ c ∈ lines n es, isAscii c = true := by
  intro c hc
  match es, hes with
  | [], _ => cases hc
  | (k, o) :: rest, hes =>
    simp only [lines, List.mem_append, List.mem_cons, List.mem_replicate] at hc
    rcases hc with ((⟨_, rfl⟩ | hc) | rfl | hc) | hc
    · decide
    · exact isAscii_of_isLetter (hes.1.word.letters c hc)
    · decide
    · exact isAscii_behind n o hes.2.1 c hc
    · exact isAscii_lines n rest hes.2.2 c hc

end

/-- The tokens of written lines are those of the outline. -/
theorem tokens_lines (es : List (List Char × Outline)) (hne : es ≠ []) (hes : ArePlain es) :
    Yaml.tokens (lines 0 es) = ⟨(entries es).tokens, none⟩ := by
  match es, hes with
  | [], _ => exact absurd rfl hne
  | (k, o) :: rest, hes =>
    have hend : Follows [] 0 [] := ⟨rfl, rfl⟩
    have hlines := Lexer.follows_entry 0 hes.1.word o rest []
    rw [List.append_nil] at hlines
    obtain ⟨n, cs, hmore, hn⟩ := Lexer.exists_follows_lines rest hes.2.2 hend (Nat.le_refl 0)
    have hstart := Lexer.atLine_of_start ⟨lines 0 ((k, o) :: rest), 0, 0, 0⟩ [] 0 [] (by
      rw [hlines.text_eq]
      exact hlines.letter)
    have hself := Lexer.closesTo_of_head (n := 0) (l := ⟨⟨lines 0 ((k, o) :: rest), 0, 0, 0⟩, [], 0,
      [], true, none, []⟩) rfl
    rw [hlines.text_eq] at hstart hself
    obtain ⟨l₁, hreads₁, hline₁, hcloses₁⟩ := hstart.reads_entry o hes.1 hes.2.1 hmore hn hself
      (.first rfl)
    obtain ⟨l₂, hreads₂, hline₂, hcloses₂⟩ :=
      hline₁.reads_more rest hes.2.2 hmore hend (Nat.le_refl 0) hcloses₁
    obtain ⟨l₃, hstep, htokens⟩ := hline₂.exists_step_nil hcloses₂
    rw [tokens_of_ascii _ (isAscii_lines 0 _ hes), hlines.text_eq, Lexer.tokensFrom_of_reads
      (hreads₁.trans hreads₂) hstep _ (Nat.lt_succ_self _), htokens]
    simp [tokens, entryTokens]

end Outline
end FlowNotation.Yaml
