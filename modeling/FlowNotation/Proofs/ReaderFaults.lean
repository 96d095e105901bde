import FlowNotation.Proofs.Escapes
import Mathlib.Data.List.Induction
import Mathlib.Data.List.TakeWhile

/-! Why a text cannot be read. Most faults say no more than that the grammar is broken; each of the
others is spelled out somewhere in the text. A reader that does not fail goes on somewhere behind the
place where it started. -/
namespace FlowNotation

/-! ## Ends of a computation -/

section Ends

variable {ε α β : Type} {P : α → Prop} {Q : β → Prop} {E : ε → Prop}

def Ends (r : Except ε α) (P : α → Prop) (E : ε → Prop) : Prop :=
  -- a computation ends with a result of which `P` holds or with an error of which `E` holds
  match r with
  | .ok a => P a
  | .error e => E e

/-- Two parts in a row end well when the first does, and the second from all that the first gives.
-/
theorem Ends.bind {r : Except ε α} {f : α → Except ε β} (h : Ends r P E)
    (hf : ∀ a, P a → Ends (f a) Q E) : Ends (r >>= f) Q E := by
  cases r with
  | ok a => exact hf a h
  | error e => exact h

theorem ends_ite {p : Prop} [Decidable p] {r r' : Except ε α} (h : p → Ends r P E)
    (h' : ¬p → Ends r' P E) : Ends (if p then r else r') P E := by
  split
  · exact h ‹p›
  · exact h' ‹¬p›

theorem ends_foldlM {f : β → α → Except ε β} (h : ∀ b a, Ends (f b a) (fun _ => True) E)
    {as : List α} {b : β} : Ends (as.foldlM f b) (fun _ => True) E := by
  induction as generalizing b with
  | nil => trivial
  | cons a as ih => exact (h b a).bind fun _ _ => ih

theorem ends_mapM {f : α → Except ε β} {as : List α}
    (h : ∀ a ∈ as, Ends (f a) (fun _ => True) E) : Ends (as.mapM f) (fun _ => True) E := by
  induction as with
  | nil => trivial
  | cons a as ih =>
    rw [List.forall_mem_cons] at h
    rw [List.mapM_cons]
    exact h.1.bind fun b _ => (ih h.2).bind fun bs _ => trivial

end Ends

namespace Yaml
open Text

/-! ## Grounds -/

def HoldsEscape (cs : List Char) (n : Nat) : Prop :=
  -- the text holds an escape whose eight digits spell `n`
  ∃ digits : List Char, digits.length = 8 ∧ (∀ d ∈ digits, (hexDigit? d).isSome = true) ∧
    '\\' :: 'U' :: digits <:+: cs ∧ numeral 16 (digits.filterMap hexDigit?) = n

inductive StartsVersion : List Char → Prop
  -- a number of a version follows: the first one behind the directive's name and spaces, or the
  -- second one behind the first and a point
  | first (spaces : List Char) : (∀ s ∈ spaces, s = ' ') →
      StartsVersion ('%' :: "YAML".toList ++ spaces)
  | second (front digits : List Char) : StartsVersion front → (∀ d ∈ digits, d.isDigit = true) →
      StartsVersion (front ++ digits ++ ['.'])

def HoldsVersion (cs : List Char) (n : Nat) : Prop :=
  -- the text holds a version with a number of `n` digits
  ∃ front digits : List Char, StartsVersion front ∧ (∀ d ∈ digits, d.isDigit = true) ∧
    digits.length = n ∧ front ++ digits <:+: cs

def Fault.Grounded (cs : List Char) : Fault → Prop
  -- what a text holds that has this fault
  | malformed => True
  | codePointTooLarge => ∃ n, HoldsEscape cs n ∧ 0x10FFFF < n ∧ n ≤ 0x7FFFFFFF
  | escapeTooWide => ∃ n, HoldsEscape cs n ∧ 0x7FFFFFFF < n
  | versionTooLong n => HoldsVersion cs n ∧ integerDigitLimit < n

/-! ## Cursors -/

def Cursor.Within (cs : List Char) (c : Cursor) : Prop :=
  c.rest <:+ cs

namespace Cursor.Within

variable {cs : List Char} {c : Cursor}

theorem skip (h : c.Within cs) (n : Nat) : (c.skip n).Within cs := by
  rw [Within, rest_skip]
  exact (List.drop_suffix n c.rest).trans h

theorem next (h : c.Within cs) : c.next.Within cs := h.skip 1

theorem skipWhile (h : c.Within cs) (p : Char → Bool) : (c.skipWhile p).Within cs := h.skip _

end Cursor.Within

variable {cs : List Char} {c : Cursor}

/-! ## Quoted scalars -/

theorem hexDigit?_lt {c : Char} {d : Nat} (h : hexDigit? c = some d) : d < 16 := by
  have hle : ∀ a b : Char, a ≤ b → a.toNat ≤ b.toNat := fun a b h => h
  rw [hexDigit?] at h
  split at h
  · rename_i hdigit
    rw [Char.isDigit, Bool.and_eq_true, decide_eq_true_eq, decide_eq_true_eq] at hdigit
    have hc := hle c '9' hdigit.2
    cases h
    change c.toNat ≤ 57 at hc
    change c.toNat - 48 < 16
    omega
  · split at h
    · rename_i hlower
      have hc := hle c 'f' hlower.2
      cases h
      change c.toNat ≤ 102 at hc
      change c.toNat - 97 + 10 < 16
      omega
    · split at h
      · rename_i hupper
        have hc := hle c 'F' hupper.2
        cases h
        change c.toNat ≤ 70 at hc
        change c.toNat - 65 + 10 < 16
        omega
      · cases h

/-- A hexadecimal numeral is below the power of sixteen that its length gives. -/
theorem numeral_lt (ds : List Nat) (h : ∀ d ∈ ds, d < 16) : numeral 16 ds < 16 ^ ds.length := by
  induction ds using List.reverseRecOn with
  | nil => decide
  | append_singleton ds d ih =>
    have hd := h d (List.mem_append_right ds List.mem_cons_self)
    have ih := ih fun d hd => h d (List.mem_append_left _ hd)
    rw [numeral] at ih
    rw [numeral, List.foldl_append, List.length_append, List.length_singleton, Nat.pow_succ]
    dsimp only [List.foldl_cons, List.foldl_nil]
    omega

/-- A number is refused only if it lies beyond the last code point. -/
theorem ends_codePoint {n : Nat} (h : 0x10FFFF < n → HoldsEscape cs n) :
    Ends (codePoint n) (fun _ => True) (Fault.Grounded cs) := by
  rw [codePoint]
  split
  · rename_i hwide
    exact ⟨n, h (by omega), hwide⟩
  · rename_i hwide
    split
    · trivial
    · rename_i hnone
      have hlarge : 0x10FFFF < n := by
        apply Nat.lt_of_not_le
        intro hle
        rw [CodePoint.ofNat?] at hnone
        by_cases hvalid : n.isValidChar
        · rw [dif_pos hvalid] at hnone
          cases hnone
        · rw [dif_neg hvalid, if_pos hle] at hnone
          cases hnone
      exact ⟨n, h hlarge, hlarge, Nat.le_of_not_gt hwide⟩

/-- Four digits spell no number beyond the last code point. -/
theorem ends_readEscape_of_le {width : Nat} (hwidth : width ≤ 4) (rest : List Char) :
    Ends (readEscape width rest) (fun _ => True) (Fault.Grounded cs) := by
  rw [readEscape]
  refine ends_ite (fun hdigits => ends_codePoint fun hlarge => ?_) fun _ => trivial
  have hdigit : ∀ d ∈ (rest.take width).filterMap hexDigit?, d < 16 := by
    intro d hd
    obtain ⟨c, _, hc⟩ := List.mem_filterMap.mp hd
    exact hexDigit?_lt hc
  have hlt := numeral_lt _ hdigit
  have hle := List.length_filterMap_le hexDigit? (rest.take width)
  have hlength := hdigits.1
  have hpow : 16 ^ ((rest.take width).filterMap hexDigit?).length ≤ 16 ^ 4 :=
    Nat.pow_le_pow_right (by decide) (by omega)
  omega

/-- An escape of eight digits that the text holds fails only for what the text holds. -/
theorem ends_readEscape {rest : List Char} (h : '\\' :: 'U' :: rest <:+ cs) :
    Ends (readEscape 8 rest) (fun _ => True) (Fault.Grounded cs) := by
  rw [readEscape]
  refine ends_ite (fun hdigits => ends_codePoint fun _ => ?_) fun _ => trivial
  have hprefix : '\\' :: 'U' :: rest.take 8 <+: '\\' :: 'U' :: rest := by
    rw [List.cons_prefix_cons, List.cons_prefix_cons]
    exact ⟨rfl, rfl, List.take_prefix 8 rest⟩
  exact ⟨rest.take 8, hdigits.1, List.all_eq_true.mp hdigits.2, hprefix.isInfix.trans h.isInfix, rfl⟩

/-- Blank lines are skipped within the text; a document mark among them is malformed. -/
theorem ends_skipBlankLines (rounds breaks : List Char) (h : c.Within cs) :
    Ends (skipBlankLines rounds breaks c) (fun x => x.2.Within cs) (Fault.Grounded cs) := by
  induction rounds generalizing breaks c with
  | nil => trivial
  | cons r rounds ih =>
    rw [skipBlankLines]
    split
    · trivial
    · dsimp only
      split
      · split
        · exact ih _ (h.skipWhile isWhite).next
        · exact h.skipWhile isWhite
      · exact h.skipWhile isWhite

/-- The cursor stands behind a backslash. -/
theorem ends_readBackslash (h : '\\' :: c.rest <:+ cs) :
    Ends (readBackslash c) (fun x => x.2.Within cs) (Fault.Grounded cs) := by
  have hc : c.Within cs := (List.suffix_cons _ _).trans h
  rw [readBackslash]
  split
  · trivial
  · rename_i ch rest hrest
    split
    · exact hc.next
    · rename_i width _ hwidth
      have hdigits : Ends (readEscape width rest) (fun _ => True) (Fault.Grounded cs) := by
        unfold escapeWidth? at hwidth
        split at hwidth
        all_goals cases hwidth
        · exact ends_readEscape_of_le (by decide) rest
        · exact ends_readEscape_of_le (by decide) rest
        · exact ends_readEscape (hrest ▸ h)
      exact hdigits.bind fun _ _ => hc.skip _
    · split
      · exact (ends_skipBlankLines _ _ hc.next).bind fun x hx => hx
      · trivial

/-- Along a quoted scalar the cursor stays in the text; its faults are grounded there. -/
theorem ends_quotedFrom (quote : Quote) (rounds : List Char) (acc : Text) (h : c.Within cs) :
    Ends (quotedFrom quote rounds acc c) (fun x => x.2.Within cs) (Fault.Grounded cs) := by
  -- each round starts where the last one stopped, so the cursor is any cursor within the text
  induction rounds generalizing acc c with
  | nil => trivial
  | cons r rounds ih =>
    rw [quotedFrom]
    dsimp only
    have hd := h.skip (c.rest.takeWhile isWhite).length
    split
    · trivial
    · rename_i ch rest hrest
      split
      · exact (ends_skipBlankLines _ _ hd.next).bind fun x hx => ih _ hx
      · split
        · split
          · exact ih _ hd.next
          · split
            · exact ih _ (hd.skip 2)
            · exact hd.next
        · split
          · exact hd.next
          · split
            · rename_i hslash
              -- an escape is refused with its backslash in sight
              have hbehind : '\\' :: (c.skip (c.rest.takeWhile isWhite).length).next.rest <:+ cs := by
                rw [Cursor.rest_next, hrest, List.tail_cons, ← hslash, ← hrest]
                exact hd
              exact (ends_readBackslash hbehind).bind fun x hx => ih _ hx
            · exact ih _ hd.next

theorem ends_readQuoted (quote : Quote) (h : c.Within cs) :
    Ends (readQuoted quote c) (fun x => x.2.Within cs) (Fault.Grounded cs) :=
  ends_quotedFrom quote _ _ h.next

/-! ## Anchors, tags and directives -/

/-- A name is the characters that are read for it, and no others. -/
theorem ends_readName (h : c.Within cs) : Ends (readName c)
    (fun x => c.rest = x.1.toList ++ x.2.rest ∧ x.2.Within cs) (Fault.Grounded cs) := by
  rw [readName]
  split
  · trivial
  · refine ⟨?_, h.skip _⟩
    rw [String.toList_ofList, Cursor.rest_skip, drop_length_takeWhile,
      List.takeWhile_append_dropWhile]

theorem ends_readAnchorName (h : c.Within cs) :
    Ends (readAnchorName c) (fun x => x.2.Within cs) (Fault.Grounded cs) := by
  rw [readAnchorName]
  refine (ends_readName h.next).bind fun x hx => ?_
  obtain ⟨name, c⟩ := x
  dsimp only
  split
  · exact hx.2
  · trivial

theorem ends_uriLength (rounds rest : List Char) :
    Ends (uriLength rounds rest) (fun _ => True) (Fault.Grounded cs) := by
  induction rounds generalizing rest with
  | nil => trivial
  | cons r rounds ih =>
    cases rest with
    | nil => trivial
    | cons ch rest =>
      rw [uriLength]
      split
      · split
        · trivial
        · split
          · trivial
          · exact (ih _).bind fun _ _ => trivial
      · split
        · exact (ih _).bind fun _ _ => trivial
        · trivial

/-- The rest of a tag is skipped within the text. -/
theorem ends_skipUri (h : c.Within cs) :
    Ends (skipUri c) (fun c => c.Within cs) (Fault.Grounded cs) := by
  rw [skipUri]
  refine (ends_uriLength _ _).bind fun n _ => ?_
  split
  · trivial
  · exact h.skip n

theorem ends_readHandle (h : c.Within cs) :
    Ends (readHandle c) (fun x => x.2.Within cs) (Fault.Grounded cs) := by
  rw [readHandle]
  split
  · split
    · exact h.next
    · dsimp only
      split
      · exact h.skip _
      · trivial
  · trivial

/-- A tag is read within the text. -/
theorem ends_readTag (h : c.Within cs) :
    Ends (readTag c) (fun x => x.2.Within cs) (Fault.Grounded cs) := by
  have hend : ∀ x : Option String × Cursor, x.2.Within cs →
      Ends (if atGap x.2.rest then pure (x.1, x.2) else throw Fault.malformed)
        (fun x => x.2.Within cs) (Fault.Grounded cs) := by
    intro x hx
    split
    · exact hx
    · trivial
  rw [readTag]
  dsimp only
  split
  · refine (ends_skipUri (h.skip 2)).bind fun c hc => ?_
    split
    · exact hend (none, c.next) hc.next
    · trivial
  · split
    · exact hend (none, c.next) h.next
    · split
      · exact (ends_readHandle h).bind fun x hx => (ends_skipUri hx).bind fun c hc =>
          hend (some x.1, c) hc
      · exact (ends_skipUri h.next).bind fun c hc => hend (some "!", c) hc

theorem ends_skipLineRest (h : c.Within cs) :
    Ends (skipLineRest c) (fun c => c.Within cs) (Fault.Grounded cs) := by
  have hend : ∀ c : Cursor, c.Within cs →
      Ends (if atLineEnd c.rest then pure c.next else throw Fault.malformed)
        (fun c => c.Within cs) (Fault.Grounded cs) := by
    intro c hc
    split
    · exact hc.next
    · trivial
  rw [skipLineRest]
  split
  · exact hend _ ((h.skipWhile _).skipWhile _)
  · exact hend _ (h.skipWhile _)

theorem append_rest_skipWhile (c : Cursor) (p : Char → Bool) :
    c.rest.takeWhile p ++ (c.skipWhile p).rest = c.rest := by
  rw [Cursor.rest_skipWhile, List.takeWhile_append_dropWhile]

/-- Either digits are read, or there are too many of them. -/
theorem ends_readVersionNumber {front : List Char} (hfront : StartsVersion front)
    (h : front ++ c.rest <:+ cs) : Ends (readVersionNumber c)
      (fun x => ∃ digits : List Char, (∀ d ∈ digits, d.isDigit = true) ∧
        c.rest = digits ++ x.2.rest ∧ x.2.Within cs) (Fault.Grounded cs) := by
  have hdigits : ∀ d ∈ c.rest.takeWhile Char.isDigit, d.isDigit = true :=
    fun d hd => List.mem_takeWhile_imp hd
  have hrest := append_rest_skipWhile c Char.isDigit
  have hc : c.Within cs := (List.suffix_append front c.rest).trans h
  rw [readVersionNumber]
  split
  · trivial
  · split
    · rename_i hlong
      -- the limit is on the digits that follow `front`
      refine ⟨⟨front, _, hfront, hdigits, rfl, ?_⟩, hlong⟩
      have hprefix : front ++ c.rest.takeWhile Char.isDigit <+: front ++ c.rest :=
        (List.prefix_append_right_inj front).mpr (List.takeWhile_prefix _)
      exact hprefix.isInfix.trans h.isInfix
    · exact ⟨_, hdigits, hrest.symm, hc.skip _⟩

/-- A directive is read within the text; a version number that is too long stands there. -/
theorem ends_readDirective {rest : List Char} (hrest : c.rest = '%' :: rest) (h : c.Within cs) :
    Ends (readDirective c) (fun x => x.2.Within cs) (Fault.Grounded cs) := by
  have hend : ∀ x : Directive × Cursor, x.2.Within cs → Ends (do
      let c ← skipLineRest x.2
      pure (x.1, c)) (fun x => x.2.Within cs) (Fault.Grounded cs) :=
    fun x hx => (ends_skipLineRest hx).bind fun c hc => hc
  rw [readDirective]
  refine (ends_readName h.next).bind fun x hx => ?_
  obtain ⟨name, c₁⟩ := x
  obtain ⟨hname, hc₁⟩ := hx
  dsimp only at hname hc₁ ⊢
  split
  case isFalse => trivial
  split
  · rename_i hyaml
    -- what was skipped up to the first number is the directive's name and spaces
    have hspaces := append_rest_skipWhile c₁ (· = ' ')
    have hfront : StartsVersion ('%' :: "YAML".toList ++ c₁.rest.takeWhile (· = ' ')) :=
      .first _ fun s hs => by simpa using List.mem_takeWhile_imp hs
    have hbehind :
        '%' :: "YAML".toList ++ c₁.rest.takeWhile (· = ' ') ++ (skipSpaces c₁).rest <:+ cs := by
      rw [List.append_assoc, skipSpaces, hspaces, ← hyaml, List.cons_append, ← hname,
        Cursor.rest_next, hrest, List.tail_cons, ← hrest]
      exact h
    refine (ends_readVersionNumber hfront hbehind).bind fun x hx => ?_
    obtain ⟨major, c₂⟩ := x
    obtain ⟨digits, hdigits, hc₂, hwithin⟩ := hx
    dsimp only at hc₂ hwithin ⊢
    split
    case isFalse => trivial
    rename_i hpoint
    -- the second number stands behind the first and the point
    have hpoint : c₂.rest = '.' :: c₂.next.rest := by
      rw [Cursor.rest_next]
      exact (List.cons_head?_tail hpoint).symm
    refine (ends_readVersionNumber (.second _ digits hfront hdigits) ?_).bind fun x hx => ?_
    · rw [List.append_assoc, List.append_assoc, List.singleton_append, ← hpoint, ← hc₂]
      exact hbehind
    · obtain ⟨_, c₃⟩ := x
      obtain ⟨_, _, _, hwithin⟩ := hx
      dsimp only at hwithin ⊢
      split
      · exact hend (.version major, c₃) hwithin
      · trivial
  · split
    · refine (ends_readHandle (hc₁.skipWhile _)).bind fun x hx => ?_
      obtain ⟨handle, c₂⟩ := x
      dsimp only at hx ⊢
      split
      · refine (ends_skipUri (hx.skipWhile _)).bind fun c hc => ?_
        split
        · exact hend (.tagHandle handle, c) hc
        · trivial
      · trivial
    · exact hend (.other, _) (hc₁.skipWhile _)

/-! ## Block scalars -/

/-- The header of a block scalar is read within the text. -/
theorem ends_readHeader (h : c.Within cs) :
    Ends (readHeader c) (fun x => x.2.2.Within cs) (Fault.Grounded cs) := by
  -- of the three optional parts each leaves the cursor alone or moves it by one
  rw [readHeader]
  split
  rename_i chomp c₁ hchomp
  have h₁ : c₁.Within cs := by
    split at hchomp
    all_goals cases hchomp
    · exact h.next
    · exact h
  split
  rename_i indent c₂ hindent
  have h₂ : c₂.Within cs := by
    split at hindent
    all_goals cases hindent
    · exact h₁.next
    · exact h₁
  split
  rename_i chomp' c₃ hchomp'
  have h₃ : c₃.Within cs := by
    split at hchomp'
    all_goals cases hchomp'
    · exact h₂.next
    · exact h₂
  dsimp only
  split
  · trivial
  · exact h₃

theorem within_skipIndent (h : c.Within cs) (indent : Nat) : (skipIndent indent c).Within cs :=
  h.skip _

/-- The blank lines in front of a block scalar are skipped within the text. -/
theorem within_leadingLines (rounds breaks : List Char) (furthest : Nat) (h : c.Within cs) :
    (leadingLines rounds breaks furthest c).2.2.Within cs := by
  induction rounds generalizing breaks furthest c with
  | nil => exact h
  | cons r rounds ih =>
    have hd := h.skipWhile (· = ' ')
    rw [leadingLines]
    split
    · split
      · exact ih _ _ hd.next
      · exact hd
    · exact hd

theorem within_blankLines (indent : Nat) (rounds breaks : List Char) (h : c.Within cs) :
    (blankLines indent rounds breaks c).2.Within cs := by
  induction rounds generalizing breaks c with
  | nil => exact h
  | cons r rounds ih =>
    have hd := within_skipIndent h indent
    rw [blankLines]
    split
    · split
      · exact ih _ hd.next
      · exact hd
    · exact hd

/-- Along the lines of a block scalar the cursor stays in the text. -/
theorem within_blockFrom (folded : Bool) (chomp : Chomping) (indent : Nat)
    (rounds acc last blank : List Char) (h : c.Within cs) :
    (blockFrom folded chomp indent rounds acc last blank c).2.Within cs := by
  induction rounds generalizing acc last blank c with
  | nil => exact h
  | cons r rounds ih =>
    rw [blockFrom]
    dsimp only
    split
    · have hline := h.skip (c.rest.takeWhile fun ch => !isBreak ch).length
      have hblank := fun rounds => within_blankLines indent rounds [] hline.next
      split
      · exact ih _ _ _ (hblank _)
      · exact hblank _
    · exact h

/-- A block scalar is read within the text; only its header line can be at fault. -/
theorem ends_readBlock (folded : Bool) (outer : Nat) (h : c.Within cs) :
    Ends (readBlock folded outer c) (fun x => x.2.Within cs) (Fault.Grounded cs) := by
  rw [readBlock]
  refine (ends_readHeader h.next).bind fun x hx => ?_
  obtain ⟨chomp, increment, c⟩ := x
  refine (ends_skipLineRest hx).bind fun c hc => ?_
  cases increment with
  | none =>
    have hlines := within_leadingLines c.rounds [] 0 hc
    dsimp only
    generalize leadingLines c.rounds [] 0 c = lines at hlines ⊢
    exact within_blockFrom _ _ _ _ _ _ _ hlines
  | some n =>
    have hlines := within_blankLines (max outer 1 + n - 1) c.rounds [] hc
    dsimp only
    generalize blankLines (max outer 1 + n - 1) c.rounds [] c = lines at hlines ⊢
    exact within_blockFrom _ _ _ _ _ _ _ hlines

/-! ## Plain scalars -/

theorem within_plainBlankLines (rounds breaks : List Char) (h : c.Within cs) :
    (plainBlankLines rounds breaks c).2.Within cs := by
  induction rounds generalizing breaks c with
  | nil => exact h
  | cons r rounds ih =>
    have hd := h.skipWhile (· = ' ')
    rw [plainBlankLines]
    split
    · exact h
    · dsimp only
      split
      · split
        · exact ih _ hd.next
        · exact hd
      · exact hd

theorem within_plainGap (h : c.Within cs) : (plainGap c).2.1.Within cs := by
  have hd := h.skip (c.rest.takeWhile (· = ' ')).length
  rw [plainGap]
  split
  · exact hd
  · split
    · have hlines := within_plainBlankLines
        (c.skip (c.rest.takeWhile (· = ' ')).length).next.rounds [] hd.next
      split
      · rename_i heq
        rw [heq] at hlines
        exact hlines
      · rename_i heq
        rw [heq] at hlines
        exact hlines
    · exact hd

/-- Along the runs of a plain scalar the cursor stays in the text. -/
theorem within_plainFrom (inFlow : Bool) (indent : Nat) (rounds acc gap : List Char) (ended : Bool)
    (h : c.Within cs) : (plainFrom inFlow indent rounds acc gap ended c).cursor.Within cs := by
  induction rounds generalizing acc gap ended c with
  | nil => exact h
  | cons r rounds ih =>
    rw [plainFrom]
    dsimp only
    split
    · exact h
    · have hgap := within_plainGap (h.skip (plainRun inFlow c.rest))
      split
      · exact hgap
      · exact ih _ _ _ hgap

theorem within_readPlain (inFlow : Bool) (indent : Nat) (h : c.Within cs) :
    (readPlain inFlow indent c).cursor.Within cs :=
  within_plainFrom inFlow indent _ _ _ _ h

end Yaml
end FlowNotation
