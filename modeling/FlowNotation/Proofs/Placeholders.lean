import FlowNotation.Descriptor
import Mathlib.Data.List.Infix

/-! The places of a text that a label fills. They are filled one kind after the other, and each time
the whole text is gone through again, with what was filled before. The main statement says that this
comes to one pass from the left over the text as it was, as long as the label has no brace and is no
part of a name. -/
namespace FlowNotation

/-! ## Names in braces -/

def openBrace : CodePoint := .char '\x7b'

def closeBrace : CodePoint := .char '\x7d'

def braced (name : Text) : Text :=
  -- a name as it stands in a text where a label belongs
  openBrace :: openBrace :: (name ++ [closeBrace, closeBrace])

def placeNames : List Text := ["for_label", "parent_label", "label"]

theorem placeholders_eq_map : placeholders = placeNames.map braced := by decide

structure Text.IsBraceless (t : Text) : Prop where
  openBrace_not_mem : openBrace ∉ t
  closeBrace_not_mem : closeBrace ∉ t

instance (t : Text) : Decidable t.IsBraceless :=
  decidable_of_iff (openBrace ∉ t ∧ closeBrace ∉ t)
    ⟨fun h => ⟨h.1, h.2⟩, fun h => ⟨h.1, h.2⟩⟩

structure Text.IsLabel (label : Text) : Prop extends label.IsBraceless where
  -- A label without braces that stands within no name of a place. The name of the third place
  -- stands within the others.
  not_infix_forLabel : ¬ label <:+: ("for_label" : Text)
  not_infix_parentLabel : ¬ label <:+: ("parent_label" : Text)

theorem isBraceless_placeName {name : Text} (h : name ∈ placeNames) : name.IsBraceless :=
  (by decide : ∀ name ∈ placeNames, name.IsBraceless) name h

theorem exists_name_of_mem_placeholders {p : Text} (h : p ∈ placeholders) :
    ∃ name ∈ placeNames, p = braced name := by
  rw [placeholders_eq_map] at h
  obtain ⟨name, hname, rfl⟩ := List.mem_map.mp h
  exact ⟨name, hname, rfl⟩

section Braced

variable {a b t u v w rest : Text} {c : CodePoint}

/-- The first place of a character in a text tells how long the part before it is. -/
theorem eq_of_append_cons_prefix (ha : c ∉ a) (hb : c ∉ b) (h : a ++ c :: u <+: b ++ c :: v) :
    a = b := by
  induction a generalizing b with
  | nil =>
    cases b with
    | nil => rfl
    | cons y b =>
      obtain ⟨rfl, -⟩ := List.cons_prefix_cons.mp h
      exact absurd List.mem_cons_self hb
  | cons x a ih =>
    cases b with
    | nil =>
      obtain ⟨rfl, -⟩ := List.cons_prefix_cons.mp h
      exact absurd List.mem_cons_self ha
    | cons y b =>
      obtain ⟨rfl, hrest⟩ := List.cons_prefix_cons.mp h
      rw [ih (List.not_mem_of_not_mem_cons ha) (List.not_mem_of_not_mem_cons hb) hrest]

theorem eq_of_prefix_braced (ha : a.IsBraceless) (hb : b.IsBraceless)
    (h : braced a <+: braced b ++ rest) : a = b := by
  have h : a ++ closeBrace :: [closeBrace] <+: b ++ closeBrace :: (closeBrace :: rest) := by
    simpa [braced] using h
  exact eq_of_append_cons_prefix ha.closeBrace_not_mem hb.closeBrace_not_mem h

theorem infix_of_infix_cons_of_not_mem (hc : c ∉ w) (h : w <:+: c :: t) : w <:+: t := by
  rcases List.infix_cons_iff.mp h with h | h
  · rcases List.prefix_cons_iff.mp h with rfl | ⟨w', rfl, -⟩
    · exact List.nil_infix
    · exact absurd List.mem_cons_self hc
  · exact h

theorem infix_of_infix_concat_of_not_mem (hc : c ∉ w) (h : w <:+: t ++ [c]) : w <:+: t := by
  rcases List.infix_concat_iff.mp h with h | h
  · rcases List.suffix_concat_iff.mp h with rfl | ⟨w', rfl, -⟩
    · exact List.nil_infix
    · exact absurd (List.mem_append_right w' List.mem_cons_self) hc
  · exact h

/-- What has no brace and stands within a place stands within its name. -/
theorem infix_of_infix_braced (hw : w.IsBraceless) (h : w <:+: braced a) : w <:+: a := by
  have hname : w <:+: a ++ [closeBrace] ++ [closeBrace] := by
    rw [List.append_assoc]
    exact infix_of_infix_cons_of_not_mem hw.openBrace_not_mem
      (infix_of_infix_cons_of_not_mem hw.openBrace_not_mem h)
  exact infix_of_infix_concat_of_not_mem hw.closeBrace_not_mem
    (infix_of_infix_concat_of_not_mem hw.closeBrace_not_mem hname)

theorem closeBrace_mem_of_suffix_braced (hw : w <:+ braced a) (hne : w ≠ []) : closeBrace ∈ w := by
  have hlast : braced a = (openBrace :: openBrace :: (a ++ [closeBrace])) ++ [closeBrace] := by
    simp [braced]
  rw [hlast, List.suffix_concat_iff] at hw
  obtain ⟨w', rfl, -⟩ := hw.resolve_left hne
  exact List.mem_append_right w' List.mem_cons_self

end Braced

theorem Text.IsLabel.not_infix_placeName {label : Text} (h : label.IsLabel) {name : Text}
    (hname : name ∈ placeNames) : ¬ label <:+: name := by
  have hlabel : ("label" : Text) <:+: "for_label" := by decide
  simp only [placeNames, List.mem_cons, List.not_mem_nil, or_false] at hname
  rcases hname with rfl | rfl | rfl
  · exact h.not_infix_forLabel
  · exact h.not_infix_parentLabel
  · exact fun hinfix => h.not_infix_forLabel (List.IsInfix.trans hinfix hlabel)

/-! ## Replacing one pattern -/

def PassesOver (p : Text) : Text → Text → Prop
  -- with `rest` behind it, the pattern starts nowhere in the text
  | [], _ => True
  | c :: t, rest => ¬ p <+: c :: (t ++ rest) ∧ PassesOver p t rest

section Replacing

variable {p a b t u rest new : Text} {c : CodePoint}

/-- No marker begins in a text without an opening brace. -/
theorem passesOver_of_not_mem (h : openBrace ∉ t) (rest : Text) :
    PassesOver (braced a) t rest := by
  induction t with
  | nil => trivial
  | cons c t ih =>
    refine ⟨?_, ih (List.not_mem_of_not_mem_cons h)⟩
    intro hstart
    obtain ⟨rfl, -⟩ := List.cons_prefix_cons.mp hstart
    exact h List.mem_cons_self

/-- Places with different names do not overlap. -/
theorem passesOver_braced (ha : a.IsBraceless) (hb : b.IsBraceless) (hne : a ≠ b) (rest : Text) :
    PassesOver (braced a) (braced b) rest := by
  have htail : openBrace ∉ b ++ [closeBrace, closeBrace] := by
    rw [List.mem_append, not_or]
    exact ⟨hb.openBrace_not_mem, by decide⟩
  refine ⟨fun h => hne (eq_of_prefix_braced ha hb h), ?_, passesOver_of_not_mem htail rest⟩
  -- the second brace is followed by the name, which does not begin with another
  intro h
  obtain ⟨-, h⟩ := List.cons_prefix_cons.mp h
  obtain ⟨u, hu⟩ := h
  cases b with
  | nil => exact absurd (List.cons.inj hu).1 (by decide)
  | cons y b =>
    obtain ⟨rfl, -⟩ := List.cons.inj hu
    exact htail List.mem_cons_self

theorem replaceAll_cons_of_not_match (h : ¬ p <+: c :: t) :
    replaceAll p new (c :: t) = c :: replaceAll p new t := by
  rw [replaceAll, replaceFrom, if_neg (by rwa [List.isPrefixOf_iff_prefix])]
  rfl

theorem replaceAll_append_of_passesOver (h : PassesOver p t rest) :
    replaceAll p new (t ++ rest) = t ++ replaceAll p new rest := by
  induction t with
  | nil => rfl
  | cons c t ih =>
    rw [List.cons_append, replaceAll_cons_of_not_match h.1, ih h.2, List.cons_append]

theorem replaceFrom_length_append (t rest : Text) :
    replaceFrom p new t.length (t ++ rest) = replaceAll p new rest := by
  induction t with
  | nil => rfl
  | cons c t ih => exact ih

/-- The marker in front is replaced, and the search goes on behind it. -/
theorem replaceAll_append_self (hp : p ≠ []) (rest : Text) :
    replaceAll p new (p ++ rest) = new ++ replaceAll p new rest := by
  obtain ⟨c, t, rfl⟩ := List.exists_cons_of_ne_nil hp
  have hstart : (c :: t).isPrefixOf (c :: (t ++ rest)) = true :=
    List.isPrefixOf_iff_prefix.mpr (List.prefix_append (c :: t) rest)
  rw [replaceAll, List.cons_append, replaceFrom, if_pos hstart]
  exact congrArg (new ++ ·) (replaceFrom_length_append t rest)

theorem infix_of_infix_append_of_passesOver (h : PassesOver p t rest) (hp : p <:+: t ++ rest) :
    p <:+: rest := by
  induction t with
  | nil => exact hp
  | cons c t ih =>
    rcases List.infix_cons_iff.mp hp with hp | hp
    · exact absurd hp h.1
    · exact ih h.2 hp

end Replacing

/-! ## One pass -/

inductive Filled (put : Text → Text) : Text → Text → Prop
  -- a text and what one pass over it from the left makes of it: `put p` takes the place of each
  -- placeholder `p`, and every other character is copied
  | done : Filled put [] []
  | place (p rest out : Text) : p ∈ placeholders → Filled put rest out →
      Filled put (p ++ rest) (put p ++ out)
  | copy (c : CodePoint) (rest out : Text) : (∀ p ∈ placeholders, ¬ p <+: c :: rest) →
      Filled put rest out → Filled put (c :: rest) (c :: out)

namespace Filled

variable {put put' : Text → Text} {label t u v : Text}

theorem congr (h : Filled put t u) (hput : ∀ p ∈ placeholders, put p = put' p) :
    Filled put' t u := by
  induction h with
  | done => exact .done
  | place p rest out hp _ ih =>
    rw [hput p hp]
    exact .place p rest out hp ih
  | copy c rest out hc _ ih => exact .copy c rest out hc ih

theorem refl_of_put (hput : ∀ p ∈ placeholders, put p = p) (h : Filled put t u) : u = t := by
  induction h with
  | done => rfl
  | place p rest out hp _ ih => rw [hput p hp, ih]
  | copy c rest out _ _ ih => rw [ih]

theorem eq_nil (h : Filled put [] u) : u = [] := by
  generalize ht : ([] : Text) = t at h
  cases h with
  | done => rfl
  | place p rest out hp _ =>
    obtain ⟨a, _, rfl⟩ := exists_name_of_mem_placeholders hp
    cases ht
  | copy => cases ht

/-- Different places do not stand at one position. -/
theorem exists_of_append {p rest : Text} (hp : p ∈ placeholders) (h : Filled put (p ++ rest) u) :
    ∃ out, Filled put rest out ∧ u = put p ++ out := by
  obtain ⟨a, ha, rfl⟩ := exists_name_of_mem_placeholders hp
  generalize ht : braced a ++ rest = t at h
  cases h with
  | done => cases ht
  | place q rest' out hq hout =>
    obtain ⟨b, hb, rfl⟩ := exists_name_of_mem_placeholders hq
    obtain rfl : a = b := eq_of_prefix_braced (isBraceless_placeName ha) (isBraceless_placeName hb)
      ⟨rest, ht⟩
    obtain rfl : rest = rest' := List.append_cancel_left ht
    exact ⟨out, hout, rfl⟩
  | copy c rest' out hc _ => exact absurd ⟨rest, ht⟩ (hc _ hp)

/-- A character where no marker begins is copied. -/
theorem exists_of_cons {c : CodePoint} {rest : Text} (hc : ∀ p ∈ placeholders, ¬ p <+: c :: rest)
    (h : Filled put (c :: rest) u) : ∃ out, Filled put rest out ∧ u = c :: out := by
  generalize ht : c :: rest = t at h
  cases h with
  | done => cases ht
  | place p rest' out hp _ => exact absurd ⟨rest', ht.symm⟩ (hc p hp)
  | copy c' rest' out _ hout =>
    obtain ⟨rfl, rfl⟩ := List.cons.inj ht
    exact ⟨out, hout, rfl⟩

/-- One pass has one outcome: at no place can two markers begin. -/
theorem unique (h : Filled put t u) (h' : Filled put t v) : u = v := by
  induction h generalizing v with
  | done => exact h'.eq_nil.symm
  | place p rest out hp _ ih =>
    obtain ⟨out', hout, rfl⟩ := exists_of_append hp h'
    rw [ih hout]
  | copy c rest out hc _ ih =>
    obtain ⟨out', hout, rfl⟩ := exists_of_cons hc h'
    rw [ih hout]

/-- One pass has an outcome for every text. -/
theorem exists_filled (put : Text → Text) (t : Text) : ∃ u, Filled put t u := by
  by_cases h : ∃ p ∈ placeholders, p <+: t
  · obtain ⟨p, hp, rest, ht⟩ := h
    have hlength : 0 < p.length := (by decide : ∀ p ∈ placeholders, 0 < p.length) p hp
    have hshorter : rest.length < t.length := by
      rw [← ht, List.length_append]
      omega
    obtain ⟨out, hout⟩ := exists_filled put rest
    exact ⟨put p ++ out, ht ▸ Filled.place p rest out hp hout⟩
  · cases t with
    | nil => exact ⟨[], .done⟩
    | cons c rest =>
      obtain ⟨out, hout⟩ := exists_filled put rest
      exact ⟨_, .copy c rest out (fun p hp hstart => h ⟨p, hp, hstart⟩) hout⟩
termination_by t.length

/-- What a place could be read from begins in the text as it was: in no label does it begin, and no
label stands within it. -/
theorem prefix_of_filled (hlabel : label.IsLabel) (hput : ∀ p, put p = p ∨ put p = label)
    {name w : Text} (hname : name ∈ placeNames) (hw : w <:+ braced name) (h : Filled put t u)
    (hstart : w <+: u) : w <+: t := by
  induction h generalizing w with
  | done => exact hstart
  | place p rest out _ _ ih =>
    rcases hput p with hp | hp
    · rw [hp] at hstart
      rcases List.prefix_or_prefix_of_prefix hstart (List.prefix_append p out) with hle | ⟨w', rfl⟩
      · exact hle.trans (List.prefix_append p rest)
      · rw [List.prefix_append_right_inj] at hstart ⊢
        exact ih ((List.suffix_append p w').trans hw) hstart
    · rw [hp] at hstart
      rcases List.prefix_or_prefix_of_prefix hstart (List.prefix_append label out) with hle | hle
      -- the end of a place has a brace, which no label has
      · by_cases hne : w = []
        · rw [hne]
          exact List.nil_prefix
        · have hclose := closeBrace_mem_of_suffix_braced hw hne
          exact absurd (hle.subset hclose) hlabel.closeBrace_not_mem
      · have hinfix : label <:+: braced name := hle.isInfix.trans hw.isInfix
        exact absurd (infix_of_infix_braced hlabel.toIsBraceless hinfix)
          (hlabel.not_infix_placeName hname)
  | copy c rest out _ _ ih =>
    rcases List.prefix_cons_iff.mp hstart with rfl | ⟨w', rfl, hw'⟩
    · exact List.nil_prefix
    · exact List.cons_prefix_cons.mpr ⟨rfl, ih ((List.suffix_cons c w').trans hw) hw'⟩

/-- One more kind of place is filled. -/
theorem replaceAll (hlabel : label.IsLabel) (hput : ∀ p, put p = p ∨ put p = label) {p : Text}
    (hp : p ∈ placeholders) (h : Filled put t u) :
    Filled (fun q => if q = p then label else put q) t (replaceAll p label u) := by
  obtain ⟨a, ha, rfl⟩ := exists_name_of_mem_placeholders hp
  have hover : ∀ rest, PassesOver (braced a) label rest :=
    fun rest => passesOver_of_not_mem hlabel.openBrace_not_mem rest
  induction h with
  | done => exact .done
  | place q rest out hq _ ih =>
    have hplace := place q rest _ hq ih
    obtain ⟨b, hb, rfl⟩ := exists_name_of_mem_placeholders hq
    -- the place was filled before, is filled now, or waits for its turn
    rcases hput (braced b) with hkept | hfilled
    · rw [hkept]
      by_cases hab : braced b = braced a
      · rw [hab] at hplace ⊢
        rw [replaceAll_append_self (p := braced a) (List.cons_ne_nil _ _)]
        simpa using hplace
      · have hne : a ≠ b := fun h => hab (congrArg braced h.symm)
        rw [replaceAll_append_of_passesOver (passesOver_braced (isBraceless_placeName ha)
          (isBraceless_placeName hb) hne out)]
        simpa [hab, hkept] using hplace
    · rw [hfilled, replaceAll_append_of_passesOver (hover out)]
      simpa [hfilled] using hplace
  | copy c rest out hc hout ih =>
    have hno : ¬ braced a <+: c :: out := by
      intro hstart
      have hfilled : Filled put (c :: rest) (c :: out) := .copy c rest out hc hout
      exact hc _ hp (prefix_of_filled hlabel hput ha List.suffix_rfl hfilled hstart)
    rw [replaceAll_cons_of_not_match hno]
    exact .copy c rest _ hc ih

/-- Some kinds of places are filled, one after the other. -/
theorem foldl_replaceAll (hlabel : label.IsLabel) (order filled : List Text)
    (horder : ∀ p ∈ order, p ∈ placeholders)
    (h : Filled (fun p => if p ∈ filled then label else p) t u) :
    Filled (fun p => if p ∈ order ∨ p ∈ filled then label else p) t
      (order.foldl (fun u p => FlowNotation.replaceAll p label u) u) := by
  induction order generalizing filled u with
  | nil => simpa using h
  | cons p order ih =>
    have hput : ∀ q, (if q ∈ filled then label else q) = q ∨
        (if q ∈ filled then label else q) = label := by
      intro q
      split
      · exact Or.inr rfl
      · exact Or.inl rfl
    have hnext := h.replaceAll hlabel hput (horder p List.mem_cons_self)
    have hnext : Filled (fun q => if q ∈ p :: filled then label else q) t
        (FlowNotation.replaceAll p label u) := by
      refine hnext.congr fun q _ => ?_
      by_cases hq : q = p <;> simp [hq]
    refine (ih (p :: filled) (fun q hq => horder q (List.mem_cons_of_mem p hq)) hnext).congr ?_
    intro q _
    simp only [List.mem_cons, or_assoc, or_left_comm]

/-- No marker is left, and the label makes none with what stands beside it. -/
theorem not_infix (hlabel : label.IsLabel) {p : Text} (hp : p ∈ placeholders)
    (h : Filled (fun _ => label) t u) : ¬ p <:+: u := by
  obtain ⟨a, ha, rfl⟩ := exists_name_of_mem_placeholders hp
  induction h with
  | done => simp [braced]
  | place q rest out _ _ ih =>
    intro hinfix
    exact ih (infix_of_infix_append_of_passesOver
      (passesOver_of_not_mem hlabel.openBrace_not_mem out) hinfix)
  | copy c rest out hc hout ih =>
    intro hinfix
    rcases List.infix_cons_iff.mp hinfix with hstart | hinfix
    · exact hc _ hp (prefix_of_filled hlabel (fun _ => Or.inr rfl) ha List.suffix_rfl
        (.copy c rest out hc hout) hstart)
    · exact ih hinfix

end Filled

/-- In whatever order the kinds of places are filled, it is as if all were in one pass. -/
theorem filled_foldl_replaceAll {label : Text} (hlabel : label.IsLabel) (text : Text)
    (order : List Text) (horder : order.Perm placeholders) :
    Filled (fun _ => label) text (order.foldl (fun t p => replaceAll p label t) text) := by
  obtain ⟨u, hu⟩ := Filled.exists_filled (fun p => p) text
  obtain rfl : u = text := hu.refl_of_put fun _ _ => rfl
  have hfilled := Filled.foldl_replaceAll hlabel order [] (fun p hp => horder.mem_iff.mp hp)
    (hu.congr fun p _ => by simp)
  exact hfilled.congr fun p hp => by simp [horder.mem_iff.mpr hp]

/-- The label that is made of a question's code has neither brace nor the name of a marker. -/
theorem isLabel_defaultLabel (code : Text) : (QuestionRef.defaultLabel code).IsLabel := by
  have hlabel : ∀ label ∈
      (["this entity", "this person", "this LLC", "this application"] : List Text),
      label.IsBraceless ∧ ¬ label <:+: ("for_label" : Text) ∧
        ¬ label <:+: ("parent_label" : Text) := by
    decide
  have hmem : QuestionRef.defaultLabel code ∈
      (["this entity", "this person", "this LLC", "this application"] : List Text) := by
    simp only [QuestionRef.defaultLabel]
    split_ifs <;> simp
  obtain ⟨hbraceless, hfor, hparent⟩ := hlabel _ hmem
  exact ⟨hbraceless, hfor, hparent⟩

/-- Filling one kind of place after the other gives what one pass gives, leaves no place in the
text, and does not depend on which kind is filled first. The labels for want of a context are of this
sort. -/
theorem expandPlaceholders_one_pass (text label : Text) (hlabel : label.IsLabel) :
    (∀ out, Filled (fun _ => label) text out ↔ out = expandPlaceholders text (some label)) ∧
      (∀ p ∈ placeholders, ¬ p <:+: expandPlaceholders text (some label)) ∧
      (∀ order : List Text, order.Perm placeholders →
        order.foldl (fun t p => replaceAll p label t) text =
          expandPlaceholders text (some label)) ∧
      ∀ code, (QuestionRef.defaultLabel code).IsLabel := by
  have hfilled : Filled (fun _ => label) text (expandPlaceholders text (some label)) :=
    filled_foldl_replaceAll hlabel text placeholders (List.Perm.refl _)
  refine ⟨?_, ?_, ?_, isLabel_defaultLabel⟩
  · intro out
    constructor
    · exact fun h => h.unique hfilled
    · rintro rfl
      exact hfilled
  · exact fun p hp => hfilled.not_infix hlabel hp
  · intro order horder
    exact (filled_foldl_replaceAll hlabel text order horder).unique hfilled

def nestedPrompt : Text :=
  -- a prompt with braces around its places
  "\x7b\x7b\x7b\x7blabel\x7d\x7d\x7d\x7d or \x7b\x7b\x7bparent_label\x7d\x7d\x7bfor_label\x7d\x7d"

theorem expandPlaceholders_one_pass_nested : ("this LLC" : Text).IsLabel ∧
    Filled (fun _ => "this LLC") nestedPrompt
      "\x7b\x7bthis LLC\x7d\x7d or \x7bthis LLC\x7bfor_label\x7d\x7d" ∧
    (∀ p ∈ placeholders, ¬ p <:+: expandPlaceholders nestedPrompt (some "this LLC")) ∧
    placeholders.reverse.foldl (fun t p => replaceAll p "this LLC" t) nestedPrompt =
      expandPlaceholders nestedPrompt (some "this LLC") := by
  have hlabel : ("this LLC" : Text).IsLabel := ⟨by decide, by decide, by decide⟩
  obtain ⟨hfilled, hnone, horder, -⟩ := expandPlaceholders_one_pass nestedPrompt "this LLC" hlabel
  exact ⟨hlabel, (hfilled _).mpr (by decide +kernel), hnone, horder _ (List.reverse_perm _)⟩

/-- A label that stands within a name may complete a place, which is then filled as well. -/
example : expandPlaceholders "\x7b\x7b\x7b\x7bfor_label\x7d\x7d\x7d\x7d" (some "label") =
    "label" := by
  decide +kernel

end FlowNotation
