import FlowNotation.Catalog
import Mathlib.Data.String.Basic

/-! The names of source files. A file counts as a source by the lower-case form of what stands behind
the last dot of its name. No letter but those of the two endings and their capitals has one of them in
its lower-case form, so just these have to be looked for. -/
namespace FlowNotation

def IsSourceName (name : String) : Prop :=
  -- something, a dot, and then `yaml` or `yml` in letters of either case
  ∃ stem ending : List Char, name.toList = stem ++ '.' :: ending ∧ stem ≠ [] ∧
    (ending.map Char.toLower = ['y', 'a', 'm', 'l'] ∨ ending.map Char.toLower = ['y', 'm', 'l'])

/-! ## Lower case -/

namespace Text
open Casing

def endingChars : List Char :=
  ['.', 'y', 'a', 'm', 'l']

theorem toNat_of_mem_endingChars {e : Char} (he : e ∈ endingChars) : 0 < e.toNat ∧ e.toNat < 128 := by
  have hall : endingChars.all (fun e => decide (0 < e.toNat ∧ e.toNat < 128)) = true := by decide
  exact of_decide_eq_true (List.all_eq_true.mp hall e he)

theorem ofNat_notMem_endingChars {n : Nat} (hn : n ∉ endingChars.map Char.toNat) :
    Char.ofNat n ∉ endingChars := by
  intro hmem
  by_cases hvalid : n.isValidChar
  · have htoNat : (Char.ofNat n).toNat = n := by
      rw [Char.ofNat, dif_pos hvalid]
      rfl
    exact hn (List.mem_map.mpr ⟨_, hmem, htoNat⟩)
  · have htoNat : (Char.ofNat n).toNat = 0 := by
      rw [Char.ofNat, dif_neg hvalid]
      rfl
    have hpos := (toNat_of_mem_endingChars hmem).1
    omega

theorem toLower_of_le (c : Char) (hc : 128 ≤ c.toNat) : c.toLower = c := by
  have hcapital : ¬ (c.val ≥ 'A'.val ∧ c.val ≤ 'Z'.val) := by
    intro h
    have hle : c.toNat ≤ 'Z'.toNat := h.2
    have hZ : 'Z'.toNat = 90 := rfl
    omega
  exact dif_neg hcapital

/-- All runs but that of the capitals begin beyond the first letters. They lead there again, but for a
few that lead to a single letter, and none of these belongs to the endings. -/
theorem lowerRuns_eq_cons : ∃ rest, lowerRuns = (0x41, 0x5A, 1, 0x61) :: rest ∧
    ∀ r ∈ rest, 128 ≤ r.1 ∧
      (128 ≤ r.2.2.2 ∨ r.1 = r.2.1 ∧ r.2.2.2 ∉ endingChars.map Char.toNat) :=
  ⟨lowerRuns.tail, rfl, by decide +kernel⟩

/-- The run of the capitals, and nothing else, moves the first letters. -/
theorem toLower_ofNat : ∀ n < 128, (Char.ofNat n).toLower =
    if 0x41 ≤ n && n ≤ 0x5A && (n - 0x41) % 1 = 0 then Char.ofNat (0x61 + (n - 0x41))
    else Char.ofNat n := by
  decide +kernel

theorem image_of_lt (c : Char) (hc : c.toNat < 128) :
    image lowerLong lowerRuns (.char c) = [.char c.toLower] := by
  obtain ⟨rest, hruns, hrest⟩ := lowerRuns_eq_cons
  have hlower := toLower_ofNat c.toNat hc
  rw [Char.ofNat_toNat] at hlower
  have hlong : lowerLong.find? (fun e => e.1 = c.toNat) = none := by
    simp only [lowerLong, List.find?_eq_none, List.mem_singleton, forall_eq, decide_eq_true_eq]
    omega
  have hbeyond : ∀ r ∈ rest, ¬ r.1 ≤ c.toNat := by
    intro r hr
    have hfirst := (hrest r hr).1
    omega
  rw [image, hlong, hruns, hlower]
  dsimp only
  rw [List.find?_cons]
  dsimp only
  cases (0x41 ≤ c.toNat && c.toNat ≤ 0x5A && (c.toNat - 0x41) % 1 = 0 : Bool) with
  | true => rfl
  | false =>
    split
    · next first last step start hrun =>
      have hin := List.find?_some hrun
      simp only [Bool.and_eq_true, decide_eq_true_eq] at hin
      exact absurd hin.1.1 (hbeyond _ (List.mem_of_find?_eq_some hrun))
    · rfl

/-- Beyond the first letters, the lower case of a character does not begin as the endings do. -/
theorem image_of_le (c : Char) (hc : 128 ≤ c.toNat) : ∃ d ds, d ∉ endingChars ∧
    image lowerLong lowerRuns (.char c) = ofChars (d :: ds) := by
  obtain ⟨rest, hruns, hrest⟩ := lowerRuns_eq_cons
  rw [image]
  split
  · next a cs hlong =>
    have hmem : (a, cs) ∈ lowerLong := List.mem_of_find?_eq_some hlong
    obtain ⟨rfl, rfl⟩ : a = 0x130 ∧ cs = [0x69, 0x307] := by simpa [lowerLong] using hmem
    exact ⟨_, [Char.ofNat 0x307], by decide, rfl⟩
  · split
    · next first last step start hrun =>
      have hin := List.find?_some hrun
      simp only [Bool.and_eq_true, decide_eq_true_eq] at hin
      have hmem := List.mem_of_find?_eq_some hrun
      rw [hruns, List.mem_cons, Prod.mk.injEq, Prod.mk.injEq] at hmem
      refine ⟨_, [], ofNat_notMem_endingChars ?_, rfl⟩
      intro himage
      obtain ⟨e, he, htoNat⟩ := List.mem_map.mp himage
      have hlt := (toNat_of_mem_endingChars he).2
      rcases hmem with ⟨_, rfl, _⟩ | hmem
      · omega
      · obtain ⟨-, h | ⟨h, hnot⟩⟩ := hrest _ hmem
        · have h : 128 ≤ start := h
          omega
        · have h : first = last := h
          have hstart : e.toNat = start := by omega
          exact hnot (List.mem_map.mpr ⟨e, he, hstart⟩)
    · refine ⟨c, [], ?_, rfl⟩
      intro he
      have hlt := (toNat_of_mem_endingChars he).2
      omega

theorem lowerPoint_char (before : Text) (c : Char) (after : Text) :
    lowerPoint before (.char c) after = [.char c.toLower] ∨
      c.toLower ∉ endingChars ∧ ∃ d ds, d ∉ endingChars ∧
        lowerPoint before (.char c) after = ofChars (d :: ds) := by
  rw [lowerPoint]
  split
  · next hsigma =>
    obtain rfl : c = 'Σ' := CodePoint.char.inj hsigma
    refine Or.inr ⟨by decide, _, [], ?_, rfl⟩
    split <;> decide
  · by_cases hc : c.toNat < 128
    · exact Or.inl (image_of_lt c hc)
    · have hc : 128 ≤ c.toNat := Nat.le_of_not_lt hc
      refine Or.inr ⟨?_, image_of_le c hc⟩
      rw [toLower_of_le c hc]
      intro he
      exact absurd (toNat_of_mem_endingChars he).2 (Nat.not_lt.mpr hc)

/-- Characters have a lower case made of characters of the endings just if they are these themselves or
their capitals. -/
theorem lowerAfter_eq_ofChars_iff (before : Text) (cs w : List Char)
    (hw : w ⊆ endingChars) :
    lowerAfter before (ofChars cs) = ofChars w ↔ cs.map Char.toLower = w := by
  induction cs generalizing before w with
  | nil => simp [ofChars, lowerAfter, eq_comm]
  | cons c cs ih =>
    have hstep : lowerAfter before (ofChars (c :: cs)) = lowerPoint before (.char c) (ofChars cs) ++
        lowerAfter (.char c :: before) (ofChars cs) := rfl
    rw [hstep]
    rcases lowerPoint_char before c (ofChars cs) with h | ⟨hc, d, ds, hd, h⟩
    · rw [h]
      cases w with
      | nil => simp [ofChars]
      | cons e w =>
        have hrest := ih (.char c :: before) w fun x hx => hw (List.mem_cons_of_mem e hx)
        simp only [ofChars, List.map_cons, List.singleton_append, List.cons.injEq,
          CodePoint.char.injEq]
        exact and_congr_right fun _ => hrest
    · -- neither the lower case nor the plain letters can begin as `w` does
      rw [h]
      cases w with
      | nil => simp [ofChars]
      | cons e w =>
        have he : e ∈ endingChars := hw List.mem_cons_self
        have hde : d ≠ e := fun heq => hd (heq ▸ he)
        have hce : c.toLower ≠ e := fun heq => hc (heq ▸ he)
        simp [ofChars, hde, hce]

theorem lower_eq_ofChars_iff (s : String) (w : List Char) (hw : w ⊆ endingChars) :
    lower s = ofChars w ↔ s.toList.map Char.toLower = w :=
  lowerAfter_eq_ofChars_iff [] s.toList w hw

end Text

/-! ## Suffixes -/

namespace Path

variable (p : Path)

/-- A suffix begins at the last dot, where something stands on both sides of it. -/
theorem suffix_of_lastDot (stem ending : List Char) (hname : p.name.toList = stem ++ '.' :: ending)
    (hstem : stem ≠ []) (hending : ending ≠ []) (hdot : '.' ∉ ending) :
    p.suffix = String.ofList ('.' :: ending) := by
  have hreversed : p.name.toList.reverse = ending.reverse ++ '.' :: stem.reverse := by
    simp [hname]
  have hpass : ∀ c ∈ ending.reverse, decide (c ≠ '.') = true := by
    intro c hc
    have hne : c ≠ '.' := fun h => hdot (h ▸ List.mem_reverse.mp hc)
    exact decide_eq_true hne
  have htake : p.name.toList.reverse.takeWhile (· ≠ '.') = ending.reverse := by
    rw [hreversed, List.takeWhile_append_of_pos hpass]
    simp
  simp only [suffix, htake]
  rw [hreversed, List.drop_left, List.tail_cons, List.reverse_reverse, if_neg]
  simp [hstem, hending]

/-- A name has no suffix, or one from its last dot on, which does not begin the name. -/
theorem suffix_cases : p.suffix = "" ∨ ∃ stem ending, p.name.toList = stem ++ '.' :: ending ∧
    stem ≠ [] ∧ p.suffix = String.ofList ('.' :: ending) := by
  have hname : p.name.toList = p.name.toList.reverse.reverse := (List.reverse_reverse _).symm
  have hsplit := List.takeWhile_append_dropWhile (p := (· ≠ '.')) (l := p.name.toList.reverse)
  have hhead := List.head?_dropWhile_not (· ≠ '.') p.name.toList.reverse
  rw [hname, suffix]
  generalize p.name.toList.reverse = reversed at hsplit hhead ⊢
  generalize reversed.takeWhile (· ≠ '.') = ending at hsplit ⊢
  generalize reversed.dropWhile (· ≠ '.') = rest at hsplit hhead
  subst hsplit
  rw [List.drop_left]
  split
  · exact Or.inl rfl
  · next h =>
    cases rest with
    | nil => exact absurd (Or.inr rfl) h
    | cons c stem =>
      obtain rfl : c = '.' := by simpa using hhead
      have hstem : stem ≠ [] := fun he => h (Or.inr he)
      exact Or.inr ⟨stem.reverse, ending.reverse, by simp, by simpa using hstem, rfl⟩

/-- The type of a file is what stands behind the last dot, whatever its case. -/
theorem type_eq_iff (w : List Char) (hne : w ≠ []) (hw : w ⊆ Text.endingChars)
    (hdot : '.' ∉ w) :
    p.type = Text.ofChars ('.' :: w) ↔ ∃ stem ending, p.name.toList = stem ++ '.' :: ending ∧
      stem ≠ [] ∧ ending.map Char.toLower = w := by
  have hchars : '.' :: w ⊆ Text.endingChars := List.cons_subset.mpr ⟨List.mem_cons_self, hw⟩
  rw [type, Text.lower_eq_ofChars_iff _ _ hchars]
  constructor
  · intro h
    rcases p.suffix_cases with hsuffix | ⟨stem, ending, hname, hstem, hsuffix⟩
    · rw [hsuffix] at h
      cases h
    · rw [hsuffix, String.toList_ofList] at h
      exact ⟨stem, ending, hname, hstem, (List.cons.inj h).2⟩
  · rintro ⟨stem, ending, hname, hstem, rfl⟩
    have hending : ending ≠ [] := fun h => hne (congrArg (List.map Char.toLower) h)
    have hplain : '.' ∉ ending := fun h => hdot (List.mem_map.mpr ⟨'.', h, rfl⟩)
    rw [p.suffix_of_lastDot stem ending hname hstem hending hplain, String.toList_ofList]
    rfl

theorem hasSourceType_iff : p.hasSourceType = true ↔ IsSourceName p.name := by
  have hyaml := p.type_eq_iff ['y', 'a', 'm', 'l'] (List.cons_ne_nil _ _) (by decide) (by decide)
  have hyml := p.type_eq_iff ['y', 'm', 'l'] (List.cons_ne_nil _ _) (by decide) (by decide)
  have htypes : p.hasSourceType = true ↔ p.type = Text.ofChars ['.', 'y', 'a', 'm', 'l'] ∨
      p.type = Text.ofChars ['.', 'y', 'm', 'l'] := by
    simp [hasSourceType, sourceTypes, Text.ofString]
  rw [htypes, hyaml, hyml, IsSourceName]
  simp only [and_or_left, exists_or]

end Path
end FlowNotation
