import FlowNotation.Command
import Mathlib.Data.List.TakeWhile

/-! What is seen of a command. Its output takes all lines, or the command stops at the first one that
the output refuses: the lines before it are printed and nothing is logged. -/
namespace FlowNotation

namespace Output

variable {out : Output}

theorem print_eq_of_forall {ls : List Text} (h : ∀ l ∈ ls, out l = .ok ()) :
    out.print ls = (ls, none) := by
  induction ls with
  | nil => rfl
  | cons l ls ih =>
    obtain ⟨hl, hls⟩ := List.forall_mem_cons.mp h
    rw [print, hl, ih hls]

/-- Nothing behind the first refused line is printed. -/
theorem print_append_cons {before after : List Text} {l : Text} {fault : EncodeFault}
    (hbefore : ∀ k ∈ before, out k = .ok ()) (hl : out l = .error fault) :
    out.print (before ++ l :: after) = (before, some fault) := by
  induction before with
  | nil =>
    rw [List.nil_append, print, hl]
  | cons k before ih =>
    obtain ⟨hk, hrest⟩ := List.forall_mem_cons.mp hbefore
    rw [List.cons_append, print, hk, ih hrest]

/-- If an output does not take all lines, there is a first one that it refuses. -/
theorem forall_ok_or_exists_refused (out : Output) (ls : List Text) :
    (∀ l ∈ ls, out l = .ok ()) ∨ ∃ before l after fault, ls = before ++ l :: after ∧
      (∀ k ∈ before, out k = .ok ()) ∧ out l = .error fault := by
  induction ls with
  | nil => exact .inl (List.forall_mem_nil _)
  | cons l ls ih =>
    cases hl : out l with
    | error fault => exact .inr ⟨[], l, ls, fault, rfl, List.forall_mem_nil _, hl⟩
    | ok u =>
      rcases ih with hall | ⟨before, k, after, fault, rfl, hbefore, hk⟩
      · exact .inl (List.forall_mem_cons.mpr ⟨hl, hall⟩)
      · exact .inr ⟨l :: before, k, after, fault, rfl, List.forall_mem_cons.mpr ⟨hl, hbefore⟩, hk⟩

/-- Strict UTF-8 takes texts without halves. -/
theorem utf8_of_forall {t : Text} (h : ∀ c ∈ t, c.isHalf = false) : utf8 t = .ok () := by
  have hbehind : t.dropWhile (fun c => !c.isHalf) = [] :=
    (List.dropWhile_eq_nil_iff).mpr fun c hc => by rw [h c hc]; rfl
  rw [utf8, hbehind]
  rfl

/-- Of other texts it refuses the first halves that stand in a row, and tells where they stand. -/
theorem utf8_append {before halves after : Text} (hbefore : ∀ c ∈ before, c.isHalf = false)
    (hne : halves ≠ []) (hhalves : ∀ c ∈ halves, c.isHalf = true)
    (hafter : ∀ c ∈ after.head?, c.isHalf = false) :
    utf8 (before ++ (halves ++ after)) =
      .error ⟨"utf-8", halves, before.length, "surrogates not allowed"⟩ := by
  have hbehind : (before ++ (halves ++ after)).dropWhile (fun c => !c.isHalf) = halves ++ after := by
    obtain ⟨c, rest, rfl⟩ := List.exists_cons_of_ne_nil hne
    rw [List.dropWhile_append_of_pos fun c hc => by rw [hbefore c hc]; rfl, List.cons_append,
      List.dropWhile_cons_of_neg (by simp [hhalves c List.mem_cons_self])]
  have hrun : (halves ++ after).takeWhile CodePoint.isHalf = halves := by
    rw [List.takeWhile_append_of_pos hhalves]
    cases after with
    | nil => exact List.append_nil halves
    | cons c after => rw [List.takeWhile_cons_of_neg (by simp [hafter c rfl]), List.append_nil]
  have hstart : (before ++ (halves ++ after)).length - (halves ++ after).length = before.length := by
    rw [List.length_append]
    omega
  rw [utf8, hbehind, hrun, hstart]
  obtain ⟨c, rest, rfl⟩ := List.exists_cons_of_ne_nil hne
  rfl

end Output

namespace Outcome

inductive Shows (out : Output) (level : LogLevel) (o : Outcome) : Outcome → Prop
  -- What is seen of an outcome, given how its output takes lines. Errors are logged, unless the log
  -- is for critical messages alone.
  | whole : (∀ l ∈ o.lines, out l = .ok ()) →
      Shows out level o ⟨o.lines, if level = .critical then [] else o.log, o.ending⟩
  | cut (before : List Text) (l : Text) (after : List Text) (fault : EncodeFault) :
      o.lines = before ++ l :: after → (∀ k ∈ before, out k = .ok ()) → out l = .error fault →
      Shows out level o ⟨before, [], .error (.output fault)⟩

variable {out : Output} {level : LogLevel} {o : Outcome}

theorem seen_of_forall (h : ∀ l ∈ o.lines, out l = .ok ()) :
    o.seen out level = ⟨o.lines, if level = .critical then [] else o.log, o.ending⟩ := by
  rw [seen, Output.print_eq_of_forall h]
  cases level <;> rfl

/-- An outcome with a line that is refused is seen up to this line. -/
theorem seen_of_refused {before after : List Text} {l : Text} {fault : EncodeFault}
    (hlines : o.lines = before ++ l :: after) (hbefore : ∀ k ∈ before, out k = .ok ())
    (hl : out l = .error fault) : o.seen out level = ⟨before, [], .error (.output fault)⟩ := by
  rw [seen, hlines, Output.print_append_cons hbefore hl]

/-- There is one thing to be seen of an outcome. -/
theorem shows_iff (o' : Outcome) : o.Shows out level o' ↔ o' = o.seen out level := by
  have hseen : ∀ seen, o.Shows out level seen → seen = o.seen out level := by
    intro seen h
    cases h with
    | whole hall => exact (seen_of_forall hall).symm
    | cut before l after fault hlines hbefore hl => exact (seen_of_refused hlines hbefore hl).symm
  constructor
  · exact hseen o'
  · rintro rfl
    have hshown : ∃ seen, o.Shows out level seen := by
      rcases out.forall_ok_or_exists_refused o.lines with
        hall | ⟨before, l, after, fault, hlines, hbefore, hl⟩
      · exact ⟨_, .whole hall⟩
      · exact ⟨_, .cut before l after fault hlines hbefore hl⟩
    obtain ⟨seen, h⟩ := hshown
    exact hseen seen h ▸ h

/-- A command that stops without a word is seen to do so everywhere. -/
theorem seen_stop (fault : CommandFault) : (stop fault).seen out level = stop fault := by
  rw [seen_of_forall (List.forall_mem_nil _)]
  cases level <;> rfl

end Outcome

def Command.silent : Yaml.Wording :=
  -- a reader that has no words for what it cannot read
  fun _ => []

end FlowNotation
