import FlowNotation.Command.Line
import FlowNotation.Proofs.Readings

/-! What a command line says. A line that is accepted starts with the name of its command, and an
option without a value counts wherever it stands before the separator. -/
namespace FlowNotation.Command

def SpellsStrict (s : String) : Prop :=
  -- the argument is the name of the option for strictness, in full or cut short
  "--s".toList <+: s.toList ∧ s.toList <+: "--strict".toList

instance (s : String) : Decidable (SpellsStrict s) := inferInstanceAs (Decidable (_ ∧ _))

/-! ## Single arguments -/

inductive Means (s : String) : Arg → Prop
  -- All that an argument may be read as. An option is asked for by its name or the start of it,
  -- with a text behind an equals sign or without one.
  | separator : s = Command.separator → Means s .separator
  | shortHelp (more : List Char) : Means s (.shortHelp more)
  | word : Means s (.word s)
  | unknown : Means s .unknown
  | option (flag : Flag) (inline : Option String) : s ≠ Command.separator →
      ['-', '-'] <+: s.toList → s.toList.takeWhile (· ≠ '=') <+: flag.name.toList →
      (inline = none → s.toList.takeWhile (· ≠ '=') = s.toList) → Means s (.option flag inline)

section Arg

variable {flags : List Flag} {s : String} {a : Arg}

theorem means_dashed (s : String) : Means s (dashed s) := by
  rw [dashed]
  split
  · exact .word
  · exact .unknown

/-- Where no text stands behind a name, the name is all. -/
theorem takeWhile_eq_of_inline_eq_none (p : Char → Bool) (s : String)
    (h : (match s.toList.drop (s.toList.takeWhile p).length with
      | _ :: text => some (String.ofList text)
      | [] => none) = none) : s.toList.takeWhile p = s.toList := by
  split at h
  · cases h
  · exact (List.takeWhile_prefix p).eq_of_length_le (List.drop_eq_nil_iff.mp ‹_›)

theorem means_of_readArg (h : readArg flags s = .ok a) : Means s a := by
  rw [readArg] at h
  split at h
  case h_1 hs =>
    cases h
    exact .separator (String.toList_inj.mp hs)
  case h_2 =>
    cases h
    exact .shortHelp _
  case h_3 rest hne hs =>
    have hseparator : s ≠ separator := by
      rintro rfl
      exact hne (List.cons.inj (List.cons.inj hs).2).2.symm
    dsimp only at h
    split at h
    case h_1 f hf =>
      have hname : f.name.toList = s.toList.takeWhile (· ≠ '=') := by
        simpa using List.find?_some hf
      cases h
      refine .option f _ hseparator ⟨rest, hs.symm⟩ ?_ (takeWhile_eq_of_inline_eq_none _ s)
      exact hname ▸ List.prefix_rfl
    case h_2 f _ hf =>
      have hmem : f ∈ flags.filter fun f => (s.toList.takeWhile (· ≠ '=')).isPrefixOf f.name.toList :=
        hf ▸ List.mem_singleton_self f
      have hname := List.isPrefixOf_iff_prefix.mp (List.mem_filter.mp hmem).2
      cases h
      exact .option f _ hseparator ⟨rest, hs.symm⟩ hname (takeWhile_eq_of_inline_eq_none _ s)
    case h_3 =>
      cases h
      exact means_dashed s
    case h_4 => cases h
  case h_4 =>
    cases h
    exact means_dashed s
  case h_5 =>
    cases h
    exact .word

theorem readArg_eq_separator_iff : readArg flags s = .ok .separator ↔ s = separator := by
  constructor
  · intro h
    cases means_of_readArg h with
    | separator hs => exact hs
  · rintro rfl
    rfl

/-- Of the options of a check only strictness begins with an S. -/
theorem readArg_eq_strict_iff :
    readArg Kind.check.flags s = .ok (.option .strict none) ↔ SpellsStrict s := by
  constructor
  · intro h
    cases means_of_readArg h with
    | option _ _ hne hdashes hname hwhole =>
      obtain ⟨rest, hs⟩ := hdashes
      rw [hwhole rfl] at hname
      refine ⟨?_, hname⟩
      cases rest with
      | nil => exact absurd (String.toList_inj.mp hs.symm) hne
      | cons c rest =>
        rw [← hs] at hname ⊢
        have hname : '-' :: '-' :: c :: rest <+: ['-', '-', 's', 't', 'r', 'i', 'c', 't'] := hname
        simp only [List.cons_prefix_cons] at hname
        obtain ⟨-, -, rfl, -⟩ := hname
        exact ⟨rest, rfl⟩
  · rintro ⟨hleast, hs⟩
    -- a spelling is a start of the name, of three to eight characters
    have hspelled : s = String.ofList ("--strict".toList.take s.toList.length) := by
      rw [← List.prefix_iff_eq_take.mp hs, String.ofList_toList]
    have hlength : 3 ≤ s.toList.length ∧ s.toList.length ≤ 8 := ⟨hleast.length_le, hs.length_le⟩
    generalize s.toList.length = n at hspelled hlength
    subst hspelled
    have hn : n = 3 ∨ n = 4 ∨ n = 5 ∨ n = 6 ∨ n = 7 ∨ n = 8 := by omega
    rcases hn with rfl | rfl | rfl | rfl | rfl | rfl <;> decide +kernel

end Arg

/-! ## Arguments in a row -/

/-- The options before the separator are read one by one. -/
theorem option_mem_iff {flags : List Flag} {args : List String} {as : List Arg}
    (h : readArgs flags args = .ok as) (flag : Flag) (inline : Option String) :
    .option flag inline ∈ as ↔
      ∃ s ∈ args.takeWhile (· ≠ separator), readArg flags s = .ok (.option flag inline) := by
  -- behind the separator nothing is read as an option, and nothing is looked at on the other side
  induction args generalizing as with
  | nil =>
    cases h
    simp
  | cons s args ih =>
    rw [readArgs] at h
    obtain ⟨a, ha, h⟩ := (bind_eq_ok_iff _ _ _).mp h
    by_cases hs : s = separator
    · obtain rfl : a = .separator := Except.ok.inj (ha.symm.trans (readArg_eq_separator_iff.mpr hs))
      cases h
      simp [hs]
    · have hne : a ≠ .separator := fun he => hs (readArg_eq_separator_iff.mp (he ▸ ha))
      obtain ⟨rest, hrest, has⟩ : ∃ rest, readArgs flags args = .ok rest ∧ as = a :: rest := by
        split at h
        · exact absurd rfl hne
        · obtain ⟨rest, hrest, hpure⟩ := (bind_eq_ok_iff _ _ _).mp h
          exact ⟨rest, hrest, (Except.ok.inj hpure).symm⟩
      rw [has, List.mem_cons, ih hrest, List.takeWhile_cons_of_pos (by simpa using hs)]
      simp only [List.mem_cons, exists_eq_or_imp, ha, Except.ok.injEq]
      rw [eq_comm]

/-- An option that takes no value is set just if it is asked for, as long as nothing is refused. -/
theorem set_mem_items_iff (flag : Flag) (hflag : flag ≠ .questions) (as : List Arg)
    (h : (items as).findSome? Item.usage? = none) :
    (∃ v, .set flag v ∈ items as) ↔ .option flag none ∈ as := by
  fun_induction items as with
  | case1 => simp
  | case2 _ _ ih | case3 _ _ ih =>
    -- the question file is another option
    simpa [hflag] using ih h
  | case7 flag' rest _ _ _ ih =>
    simp only [List.mem_cons, Item.set.injEq, Arg.option.injEq, and_true, exists_or, ← ih h]
    simp
  | case9 _ ih | case10 _ _ ih | case11 _ ih => simpa using ih h
  | case4 | case5 | case6 | case8 => exact nomatch h

theorem value?_isSome_iff (flag : Flag) (is : List Item) :
    (Item.value? flag is).isSome = true ↔ ∃ v, .set flag v ∈ is := by
  rw [Item.value?, List.findSome?_isSome_iff]
  constructor
  · rintro ⟨i, hi, h⟩
    rw [List.mem_reverse] at hi
    cases i with
    | set f v =>
      dsimp only at h
      split at h
      · rename_i hf
        exact ⟨v, hf ▸ hi⟩
      · cases h
    | _ => cases h
  · rintro ⟨v, hv⟩
    exact ⟨_, List.mem_reverse.mpr hv, by simp⟩

/-! ## Whole lines -/

section Line

variable {args : List String} {c : Command} {directory questions : Option String}
  {strict recursive : Bool}

theorem ofArgsAfter_unknown : ofArgsAfter true args ≠ .ok c := by
  induction args with
  | nil => exact fun h => nomatch h
  | cons s args ih =>
    intro h
    rw [ofArgsAfter] at h
    obtain ⟨a, ha, h⟩ := (bind_eq_ok_iff _ _ _).mp h
    cases a with
    | word name =>
      dsimp only at h
      split at h
      · cases h
      · obtain ⟨_, _, h⟩ := (bind_eq_ok_iff _ _ _).mp h
        cases h
    | unknown => exact ih h
    | _ => cases h

/-- An accepted line starts with the name of its command. -/
theorem exists_kind_of_ofArgs (h : ofArgs args = .ok c) :
    ∃ name rest kind, args = name :: rest ∧ Kind.ofName? name = some kind ∧
      ofKind kind rest = .ok c := by
  cases args with
  | nil => exact nomatch h
  | cons s rest =>
    rw [ofArgs, ofArgsAfter] at h
    obtain ⟨a, ha, h⟩ := (bind_eq_ok_iff _ _ _).mp h
    cases a with
    | word name =>
      cases means_of_readArg ha
      dsimp only at h
      split at h
      · cases h
      · rename_i kind hkind
        obtain ⟨c', hc', h⟩ := (bind_eq_ok_iff _ _ _).mp h
        cases h
        exact ⟨_, _, _, rfl, hkind, hc'⟩
    | unknown => exact absurd h ofArgsAfter_unknown
    | _ => cases h

/-- Only a line for a check gives one, and it is strict if it sets the option. -/
theorem exists_args_of_ofKind_check {kind : Kind}
    (h : ofKind kind args = .ok (.check directory questions strict recursive)) :
    kind = .check ∧ ∃ as, readArgs Kind.check.flags args = .ok as ∧
      (items as).findSome? Item.usage? = none ∧
      strict = (Item.value? .strict (items as)).isSome := by
  rw [ofKind] at h
  obtain ⟨as, has, h⟩ := (bind_eq_ok_iff _ _ _).mp h
  dsimp only at h
  split at h
  · cases h
  rename_i hsome
  have husage : (items as).findSome? Item.usage? = none :=
    Option.eq_none_iff_forall_ne_some.mpr hsome
  -- nothing may be left over behind the operands
  split at h
  · cases h
  cases kind with
  | check =>
    obtain ⟨_, _, h⟩ := (bind_eq_ok_iff _ _ _).mp h
    cases h
    exact ⟨rfl, as, has, husage, rfl⟩
  | list =>
    obtain ⟨_, _, h⟩ := (bind_eq_ok_iff _ _ _).mp h
    cases h
  | walk =>
    dsimp only [walkOf] at h
    split at h
    · cases h
    · split at h
      · split at h <;> cases h
      · cases h

/-- A check is strict just if an argument before the separator names the option, in full or cut
short. -/
theorem strict_iff_exists_mem (h : ofArgs args = .ok (.check directory questions strict recursive)) :
    strict = true ↔ ∃ s ∈ args.takeWhile (· ≠ separator), SpellsStrict s := by
  obtain ⟨name, rest, kind, rfl, hname, hkind⟩ := exists_kind_of_ofArgs h
  obtain ⟨rfl, as, has, husage, rfl⟩ := exists_args_of_ofKind_check hkind
  obtain rfl : name = "check" := by
    unfold Kind.ofName? at hname
    split at hname
    · rfl
    all_goals cases hname
  have hcheck : ¬SpellsStrict "check" := by decide +kernel
  rw [value?_isSome_iff, set_mem_items_iff .strict (by decide) as husage, option_mem_iff has,
    List.takeWhile_cons_of_pos (by decide)]
  simp only [readArg_eq_strict_iff, List.mem_cons, exists_eq_or_imp, hcheck, false_or]

end Line

end FlowNotation.Command
