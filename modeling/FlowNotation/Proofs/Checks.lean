import FlowNotation.Command
import FlowNotation.Proofs.CommandLines
import FlowNotation.Proofs.Loads
import FlowNotation.Proofs.Outputs
import FlowNotation.Proofs.ParseFaults

/-! What a check tells. It names all notations of a directory in the order of their files, each with a
tick or with a cross and its problems, and the crosses decide the exit code. A file that gives no
notation is told of alone. -/
namespace FlowNotation

structure Finding where
  -- what a check finds out about a source file: its notation, and the problems of the notation if
  -- validation refuses it
  script : Notation
  problems : Option (List Problem)

namespace Finding

inductive Of (t : FileTree) (c : Option Configuration) (p : Path) : Finding → Prop
  -- The finding of a file. Without a configuration nothing is held against its notation.
  | unchecked (text : String) (n : Notation) : t.readNotation p = .ok (text, n) → c = none →
      Of t c p ⟨n, none⟩
  | accepted (text : String) (n : Notation) (rules : Configuration) :
      t.readNotation p = .ok (text, n) → c = some rules → n.validate rules = .ok () →
      Of t c p ⟨n, none⟩
  | refused (text : String) (n : Notation) (rules : Configuration) (ps : List Problem) :
      t.readNotation p = .ok (text, n) → c = some rules → n.validate rules = .error ps →
      Of t c p ⟨n, some ps⟩

def lines (f : Finding) : List Text :=
  -- The lines about a notation. Those about transitions that no answer takes come first and do not
  -- count.
  f.script.shadowLines ++ match f.problems with
    | none => ["✔ " ++ f.script.code]
    | some ps => ("✗ " ++ f.script.code) :: ps.map fun p => "  [" ++ p.label ++ "] " ++ p.message

def crosses (fs : List Finding) : Nat := fs.countP fun f => f.problems.isSome

end Finding

namespace Command

inductive Configures (args : List String) (questions : Option String) (settings : Settings)
    (t : FileTree) : Option Configuration → Prop
  -- The rules of a check: none where no question catalogue is named, else its questions. Dead ends
  -- are allowed if the line is not strict and the settings allow them.
  | unnamed : (questions.filter (· ≠ "")).or settings.questions = none →
      Configures args questions settings t none
  | named (file : String) (bytes : List UInt8) (rules : Configuration) :
      (questions.filter (· ≠ "")).or settings.questions = some file →
      t.read (Path.ofText file) = .ok bytes → Questions.ofBytes bytes = .ok rules.questions →
      (rules.allowsDeadEnds = true ↔
        (¬∃ s ∈ args.takeWhile (· ≠ separator), SpellsStrict s) ∧ settings.allowsDeadEnds = true) →
      Configures args questions settings t (some rules)

inductive Reports (wording : Yaml.Wording) (t : FileTree) (workers : Int)
    (c : Option Configuration) (paths : List Path) : Outcome → Prop
  -- what a check comes to whose source files are `paths`, read by so many workers side by side
  | checked (fs : List Finding) (code : Nat) : 0 < workers ∨ paths = [] →
      List.Forall₂ (Finding.Of t c) paths fs → (code = 0 ↔ ∀ f ∈ fs, f.problems = none) →
      code ≤ 1 → Reports wording t workers c paths
        ⟨fs.flatMap Finding.lines ++ [summary paths.length (Finding.crosses fs)], [], .ok code⟩
  | refused (p : Path) (fault : SourceFault) : 0 < workers → t.FirstFault paths p (.source fault) →
      fault.isReported = true → Reports wording t workers c paths
        ⟨["✗ " ++ fault.message (t.wordsOn wording p), Text.ofString ("  while parsing " ++ p.text)],
          [], .ok 1⟩
  -- an escape or a version that stops the reader ends the check without a word
  | interrupted (p : Path) (text : String) (cause : Yaml.Fault) : 0 < workers →
      t.FirstFault paths p (.source (.unreadable cause)) → t.readSource p = .ok text →
      cause ≠ .malformed → cause.Grounded text.toList →
      Reports wording t workers c paths (.stop (.load (.file p (.source (.unreadable cause)))))
  | unmanned : workers ≤ 0 → paths ≠ [] →
      Reports wording t workers c paths (.stop (.load .noWorkers))

inductive ReportsAt (wording : Yaml.Wording) (out : Output) (t : FileTree) (settings : Settings)
    (c : Option Configuration) (paths : List Path) : Outcome → Prop
  -- What is seen of a check line. A level of the log that nobody knows stops it before it is read.
  | unlevelled : LogLevel.ofName? settings.logLevel = none →
      ReportsAt wording out t settings c paths (.stop (.unknownLevel settings.logLevel))
  | seen (level : LogLevel) (report o : Outcome) :
      LogLevel.ofName? settings.logLevel = some level →
      Reports wording t settings.workers c paths report → report.Shows out level o →
      ReportsAt wording out t settings c paths o

end Command

/-! ## Source files that can be opened -/

namespace FileTree

/-- If the bytes of a source file can be had, it is refused for what they hold: the author is told, or
the text spells out what stopped the reader. -/
theorem readNotation_eq_error (t : FileTree) (p : Path) (hp : p.hasSourceType = true)
    (bytes : List UInt8) (hread : t.read p = .ok bytes) (cause : ReadFault)
    (h : t.readNotation p = .error cause) :
    (∃ fault, cause = .source fault ∧ fault.isReported = true) ∨
      ∃ text fault, t.readSource p = .ok text ∧ cause = .source (.unreadable fault) ∧
        fault ≠ .malformed ∧ fault.Grounded text.toList := by
  rw [readNotation] at h
  rcases (bind_eq_error_iff _ _ _).mp h with h | ⟨text, htext, h⟩
  · rw [t.readSource_eq p hp bytes hread] at h
    rcases (bind_eq_error_iff _ _ _).mp h with h | ⟨_, _, h⟩
    · obtain ⟨e, _, hcause⟩ := (mapError_eq_error_iff _ _ _).mp h
      exact .inl ⟨_, hcause, rfl⟩
    · cases h
  · rcases (bind_eq_error_iff _ _ _).mp h with h | ⟨_, _, h⟩
    · obtain ⟨fault, hfault, rfl⟩ := (mapError_eq_error_iff _ _ _).mp h
      rcases parse_tells_or_grounded text with ⟨n, hn⟩ | ⟨e, he, hown⟩ | ⟨e, he, hne, hgrounded⟩
      · cases hfault.symm.trans hn
      · cases hfault.symm.trans he
        exact .inl ⟨_, rfl, hown.isReported⟩
      · cases hfault.symm.trans he
        exact .inr ⟨text, e, htext, rfl, hne, hgrounded⟩
    · cases h

end FileTree

/-! ## One file -/

namespace Finding

def ofNotation (c : Option Configuration) (n : Notation) : Finding :=
  ⟨n, match n.accepted c with
    | .ok () => none
    | .error ps => some ps⟩

variable (t : FileTree) (c : Option Configuration)

theorem of_iff (p : Path) (f : Finding) :
    Of t c p f ↔ ∃ r, t.readNotation p = .ok r ∧ ofNotation c r.2 = f := by
  constructor
  · intro h
    cases h with
    | unchecked text n hread hc =>
      subst hc
      exact ⟨_, hread, rfl⟩
    | accepted text n rules hread hc hvalid =>
      subst hc
      exact ⟨_, hread, by rw [ofNotation, Notation.accepted, hvalid]⟩
    | refused text n rules ps hread hc hvalid =>
      subst hc
      exact ⟨_, hread, by rw [ofNotation, Notation.accepted, hvalid]⟩
  · rintro ⟨⟨text, n⟩, hread, rfl⟩
    cases c with
    | none => exact .unchecked text n hread rfl
    | some rules =>
      rw [ofNotation, Notation.accepted]
      cases hvalid : n.validate rules with
      | ok u => exact .accepted text n rules hread rfl hvalid
      | error ps => exact .refused text n rules ps hread rfl hvalid

/-- The findings of files are those about their notations. -/
theorem forall₂_of_iff (paths : List Path) (fs : List Finding) :
    List.Forall₂ (Of t c) paths fs ↔
      ∃ read, t.ReadsAs paths read ∧ fs = read.map fun r => ofNotation c r.2 := by
  constructor
  · intro h
    induction h with
    | nil => exact ⟨[], .nil, rfl⟩
    | cons hf _ ih =>
      obtain ⟨r, hr, rfl⟩ := (of_iff t c _ _).mp hf
      obtain ⟨read, hread, rfl⟩ := ih
      exact ⟨r :: read, .cons hr hread, rfl⟩
  · rintro ⟨read, hread, rfl⟩
    rw [List.forall₂_map_right_iff]
    exact hread.imp fun p r hr => (of_iff t c p _).mpr ⟨r, hr, rfl⟩

theorem lines_ofNotation (n : Notation) : (ofNotation c n).lines = n.checkLines c := by
  rw [lines, ofNotation, Notation.checkLines, Notation.resultLines]
  cases n.accepted c with
  | ok u => rfl
  | error ps => rfl

theorem crosses_map_ofNotation (ns : List Notation) :
    crosses (ns.map (ofNotation c)) = Command.failures ns c := by
  rw [crosses, List.countP_map, Command.failures]
  congr 1
  funext n
  dsimp only [Function.comp, ofNotation]
  cases n.accepted c with
  | ok u => rfl
  | error ps => rfl

theorem crosses_eq_zero_iff (fs : List Finding) : crosses fs = 0 ↔ ∀ f ∈ fs, f.problems = none := by
  simp [crosses, List.countP_eq_zero]

end Finding

/-! ## The whole check -/

namespace Command

section Check

variable {wording : Yaml.Wording} {t : FileTree} {root : Path} {recursive : Bool}
  {paths : List Path} {settings : Settings} {c : Option Configuration}

/-- The load of a check, which starts from nothing. -/
theorem load_of_manned (hs : t.SourceOrder root recursive paths)
    (hw : 0 < settings.workers ∨ paths = []) :
    ((Catalog.new none settings).load t root recursive).1 =
      (List.map Prod.snd) <$> Catalog.readAll t paths := by
  by_cases hpos : 0 < settings.workers
  · rw [Catalog.load_of_sourceOrder _ t root recursive hpos paths hs]
    cases Catalog.readAll t paths with
    | error fault => rfl
    | ok read => rfl
  · obtain rfl := hw.resolve_left hpos
    -- without a file nobody has to read
    have hnone := (t.sourceOrder_iff root recursive []).mp hs
    cases hdir : t.isDirectory root with
    | false =>
      rw [Catalog.load_of_not_isDirectory _ t root recursive hdir]
      rfl
    | true =>
      rw [hdir, if_pos rfl] at hnone
      rw [Catalog.load_of_isDirectory _ t root recursive hdir, if_pos hnone.symm]
      rfl

theorem load_of_unmanned (hs : t.SourceOrder root recursive paths) (hw : settings.workers ≤ 0)
    (hne : paths ≠ []) :
    ((Catalog.new none settings).load t root recursive).1 = .error .noWorkers := by
  rw [t.sourceOrder_iff] at hs
  cases hdir : t.isDirectory root with
  | false => exact absurd (by simp [hs, hdir]) hne
  | true =>
    rw [hdir, if_pos rfl] at hs
    have hw' : (Catalog.new none settings).workers ≤ 0 := hw
    rw [Catalog.load_of_isDirectory _ t root recursive hdir, if_neg (hs ▸ hne), if_pos hw']

/-- There is but one report, and the check gives it. -/
theorem runCheck_of_reports (hs : t.SourceOrder root recursive paths) {o : Outcome}
    (h : Reports wording t settings.workers c paths o) :
    o = runCheck wording root recursive (.ok c) settings t := by
  cases h with
  | checked fs code hw hfs hcode hle =>
    obtain ⟨read, hread, rfl⟩ := (Finding.forall₂_of_iff t c paths fs).mp hfs
    have hcrosses : Finding.crosses (read.map fun r => Finding.ofNotation c r.2) =
        failures (read.map Prod.snd) c := by
      rw [← Finding.crosses_map_ofNotation, List.map_map]
      rfl
    have hcode' : code = if failures (read.map Prod.snd) c = 0 then 0 else 1 := by
      rw [← Finding.crosses_eq_zero_iff, hcrosses] at hcode
      split <;> omega
    rw [runCheck, load_of_manned hs hw, (Catalog.readAll_eq_ok_iff t paths read).mpr hread]
    change _ = Outcome.exit _ _
    rw [Outcome.exit, hcrosses, hcode', List.flatMap_map, List.flatMap_map, List.length_map,
      hread.length_eq]
    simp only [Finding.lines_ofNotation]
  | refused p fault hw hfirst hfault =>
    have hnotes := LoadFault.notes_file p fault hfault
    rw [runCheck, load_of_manned hs (.inl hw),
      (Catalog.readAll_eq_error_iff t paths _).mpr ⟨p, _, hfirst, rfl⟩]
    change _ = if fault.isReported then _ else _
    rw [if_pos hfault, hnotes]
    rfl
  | interrupted p text cause hw hfirst htext hcause hgrounded =>
    rw [runCheck, load_of_manned hs (.inl hw),
      (Catalog.readAll_eq_error_iff t paths _).mpr ⟨p, _, hfirst, rfl⟩]
    change _ = if decide (cause = .malformed) then _ else _
    rw [if_neg (by simpa using hcause)]
  | unmanned hw hne =>
    rw [runCheck, load_of_unmanned hs hw hne]
    rfl

/-- What the load of the files comes to decides which report there is. -/
theorem exists_reports
    (hfiles : ∀ p ∈ paths, p.hasSourceType = true ∧ ∃ bytes, t.read p = .ok bytes) :
    ∃ o, Reports wording t settings.workers c paths o := by
  by_cases hw : 0 < settings.workers ∨ paths = []
  · cases hread : Catalog.readAll t paths with
    | ok read =>
      have hfs := (Finding.forall₂_of_iff t c paths _).mpr
        ⟨read, (Catalog.readAll_eq_ok_iff t paths read).mp hread, rfl⟩
      let crosses := Finding.crosses (read.map fun r => Finding.ofNotation c r.2)
      refine ⟨_, .checked _ (if crosses = 0 then 0 else 1) hw hfs ?_ ?_⟩
      · rw [← Finding.crosses_eq_zero_iff]
        split <;> omega
      · split <;> omega
    | error fault =>
      obtain ⟨p, cause, hfirst, rfl⟩ := (Catalog.readAll_eq_error_iff t paths fault).mp hread
      have hpos : 0 < settings.workers := hw.resolve_right (List.ne_nil_of_mem hfirst.mem)
      obtain ⟨hp, bytes, hbytes⟩ := hfiles p hfirst.mem
      rcases t.readNotation_eq_error p hp bytes hbytes cause hfirst.readNotation_eq with
        ⟨fault, rfl, hfault⟩ | ⟨text, fault, htext, rfl, hfault, hgrounded⟩
      · exact ⟨_, .refused p fault hpos hfirst hfault⟩
      · exact ⟨_, .interrupted p text fault hpos hfirst htext hfault hgrounded⟩
  · rw [not_or, not_lt] at hw
    exact ⟨_, .unmanned hw.1 hw.2⟩

/-- There is a report, and since there is but one, it is the one that is given. -/
theorem reports_iff_runCheck (hs : t.SourceOrder root recursive paths)
    (hfiles : ∀ p, t.IsFileBelow root recursive p → ∃ bytes, t.read p = .ok bytes) (o : Outcome) :
    Reports wording t settings.workers c paths o ↔
      o = runCheck wording root recursive (.ok c) settings t := by
  constructor
  · exact runCheck_of_reports hs
  · rintro rfl
    have hopen : ∀ p ∈ paths, p.hasSourceType = true ∧ ∃ bytes, t.read p = .ok bytes := by
      intro p hp
      obtain ⟨hbelow, htype⟩ := (hs.mem_iff p).mp hp
      exact ⟨htype, hfiles p hbelow⟩
    have hreport : ∃ o, Reports wording t settings.workers c paths o := exists_reports hopen
    obtain ⟨o, ho⟩ := hreport
    exact runCheck_of_reports hs ho ▸ ho

end Check

/-- The rules of a check are those that its line and the settings name, if they can be had. -/
theorem configures_iff {args : List String} {directory questions : Option String}
    {strict recursive : Bool} {settings : Settings} {t : FileTree} {c : Option Configuration}
    (hargs : ofArgs args = .ok (.check directory questions strict recursive)) :
    Configures args questions settings t c ↔ configurationOf questions strict settings t = .ok c := by
  have hrules : ∀ rules : Configuration, (rules.allowsDeadEnds = true ↔
      (¬∃ s ∈ args.takeWhile (· ≠ separator), SpellsStrict s) ∧ settings.allowsDeadEnds = true) ↔
      rules.allowsDeadEnds = (!strict && settings.allowsDeadEnds) := by
    intro rules
    rw [← strict_iff_exists_mem hargs]
    cases rules.allowsDeadEnds <;> cases strict <;> simp
  rw [configurationOf]
  -- the line's catalogue goes before that of the settings, and an empty name is none
  cases hnamed : (questions.filter (· ≠ "")).or settings.questions with
  | none =>
    constructor
    · intro h
      cases h with
      | unnamed => rfl
      | named file _ _ hfile => cases hnamed.symm.trans hfile
    · intro h
      cases h
      exact .unnamed hnamed
  | some file =>
    simp only [bind_eq_ok_iff, mapError_eq_ok_iff]
    constructor
    · intro h
      cases h with
      | unnamed hnone => cases hnamed.symm.trans hnone
      | named file' bytes rules hfile hbytes hqs hdead =>
        cases hnamed.symm.trans hfile
        refine ⟨bytes, hbytes, rules.questions, hqs, ?_⟩
        rw [← (hrules rules).mp hdead]
        rfl
    · rintro ⟨bytes, hbytes, qs, hqs, h⟩
      cases h
      exact .named file bytes _ hnamed hbytes hqs ((hrules _).mpr rfl)

/-- What is seen of a check, for every line, every environment whose settings can be read, every tree of
files that can be opened, every output, and whatever the reader says. -/
theorem reports_iff_runLine (args : List String) (env : String → Option String)
    (wording : Yaml.Wording) (out : Output) (t : FileTree) (settings : Settings)
    (directory questions : Option String) (strict recursive : Bool) (c : Option Configuration)
    (hsettings : Settings.ofEnvironment env = .ok settings)
    (hargs : ofArgs args = .ok (.check directory questions strict recursive))
    (hfiles : ∀ p, t.IsFileBelow (Path.ofText (directory.getD settings.directory)) recursive p →
      ∃ bytes, t.read p = .ok bytes)
    (hc : Configures args questions settings t c) :
    ∃ paths, t.SourceOrder (Path.ofText (directory.getD settings.directory)) recursive paths ∧
      ∀ o, ReportsAt wording out t settings c paths o ↔ o = runLine args env wording out t := by
  obtain ⟨paths, hs⟩ := t.exists_sourceOrder _ recursive
  refine ⟨paths, hs, ?_⟩
  have hreports : ∀ o, Reports wording t settings.workers c paths o ↔ o = runCheck wording
      (Path.ofText (directory.getD settings.directory)) recursive (.ok c) settings t :=
    reports_iff_runCheck hs hfiles
  have hrules := (configures_iff hargs).mp hc
  intro o
  rw [runLine, hsettings]
  dsimp only
  cases hlevel : LogLevel.ofName? settings.logLevel with
  | none =>
    constructor
    · intro h
      cases h with
      | unlevelled => rfl
      | seen level _ _ hknown => cases hlevel.symm.trans hknown
    · rintro rfl
      exact .unlevelled hlevel
  | some level =>
    rw [hargs]
    dsimp only
    rw [run]
    dsimp only
    rw [hrules, ← Outcome.shows_iff]
    constructor
    · intro h
      cases h with
      | unlevelled hnone => cases hlevel.symm.trans hnone
      | seen level' report _ hknown hreport hshows =>
        cases hlevel.symm.trans hknown
        rw [← (hreports report).mp hreport]
        exact hshows
    · intro h
      exact .seen level _ o hlevel ((hreports _).mpr rfl) h

/-! ## A desk

The intake lies on it twice, beside a catalogue that knows its questions. -/

def deskQuestionBytes : List UInt8 :=
  bytesOf ["[{code: kind, type: string}, {code: name, type: string}, ",
    "{code: trustee, type: person}]"]

def deskTree : FileTree where
  entries.entries := [(["forms"], .directory), (["forms", "intake.yml"], .file (bytesOf intakeLines)),
    (["forms", "copy.yml"], .file (bytesOf intakeLines)), (["desk.txt"], .file deskQuestionBytes)]
  entries.nodup := by decide +kernel

def deskPaths : List Path := [["forms", "copy.yml"], ["forms", "intake.yml"]]

def deskSettings : Settings := ⟨"notations", true, 4, true, none, "INFO"⟩

def deskQuestions : Questions := Questions.ofDefinitions [⟨"kind", .string, "", none, []⟩,
  ⟨"name", .string, "", none, []⟩, ⟨"trustee", .person, "", none, []⟩]

theorem ofBytes_deskQuestionBytes : Questions.ofBytes deskQuestionBytes = .ok deskQuestions := by
  have h : (Questions.ofBytes deskQuestionBytes).toOption = some deskQuestions := by decide +kernel
  generalize Questions.ofBytes deskQuestionBytes = result at h
  cases result with
  | error fault => cases h
  | ok qs => exact congrArg Except.ok (Option.some.inj h)

theorem sourceOrder_deskPaths (paths : List Path)
    (hs : deskTree.SourceOrder ["forms"] true paths) : paths = deskPaths :=
  hs.eq_of_entries (by decide +kernel) ["forms"] (by decide +kernel) deskPaths (by decide +kernel)
    (by decide +kernel)

theorem readNotation_desk {p : Path} (hp : p ∈ deskPaths) :
    deskTree.readNotation p = .ok (intakeSource, intake) := by
  rcases List.mem_pair.mp hp with rfl | rfl
  all_goals exact readNotation_of_intakeLines deskTree _ (by decide +kernel) (by decide +kernel)

/-- All files of the desk can be opened. -/
theorem exists_bytes_desk {p : Path} (hp : deskTree.IsFileBelow ["forms"] true p) :
    ∃ bytes, deskTree.read p = .ok bytes := by
  obtain ⟨-, place, rest, bytes, hplace, rfl, -, hget, -⟩ := hp
  have hforms : deskTree.resolve ["forms"] = .ok ["forms"] := by decide +kernel
  obtain rfl : ["forms"] = place := Except.ok.inj (hforms.symm.trans hplace)
  have hread : ∀ e ∈ deskTree.entries.entries,
      e.2 = .directory ∨ (deskTree.read e.1).isOk = true := by
    decide +kernel
  rcases hread _ ((Table.get?_eq_some_iff _ _ _).mp hget) with h | h
  · cases h
  · cases hbytes : deskTree.read (["forms"] ++ rest) with
    | ok bytes => exact ⟨bytes, rfl⟩
    | error fault =>
      dsimp only at h
      cases hbytes ▸ h

theorem configures_desk {args : List String} {strict : Bool}
    (hargs : ofArgs args = .ok (.check (some "forms") (some "desk.txt") strict true)) :
    Configures args (some "desk.txt") deskSettings deskTree (some ⟨deskQuestions, !strict⟩) := by
  have hquestions : deskTree.read (Path.ofText "desk.txt") = .ok deskQuestionBytes := by
    decide +kernel
  refine .named "desk.txt" deskQuestionBytes _ (by decide) hquestions ofBytes_deskQuestionBytes ?_
  rw [← strict_iff_exists_mem hargs]
  change (!strict) = true ↔ ¬strict = true ∧ true = true
  cases strict <;> decide

/-- The forms pass by the settings alone. A strict line finds fault with both: the trustee never comes
to an end. -/
theorem reports_iff_runLine_desk :
    runLine ["check", "forms", "--questions=desk.txt"] (fun _ => none) silent .utf8 deskTree =
      ⟨["✔ intake", "✔ intake", "2 notation(s) checked, 0 failed"], [], .ok 0⟩ ∧
    runLine ["check", "--stri", "forms", "--questions", "desk.txt"] (fun _ => none) silent .utf8
        deskTree =
      ⟨["✗ intake", "  [no_end] State trustee in flow does not lead to END",
        "✗ intake", "  [no_end] State trustee in flow does not lead to END",
        "2 notation(s) checked, 2 failed"], [], .ok 1⟩ := by
  have hsettings : Settings.ofEnvironment (fun _ => none) = .ok deskSettings := by decide +kernel
  -- both forms are the intake, and so there is one finding for both
  have hline : ∀ args strict problems code lines,
      ofArgs args = .ok (.check (some "forms") (some "desk.txt") strict true) →
      (∀ p ∈ deskPaths, Finding.Of deskTree (some ⟨deskQuestions, !strict⟩) p ⟨intake, problems⟩) →
      (code = 0 ↔ problems = none) → code ≤ 1 →
      [Finding.mk intake problems, ⟨intake, problems⟩].flatMap Finding.lines ++
        [summary 2 (Finding.crosses [⟨intake, problems⟩, ⟨intake, problems⟩])] = lines →
      (∀ l ∈ lines, Output.utf8 l = .ok ()) →
      runLine args (fun _ => none) silent .utf8 deskTree = ⟨lines, [], .ok code⟩ := by
    rintro args strict problems code _ hargs hfinding hcode hle rfl hlines
    obtain ⟨paths, hs, hreports⟩ := reports_iff_runLine args _ silent .utf8 deskTree deskSettings
      (some "forms") (some "desk.txt") strict true _ hsettings hargs (fun _ => exists_bytes_desk)
      (configures_desk hargs)
    obtain rfl := sourceOrder_deskPaths paths hs
    have hcopy := hfinding ["forms", "copy.yml"] (by decide)
    have hform := hfinding ["forms", "intake.yml"] (by decide)
    have hreport : Reports silent deskTree deskSettings.workers (some ⟨deskQuestions, !strict⟩)
        deskPaths _ :=
      .checked [⟨intake, problems⟩, ⟨intake, problems⟩] code (.inl (by decide))
        (.cons hcopy (.cons hform .nil)) (by simpa using hcode) hle
    exact ((hreports _).mp (.seen .info _ _ rfl hreport (.whole hlines))).symm
  constructor
  · apply hline _ false none 0 _ (by decide +kernel) _ (by decide) (by decide) (by decide +kernel)
      (by decide +kernel)
    exact fun p hp => .accepted _ _ _ (readNotation_desk hp) rfl (by decide +kernel)
  · apply hline _ true (some [.noEnd "trustee" .flow]) 1 _ (by decide +kernel) _ (by decide)
      (by decide) (by decide +kernel) (by decide +kernel)
    exact fun p hp => .refused _ _ _ _ (readNotation_desk hp) rfl (by decide +kernel)

/-! One file, with an escape of more than 31 bits. -/

def wideTree : FileTree where
  entries.entries := [(["n"], .directory), (["n", "a.yaml"], .file (bytesOf ["c: \"\\UFFFFFFFF\"\n"]))]
  entries.nodup := by decide +kernel

/-- The file gives no notation, and yet the check names no file and gives no exit code. -/
theorem runLine_check_wideEscape :
    wideTree.readNotation ["n", "a.yaml"] = .error (.source (.unreadable .escapeTooWide)) ∧
      (runLine ["check", "n"] (fun _ => none) silent .utf8 wideTree).lines = [] ∧
      (runLine ["check", "n"] (fun _ => none) silent .utf8 wideTree).ending.isOk = false := by
  decide +kernel

end Command

end FlowNotation
