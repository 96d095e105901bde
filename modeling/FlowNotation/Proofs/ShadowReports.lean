import FlowNotation.Proofs.Checks
import FlowNotation.Proofs.Shadowing
import FlowNotation.Proofs.ValidationPass

/-! Reports of shadowed transitions. Reading a notation warns of them, validation notes them, and a
check prints a line about them; the three name the same states. Reading and checking go by the order
of declaration, and validation by the walk from the start. -/
namespace FlowNotation

variable {α β γ : Type}

inductive Lists (Tells : α → β → Prop) : List α → List β → Prop
  -- a list of what the items of another list tell: one entry for each that tells something, in the
  -- order of the items, and nothing else
  | nil : Lists Tells [] []
  | told (a : α) (b : β) (as : List α) (bs : List β) : Tells a b → Lists Tells as bs →
      Lists Tells (a :: as) (b :: bs)
  | silent (a : α) (as : List α) (bs : List β) : (∀ b, ¬ Tells a b) → Lists Tells as bs →
      Lists Tells (a :: as) bs

namespace Lists

variable {Tells : α → β → Prop}

theorem append {as as' : List α} {bs bs' : List β} (h : Lists Tells as bs)
    (h' : Lists Tells as' bs') : Lists Tells (as ++ as') (bs ++ bs') := by
  induction h with
  | nil => exact h'
  | told a b as bs hab _ ih => exact .told a b _ _ hab ih
  | silent a as bs ha _ ih => exact .silent a _ _ ha ih

theorem flatMap (cs : List γ) (f : γ → List α) (g : γ → List β)
    (h : ∀ c ∈ cs, Lists Tells (f c) (g c)) : Lists Tells (cs.flatMap f) (cs.flatMap g) := by
  induction cs with
  | nil => exact .nil
  | cons c cs ih =>
    rw [List.flatMap_cons, List.flatMap_cons]
    obtain ⟨hc, hcs⟩ := List.forall_mem_cons.mp h
    exact hc.append (ih hcs)

/-- Two selections from one list: what is told about an item of the first is the item of the second
that was selected with it. -/
theorem filterMap (cs : List γ) (f : γ → Option α) (g : γ → Option β)
    (hnone : ∀ c ∈ cs, f c = none → g c = none)
    (hsome : ∀ c ∈ cs, ∀ a, f c = some a → ∀ b, Tells a b ↔ g c = some b) :
    Lists Tells (cs.filterMap f) (cs.filterMap g) := by
  induction cs with
  | nil => exact .nil
  | cons c cs ih =>
    obtain ⟨hn, hnone⟩ := List.forall_mem_cons.mp hnone
    obtain ⟨hs, hsome⟩ := List.forall_mem_cons.mp hsome
    have hrest := ih hnone hsome
    cases hf : f c with
    | none => rwa [List.filterMap_cons_none hf, List.filterMap_cons_none (hn hf)]
    | some a =>
      rw [List.filterMap_cons_some hf]
      cases hg : g c with
      | none =>
        rw [List.filterMap_cons_none hg]
        exact .silent a _ _ (fun b hb => by cases hg.symm.trans ((hs a hf b).mp hb)) hrest
      | some b =>
        rw [List.filterMap_cons_some hg]
        exact .told a b _ _ ((hs a hf b).mpr hg) hrest

end Lists

/-! ## Nodes -/

def Node.Hides (n : Node) (count : Nat) : Prop :=
  -- so many transitions follow the first that takes any answer
  ∃ before t behind, n.transitions = before ++ t :: behind ∧ t.condition = .any ∧
    (∀ u ∈ before, u.condition ≠ .any) ∧ behind.length = count ∧ 0 < count

/-- A node hides as many transitions as are shadowed, if any are. -/
theorem Node.hides_iff (n : Node) (count : Nat) :
    n.Hides count ↔ n.shadowed ≠ [] ∧ n.shadowed.length = count := by
  have hshadowed : ∀ before t behind, n.transitions = before ++ t :: behind → t.condition = .any →
      (∀ u ∈ before, u.condition ≠ .any) → n.shadowed = behind := by
    intro before t behind hts ht hbefore
    rw [shadowed, hts, List.dropWhile_append_of_pos (by simpa using hbefore),
      List.dropWhile_cons_of_neg (by simpa using ht), List.tail_cons]
  constructor
  · rintro ⟨before, t, behind, hts, ht, hbefore, hlength, hpos⟩
    rw [hshadowed before t behind hts ht hbefore]
    exact ⟨List.ne_nil_of_length_pos (hlength ▸ hpos), hlength⟩
  · rintro ⟨hne, hlength⟩
    rcases n.shadowed_cases with ⟨hnil, _⟩ | ⟨before, t, hts, ht, hbefore⟩
    · exact absurd hnil hne
    · exact ⟨before, t, n.shadowed, hts, ht, hbefore, hlength,
        hlength ▸ List.length_pos_of_ne_nil hne⟩

namespace ShadowWarning

def WarnsOf (e : Section × Text × Node) (w : ShadowWarning) : Prop :=
  -- the warning is about this state of a machine and counts its shadowed transitions
  w.part = e.1 ∧ w.state = e.2.1 ∧ e.2.2.Hides w.count

def line (code : Text) (w : ShadowWarning) : Text :=
  -- the line of a check about the state that is warned of
  "! " ++ code ++ ": " ++ w.part.name ++ "." ++ w.state ++ " has transitions after '_'"

def about (part : Section) (e : Text × Node) : Option ShadowWarning :=
  if e.2.shadowed = [] then none else some ⟨e.1, part, e.2.shadowed.length⟩

theorem warnsOf_iff (part : Section) (e : Text × Node) (w : ShadowWarning) :
    WarnsOf (part, e) w ↔ about part e = some w := by
  rw [WarnsOf, Node.hides_iff, about]
  by_cases hn : e.2.shadowed = []
  · simp [hn]
  · obtain ⟨state, part', count⟩ := w
    simp only [hn, if_false, Option.some.injEq, mk.injEq, ne_eq, not_false_eq_true, true_and]
    rw [and_left_comm, @eq_comm _ state, @eq_comm _ part', ← @eq_comm _ count]

end ShadowWarning

/-! ## What reading warns of -/

namespace Reading

theorem bind_eq {r : Reading α} {ws : List ShadowWarning} {a : α} (h : r = ⟨ws, .ok a⟩)
    (f : α → Reading β) : r >>= f = ⟨ws ++ (f a).warnings, (f a).result⟩ := by
  rw [h]
  rfl

/-- Items that are all read give their warnings one after the other. -/
theorem mapM_eq (f : α → Reading β) (note : γ → Option ShadowWarning) (value : γ → β)
    (as : List α) (cs : List γ)
    (h : List.Forall₂ (fun a c => f a = ⟨(note c).toList, .ok (value c)⟩) as cs) :
    as.mapM f = ⟨cs.filterMap note, .ok (cs.map value)⟩ := by
  induction h with
  | nil => rfl
  | @cons a c as cs ha _ ih =>
    rw [List.mapM_cons, bind_eq ha, bind_eq ih, List.map_cons]
    cases hc : note c with
    | none => rw [List.filterMap_cons_none hc]; simp [pure, Reading.pure]
    | some w => rw [List.filterMap_cons_some hc]; simp [pure, Reading.pure]

end Reading

def Machine.shadowWarnings (m : Machine) (part : Section) : List ShadowWarning :=
  m.nodes.entries.filterMap (ShadowWarning.about part)

/-- A node that is read is warned of if it has shadowed transitions. -/
theorem Node.reading_eq {part : Section} {declared : List Text} {id : Text} {raw : Yaml.Tree}
    {n : Node} (h : Node.ofTree part declared id raw = .ok n) :
    (do
      let n ← Node.ofTree part declared id raw
      if n.shadowed ≠ [] then Reading.warn ⟨id, part, n.shadowed.length⟩
      return n : Reading Node) = ⟨(ShadowWarning.about part (id, n)).toList, .ok n⟩ := by
  rw [Reading.lift_bind h, ShadowWarning.about]
  by_cases hn : n.shadowed = []
  · rw [if_pos hn, if_neg (not_not.mpr hn)]
    rfl
  · rw [if_neg hn, if_pos hn]
    rfl

/-- A machine is read with one warning for each of its states that hides transitions. -/
theorem Machine.ofTree_eq {part : Section} {raw : Yaml.Tree} {m : Machine}
    (h : (Machine.ofTree part raw).result = .ok m) :
    Machine.ofTree part raw = ⟨m.shadowWarnings part, .ok m⟩ := by
  obtain ⟨states, rfl, hstart, hnodes⟩ := (Machine.ofTree_result_eq_ok_iff part raw m).mp h
  have hstates : stateTrees part (.map states.pairs) = .ok states :=
    (stateTrees_eq_ok_iff part _ states).mpr rfl
  have hread : List.Forall₂ (fun e e' =>
      (do
        let n ← Node.ofTree part (ownStates states).keys e.1 e.2
        if n.shadowed ≠ [] then Reading.warn ⟨e.1, part, n.shadowed.length⟩
        return n : Reading Node) = ⟨(ShadowWarning.about part e').toList, .ok e'.2⟩)
      (ownStates states).entries m.nodes.entries := by
    refine hnodes.imp ?_
    rintro ⟨id, raw⟩ ⟨_, n⟩ ⟨rfl, hn⟩
    exact Node.reading_eq hn
  have hvalues := (ownStates states).withValues_values m.nodes hnodes.keys_eq
  rw [Machine.ofTree, Reading.lift_bind hstates]
  refine (Reading.lift_bind hstart _).trans ?_
  refine (Reading.bind_eq (Reading.mapM_eq _ _ _ _ _ hread) _).trans ?_
  change Reading.mk (m.shadowWarnings part ++ [])
    (.ok (Machine.mk m.start ((ownStates states).withValues m.nodes.values))) = _
  rw [List.append_nil, hvalues]

namespace Notation

def shadowWarnings (n : Notation) : List ShadowWarning :=
  n.machines.flatMap fun (part, m) => m.shadowWarnings part

theorem warnings_ofTree {raw : Yaml.Tree} {n : Notation} (h : (ofTree raw).result = .ok n) :
    (ofTree raw).warnings = n.shadowWarnings := by
  obtain ⟨fs, rfl, hmetadata, ⟨flow, hflow, hm⟩, ha, hdocument⟩ :=
    (ofTree_result_eq_ok_iff raw n).mp h
  have hfs : Fields.ofPairs "notation" fs.pairs = .ok fs :=
    (Fields.ofPairs_eq_ok_iff "notation" fs.pairs fs).mpr rfl
  have hvalue := fs.value?_eq_some_of_machine "flow" .flow flow n.flow hflow hm
  rw [ofTree, Reading.lift_bind hfs, Reading.lift_bind hmetadata, hvalue]
  dsimp only
  rw [Reading.bind_eq (Machine.ofTree_eq hm), shadowWarnings, machines, List.flatMap_cons]
  rcases ha with ⟨hblank, hnone⟩ | ⟨raw, m, hget, hm', hsome⟩
  · rw [(fs.value?_eq_none_iff "alignment").mpr hblank, hnone]
    dsimp only
    rw [pure_bind, Reading.lift_bind hdocument]
    rfl
  · rw [fs.value?_eq_some_of_machine "alignment" .alignment raw m hget hm', hsome]
    dsimp only
    rw [map_eq_pure_bind, bind_assoc, Reading.bind_eq (Machine.ofTree_eq hm'), pure_bind,
      Reading.lift_bind hdocument]
    rfl

theorem warnings_parse {source : String} {n : Notation} (h : (parse source).result = .ok n) :
    (parse source).warnings = n.shadowWarnings := by
  obtain ⟨raw, hraw, hn⟩ := (parse_result_eq_ok_iff source n).mp h
  rw [parse, hraw]
  exact warnings_ofTree hn

/-! ## The three reports -/

def declared (n : Notation) : List (Section × Text × Node) :=
  n.machines.flatMap fun (part, m) => m.nodes.entries.map fun e => (part, e)

def met (n : Notation) : List (Section × Text) :=
  -- the states with a node that the starts of a notation lead to, in the order of the walk and the
  -- flow's first
  n.machines.flatMap fun (part, m) => m.reachable.map fun s => (part, s)

/-- The warnings list the states that hide transitions, in the order of declaration. -/
theorem lists_shadowWarnings (n : Notation) :
    Lists ShadowWarning.WarnsOf n.declared n.shadowWarnings := by
  apply Lists.flatMap
  rintro ⟨part, m⟩ -
  dsimp only
  rw [← List.filterMap_eq_map]
  apply Lists.filterMap
  · rintro e - ⟨⟩
  · rintro e - _ ⟨⟩ w
    exact ShadowWarning.warnsOf_iff part e w

/-- A state with a node is warned of if the node has shadowed transitions. -/
theorem exists_warning_iff (n : Notation) {part : Section} {m : Machine}
    (hm : (part, m) ∈ n.machines) {s : Text} {node : Node} (hs : m.nodes.get? s = some node) :
    (∃ w ∈ n.shadowWarnings, w.part = part ∧ w.state = s) ↔ node.shadowed ≠ [] := by
  constructor
  · rintro ⟨w, hw, rfl, rfl⟩
    obtain ⟨⟨part', m'⟩, hm', hw⟩ := List.mem_flatMap.mp hw
    obtain ⟨⟨s, node'⟩, he, habout⟩ := List.mem_filterMap.mp hw
    obtain ⟨hpart, hstate, hhides⟩ := (ShadowWarning.warnsOf_iff part' (s, node') w).mpr habout
    -- the section has one machine, and the machine one node for the state
    obtain rfl : w.part = part' := hpart
    obtain rfl : w.state = s := hstate
    obtain rfl := n.machine_unique _ m m' hm hm'
    cases hs.symm.trans ((m.nodes.get?_eq_some_iff _ _).mpr he)
    exact ((node.hides_iff _).mp hhides).1
  · intro hne
    refine ⟨⟨s, part, node.shadowed.length⟩, ?_, rfl, rfl⟩
    refine List.mem_flatMap.mpr ⟨(part, m), hm, List.mem_filterMap.mpr ⟨(s, node), ?_, if_neg hne⟩⟩
    exact (m.nodes.get?_eq_some_iff s node).mp hs

/-- The notes of validation are about the states that are met and warned of. -/
theorem lists_shadowNotes (n : Notation) :
    Lists (fun e note => note = (e.2, e.1) ∧
      ∃ w ∈ n.shadowWarnings, w.part = e.1 ∧ w.state = e.2) n.met n.shadowNotes := by
  apply Lists.flatMap
  rintro ⟨part, m⟩ hm
  dsimp only
  rw [Machine.reachable, List.map_filterMap, ← Pass.filterMap_noteOn_walk]
  apply Lists.filterMap
  · rintro ⟨s, _ | node⟩ - hnone
    · rfl
    · cases hnone
  · rintro ⟨s, _ | node⟩ hs _ hsome note
    · cases hsome
    · obtain rfl := Option.some.inj hsome
      have hnode := ((m.mem_walk_iff s _).mp hs).2.symm
      rw [n.exists_warning_iff hm hnode]
      by_cases hne : node.shadowed = []
      · simp [Pass.noteOn, hne]
      · simp [Pass.noteOn, hne, @eq_comm _ note]

/-- The lines of a check are the warnings, each with the notation's code. -/
theorem shadowLines_eq (n : Notation) :
    n.shadowLines = n.shadowWarnings.map (ShadowWarning.line n.code) := by
  rw [shadowLines, shadowWarnings, List.map_flatMap]
  refine congrArg (n.machines.flatMap ·) (funext ?_)
  rintro ⟨part, m⟩
  change _ = (m.nodes.entries.filterMap (ShadowWarning.about part)).map _
  rw [List.map_filterMap]
  refine congrArg (m.nodes.entries.filterMap ·) (funext ?_)
  rintro ⟨id, node⟩
  rw [ShadowWarning.about]
  by_cases hne : node.shadowed = []
  · simp [hne]
  · simp [hne, ShadowWarning.line]

end Notation

def Notation.loneLines (n : Notation) (ws : List ShadowWarning) : List Text :=
  -- the lines of a check that meets no other notation and has no questions
  ws.map (ShadowWarning.line n.code) ++ ["✔ " ++ n.code, Command.summary 1 0]

/-- The check of a directory with one file, without a configuration. -/
theorem Command.run_check_singleton {t : FileTree} {directory questions : Option String}
    {strict recursive : Bool} {settings : Settings} {p : Path} {source : String} {n : Notation}
    (hquestions : (questions.filter (· ≠ "")).or settings.questions = none)
    (hs : t.SourceOrder (Path.ofText (directory.getD settings.directory)) recursive [p])
    (hp : t.readNotation p = .ok (source, n)) (wording : Yaml.Wording) (out : Output)
    (level : LogLevel) :
    (check directory questions strict recursive).run wording out level settings t =
      if 0 < settings.workers then (Outcome.exit 0 (n.loneLines n.shadowWarnings)).seen out level
      else .stop (.load .noWorkers) := by
  have hconfiguration : configurationOf questions strict settings t = .ok none := by
    rw [configurationOf, hquestions]
  rw [run]
  dsimp only
  rw [hconfiguration]
  by_cases hw : 0 < settings.workers
  · have hread : Catalog.readAll t [p] = .ok [(source, n)] :=
      (Catalog.readAll_eq_ok_iff t [p] _).mpr (.cons hp .nil)
    rw [runCheck, load_of_manned hs (.inl hw), hread, if_pos hw]
    change (Outcome.exit 0 _).seen out level = _
    rw [List.map_singleton, List.flatMap_singleton, Notation.checkLines, List.append_assoc,
      n.shadowLines_eq]
    rfl
  · rw [runCheck, load_of_unmanned hs (not_lt.mp hw) (List.cons_ne_nil p []), if_neg hw]
    exact Outcome.seen_stop _

/-- Of a notation that is read, reading warns of each state with shadowed transitions, with their
number. Validation notes those of them that the start of their machine leads to; whatever the
configuration and whether it passes or not, its pass makes these notes. A check without a
configuration of a directory with just this source, if anyone is there to read it, prints the line about
each state that was warned of, in the order of the warnings, as far as its output takes the lines. -/
theorem shadow_reports_agree (source : String) (n : Notation)
    (h : (Notation.parse source).result = .ok n) :
    Lists ShadowWarning.WarnsOf n.declared (Notation.parse source).warnings ∧
    (∀ c, n.audit c = (n.shadowNotes, n.validate c)) ∧
    Lists (fun e note => note = (e.2, e.1) ∧
      ∃ w ∈ (Notation.parse source).warnings, w.part = e.1 ∧ w.state = e.2) n.met n.shadowNotes ∧
    ∀ (t : FileTree) directory questions strict recursive settings p wording out level,
      (questions.filter (· ≠ "")).or settings.questions = none →
      t.SourceOrder (Path.ofText (directory.getD settings.directory)) recursive [p] →
      t.readSource p = .ok source →
      ∀ o, o = (Command.check directory questions strict recursive).run wording out level settings t ↔
        if 0 < settings.workers then
          (Outcome.exit 0 (n.loneLines (Notation.parse source).warnings)).Shows out level o
        else o = .stop (.load .noWorkers) := by
  rw [Notation.warnings_parse h]
  refine ⟨n.lists_shadowWarnings, n.audit_eq, n.lists_shadowNotes, ?_⟩
  intro t directory questions strict recursive settings p wording out level hquestions hs hsource o
  have hp : t.readNotation p = .ok (source, n) :=
    (t.readNotation_eq_ok_iff p source n).mpr ⟨hsource, h⟩
  rw [Command.run_check_singleton hquestions hs hp]
  split
  · exact (Outcome.shows_iff o).symm
  · exact Iff.rfl

/-! ## An office

In its only form each state has a catch-all in front of other transitions. One state of the
alignment is never met. -/

def officeLines : List String :=
  ["code: office\n", "title: Office\n", "flow:\n", "  BEGIN:\n", "    _: kind\n",
    "  kind:\n", "    _: END\n", "    llc: kind\n", "    trust: END\n",
    "alignment:\n", "  BEGIN:\n", "    _: check\n",
    "  lost:\n", "    _: END\n", "    yes: check\n",
    "  check:\n", "    _: check\n", "    no: END\n"]

def officeSource : String := String.join officeLines

def officeFlow : Machine where
  start := .state "kind"
  nodes.entries := [("kind", ⟨⟨"kind", []⟩,
    [⟨.any, .finish⟩, ⟨.choice "llc", .state "kind"⟩, ⟨.choice "trust", .finish⟩]⟩)]
  nodes.nodup := List.nodup_singleton _

def officeAlignment : Machine where
  start := .state "check"
  nodes.entries := [("lost", ⟨⟨"lost", []⟩, [⟨.any, .finish⟩, ⟨.choice "yes", .state "check"⟩]⟩),
    ("check", ⟨⟨"check", []⟩, [⟨.any, .state "check"⟩, ⟨.choice "no", .finish⟩]⟩)]
  nodes.nodup := by decide +kernel

def office : Notation := ⟨⟨"office", "Office", none, .org⟩, none, officeFlow, some officeAlignment⟩

def officeTree : FileTree where
  entries.entries := [(["office"], .directory), (["office", "form.yml"], .file (bytesOf officeLines)),
    (["office", "notes.txt"], .file [0xFF])]
  entries.nodup := by decide +kernel

theorem sourceOrder_office (paths : List Path)
    (hs : officeTree.SourceOrder ["office"] true paths) : paths = [["office", "form.yml"]] :=
  hs.eq_of_entries (by decide +kernel) ["office"] (by decide +kernel) _ (by decide +kernel)
    (by decide +kernel)

theorem parse_officeSource : (Notation.parse officeSource).result = .ok office := by
  rw [Notation.parse, officeSource, Yaml.decode_join]
  decide +kernel

theorem readSource_office : officeTree.readSource ["office", "form.yml"] = .ok officeSource :=
  officeTree.readSource_join _ (by decide +kernel) officeLines (by decide +kernel)
    (by decide +kernel)

theorem shadow_reports_agree_office :
    (Notation.parse officeSource).result = .ok office ∧
      (Notation.parse officeSource).warnings =
        [⟨"kind", .flow, 2⟩, ⟨"lost", .alignment, 1⟩, ⟨"check", .alignment, 1⟩] ∧
      (∀ c, (office.audit c).1 = [⟨"kind", .flow⟩, ⟨"check", .alignment⟩]) ∧
      (office.audit ⟨.empty, true⟩).2 =
        .error [.unknownQuestion "kind" "kind", .unknownQuestion "check" "check"] ∧
      (Command.check (some "office") none true true).run Command.silent .utf8 .info
          Command.deskSettings officeTree =
        .exit 0 ["! office: flow.kind has transitions after '_'",
          "! office: alignment.lost has transitions after '_'",
          "! office: alignment.check has transitions after '_'",
          "✔ office", "1 notation(s) checked, 0 failed"] := by
  have hwarnings : (Notation.parse officeSource).warnings =
      [⟨"kind", .flow, 2⟩, ⟨"lost", .alignment, 1⟩, ⟨"check", .alignment, 1⟩] := by
    rw [Notation.warnings_parse parse_officeSource]
    decide +kernel
  have hnotes : office.shadowNotes = [⟨"kind", .flow⟩, ⟨"check", .alignment⟩] := by decide +kernel
  have hproblems : office.problems ⟨.empty, true⟩ =
      [.unknownQuestion "kind" "kind", .unknownQuestion "check" "check"] := by
    decide +kernel
  obtain ⟨-, haudit, -, hrun⟩ := shadow_reports_agree officeSource office parse_officeSource
  obtain ⟨paths, hs⟩ := officeTree.exists_sourceOrder ["office"] true
  obtain rfl := sourceOrder_office paths hs
  have hoffice := hrun officeTree (some "office") none true true Command.deskSettings
    ["office", "form.yml"] Command.silent .utf8 .info (by decide) hs readSource_office
  have hlines : office.loneLines (Notation.parse officeSource).warnings =
      ["! office: flow.kind has transitions after '_'",
        "! office: alignment.lost has transitions after '_'",
        "! office: alignment.check has transitions after '_'",
        "✔ office", "1 notation(s) checked, 0 failed"] := by
    rw [hwarnings]
    decide +kernel
  refine ⟨parse_officeSource, hwarnings, fun c => ?_, ?_, ((hoffice _).mpr ?_).symm⟩
  · rw [haudit, ← hnotes]
  · rw [haudit]
    exact (office.validate_eq_error_iff _ _).mpr ⟨hproblems, List.cons_ne_nil _ _⟩
  · rw [if_pos (by decide), hlines]
    exact .whole (by decide +kernel)

/-! Settings without a worker, and a form whose code is half of a pair. -/

def idleSettings : Settings := { Command.deskSettings with workers := 0 }

def halfLines : List String :=
  ["code: \"\\uD800\"\n", "title: Half\n", "flow:\n", "  BEGIN:\n", "    _: kind\n",
    "  kind:\n", "    _: END\n", "    llc: END\n"]

def halfForm : Notation where
  metadata := ⟨(CodePoint.ofNat? 0xD800).toList, "Half", none, .org⟩
  document := none
  flow := {
    start := .state "kind"
    nodes.entries := [("kind", ⟨⟨"kind", []⟩, [⟨.any, .finish⟩, ⟨.choice "llc", .finish⟩]⟩)]
    nodes.nodup := List.nodup_singleton _ }
  alignment := none

def halfTree : FileTree where
  entries.entries := [(["half"], .directory), (["half", "form.yml"], .file (bytesOf halfLines))]
  entries.nodup := by decide +kernel

theorem sourceOrder_half (paths : List Path) (hs : halfTree.SourceOrder ["half"] true paths) :
    paths = [["half", "form.yml"]] :=
  hs.eq_of_entries (by decide +kernel) ["half"] (by decide +kernel) _ (by decide +kernel)
    (by decide +kernel)

theorem readNotation_half :
    halfTree.readNotation ["half", "form.yml"] = .ok (String.join halfLines, halfForm) := by
  have hparse : (Notation.parse (String.join halfLines)).result = .ok halfForm := by
    rw [Notation.parse, Yaml.decode_join]
    decide +kernel
  exact halfTree.readNotation_join _ (by decide +kernel) halfLines (by decide +kernel)
    (by decide +kernel) hparse

/-- Of both forms reading warns, and a check prints nothing about either: nobody reads the one, and the
code of the other has no bytes. -/
theorem shadow_lines_withheld :
    (Notation.parse officeSource).warnings ≠ [] ∧
      (Command.check (some "office") none true true).run Command.silent .utf8 .info idleSettings
          officeTree = .stop (.load .noWorkers) ∧
      (Notation.parse (String.join halfLines)).warnings = [⟨"kind", .flow, 1⟩] ∧
      (Command.check (some "half") none true true).run Command.silent .utf8 .info
          Command.deskSettings halfTree =
        .stop (.output ⟨"utf-8", [.half 0], 2, "surrogates not allowed"⟩) := by
  have hoffice : officeTree.readNotation ["office", "form.yml"] = .ok (officeSource, office) :=
    (officeTree.readNotation_eq_ok_iff _ _ _).mpr ⟨readSource_office, parse_officeSource⟩
  obtain ⟨-, hhalf⟩ := (halfTree.readNotation_eq_ok_iff _ _ _).mp readNotation_half
  obtain ⟨officePaths, hofficeOrder⟩ := officeTree.exists_sourceOrder ["office"] true
  obtain ⟨halfPaths, hhalfOrder⟩ := halfTree.exists_sourceOrder ["half"] true
  obtain rfl := sourceOrder_office officePaths hofficeOrder
  obtain rfl := sourceOrder_half halfPaths hhalfOrder
  have hwarnings : halfForm.shadowWarnings = [⟨"kind", .flow, 1⟩] := by decide +kernel
  have hrefused : Output.utf8 (Text.ofString "! " ++
      ([.half 0] ++ Text.ofString ": flow.kind has transitions after '_'")) =
        .error ⟨"utf-8", [.half 0], 2, "surrogates not allowed"⟩ :=
    Output.utf8_append (by decide) (by decide) (by decide) (by decide)
  refine ⟨?_, ?_, (Notation.warnings_parse hhalf).trans hwarnings, ?_⟩
  · rw [Notation.warnings_parse parse_officeSource]
    decide +kernel
  · refine (Command.run_check_singleton (by decide) hofficeOrder hoffice _ _ _).trans ?_
    exact if_neg (by decide)
  · rw [Command.run_check_singleton (by decide) hhalfOrder readNotation_half, if_pos (by decide)]
    have hlines : (Outcome.exit 0 (halfForm.loneLines halfForm.shadowWarnings)).lines =
        [] ++ ShadowWarning.line [.half 0] ⟨"kind", .flow, 1⟩ ::
          ["✔ " ++ halfForm.code, Command.summary 1 0] := by
      rw [Outcome.exit, Notation.loneLines, hwarnings]
      rfl
    exact Outcome.seen_of_refused hlines (List.forall_mem_nil _) hrefused

end FlowNotation
