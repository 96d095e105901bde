import FlowNotation.Command
import FlowNotation.Proofs.Loads
import FlowNotation.Proofs.Outputs
import FlowNotation.Proofs.SessionReach
import FlowNotation.Proofs.Steering

/-! What a walk through the flow of a file prints. The walk keeps in step with a session that is
started and then given the same texts: it prints a line for each state that the session comes to,
and says how it came to stop. -/
namespace FlowNotation

def Session.Call.Says (c : Session.Call) (s : Text) : Prop :=
  ∃ time, c = .submit (.text s) time

def Notation.Tells (n : Notation) (answers : List Text)
    (results : List (Except SessionFault (Option Text))) : Prop :=
  -- what a session with the flow of the notation tells when it is started and then given these
  -- texts, whatever the times are
  ∀ calls, List.Forall₂ Session.Call.Says calls answers →
    (Session.fresh n .client).results (.start :: calls) = results

inductive Stop
  -- how a walk stops: at the end, for want of an answer, or at a state that no transition leads on
  -- from
  | finished
  | waiting
  | refused (id : Text)

structure Walkthrough where
  -- the states that a walk comes to, each with its node, and how it stops
  visited : List (Text × Node)
  stop : Stop

namespace Walkthrough

def line (v : Text × Node) : Text := "→ " ++ v.1 ++ " (" ++ v.2.question.code ++ ")"

def outcome (w : Walkthrough) : Outcome :=
  match w.stop with
  | .finished => ⟨w.visited.map line ++ [Command.endLine], [], .ok 0⟩
  | .waiting => ⟨w.visited.map line ++ [Command.waitingLine], [], .ok 0⟩
  | .refused id => ⟨w.visited.map line, [(SessionFault.noMatchingTransition id).message], .ok 1⟩

def told (visited : List (Text × Node)) : List (Except SessionFault (Option Text)) :=
  visited.map fun v => .ok (some v.1)

inductive Of (n : Notation) (answers : List Text) : Walkthrough → Prop
  -- the walk that a session makes which is given the answers until it stops
  | finished (visited : List (Text × Node)) (used unused : List Text) :
      answers = used ++ unused → (∀ v ∈ visited, n.flow.nodes.get? v.1 = some v.2) →
      n.Tells used (told visited ++ [.ok none]) → Of n answers ⟨visited, .finished⟩
  | waiting (visited : List (Text × Node)) :
      (∀ v ∈ visited, n.flow.nodes.get? v.1 = some v.2) →
      n.Tells answers (told visited) → Of n answers ⟨visited, .waiting⟩
  | refused (visited : List (Text × Node)) (used unused : List Text) (id : Text) :
      answers = used ++ unused → (∀ v ∈ visited, n.flow.nodes.get? v.1 = some v.2) →
      n.Tells used (told visited ++ [.error (.noMatchingTransition id)]) →
      Of n answers ⟨visited, .refused id⟩

end Walkthrough

/-! ## What a session tells -/

def Session.spoken (answers : List Text) : List Session.Call :=
  -- texts that are answered, nobody looks when
  answers.map fun a => .submit (.text a) ""

theorem Session.says_spoken (answers : List Text) :
    List.Forall₂ Session.Call.Says (Session.spoken answers) answers := by
  rw [Session.spoken, List.forall₂_map_left_iff]
  exact List.forall₂_same.mpr fun a _ => ⟨"", rfl⟩

theorem Session.results_spoken_cons {s t : Session} {a : Text}
    {r : Except SessionFault (Option Text)} (h : s.submit (.text a) "" = (r, t))
    (answers : List Text) :
    s.results (Session.spoken (a :: answers)) = r :: t.results (Session.spoken answers) := by
  have happly : s.apply (.submit (.text a) "") = (r, t) := h
  rw [Session.spoken, List.map_cons, results, happly]
  rfl

theorem Session.length_results (s : Session) (calls : List Session.Call) :
    (s.results calls).length = calls.length := by
  induction calls generalizing s with
  | nil => rfl
  | cons c calls ih => rw [results, List.length_cons, ih, List.length_cons]

namespace Notation

variable {n : Notation} {answers : List Text} {rs : List (Except SessionFault (Option Text))}

theorem tells_iff : n.Tells answers rs ↔
    (Session.fresh n .client).results (.start :: Session.spoken answers) = rs := by
  constructor
  · exact fun h => h _ (Session.says_spoken answers)
  · rintro rfl calls hcalls
    -- the same texts at other times are told the same
    have halike : List.Forall₂ Session.Call.Alike calls (Session.spoken answers) := by
      rw [Session.spoken, List.forall₂_map_right_iff]
      refine hcalls.imp ?_
      rintro _ a ⟨time, rfl⟩
      exact .submit _ _ time "" fun _ => Iff.rfl
    have hfresh : (Session.fresh n .client).Alike (Session.fresh n .client) := ⟨rfl, rfl, rfl, rfl⟩
    exact (hfresh.run (.cons .start halike)).1

theorem Tells.length_eq (h : n.Tells answers rs) : rs.length = answers.length + 1 := by
  rw [tells_iff] at h
  rw [← h, Session.length_results, List.length_cons, Session.spoken, List.length_map]

/-- More answers only add to what is told. -/
theorem Tells.exists_append {more : List Text}
    {rs' : List (Except SessionFault (Option Text))} (h : n.Tells answers rs)
    (h' : n.Tells (answers ++ more) rs') :
    ∃ extra, rs' = rs ++ extra ∧ extra.length = more.length := by
  refine ⟨rs'.drop rs.length, ?_, ?_⟩
  · rw [tells_iff] at h h'
    rw [Session.spoken, List.map_append, ← List.cons_append, Session.results_append] at h'
    rw [← h', ← h, Session.spoken, List.drop_left]
  · rw [List.length_drop, h.length_eq, h'.length_eq, List.length_append]
    omega

end Notation

/-! ## There is one walk -/

namespace Walkthrough

def results (w : Walkthrough) : List (Except SessionFault (Option Text)) :=
  told w.visited ++ match w.stop with
    | .finished => [.ok none]
    | .waiting => []
    | .refused id => [.error (.noMatchingTransition id)]

variable {n : Notation} {answers : List Text} {w w' : Walkthrough}

/-- The three ways to stop in one: some of the answers are used, and all of them where the walk
waits for more. -/
theorem of_iff : w.Of n answers ↔ (∀ v ∈ w.visited, n.flow.nodes.get? v.1 = some v.2) ∧
    ∃ used unused, answers = used ++ unused ∧ n.Tells used w.results ∧
      (w.stop = .waiting → unused = []) := by
  constructor
  · intro h
    cases h with
    | finished visited used unused ha hnode htells =>
      exact ⟨hnode, used, unused, ha, htells, fun h => nomatch h⟩
    | waiting visited hnode htells =>
      refine ⟨hnode, answers, [], (List.append_nil _).symm, ?_, fun _ => rfl⟩
      simpa [results] using htells
    | refused visited used unused id ha hnode htells =>
      exact ⟨hnode, used, unused, ha, htells, fun h => nomatch h⟩
  · rintro ⟨hnode, used, unused, ha, htells, hwait⟩
    obtain ⟨visited, _ | _ | id⟩ := w
    · exact .finished visited used unused ha hnode htells
    · rw [hwait rfl, List.append_nil] at ha
      refine .waiting visited hnode ?_
      simpa [results, ha] using htells
    · exact .refused visited used unused id ha hnode htells

/-- Each state takes one answer, but for the last one where a walk waits. -/
theorem Of.length_visited_le (h : w.Of n answers) : w.visited.length ≤ answers.length + 1 := by
  obtain ⟨_, used, unused, rfl, htells, _⟩ := of_iff.mp h
  have hlength := htells.length_eq
  rw [results, List.length_append, told, List.length_map] at hlength
  rw [List.length_append]
  omega

/-- Behind the end of a walk nothing more is told of it. -/
theorem eq_of_results_append {visited visited' : List (Text × Node)} {stop stop' : Stop}
    {extra : List (Except SessionFault (Option Text))} (hwait : stop = .waiting → extra = [])
    (h : results ⟨visited', stop'⟩ = results ⟨visited, stop⟩ ++ extra) :
    told visited' = told visited ∧ stop' = stop := by
  induction visited generalizing visited' with
  | nil =>
    cases visited' with
    | nil =>
      refine ⟨rfl, ?_⟩
      cases stop <;> cases stop' <;> simp_all [results, told]
    | cons v' visited' => cases stop <;> simp_all [results, told]
  | cons v visited ih =>
    cases visited' with
    | nil => cases stop' <;> simp [results, told] at h
    | cons v' visited' =>
      simp only [results, told, List.map_cons, List.cons_append, List.cons.injEq] at h
      obtain ⟨htold, rfl⟩ := ih h.2
      exact ⟨by rw [told, told, List.map_cons, List.map_cons, h.1]; exact congrArg _ htold, rfl⟩

theorem visited_eq_of_told {visited visited' : List (Text × Node)}
    (hnode : ∀ v ∈ visited, n.flow.nodes.get? v.1 = some v.2)
    (hnode' : ∀ v ∈ visited', n.flow.nodes.get? v.1 = some v.2)
    (h : told visited' = told visited) : visited' = visited := by
  induction visited generalizing visited' with
  | nil => simpa [told] using h
  | cons v visited ih =>
    cases visited' with
    | nil => cases h
    | cons v' visited' =>
      obtain ⟨hv, hvisited⟩ := List.cons.inj h
      obtain ⟨hget, hrest⟩ := List.forall_mem_cons.mp hnode
      obtain ⟨hget', hrest'⟩ := List.forall_mem_cons.mp hnode'
      have hid : v'.1 = v.1 := by simpa using hv
      rw [hid, hget] at hget'
      rw [ih hrest hrest' hvisited, Prod.ext hid (Option.some.inj hget').symm]

theorem eq_of_tells {used more : List Text}
    (hnode : ∀ v ∈ w.visited, n.flow.nodes.get? v.1 = some v.2)
    (hnode' : ∀ v ∈ w'.visited, n.flow.nodes.get? v.1 = some v.2) (h : n.Tells used w.results)
    (h' : n.Tells (used ++ more) w'.results) (hwait : w.stop = .waiting → more = []) : w' = w := by
  obtain ⟨extra, hresults, hlength⟩ := h.exists_append h'
  have hextra : w.stop = .waiting → extra = [] := by
    intro hstop
    rw [hwait hstop] at hlength
    exact List.length_eq_zero_iff.mp hlength
  obtain ⟨htold, hstop⟩ := eq_of_results_append hextra hresults
  obtain ⟨visited, stop⟩ := w
  obtain ⟨visited', stop'⟩ := w'
  obtain rfl : visited' = visited := visited_eq_of_told hnode hnode' htold
  rw [show stop' = stop from hstop]

/-- A notation and answers make one walk, which stops in one way. -/
theorem Of.unique (h : w.Of n answers) (h' : w'.Of n answers) : w' = w := by
  obtain ⟨hnode, used, unused, ha, htells, hwait⟩ := of_iff.mp h
  obtain ⟨hnode', used', unused', ha', htells', hwait'⟩ := of_iff.mp h'
  -- of the two runs of answers one is the beginning of the other
  rcases List.append_eq_append_iff.mp (ha.symm.trans ha') with
    ⟨more, rfl, hmore⟩ | ⟨more, rfl, hmore⟩
  · refine eq_of_tells hnode hnode' htells htells' fun hstop => ?_
    exact (List.append_eq_nil_iff.mp (hmore.symm.trans (hwait hstop))).1
  · refine (eq_of_tells hnode' hnode htells' htells fun hstop => ?_).symm
    exact (List.append_eq_nil_iff.mp (hmore.symm.trans (hwait' hstop))).1

/-! ## The walk that is made -/

theorem outcome_cons (v : Text × Node) (visited : List (Text × Node)) (stop : Stop) :
    outcome ⟨v :: visited, stop⟩ =
      { outcome ⟨visited, stop⟩ with lines := line v :: (outcome ⟨visited, stop⟩).lines } := by
  cases stop <;> rfl

theorem stateLine_eq {s : Session} {id : Text} {node : Node}
    (hnode : s.machine.nodes.get? id = some node) : Command.stateLine s id = line (id, node) := by
  rw [Command.stateLine, hnode]
  rfl

/-- From a state that has a node, a walk goes where the session goes with the same answers. -/
theorem exists_walkFrom (s : Session) (id : Text) (hbuilt : s.machine.WellBuilt)
    (hrun : s.completed = false) (hid : s.current = some id) (hkey : id ∈ s.machine.nodes.keys)
    (answers : List Text) :
    ∃ w : Walkthrough, Command.walkFrom s id answers = w.outcome ∧
      (∀ v ∈ w.visited, s.machine.nodes.get? v.1 = some v.2) ∧
      ∃ used unused, answers = used ++ unused ∧
        w.results = .ok (some id) :: s.results (Session.spoken used) ∧
        (w.stop = .waiting → unused = []) := by
  induction answers generalizing s id with
  | nil =>
    obtain ⟨node, hnode⟩ := (s.machine.nodes.mem_keys_iff id).mp hkey
    refine ⟨⟨[(id, node)], .waiting⟩, ?_, ?_, [], [], rfl, rfl, fun _ => rfl⟩
    · rw [Command.walkFrom, stateLine_eq hnode]
      rfl
    · exact List.forall_mem_singleton.mpr hnode
  | cons a answers ih =>
    obtain ⟨node, hnode⟩ := (s.machine.nodes.mem_keys_iff id).mp hkey
    rw [Command.walkFrom, stateLine_eq hnode]
    cases hnext : node.next? (.text a) with
    | none =>
      have hsubmit : s.submit (.text a) "" = _ :=
        (Session.Effect.unmatched id node (.text a) "" hrun hid hnode hnext).apply_eq
      refine ⟨⟨[(id, node)], .refused id⟩, ?_, ?_, [a], answers, rfl, ?_, fun h => nomatch h⟩
      · rw [hsubmit]
        rfl
      · exact List.forall_mem_singleton.mpr hnode
      · rw [Session.results_spoken_cons hsubmit]
        rfl
    | some d =>
      cases d with
      | finish =>
        have hsubmit := s.submit_of_next? (.text a) "" id node .finish hrun hid hnode hnext
        refine ⟨⟨[(id, node)], .finished⟩, ?_, ?_, [a], answers, rfl, ?_, fun h => nomatch h⟩
        · rw [hsubmit]
          rfl
        · exact List.forall_mem_singleton.mpr hnode
        · rw [Session.results_spoken_cons hsubmit]
          rfl
      -- reading lets a transition lead to states with nodes only, so the next look-up succeeds too
      | state next =>
        obtain ⟨t, ht, hd⟩ := node.exists_transition_of_next? (.text a) _ hnext
        have hnextKey := (hbuilt.node id node hnode).destination_declared t ht next hd
        let moved : Session := { s with
          current := some next, completed := false, log := s.log.insert id ⟨.text a, ""⟩ }
        have hsubmit : s.submit (.text a) "" = (.ok (some next), moved) :=
          s.submit_of_next? (.text a) "" id node (.state next) hrun hid hnode hnext
        obtain ⟨w, hwalk, hnodes, used, unused, rfl, hresults, hwait⟩ :=
          ih moved next hbuilt rfl rfl hnextKey
        refine ⟨⟨(id, node) :: w.visited, w.stop⟩, ?_, ?_, a :: used, unused, rfl, ?_, hwait⟩
        · rw [hsubmit, outcome_cons, ← hwalk]
        · exact List.forall_mem_cons.mpr ⟨hnode, hnodes⟩
        · rw [Session.results_spoken_cons hsubmit, ← hresults]
          rfl

/-- Every walk of a well-built flow is one walkthrough, line by line. -/
theorem exists_of_walkNotation (hbuilt : n.flow.WellBuilt) (answers : List Text) :
    ∃ w : Walkthrough, w.Of n answers ∧ Command.walkNotation n answers = w.outcome := by
  have hstart : ∀ used, (Session.fresh n .client).results (.start :: Session.spoken used) =
      ((Session.fresh n .client).apply .start).1 ::
        ((Session.fresh n .client).apply .start).2.results (Session.spoken used) := fun _ => rfl
  cases hs : n.flow.start with
  | finish =>
    have happly := (Session.Effect.startedAtEnd (s := Session.fresh n .client) rfl hs).apply_eq
    refine ⟨⟨[], .refused "BEGIN"⟩, of_iff.mpr ⟨?_, [], answers, rfl, ?_, fun h => nomatch h⟩, ?_⟩
    · exact fun v hv => absurd hv List.not_mem_nil
    · rw [Notation.tells_iff, hstart, happly]
      rfl
    · have hstop : (Session.fresh n .client).start = (.error (.noMatchingTransition "BEGIN"),
          { Session.fresh n .client with completed := true }) := by
        have hmachine : (Session.fresh n .client).machine.start = .finish := hs
        rw [Session.start, hmachine]
        rfl
      rw [Command.walkNotation, hstop]
      rfl
  | state id =>
    have happly := (Session.Effect.started (s := Session.fresh n .client) id rfl hs).apply_eq
    have hsession := (Session.fresh n .client).start_of_state id rfl hs
    obtain ⟨w, hwalk, hnodes, used, unused, ha, hresults, hwait⟩ :=
      exists_walkFrom { Session.fresh n .client with current := some id } id hbuilt rfl rfl
        (hbuilt.start_declared id hs) answers
    refine ⟨w, of_iff.mpr ⟨hnodes, used, unused, ha, ?_, hwait⟩, ?_⟩
    · rw [Notation.tells_iff, hstart, happly, hresults]
    · rw [Command.walkNotation, hsession, ← hwalk]

end Walkthrough

/-- The file of a walk is read, and the walk goes through the flow of its notation. -/
theorem Command.run_walk {t : FileTree} {file source : String} {n : Notation}
    (hfile : t.readSource (Path.ofText file) = .ok source)
    (hn : (Notation.parse source).result = .ok n) (answers : List Text) (wording : Yaml.Wording)
    (out : Output) (level : LogLevel) (settings : Settings) :
    (walk file answers).run wording out level settings t =
      (walkNotation n answers).seen out level := by
  have hread := (t.readNotation_eq_ok_iff (Path.ofText file) source n).mpr ⟨hfile, hn⟩
  have hrun : runWalk wording (Path.ofText file) answers t = walkNotation n answers := by
    -- its equation would be derived through all kinds of fault
    delta runWalk
    rw [hread]
  rw [← hrun]
  rfl

/-- A walk through the flow of a file that is read makes the states of a session that is started and
given the same texts its lines, at most one more than there are texts, and each with the question of
the state's node. It stops in one way: at the end, where texts may be left, or at a state when none is
left, both times with exit code zero; or, with the exit code one, when the start or a text leads
nowhere, which is then all that is logged. All this is seen if the output takes the lines. -/
theorem walk_keeps_step (t : FileTree) (file source : String) (n : Notation)
    (answers : List Text) (hfile : t.readSource (Path.ofText file) = .ok source)
    (hn : (Notation.parse source).result = .ok n) :
    ∃ w : Walkthrough, (∀ w' : Walkthrough, w'.Of n answers ↔ w' = w) ∧
      w.visited.length ≤ answers.length + 1 ∧
      ∀ wording out level settings o,
        o = Command.run (.walk file answers) wording out level settings t ↔
          w.outcome.Shows out level o := by
  have hbuilt := Notation.wellBuilt_of_parse source n hn .flow n.flow List.mem_cons_self
  obtain ⟨w, hw, hwalk⟩ := Walkthrough.exists_of_walkNotation hbuilt answers
  refine ⟨w, ?_, hw.length_visited_le, ?_⟩
  · intro w'
    constructor
    · exact fun hw' => hw.unique hw'
    · rintro rfl
      exact hw
  · intro wording out level settings o
    rw [Outcome.shows_iff, Command.run_walk hfile hn, hwalk]

def hesitantAnswers : List Text :=
  -- the respondent goes back once, is not understood, and says one thing too much
  ["llc", "again", "what", "llc", "Acme", "thanks"]

def formSettings : Settings := ⟨"forms", true, 4, true, none, "INFO"⟩

def hesitantWalk : Walkthrough :=
  ⟨[("kind", intakeKind), ("name__for_llc", intakeName), ("kind", intakeKind), ("kind", intakeKind),
    ("name__for_llc", intakeName)], .finished⟩

def hesitantLines : List Text :=
  ["→ kind (kind)", "→ name__for_llc (name)", "→ kind (kind)", "→ kind (kind)",
    "→ name__for_llc (name)", "✔ END"]

theorem walk_keeps_step_intake :
    formTree.readSource (Path.ofText "forms/intake.yml") = .ok intakeSource ∧
      (Notation.parse intakeSource).result = .ok intake ∧ hesitantWalk.Of intake hesitantAnswers ∧
      Command.run (.walk "forms/intake.yml" hesitantAnswers) Command.silent .utf8 .info formSettings
        formTree = ⟨hesitantLines, [], .ok 0⟩ := by
  obtain ⟨hfile, hparse⟩ := (formTree.readNotation_eq_ok_iff (Path.ofText "forms/intake.yml")
    intakeSource intake).mp readNotation_intake
  obtain ⟨w, hw, -, hrun⟩ := walk_keeps_step formTree "forms/intake.yml" intakeSource intake
    hesitantAnswers hfile hparse
  have hof : hesitantWalk.Of intake hesitantAnswers := by
    refine .finished _ ["llc", "again", "what", "llc", "Acme"] ["thanks"] rfl (by decide +kernel) ?_
    rw [Notation.tells_iff]
    decide +kernel
  have houtcome : hesitantWalk.outcome = ⟨hesitantLines, [], .ok 0⟩ := by
    have hlines : hesitantWalk.visited.map Walkthrough.line ++ [Command.endLine] = hesitantLines := by
      decide +kernel
    exact congrArg (fun lines => Outcome.exit 0 lines) hlines
  refine ⟨hfile, hparse, hof, ((hrun _ _ _ _ _).mpr ?_).symm⟩
  rw [← (hw _).mp hof, houtcome]
  exact .whole (by decide +kernel)

/-! A form with one state, whose name is written between double marks, or with none. -/

def oneStateLines (name : String) : List String :=
  ["code: one\n", "title: One\n", "flow:\n", "  BEGIN:\n", "    _: \"" ++ name ++ "\"\n",
    "  \"" ++ name ++ "\":\n", "    _: END\n"]

def noStateLines : List String :=
  ["code: none\n", "title: None\n", "flow:\n", "  BEGIN:\n", "    _: END\n"]

def oneState (name : Text) : Notation where
  metadata := ⟨"one", "One", none, .org⟩
  document := none
  flow := {
    start := .state name
    nodes.entries := [(name, ⟨⟨name, []⟩, [⟨.any, .finish⟩]⟩)]
    nodes.nodup := List.nodup_singleton _ }
  alignment := none

def noState : Notation := ⟨⟨"none", "None", none, .org⟩, none, ⟨.finish, .empty⟩, none⟩

def shelfTree : FileTree where
  entries.entries := [(["broken.yml"], .file (bytesOf (oneStateLines "a\\nb"))),
    (["half.yml"], .file (bytesOf (oneStateLines "\\uD800"))),
    (["none.yml"], .file (bytesOf noStateLines))]
  entries.nodup := by decide +kernel

theorem readNotation_shelf :
    shelfTree.readNotation (Path.ofText "broken.yml") =
        .ok (String.join (oneStateLines "a\\nb"), oneState "a\nb") ∧
      shelfTree.readNotation (Path.ofText "half.yml") =
        .ok (String.join (oneStateLines "\\uD800"), oneState [.half 0]) ∧
      shelfTree.readNotation (Path.ofText "none.yml") = .ok (String.join noStateLines, noState) := by
  refine ⟨?_, ?_, ?_⟩
  all_goals
    refine shelfTree.readNotation_join _ (by decide +kernel) _ (by decide +kernel)
      (by decide +kernel) ?_
    rw [Notation.parse, Yaml.decode_join]
    decide +kernel

/-- Without answers the walk waits at the one state. -/
theorem walkNotation_oneState (name : Text) : Command.walkNotation (oneState name) [] =
    .exit 0 ["→ " ++ name ++ " (" ++ name ++ ")", Command.waitingLine] := by
  have hnode : (oneState name).flow.nodes.get? name = some ⟨⟨name, []⟩, [⟨.any, .finish⟩]⟩ :=
    (Table.get?_eq_some_iff _ _ _).mpr (List.mem_singleton_self _)
  have hstart := (Session.fresh (oneState name) .client).start_of_state name rfl rfl
  have hline : Command.stateLine { Session.fresh (oneState name) .client with current := some name }
      name = Walkthrough.line (name, _) := Walkthrough.stateLine_eq hnode
  rw [Command.walkNotation, hstart]
  change Command.walkFrom _ name [] = _
  rw [Command.walkFrom, hline]
  rfl

/-- The name of a state may hold a line end, so that one state makes more than one line; half of a pair
has no bytes, so that nothing is printed and the walk stops without an exit code; and a walk that
starts at the end fails without a word where only critical messages are logged. -/
theorem walk_out_of_step :
    (Command.walk "broken.yml" []).run Command.silent .utf8 .info formSettings shelfTree =
        .exit 0 ["→ a\nb (a\nb)", "… waiting for an answer"] ∧
      (Command.walk "half.yml" []).run Command.silent .utf8 .info formSettings shelfTree =
        .stop (.output ⟨"utf-8", [.half 0], 2, "surrogates not allowed"⟩) ∧
      (Command.walk "none.yml" []).run Command.silent .utf8 .critical formSettings shelfTree =
        .exit 1 [] := by
  obtain ⟨hbroken, hhalf, hnone⟩ := readNotation_shelf
  rw [FileTree.readNotation_eq_ok_iff] at hbroken hhalf hnone
  refine ⟨(Command.run_walk hbroken.1 hbroken.2 _ _ _ _ _).trans ?_,
    (Command.run_walk hhalf.1 hhalf.2 _ _ _ _ _).trans ?_,
    (Command.run_walk hnone.1 hnone.2 _ _ _ _ _).trans rfl⟩
  · have hline : Text.ofString "→ " ++ Text.ofString "a\nb" ++ Text.ofString " (" ++
        Text.ofString "a\nb" ++ Text.ofString ")" = "→ a\nb (a\nb)" := by
      decide +kernel
    rw [walkNotation_oneState, hline]
    refine (Outcome.seen_of_forall ?_).trans rfl
    decide +kernel
  · have hrefused : Output.utf8 (Text.ofString "→ " ++ ([.half 0] ++ (Text.ofString " (" ++
        ([.half 0] ++ Text.ofString ")")))) =
          .error ⟨"utf-8", [.half 0], 2, "surrogates not allowed"⟩ :=
      Output.utf8_append (by decide) (by decide) (by decide) (by decide)
    have hlines : ∀ l, (Outcome.exit 0 [l, Command.waitingLine]).lines =
        [] ++ l :: [Command.waitingLine] := fun _ => rfl
    rw [walkNotation_oneState]
    exact Outcome.seen_of_refused (hlines _) (List.forall_mem_nil _) hrefused

end FlowNotation
