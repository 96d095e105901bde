import FlowNotation.Proofs.SessionReach

/-! The log of a completed session leads through the flow once more. The log is no record of the
way: a state that is answered again keeps its last answer only, and answers that were refused stay
logged. But erasing the loops of the way as it is gone leaves a trail on which the last answers
still lead from each state to the next. -/
namespace FlowNotation

def Machine.LogLeads (m : Machine) (log : Table Text Record) (id : Text) (d : Destination) :
    Prop :=
  -- the answer logged for `id` takes a transition of its node to `d`
  ∃ r n, log.get? id = some r ∧ m.nodes.get? id = some n ∧ n.next? r.answer = some d

inductive Trail (m : Machine) (log : Table Text Record) :
    Destination → List Text → Destination → Prop
  -- from `a` the logged answers lead to `b`, through the states `ids`, none of which is left twice
  | here (d : Destination) : Trail m log d [] d
  | step (id : Text) (d : Destination) (ids : List Text) (b : Destination) :
      m.LogLeads log id d → id ∉ ids → Trail m log d ids b →
      Trail m log (.state id) (id :: ids) b

namespace Trail

variable {m : Machine} {log : Table Text Record} {a b : Destination} {ids : List Text}

theorem nodup (h : Trail m log a ids b) : ids.Nodup := by
  induction h with
  | here => exact List.nodup_nil
  | step id d ids b _ hid _ ih => exact List.nodup_cons.mpr ⟨hid, ih⟩

theorem mem_log_keys (h : Trail m log a ids b) (id : Text) (hid : id ∈ ids) : id ∈ log.keys := by
  induction h with
  | here => simp at hid
  | step k d ids b hk _ _ ih =>
    rcases List.mem_cons.mp hid with rfl | hid
    · obtain ⟨r, n, hr, _⟩ := hk
      exact (log.mem_keys_iff id).mpr ⟨r, hr⟩
    · exact ih hid

theorem length_le_size (h : Trail m log a ids b) : ids.length ≤ log.size := by
  have hsub : ids ⊆ log.keys := fun id hid => h.mem_log_keys id hid
  have hle := h.nodup.length_le_of_subset hsub
  rwa [Table.keys, List.length_map] at hle

/-- Answering a state that is not on the trail leaves the trail as it is. -/
theorem log_insert (h : Trail m log a ids b) (k : Text) (r : Record) (hk : k ∉ ids) :
    Trail m (log.insert k r) a ids b := by
  induction h with
  | here d => exact .here d
  | step id d ids b hid hnot _ ih =>
    -- the record of `id` is not the one that is written
    have hne : id ≠ k := fun he => hk (he ▸ List.mem_cons_self)
    obtain ⟨q, n, hq, hn, hd⟩ := hid
    have hq' : (log.insert k r).get? id = some q := by rw [log.get?_insert k r id, if_neg hne, hq]
    exact .step id d ids b ⟨q, n, hq', hn, hd⟩ hnot
      (ih fun hmem => hk (List.mem_cons_of_mem id hmem))

/-- A trail goes on when the state at its end is left. -/
theorem snoc {k : Text} {d : Destination} (h : Trail m log a ids b) (hb : b = .state k)
    (hk : k ∉ ids) (hd : m.LogLeads log k d) : Trail m log a (ids ++ [k]) d := by
  induction h with
  | here => exact hb ▸ .step k d [] d hd List.not_mem_nil (.here d)
  | step id c ids b hid hnot _ ih =>
    rw [List.mem_cons, not_or] at hk
    have hnot' : id ∉ ids ++ [k] := by
      rw [List.mem_append, List.mem_singleton, not_or]
      exact ⟨hnot, fun he => hk.1 he.symm⟩
    exact .step id c _ d hid hnot' (ih hb hk.2)

/-- Where a trail ends at a state that it left before, the loop can be cut off. -/
theorem cut {k : Text} (h : Trail m log a ids b) (hk : k ∈ ids) :
    ∃ ids', ids' ⊆ ids ∧ k ∉ ids' ∧ Trail m log a ids' (.state k) := by
  induction h with
  | here => simp at hk
  | step id d ids b hid hnot _ ih =>
    -- the loop begins where the trail comes to `k` for the first time
    by_cases he : id = k
    · exact ⟨[], List.nil_subset _, List.not_mem_nil, he ▸ .here _⟩
    · have hk' : k ∈ ids := (List.mem_cons.mp hk).resolve_left fun hki => he hki.symm
      obtain ⟨ids', hsub, hk'', ht⟩ := ih hk'
      refine ⟨id :: ids', List.cons_subset_cons id hsub, ?_, ?_⟩
      · rw [List.mem_cons, not_or]
        exact ⟨fun hki => he hki.symm, hk''⟩
      · exact .step id d ids' _ hid (fun hmem => hnot (hsub hmem)) ht

/-- A trail can be taken to a destination that it has not left before. -/
theorem cut_loop (h : Trail m log a ids b) :
    ∃ ids', Trail m log a ids' b ∧ ∀ k ∈ ids', b ≠ .state k := by
  cases b with
  | finish => exact ⟨ids, h, fun _ _ hb => by cases hb⟩
  | state k =>
    by_cases hk : k ∈ ids
    · obtain ⟨ids', _, hk', ht⟩ := h.cut hk
      exact ⟨ids', ht, fun j hj hb => hk' (Destination.state.inj hb ▸ hj)⟩
    · exact ⟨ids, h, fun j hj hb => hk (Destination.state.inj hb ▸ hj)⟩

theorem start_eq_finish (h : Trail m log .finish ids b) : b = .finish := by
  cases h
  rfl

end Trail

namespace Session

def IsAt (s : Session) (d : Destination) : Prop :=
  -- the session stands at a state, or has come to the end
  s.current = d.state? ∧ s.completed = decide (d = .finish)

theorem not_isAt_of_idle (s : Session) (hi : s.current = none) (hc : s.completed = false)
    (d : Destination) : ¬ s.IsAt d := by
  intro h
  obtain ⟨hd, hf⟩ := h
  cases d with
  | state id => cases hi.symm.trans hd
  | finish => cases hc.symm.trans hf

structure Traced (s : Session) : Prop where
  -- the log leads from the start to where the session is
  log_of_start : s.machine.start = .finish → s.log = .empty
  trail : ∀ d, s.IsAt d →
    ∃ ids, Trail s.machine s.log s.machine.start ids d ∧ ∀ id ∈ ids, d ≠ .state id

theorem traced_fresh (n : Notation) (role : Role) : (fresh n role).Traced := by
  refine ⟨fun _ => rfl, ?_⟩
  intro d hd
  exact absurd hd (not_isAt_of_idle _ rfl rfl d)

theorem Traced.trail_to_current {s : Session} (hs : s.Traced) (id : Text)
    (hc : s.completed = false) (hi : s.current = some id) :
    ∃ ids, Trail s.machine s.log s.machine.start ids (.state id) ∧ id ∉ ids := by
  obtain ⟨ids, ht, hnot⟩ := hs.trail (.state id) ⟨hi, hc⟩
  exact ⟨ids, ht, fun hid => hnot id hid rfl⟩

theorem Traced.start_ne_finish {s : Session} (hs : s.Traced) (id : Text)
    (hc : s.completed = false) (hi : s.current = some id) : s.machine.start ≠ .finish := by
  intro hstart
  obtain ⟨ids, ht, _⟩ := hs.trail_to_current id hc hi
  rw [hstart] at ht
  cases ht.start_eq_finish

/-- Where a session has just started, it is at the end of the empty trail. -/
theorem trail_at_start (s : Session) (hs : s.current = s.machine.start.state?) (d : Destination)
    (hd : s.IsAt d) :
    ∃ ids, Trail s.machine s.log s.machine.start ids d ∧ ∀ id ∈ ids, d ≠ .state id := by
  have he : d = s.machine.start := Destination.state?_injective d _ (hd.1.symm.trans hs)
  refine ⟨[], ?_, fun _ hk => absurd hk List.not_mem_nil⟩
  rw [he]
  exact .here _

/-- The step lemma: every call leaves a trail. -/
theorem Traced.effect {s t : Session} {c : Call} {r : Except SessionFault (Option Text)}
    (he : Effect s c r t) (hs : s.Traced) : t.Traced := by
  cases he with
  | started id hc hstart =>
    have hat : some id = s.machine.start.state? := (congrArg Destination.state? hstart).symm
    exact ⟨hs.log_of_start, trail_at_start _ hat⟩
  | startedAtEnd hc hstart =>
    have hat : none = s.machine.start.state? := (congrArg Destination.state? hstart).symm
    exact ⟨hs.log_of_start, trail_at_start _ hat⟩
  | moved id n d answer timestamp hc hi hn hd =>
    obtain ⟨ids, ht, hnot⟩ := hs.trail_to_current id hc hi
    refine ⟨fun h => absurd h (hs.start_ne_finish id hc hi), ?_⟩
    intro e he
    cases Destination.state?_injective d e he.1
    have hleads : s.machine.LogLeads (s.log.insert id ⟨answer, timestamp⟩) id d :=
      ⟨⟨answer, timestamp⟩, n, by rw [Table.get?_insert, if_pos rfl], hn, hd⟩
    -- the trail goes on through the state that is left now, and sheds the loop that this may close
    exact ((ht.log_insert id ⟨answer, timestamp⟩ hnot).snoc rfl hnot hleads).cut_loop
  | unmatched id n answer timestamp hc hi hn hd =>
    -- the refused answer is logged for the state at the end, which the trail has not left
    obtain ⟨ids, ht, hnot⟩ := hs.trail_to_current id hc hi
    refine ⟨fun h => absurd h (hs.start_ne_finish id hc hi), ?_⟩
    intro e he
    have hid : e = .state id := Destination.state?_injective e (.state id) (he.1.symm.trans hi)
    subst hid
    exact ⟨ids, ht.log_insert id _ hnot, fun k hk hki => hnot (Destination.state.inj hki ▸ hk)⟩
  | startedLate | lost | submittedEarly | submittedLate => exact hs
  | restarted => exact traced_fresh s.script s.role

theorem traced_run (n : Notation) (role : Role) (calls : List Call) :
    ((fresh n role).run calls).Traced :=
  run_keeps (fun _ _ _ _ he hs => hs.effect he) _ (traced_fresh n role) calls

/-! ## Going the way again -/

inductive RetraceFault
  | missing (id : Text)
  | refused (fault : SessionFault)
  | unfinished
  deriving DecidableEq, Repr

def retrace (s : Session) (log : Table Text Record) :
    List String → Except RetraceFault (List Text × Session)
  -- Submits, for each state that the session comes to, the answer that the log holds for it, until
  -- the session is completed; at most one answer for each of the given times. Tells the states that
  -- were answered, and the session after that.
  | [] => if s.completed then .ok ([], s) else .error .unfinished
  | time :: times =>
    if s.completed then .ok ([], s)
    else match s.current with
      | none => .error (.refused .notStarted)
      | some id =>
        match log.get? id with
        | none => .error (.missing id)
        | some r =>
          match s.submit r.answer time with
          | (.error fault, _) => .error (.refused fault)
          | (.ok _, t) => (t.retrace log times).map fun (ids, last) => (id :: ids, last)

/-- On a trail to the end, the logged answers complete a session. -/
theorem retrace_of_trail {m : Machine} {log : Table Text Record} {d b : Destination}
    {ids : List Text} (h : Trail m log d ids b) (hb : b = .finish) (s : Session)
    (hm : s.machine = m) (hs : s.IsAt d) (times : List String)
    (hlen : ids.length ≤ times.length) :
    ∃ last, s.retrace log times = .ok (ids, last) ∧ last.completed = true := by
  induction h generalizing s times with
  | here d =>
    have hc : s.completed = true := by rw [hs.2, hb, decide_eq_true_eq]
    refine ⟨s, ?_, hc⟩
    cases times <;> simp [retrace, hc]
  | step id d ids b hid _ _ ih =>
    obtain ⟨r, n, hr, hn, hd⟩ := hid
    cases times with
    | nil => simp at hlen
    | cons time times =>
      have hc : s.completed = false := hs.2
      have hi : s.current = some id := hs.1
      have hsub := s.submit_of_next? r.answer time id n d hc hi (hm ▸ hn) hd
      have hrest : ids.length ≤ times.length := Nat.le_of_succ_le_succ hlen
      obtain ⟨last, hlast, hdone⟩ := ih hb (s.submit r.answer time).2 (by rw [hsub]; exact hm)
        (by rw [hsub]; exact ⟨rfl, rfl⟩) times hrest
      refine ⟨last, ?_, hdone⟩
      rw [hsub] at hlast
      simp [retrace, hc, hi, hr, hsub, hlast, Except.map]

end Session

/-- The log of a completed session, if it is not empty, suffices to complete a fresh one: it starts,
comes to logged states only, to none of them twice, and no answer is refused; there are no more
answers than the log has records. -/
theorem log_retraces_flow (n : Notation) (role : Role) (calls : List Session.Call) (s : Session)
    (hrun : (Session.fresh n role).run calls = s) (hc : s.completed = true)
    (hl : s.log ≠ .empty) :
    ∃ first t visited, (Session.fresh n role).start = (.ok first, t) ∧
      visited.Nodup ∧ visited.length ≤ s.log.size ∧
      ∀ times : List String, s.log.size ≤ times.length →
        ∃ last, t.retrace s.log times = .ok (visited, last) ∧ last.completed = true := by
  have htraced : s.Traced := hrun ▸ Session.traced_run n role calls
  have hplaced : s.Placed := hrun ▸ Session.placed_run n role calls
  have hmachine : s.machine = (Session.fresh n role).machine :=
    hrun ▸ Session.machine_run (Session.fresh n role) calls
  obtain ⟨ids, ht, _⟩ := htraced.trail .finish ⟨hplaced.current_of_completed hc, hc⟩
  cases hstart : s.machine.start with
  -- a flow that is over at its start has nothing to log
  | finish => exact absurd (htraced.log_of_start hstart) hl
  | state first =>
    rw [hstart] at ht
    have hfresh := (Session.fresh n role).start_of_state first rfl (hmachine ▸ hstart)
    refine ⟨first, _, ids, hfresh, ht.nodup, ht.length_le_size, ?_⟩
    intro times htimes
    have hlen : ids.length ≤ times.length := Nat.le_trans ht.length_le_size htimes
    exact Session.retrace_of_trail ht rfl { Session.fresh n role with current := some first }
      hmachine.symm ⟨rfl, rfl⟩ times hlen

/-- The way to the trustee is given up by a new start; the name is asked for twice. -/
theorem log_retraces_flow_intake :
    let calls := intakeCalls ++ [.submit (.text "again") "09:04", .submit (.text "other") "09:05",
      .submit (.text "llc") "09:06", .submit (.payload ⟨"sha256", ""⟩) "09:07"]
    let s := (Session.fresh intake .client).run calls
    s.completed = true ∧ s.log ≠ .empty ∧ s.log.keys = ["kind", "trustee", "name__for_llc"] ∧
      ∃ first t visited, (Session.fresh intake .client).start = (.ok first, t) ∧
        visited.Nodup ∧ visited.length ≤ s.log.size ∧
        ∀ times : List String, s.log.size ≤ times.length →
          ∃ last, t.retrace s.log times = .ok (visited, last) ∧ last.completed = true := by
  intro calls s
  have hc : s.completed = true := by decide +kernel
  have hl : s.log ≠ .empty := by decide +kernel
  exact ⟨hc, hl, by decide +kernel, log_retraces_flow intake .client calls s rfl hc hl⟩

end FlowNotation
