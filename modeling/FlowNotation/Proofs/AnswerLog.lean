import FlowNotation.Proofs.NextStates
import FlowNotation.Proofs.SessionCalls
import Mathlib.Data.List.Basic
import Mathlib.Data.List.Induction

/-! The log and the lifecycle of a session as they follow from its history. The log holds for each
state the last answer that was given to it since the last restart, accepted or not; and a call changes
no more than its result tells. -/
namespace FlowNotation.Session

structure Awaits (s : Session) (id : Text) : Prop where
  -- an answer that is submitted now is one to the state `id`
  running : s.completed = false
  current : s.current = some id
  declared : id ∈ s.machine.nodes.keys

def Spares (s : Session) (id : Text) (c : Call) : Prop :=
  -- the call is no restart, and no answer to the state `id`
  c ≠ .restart ∧ ∀ answer timestamp, c = .submit answer timestamp → ¬ s.Awaits id

def LastAnswer (s : Session) (calls : List Call) (id : Text) (r : Record) : Prop :=
  -- the record `r` is that of the last answer to the state `id` in a history of `s`, and no restart
  -- came after it
  ∃ before after, calls = before ++ .submit r.answer r.timestamp :: after ∧
    (s.run before).Awaits id ∧
    ∀ between c rest, after = between ++ c :: rest →
      (s.run (before ++ .submit r.answer r.timestamp :: between)).Spares id c

def LogsAlike (s t : Session) (id : Text) : Prop :=
  -- the logs hold the same for all states but `id`
  ∀ k, k ≠ id → t.log.get? k = s.log.get? k

def ChangesBy (s : Session) (answer : Answer) :
    Except SessionFault (Option Text) → Session → Prop
  -- What a submitted answer changes, by its result. Only an answer that a transition of the current
  -- state accepts moves the cursor, and it follows the first such transition.
  | .error (.noMatchingTransition id), t =>
    (∃ n, s.current = some id ∧ s.machine.nodes.get? id = some n ∧
      ∀ u ∈ n.transitions, u.condition.accepts answer = false) ∧
    t = { s with log := t.log } ∧ s.LogsAlike t id
  | .error _, t => t = s
  | .ok next, t => ∃ id n u, s.current = some id ∧ s.machine.nodes.get? id = some n ∧
      n.FirstMatch answer u ∧ s.LogsAlike t id ∧
      match u.destination with
      | .state k => next = some k ∧ t = { s with current := some k, log := t.log }
      | .finish => next = none ∧ t = { s with current := none, completed := true, log := t.log }

/-! ## One call -/

section Call

variable {s t : Session} {c : Call} {res : Except SessionFault (Option Text)} {id k : Text}

theorem Awaits.eq_of_current (h : s.Awaits id) (hk : s.current = some k) : id = k :=
  Option.some.inj (h.current.symm.trans hk)

theorem spares_of_not_awaits (hc : c ≠ .restart) (h : ¬ s.Awaits id) : s.Spares id c :=
  ⟨hc, fun _ _ _ => h⟩

/-- A call that spares a state leaves what is logged for it. -/
theorem get?_log_of_spares (r : Record) (hs : s.Spares id c)
    (hlog : t.log.get? id = s.log.get? id) :
    t.log.get? id = some r ↔ (c = .submit r.answer r.timestamp ∧ s.Awaits id) ∨
      (s.Spares id c ∧ s.log.get? id = some r) := by
  have hno : ¬ (c = .submit r.answer r.timestamp ∧ s.Awaits id) := fun h => hs.2 _ _ h.1 h.2
  rw [or_iff_right hno, hlog]
  exact ⟨fun h => ⟨hs, h⟩, fun h => h.2⟩

/-- An answer to the current state takes the place of what was logged for it. -/
theorem get?_log_of_insert (r : Record) (answer : Answer) (timestamp : String) (hk : s.Awaits k)
    (hlog : t.log = s.log.insert k ⟨answer, timestamp⟩) :
    t.log.get? id = some r ↔
      (Call.submit answer timestamp = .submit r.answer r.timestamp ∧ s.Awaits id) ∨
      (s.Spares id (.submit answer timestamp) ∧ s.log.get? id = some r) := by
  by_cases hid : id = k
  · subst hid
    have hno : ¬ (s.Spares id (.submit answer timestamp) ∧ s.log.get? id = some r) :=
      fun h => h.1.2 answer timestamp rfl hk
    have hget : t.log.get? id = some ⟨answer, timestamp⟩ := by
      rw [hlog, Table.get?_insert, if_pos rfl]
    rw [or_iff_left hno, hget, Option.some.injEq, Call.submit.injEq]
    constructor
    · rintro rfl
      exact ⟨⟨rfl, rfl⟩, hk⟩
    · rintro ⟨⟨rfl, rfl⟩, _⟩
      rfl
  · have hspares : s.Spares id (.submit answer timestamp) := by
      apply spares_of_not_awaits Call.noConfusion
      exact fun h => hid (h.eq_of_current hk.current)
    apply get?_log_of_spares r hspares
    rw [hlog, Table.get?_insert, if_neg hid]

/-- What is logged for a state after a call is what the call answers to it, or what was logged before
if the call spares it. -/
theorem Effect.get?_log (h : Effect s c res t) (id : Text) (r : Record) :
    t.log.get? id = some r ↔ (c = .submit r.answer r.timestamp ∧ s.Awaits id) ∨
      (s.Spares id c ∧ s.log.get? id = some r) := by
  have hstart : s.Spares id .start := ⟨Call.noConfusion, fun _ _ h => Call.noConfusion h⟩
  cases h with
  | started | startedAtEnd | startedLate => exact get?_log_of_spares r hstart rfl
  | moved k n d answer timestamp hc hi hn _ =>
    have hk : s.Awaits k := ⟨hc, hi, (s.machine.nodes.mem_keys_iff k).mpr ⟨n, hn⟩⟩
    exact get?_log_of_insert r answer timestamp hk rfl
  | unmatched k n answer timestamp hc hi hn _ =>
    have hk : s.Awaits k := ⟨hc, hi, (s.machine.nodes.mem_keys_iff k).mpr ⟨n, hn⟩⟩
    exact get?_log_of_insert r answer timestamp hk rfl
  -- these answers are to no state
  | lost k answer timestamp hc hi hn =>
    apply get?_log_of_spares r (spares_of_not_awaits Call.noConfusion _) rfl
    intro h
    rw [← h.eq_of_current hi, Table.get?_eq_none_iff] at hn
    exact hn h.declared
  | submittedEarly answer timestamp hc hi =>
    apply get?_log_of_spares r (spares_of_not_awaits Call.noConfusion _) rfl
    exact fun h => Option.some_ne_none id (h.current.symm.trans hi)
  | submittedLate answer timestamp hc =>
    apply get?_log_of_spares r (spares_of_not_awaits Call.noConfusion _) rfl
    exact fun h => Bool.false_ne_true (h.running.symm.trans hc)
  | restarted =>
    constructor
    · intro h
      cases h
    · rintro (⟨h, _⟩ | ⟨h, _⟩)
      · cases h
      · exact absurd rfl h.1

theorem Effect.changesBy {answer : Answer} {timestamp : String}
    (h : Effect s (.submit answer timestamp) res t) : s.ChangesBy answer res t := by
  have hlog : ∀ (t : Session) (id : Text) (r : Record), t.log = s.log.insert id r →
      s.LogsAlike t id := by
    intro t id r ht k hk
    rw [ht, Table.get?_insert, if_neg hk]
  cases h with
  | moved id n d _ _ hc hi hn hd =>
    obtain ⟨u, hu, rfl⟩ := (n.next?_eq_some_iff answer d).mp hd
    refine ⟨id, n, u, hi, hn, hu, hlog _ id _ rfl, ?_⟩
    cases u.destination with
    | state k =>
      -- the session was running before, and still is
      simp [Destination.state?, hc]
    | finish => exact ⟨rfl, rfl⟩
  | unmatched id n _ _ _ hi hn hd =>
    exact ⟨⟨n, hi, hn, (n.next?_eq_none_iff answer).mp hd⟩, rfl, hlog _ id _ rfl⟩
  | lost | submittedEarly | submittedLate => rfl

/-- A completed session changes by a restart only. -/
theorem Effect.eq_of_completed (h : Effect s c res t) (hs : s.completed = true)
    (hc : c ≠ .restart) : t = s := by
  cases h with
  | startedLate | lost | submittedEarly | submittedLate => rfl
  | started _ hrun | startedAtEnd hrun => cases hs.symm.trans hrun
  | moved _ _ _ _ _ hrun | unmatched _ _ _ _ hrun => cases hs.symm.trans hrun
  | restarted => exact absurd rfl hc

end Call

/-! ## Histories -/

/-- The last answer of a longer history is its last call, or that of the shorter one if the last call
spares the state. -/
theorem lastAnswer_concat (s : Session) (calls : List Call) (c : Call) (id : Text) (r : Record) :
    s.LastAnswer (calls ++ [c]) id r ↔
      (c = .submit r.answer r.timestamp ∧ (s.run calls).Awaits id) ∨
      ((s.run calls).Spares id c ∧ s.LastAnswer calls id r) := by
  constructor
  · rintro ⟨before, after, hcalls, hbefore, hafter⟩
    rcases List.eq_nil_or_concat' after with rfl | ⟨after, d, rfl⟩
    · obtain ⟨rfl, hc⟩ := List.append_inj' hcalls rfl
      exact Or.inl ⟨List.singleton_inj.mp hc, hbefore⟩
    · rw [← List.cons_append, ← List.append_assoc] at hcalls
      obtain ⟨rfl, hc⟩ := List.append_inj' hcalls rfl
      obtain rfl : c = d := List.singleton_inj.mp hc
      refine Or.inr ⟨hafter after c [] rfl, before, after, rfl, hbefore, ?_⟩
      intro between e rest he
      apply hafter between e (rest ++ [c])
      rw [he, List.append_assoc, List.cons_append]
  · rintro (⟨rfl, hbefore⟩ | ⟨hc, before, after, rfl, hbefore, hafter⟩)
    · refine ⟨calls, [], rfl, hbefore, ?_⟩
      intro between e rest he
      exact absurd he.symm (List.append_ne_nil_of_right_ne_nil _ (List.cons_ne_nil e rest))
    · refine ⟨before, after ++ [c], by simp, hbefore, ?_⟩
      intro between e rest he
      -- the call that follows is the new one, or one of the shorter history
      rcases List.eq_nil_or_concat' rest with rfl | ⟨rest, d, rfl⟩
      · obtain ⟨rfl, hce⟩ := List.append_inj' he rfl
        exact List.singleton_inj.mp hce ▸ hc
      · rw [← List.cons_append, ← List.append_assoc] at he
        exact hafter between e rest (List.append_inj' he rfl).1

/-- The log of a session that began with an empty one holds exactly the last answers. -/
theorem get?_log_run (s : Session) (hs : s.log = .empty) (calls : List Call) (id : Text)
    (r : Record) : (s.run calls).log.get? id = some r ↔ s.LastAnswer calls id r := by
  -- call by call from the front, since the last call decides
  induction calls using List.reverseRecOn with
  | nil =>
    rw [run_nil, hs]
    constructor
    · intro h
      cases h
    · rintro ⟨before, after, h, _⟩
      simp at h
  | append_singleton calls c ih =>
    have heffect := (s.run calls).effect_apply c
    have hrun : s.run (calls ++ [c]) = ((s.run calls).apply c).2 := s.run_append calls [c]
    rw [hrun, heffect.get?_log, ih, lastAnswer_concat]

end FlowNotation.Session

namespace FlowNotation

/-- After any history the log of a session holds, for each state, exactly the last answer that was
given to it since the last restart. An answer that is submitted now changes what its result tells,
and once the session is completed, nothing but a restart changes it. -/
theorem log_and_lifecycle_follow_history (n : Notation) (role : Role)
    (calls : List Session.Call) :
    let s := (Session.fresh n role).run calls
    (∀ id r, s.log.get? id = some r ↔ (Session.fresh n role).LastAnswer calls id r) ∧
      (∀ answer timestamp,
        s.ChangesBy answer (s.submit answer timestamp).1 (s.submit answer timestamp).2) ∧
      (s.completed = true → ∀ c, c ≠ .restart → (s.apply c).2 = s) := by
  intro s
  refine ⟨?_, ?_, ?_⟩
  · exact (Session.fresh n role).get?_log_run rfl calls
  · intro answer timestamp
    exact (s.effect_submit answer timestamp).changesBy
  · intro hs c hc
    exact (s.effect_apply c).eq_of_completed hs hc

end FlowNotation
