import FlowNotation.Proofs.SessionCalls
import FlowNotation.Proofs.WellBuilt
import Mathlib.Data.List.Forall2

/-! What steers a session. Two histories that differ in the kind of their answers, in the order and
the repetition of what an answer offers, or in times, cannot be told from each other by what a session
returns nor by where it stands. -/
namespace FlowNotation

inductive Answer.Offers : Answer → Text → Prop
  -- A text that the answer offers to choices. Payloads and metadata offer none.
  | text (s : Text) : Offers (.text s) s
  | choice (s : Text) : Offers (.choice s) s
  | choices (l : List Text) (s : Text) : s ∈ l → Offers (.choices l) s

def Answer.Alike (a b : Answer) : Prop :=
  ∀ s, a.Offers s ↔ b.Offers s

theorem Answer.offers_iff (a : Answer) (s : Text) : a.Offers s ↔ s ∈ a.offered := by
  constructor
  · intro h
    cases h with
    | text | choice => exact List.mem_singleton_self s
    | choices l _ hs => exact hs
  · intro h
    cases a with
    | text value => exact List.mem_singleton.mp h ▸ .text value
    | choice value => exact List.mem_singleton.mp h ▸ .choice value
    | choices l => exact .choices l s h
    | payload | metadata => exact absurd h List.not_mem_nil

theorem Condition.accepts_congr (c : Condition) {a b : Answer} (h : a.Alike b) :
    c.accepts a = c.accepts b := by
  cases c with
  | any => rfl
  | choice expected =>
    rw [Bool.eq_iff_iff, accepts, accepts, List.contains_iff_mem, List.contains_iff_mem,
      ← a.offers_iff, ← b.offers_iff]
    exact h expected

theorem Node.next?_congr (n : Node) {a b : Answer} (h : a.Alike b) : n.next? a = n.next? b := by
  simp only [next?, Condition.accepts_congr _ h]

namespace Session

inductive Call.Alike : Call → Call → Prop
  -- the same call, but for the time of an answer and for what it offers beside its texts
  | start : Alike .start .start
  | submit (a b : Answer) (timestamp timestamp' : String) : a.Alike b →
      Alike (.submit a timestamp) (.submit b timestamp')
  | restart : Alike .restart .restart

structure Alike (s t : Session) : Prop where
  -- the sessions follow one machine, stand at the same place and have logged answers to the same
  -- states
  machine_eq : s.machine = t.machine
  current_eq : s.current = t.current
  completed_eq : s.completed = t.completed
  keys_eq : s.log.keys = t.log.keys

theorem Alike.keys_insert {s t : Session} (h : s.Alike t) (id : Text) (p q : Record) :
    (s.log.insert id p).keys = (t.log.insert id q).keys := by
  rw [Table.keys_insert, Table.keys_insert, h.keys_eq]

/-- What a call does to a session, a like call does to a like session. -/
theorem Alike.effect {s t s' : Session} {c d : Call} {r : Except SessionFault (Option Text)}
    (h : s.Alike t) (hc : c.Alike d) (he : Effect s c r s') :
    ∃ t', Effect t d r t' ∧ s'.Alike t' := by
  have ⟨hm, hi, hd, hk⟩ := h
  cases he with
  | started id hrun hstart =>
    cases hc
    exact ⟨_, .started id (hd ▸ hrun) (hm ▸ hstart), hm, rfl, hd, hk⟩
  | startedAtEnd hrun hstart =>
    cases hc
    exact ⟨_, .startedAtEnd (hd ▸ hrun) (hm ▸ hstart), hm, rfl, rfl, hk⟩
  | startedLate hdone =>
    cases hc
    exact ⟨_, .startedLate (hd ▸ hdone), h⟩
  -- like answers take the same transition, and are logged for the same state
  | moved id n dest a time hrun hid hn hnext =>
    cases hc with
    | submit _ b _ time' hab =>
      have hnext' : n.next? b = some dest := (n.next?_congr hab).symm.trans hnext
      refine ⟨_, .moved id n dest b time' (hd ▸ hrun) (hi ▸ hid) (hm ▸ hn) hnext', ?_⟩
      exact ⟨hm, rfl, rfl, h.keys_insert id _ _⟩
  | unmatched id n a time hrun hid hn hnext =>
    cases hc with
    | submit _ b _ time' hab =>
      have hnone : n.next? b = none := (n.next?_congr hab).symm.trans hnext
      refine ⟨_, .unmatched id n b time' (hd ▸ hrun) (hi ▸ hid) (hm ▸ hn) hnone, ?_⟩
      exact ⟨hm, hi, hd, h.keys_insert id _ _⟩
  | lost id a time hrun hid hn =>
    cases hc with
    | submit _ b _ time' _ => exact ⟨_, .lost id b time' (hd ▸ hrun) (hi ▸ hid) (hm ▸ hn), h⟩
  | submittedEarly a time hrun hid =>
    cases hc with
    | submit _ b _ time' _ => exact ⟨_, .submittedEarly b time' (hd ▸ hrun) (hi ▸ hid), h⟩
  | submittedLate a time hdone =>
    cases hc with
    | submit _ b _ time' _ => exact ⟨_, .submittedLate b time' (hd ▸ hdone), h⟩
  | restarted =>
    cases hc
    exact ⟨_, .restarted, hm, rfl, rfl, rfl⟩

/-- The step lemma: calls that are alike tell the same and leave sessions that are alike. -/
theorem Alike.apply {s t : Session} {c d : Call} (h : s.Alike t) (hc : c.Alike d) :
    (s.apply c).1 = (t.apply d).1 ∧ (s.apply c).2.Alike (t.apply d).2 := by
  obtain ⟨t', ht, halike⟩ := h.effect hc (s.effect_apply c)
  rw [ht.apply_eq]
  exact ⟨rfl, halike⟩

/-- Like histories of like sessions have the same results, and lead to like sessions. -/
theorem Alike.run {s t : Session} {calls calls' : List Call} (h : s.Alike t)
    (hc : List.Forall₂ Call.Alike calls calls') :
    s.results calls = t.results calls' ∧ (s.run calls).Alike (t.run calls') := by
  induction hc generalizing s t with
  | nil => exact ⟨rfl, h⟩
  | cons hcd _ ih =>
    obtain ⟨hresult, hnext⟩ := h.apply hcd
    obtain ⟨hresults, hlast⟩ := ih hnext
    exact ⟨by rw [results, results, hresult, hresults], hlast⟩

end Session

/-- Nothing but the set of texts that each answer offers steers a session: in two histories of the same
calls, whose answers offer the same texts, every call has the same result, and after each of them the
sessions stand at the same state, are completed or not, and have logged answers to the same states. -/
theorem runs_agree_of_alike (n : Notation) (role : Role) (calls calls' : List Session.Call)
    (hc : List.Forall₂ Session.Call.Alike calls calls') :
    (Session.fresh n role).results calls = (Session.fresh n role).results calls' ∧
      ∀ k, let s := (Session.fresh n role).run (calls.take k)
        let t := (Session.fresh n role).run (calls'.take k)
        s.current = t.current ∧ s.completed = t.completed ∧ s.log.keys = t.log.keys := by
  have hfresh : (Session.fresh n role).Alike (Session.fresh n role) := ⟨rfl, rfl, rfl, rfl⟩
  refine ⟨(hfresh.run hc).1, ?_⟩
  intro k s t
  have h : s.Alike t := (hfresh.run (List.forall₂_take k hc)).2
  exact ⟨h.current_eq, h.completed_eq, h.keys_eq⟩

def spokenCalls : List Session.Call :=
  -- an answer before the start, the kind, a file in the place of a name, and an answer after the
  -- end
  [.submit (.text "llc") "09:00", .start, .submit (.text "llc") "09:01", .submit (.payload ⟨"", ""⟩) "",
    .submit (.text "late") "09:03"]

def tickedCalls : List Session.Call :=
  -- the same calls from a form that ticks boxes, some of them more than once
  [.submit (.choice "llc") "", .start, .submit (.choices ["llc", "llc"]) "", .submit (.choices []) "",
    .submit (.choices ["late", "late", "late"]) ""]

theorem runs_agree_of_alike_intake :
    List.Forall₂ Session.Call.Alike spokenCalls tickedCalls ∧
      (Session.fresh intake .alignment).results spokenCalls =
        (Session.fresh intake .alignment).results tickedCalls ∧
      ((Session.fresh intake .alignment).run (spokenCalls.take 3)).current =
        ((Session.fresh intake .alignment).run (tickedCalls.take 3)).current := by
  have halike : List.Forall₂ Session.Call.Alike spokenCalls tickedCalls := by
    refine .cons (.submit _ _ _ _ ?_) (.cons .start (.cons (.submit _ _ _ _ ?_)
      (.cons (.submit _ _ _ _ ?_) (.cons (.submit _ _ _ _ ?_) .nil))))
    all_goals
      intro s
      simp [Answer.offers_iff, Answer.offered]
  obtain ⟨hresults, hstates⟩ := runs_agree_of_alike intake .alignment spokenCalls tickedCalls halike
  exact ⟨halike, hresults, (hstates 3).1⟩

end FlowNotation
