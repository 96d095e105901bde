import FlowNotation.Proofs.WellBuilt
import Mathlib.Logic.Relation

/-! What the presentation of a source does not change. Two mappings are alike if they differ only in
how they are written down: in the order of their fields, in fields that are not read, in how they say
nothing, and in what a machine says about the end and about the condition of its start. Of sources
that decode to such mappings the same is read, faults and warnings included. -/
namespace FlowNotation
open Yaml (Tree)

/-! ## Mappings that are alike -/

def SameField (R : Tree → Tree → Prop) (raw raw' : Option Tree) : Prop :=
  (Blank raw ∧ Blank raw') ∨ ∃ t t', raw = some t ∧ raw' = some t' ∧ R t t'

theorem SameField.refl {R : Tree → Tree → Prop} (hR : ∀ t, R t t) (raw : Option Tree) :
    SameField R raw raw := by
  cases raw with
  | none => exact .inl ⟨.inl rfl, .inl rfl⟩
  | some t => exact .inr ⟨t, t, rfl, rfl, hR t⟩

def NoTransitions (raw : Option Tree) : Prop :=
  -- a state without transitions: it says nothing, or its mapping is empty
  Blank raw ∨ raw = some (.map [])

def SameState (t t' : Tree) : Prop := t = t' ∨ NoTransitions (some t) ∧ NoTransitions (some t')

def SameStart (raw raw' : Option Tree) : Prop :=
  -- the start edges lead the same way, under whatever condition
  raw = raw' ∨ (NoTransitions raw ∧ NoTransitions raw') ∨
    ∃ c c' d, raw = some (.map [(.text c, d)]) ∧ raw' = some (.map [(.text c', d)])

def SameMachine (raw raw' : Tree) : Prop :=
  -- Two machines with the same states in the same order, wherever the start edge stands. What is
  -- said about the end does not matter.
  raw = raw' ∨ ∃ states states' : Fields, raw = .map states.pairs ∧ raw' = .map states'.pairs ∧
    (ownStates states).Matches (fun _ => SameState) (ownStates states') ∧
    SameStart (states.get? beginKey) (states'.get? beginKey)

namespace Placement

def fieldNames : List String :=
  ["page", "upper_left", "lower_left", "upper_right", "lower_right"]

def SaysNothing (k v : Tree) : Prop :=
  -- a pair that is not read, or that says nothing
  ∀ name ∈ fieldNames, k = .text (Text.ofString name) → Blank (some v)

inductive Edit : List (Tree × Tree) → List (Tree × Tree) → Prop
  -- a change to the pairs of a placement: a pair that says nothing comes in, under a key of its
  -- own, or another such pair takes its place
  | added (before after : List (Tree × Tree)) (k : Text) (v : Tree) : SaysNothing (.text k) v →
      (∀ e ∈ before ++ after, e.1 ≠ .text k) →
      Edit (before ++ after) (before ++ (.text k, v) :: after)
  | revalued (before after : List (Tree × Tree)) (k v v' : Tree) : SaysNothing k v →
      SaysNothing k v' → Edit (before ++ (k, v) :: after) (before ++ (k, v') :: after)

def Written (raw : Tree) (pairs : List (Tree × Tree)) : Prop :=
  (Blank (some raw) ∧ pairs = []) ∨ raw = .map pairs

def Same (raw raw' : Tree) : Prop :=
  -- two placements between which such changes lead, back and forth
  raw = raw' ∨ ∃ pairs pairs', Written raw pairs ∧ Written raw' pairs' ∧
    Relation.EqvGen Edit pairs pairs'

end Placement

def SamePlacements (raw raw' : Tree) : Prop :=
  raw = raw' ∨ ∃ pairs pairs', raw = .map pairs ∧ raw' = .map pairs' ∧
    List.Forall₂ (fun e e' => e'.1 = e.1 ∧ Placement.Same e.2 e'.2) pairs pairs'

def Fields.textNames : List String :=
  ["code", "title", "description", "respondent_type", "document_url", "document_type"]

structure Fields.Alike (fs fs' : Fields) : Prop where
  -- two mappings whose fields are the same as far as they are read
  text : ∀ name ∈ textNames,
    SameField Eq (fs.get? (Text.ofString name)) (fs'.get? (Text.ofString name))
  flow : SameField SameMachine (fs.get? "flow") (fs'.get? "flow")
  alignment : SameField SameMachine (fs.get? "alignment") (fs'.get? "alignment")
  placements : SameField SamePlacements (fs.get? "document_mappings") (fs'.get? "document_mappings")

/-! ## Computations that go the same way -/

section Agree

variable {α β γ δ ι κ ε : Type} {R : α → β → Prop} {S : γ → δ → Prop}

inductive Agree (R : α → β → Prop) : Except ε α → Except ε β → Prop
  -- both fail alike, or both succeed with related results
  | ok (a : α) (b : β) : R a b → Agree R (.ok a) (.ok b)
  | error (e : ε) : Agree R (.error e) (.error e)

theorem Agree.bind {x : Except ε α} {y : Except ε β} {f : α → Except ε γ} {g : β → Except ε δ}
    (h : Agree R x y) (hf : ∀ a b, R a b → Agree S (f a) (g b)) : Agree S (x >>= f) (y >>= g) := by
  cases h with
  | ok a b hab => exact hf a b hab
  | error e => exact .error e

theorem Agree.bind_eq {x : Except ε α} {y : Except ε β} {f : α → Except ε γ} {g : β → Except ε γ}
    (h : Agree R x y) (hf : ∀ a b, R a b → f a = g b) : x >>= f = y >>= g := by
  cases h with
  | ok a b hab => exact hf a b hab
  | error e => rfl

theorem Agree.imp {R' : α → β → Prop} {x : Except ε α} {y : Except ε β} (h : Agree R x y)
    (himp : ∀ a b, R a b → R' a b) : Agree R' x y := by
  cases h with
  | ok a b hab => exact .ok a b (himp a b hab)
  | error e => exact .error e

/-- Folds over items in pairs agree when each step does. -/
theorem Agree.foldlM {T : ι → κ → Prop} {f : α → ι → Except ε α} {g : β → κ → Except ε β}
    (hstep : ∀ a b i j, R a b → T i j → Agree R (f a i) (g b j)) {items : List ι} {items' : List κ}
    (hitems : List.Forall₂ T items items') {a : α} {b : β} (hab : R a b) :
    Agree R (items.foldlM f a) (items'.foldlM g b) := by
  induction hitems generalizing a b with
  | nil => exact .ok a b hab
  | cons hij _ ih =>
    rw [List.foldlM_cons, List.foldlM_cons]
    exact (hstep _ _ _ _ hab hij).bind fun _ _ h => ih h

end Agree

section Matches

variable {κ α β γ : Type} {R : κ → α → β → Prop} {t : Table κ α} {u : Table κ β}

/-- Tables that match under a relation give the same values where it relates what gives the same. -/
theorem Table.Matches.mapValuesM_eq {m : Type → Type} [Monad m] [LawfulMonad m]
    (h : t.Matches R u) (f : κ → α → m γ) (g : κ → β → m γ)
    (hfg : ∀ k a b, R k a b → f k a = g k b) : t.mapValuesM f = u.mapValuesM g := by
  refine mapM_congr_forall₂ (h.imp ?_)
  rintro ⟨k, a⟩ ⟨k', b⟩ ⟨hk, hab⟩
  obtain rfl : k' = k := hk
  exact hfg k' a b hab

theorem Table.Matches.withValues_eq (h : t.Matches R u) (cs : List γ) :
    t.withValues cs = u.withValues cs :=
  Table.eq_of_entries (congrArg (List.zip · cs) h.keys_eq.symm)

end Matches

/-! ## Machines -/

theorem NoTransitions.transitionTexts_eq {raw : Option Tree} (h : NoTransitions raw)
    (place : Text) : transitionTexts place raw = .ok .empty :=
  (transitionTexts_eq_ok_iff place raw .empty).mpr (h.imp_left fun hblank => ⟨hblank, rfl⟩)

/-- A state is read alike in either of its spellings. -/
theorem SameState.ofTree_eq {t t' : Tree} (h : SameState t t') (part : Section)
    (declared : List Text) (id : Text) :
    Node.ofTree part declared id t = Node.ofTree part declared id t' := by
  rcases h with rfl | ⟨hnone, hnone'⟩
  · rfl
  · rw [Node.ofTree, Node.ofTree, hnone.transitionTexts_eq, hnone'.transitionTexts_eq]

/-- Of the one transition of a start edge the condition is not used. -/
theorem startOf_singleton (part : Section) (declared : List Text) (c : Text) (d : Tree) :
    startOf part declared (some (.map [(.text c, d)])) = match d with
      | .text s => Destination.ofText declared s
      | _ => .error (.shape (.transitionNotText (part.name ++ "." ++ beginKey))) := by
  cases d <;> rfl

theorem SameStart.startOf_eq {raw raw' : Option Tree} (h : SameStart raw raw') (part : Section)
    (declared : List Text) : startOf part declared raw = startOf part declared raw' := by
  rcases h with rfl | ⟨hnone, hnone'⟩ | ⟨c, c', d, rfl, rfl⟩
  · rfl
  · rw [startOf, startOf, hnone.transitionTexts_eq, hnone'.transitionTexts_eq]
  · rw [startOf_singleton, startOf_singleton]

/-- A machine is read alike in either of its spellings, warnings included. -/
theorem SameMachine.ofTree_eq {raw raw' : Tree} (h : SameMachine raw raw') (part : Section) :
    Machine.ofTree part raw = Machine.ofTree part raw' := by
  rcases h with rfl | ⟨states, states', rfl, rfl, hown, hstart⟩
  · rfl
  · have hstates : ∀ states : Fields, stateTrees part (.map states.pairs) = .ok states :=
      fun states => (stateTrees_eq_ok_iff part _ states).mpr rfl
    rw [Machine.ofTree, Machine.ofTree, Reading.lift_bind (hstates states),
      Reading.lift_bind (hstates states')]
    change (liftM (startOf part (ownStates states).keys _) : Reading _) >>= _ =
      (liftM (startOf part (ownStates states').keys _) : Reading _) >>= _
    -- the same states are declared, and against these the start and all destinations are read
    rw [hstart.startOf_eq, hown.keys_eq]
    refine congrArg _ (funext fun start => ?_)
    refine (congrArg (· >>= _) (hown.mapValuesM_eq (m := Reading) _ _ ?_)).trans
      (congrArg _ (funext fun nodes => ?_))
    · intro id t t' ht
      change (liftM (Node.ofTree part (ownStates states).keys id t) : Reading _) >>= _ =
        (liftM (Node.ofTree part (ownStates states').keys id t') : Reading _) >>= _
      rw [hown.keys_eq, ht.ofTree_eq]
    · change Reading.pure (Machine.mk start ((ownStates states).withValues nodes)) =
        Reading.pure (Machine.mk start ((ownStates states').withValues nodes))
      rw [hown.withValues_eq]

/-! ## Placements -/

namespace Fields

def add (place : Text) (fs : Fields) (e : Tree × Tree) : Except SourceFault Fields :=
  match e.1 with
  | .text k =>
    if h : k ∈ fs.keys then .error (.shape (.repeatedKey k place)) else .ok (fs.push k e.2 h)
  | _ => .error (.shape (.keyNotText place))

theorem add_of_mem (place : Text) {fs : Fields} {k : Text} (hk : k ∈ fs.keys) (v : Tree) :
    fs.add place (.text k, v) = .error (.shape (.repeatedKey k place)) := dif_pos hk

theorem add_of_not_mem (place : Text) {fs : Fields} {k : Text} (hk : k ∉ fs.keys) (v : Tree) :
    fs.add place (.text k, v) = .ok (fs.push k v hk) := dif_neg hk

/-- The fields of a mapping are collected pair by pair. -/
theorem ofPairs_eq_foldlM (place : Text) (pairs : List (Tree × Tree)) :
    ofPairs place pairs = pairs.foldlM (add place) .empty := by
  refine congrArg (pairs.foldlM · Table.empty) (funext fun fs => funext fun e => ?_)
  obtain ⟨k, v⟩ := e
  cases k with
  | text k =>
    by_cases hk : k ∈ fs.keys
    · rw [add_of_mem place hk]
      simp only [bind, Except.bind, hk, dite_true]
      rfl
    · rw [add_of_not_mem place hk]
      simp only [bind, Except.bind, hk, dite_false]
      rfl
  | _ => rfl

structure Resembles (P : Text → Prop) (fs fs' : Fields) : Prop where
  -- the fields of two placements have the same keys, of those that satisfy `P`, and say the same
  keys : ∀ k, P k → (k ∈ fs.keys ↔ k ∈ fs'.keys)
  value : ∀ name ∈ Placement.fieldNames, fs.value? name = fs'.value? name

theorem value?_push (fs : Fields) (k : Text) (v : Tree) (hk : k ∉ fs.keys) (name : String) :
    value? (fs.push k v hk) name =
      if Text.ofString name = k then (some v).filter (fun t => !t.isBlank) else fs.value? name := by
  rw [value?, Table.get?_push]
  split_ifs <;> rfl

theorem mem_keys_push (fs : Fields) (k : Text) (v : Tree) (hk : k ∉ fs.keys) (k' : Text) :
    k' ∈ (fs.push k v hk).keys ↔ k' ∈ fs.keys ∨ k' = k := by
  simp [Table.keys, Table.push]

theorem filter_of_saysNothing {name : String} (hname : name ∈ Placement.fieldNames) {v : Tree}
    (h : Placement.SaysNothing (.text (Text.ofString name)) v) :
    (some v).filter (fun t => !t.isBlank) = none :=
  (filter_not_isBlank_eq_none_iff _).mpr (h name hname rfl)

structure SamePair (P : Text → Prop) (e e' : Tree × Tree) : Prop where
  -- pairs with one key, of those that satisfy `P`, and with one value if it says something
  key : e'.1 = e.1
  admitted : ∀ k, e.1 = .text k → P k
  value : e'.2 = e.2 ∨ Placement.SaysNothing e.1 e.2 ∧ Placement.SaysNothing e.1 e'.2

section

variable {P : Text → Prop} {fs fs' : Fields}

/-- A pair that comes to both fields leaves them alike, or is refused by both. -/
theorem Resembles.add (h : fs.Resembles P fs') (place : Text) {e e' : Tree × Tree}
    (he : SamePair P e e') : Agree (Resembles P) (fs.add place e) (fs'.add place e') := by
  obtain ⟨key, v⟩ := e
  obtain ⟨key', v'⟩ := e'
  obtain ⟨hkey, hP, hv⟩ := he
  obtain rfl : key' = key := hkey
  cases key' with
  | text k =>
    have hmem := h.keys k (hP k rfl)
    by_cases hk : k ∈ fs.keys
    · rw [add_of_mem place hk, add_of_mem place (hmem.mp hk)]
      exact .error _
    · have hk' : k ∉ fs'.keys := fun hk' => hk (hmem.mpr hk')
      rw [add_of_not_mem place hk, add_of_not_mem place hk']
      refine .ok _ _ ⟨?_, ?_⟩
      · intro k' hP'
        rw [mem_keys_push, mem_keys_push, h.keys k' hP']
      · intro name hname
        rw [value?_push, value?_push]
        split_ifs with heq
        · subst heq
          rcases hv with rfl | ⟨hv, hv'⟩
          · rfl
          · rw [filter_of_saysNothing hname hv, filter_of_saysNothing hname hv']
        · exact h.value name hname
  | _ => exact .error _

theorem Resembles.foldlM_add (h : fs.Resembles P fs') (place : Text)
    {pairs pairs' : List (Tree × Tree)} (hpairs : List.Forall₂ (SamePair P) pairs pairs') :
    Agree (fun fs fs' => ∀ name ∈ Placement.fieldNames, fs.value? name = fs'.value? name)
      (pairs.foldlM (Fields.add place) fs) (pairs'.foldlM (Fields.add place) fs') :=
  (Agree.foldlM (fun _ _ _ _ h he => h.add place he) hpairs h).imp fun _ _ h => h.value

/-- A pair that says nothing, under a new key, leaves the other keys and all values as they are. -/
theorem resembles_push (fs : Fields) {k : Text} {v : Tree} (hk : k ∉ fs.keys)
    (hv : Placement.SaysNothing (.text k) v) : fs.Resembles (· ≠ k) (fs.push k v hk) := by
  refine ⟨?_, ?_⟩
  · intro k' hne
    rw [mem_keys_push, or_iff_left hne]
  · intro name hname
    rw [value?_push]
    split_ifs with heq
    · subst heq
      rw [filter_of_saysNothing hname hv, value?, (fs.get?_eq_none_iff _).mpr hk]
      rfl
    · rfl

end

/-- A change to the pairs of a placement does not change what its fields say, or why they are
refused. -/
theorem agree_ofPairs_of_edit (place : Text) {pairs pairs' : List (Tree × Tree)}
    (h : Placement.Edit pairs pairs') :
    Agree (fun fs fs' => ∀ name ∈ Placement.fieldNames, fs.value? name = fs'.value? name)
      (ofPairs place pairs) (ofPairs place pairs') := by
  have hsame : ∀ (P : Text → Prop) (es : List (Tree × Tree)),
      (∀ e ∈ es, ∀ k, e.1 = .text k → P k) → List.Forall₂ (SamePair P) es es :=
    fun P es hes => List.forall₂_same.mpr fun e he => ⟨rfl, hes e he, .inl rfl⟩
  rw [ofPairs_eq_foldlM, ofPairs_eq_foldlM]
  cases h with
  -- what stands behind the new pair has other keys, and so meets the same fields
  | added before after k v hnothing hfresh =>
    rw [List.foldlM_append, List.foldlM_append, ← ofPairs_eq_foldlM]
    cases hbefore : ofPairs place before with
    | error e => exact .error e
    | ok fs =>
      obtain rfl := (ofPairs_eq_ok_iff place before fs).mp hbefore
      have hk : k ∉ fs.keys := by
        intro hk
        obtain ⟨⟨_, a⟩, ha, rfl⟩ := List.mem_map.mp hk
        exact hfresh (.text _, a) (List.mem_append_left _ (List.mem_map.mpr ⟨_, ha, rfl⟩)) rfl
      have hafter := hsame (· ≠ k) after fun e he k' hk' heq =>
        hfresh e (List.mem_append_right _ he) (hk'.trans (congrArg _ heq))
      change Agree _ (after.foldlM (Fields.add place) fs)
        (((.text k, v) :: after).foldlM (Fields.add place) fs)
      rw [List.foldlM_cons, add_of_not_mem place hk]
      exact (fs.resembles_push hk hnothing).foldlM_add place hafter
  -- only keys can be refused, and these are all the same
  | revalued before after k v v' hv hv' =>
    have hpair : SamePair (fun _ => True) (k, v) (k, v') :=
      ⟨rfl, fun _ _ => trivial, .inr ⟨hv, hv'⟩⟩
    have hpairs := List.rel_append (hsame (fun _ => True) before fun _ _ _ _ => trivial)
      (.cons hpair (hsame _ after fun _ _ _ _ => trivial))
    exact Resembles.foldlM_add ⟨fun _ _ => Iff.rfl, fun _ _ => rfl⟩ place hpairs

end Fields

namespace Placement

/-- A corner that says nothing is no point, as one that is missing. -/
theorem pointOf_value? (place : Text) (fs : Fields) (name : String) :
    pointOf place (fs.get? (Text.ofString name)) = pointOf place (fs.value? name) := by
  rw [Fields.value?]
  rcases hget : fs.get? (Text.ofString name) with _ | (_ | s | items | pairs)
  · rfl
  · rfl
  · cases s <;> rfl
  · rfl
  · rfl

def ofFields (place : Text) (fs : Fields) : Except SourceFault Placement :=
  do
  return ⟨← pageOf (place ++ ".page") (fs.value? "page"), ← quadOf place fs⟩

/-- A placement is read from its page and from the points of its corners. -/
theorem ofFields_congr_points (place : Text) {fs fs' : Fields}
    (hpage : fs.value? "page" = fs'.value? "page")
    (hpoint : ∀ name ∈ fieldNames, ∀ place, pointOf place (fs.get? (Text.ofString name)) =
      pointOf place (fs'.get? (Text.ofString name))) :
    ofFields place fs = ofFields place fs' := by
  have hquad : quadOf place fs = quadOf place fs' := by
    unfold quadOf
    dsimp only
    rw [hpoint "upper_left" (by decide), hpoint "lower_left" (by decide),
      hpoint "upper_right" (by decide), hpoint "lower_right" (by decide)]
  rw [ofFields, ofFields, hpage, hquad]

theorem ofFields_congr (place : Text) {fs fs' : Fields}
    (h : ∀ name ∈ fieldNames, fs.value? name = fs'.value? name) :
    ofFields place fs = ofFields place fs' := by
  refine ofFields_congr_points place (h "page" (by decide)) ?_
  intro name hname place
  rw [pointOf_value?, pointOf_value?, h name hname]

theorem ofTree_of_written (field : Text) {raw : Tree} {pairs : List (Tree × Tree)}
    (h : Written raw pairs) :
    ofTree field raw = Fields.ofPairs ("document_mappings." ++ field) pairs >>=
      ofFields ("document_mappings." ++ field) := by
  rcases h with ⟨hblank, rfl⟩ | rfl
  · rcases hblank with h | h | h
    · cases h
    · cases h
      rfl
    · cases h
      rfl
  · rfl

/-- A placement is read alike in either of its spellings. -/
theorem Same.ofTree_eq {raw raw' : Tree} (h : Same raw raw') (field : Text) :
    ofTree field raw = ofTree field raw' := by
  rcases h with rfl | ⟨pairs, pairs', hraw, hraw', hedits⟩
  · rfl
  · rw [ofTree_of_written field hraw, ofTree_of_written field hraw']
    clear hraw hraw'
    -- one change after the other, in either direction
    induction hedits with
    | rel pairs pairs' hedit =>
      exact (Fields.agree_ofPairs_of_edit _ hedit).bind_eq fun _ _ h => ofFields_congr _ h
    | refl pairs => rfl
    | symm pairs pairs' _ ih => exact ih.symm
    | trans pairs pairs' pairs'' _ _ ih ih' => exact ih.trans ih'

end Placement

/-- Pairs with the same keys and related values are refused alike, or give fields that match. -/
theorem agree_ofPairs_of_forall₂ {R : Text → Tree → Tree → Prop} (place : Text)
    {pairs pairs' : List (Tree × Tree)}
    (h : List.Forall₂ (fun e e' => e'.1 = e.1 ∧ ∀ k, e.1 = .text k → R k e.2 e'.2) pairs pairs') :
    Agree (Table.Matches R) (Fields.ofPairs place pairs) (Fields.ofPairs place pairs') := by
  rw [Fields.ofPairs_eq_foldlM, Fields.ofPairs_eq_foldlM]
  refine Agree.foldlM ?_ h .nil
  rintro fs fs' ⟨key, v⟩ ⟨key', v'⟩ hfs ⟨hkey, hv⟩
  obtain rfl : key' = key := hkey
  cases key' with
  | text k =>
    have hkeys := hfs.keys_eq
    by_cases hk : k ∈ fs.keys
    · rw [Fields.add_of_mem place hk, Fields.add_of_mem place (hkeys ▸ hk)]
      exact .error _
    · rw [Fields.add_of_not_mem place hk, Fields.add_of_not_mem place (hkeys ▸ hk)]
      exact .ok _ _ (List.rel_append hfs (.cons ⟨rfl, hv k rfl⟩ .nil))
  | _ => exact .error _

/-- Placements under the same keys, each read like the other, are read alike. -/
theorem placementsOf_congr {pairs pairs' : List (Tree × Tree)}
    (h : List.Forall₂ (fun e e' => e'.1 = e.1 ∧ ∀ field, e.1 = .text field →
      Placement.ofTree field e.2 = Placement.ofTree field e'.2) pairs pairs') :
    placementsOf (some (.map pairs)) = placementsOf (some (.map pairs')) := by
  refine (agree_ofPairs_of_forall₂ (R := fun field v v' => Placement.ofTree field v =
    Placement.ofTree field v') "document_mappings" h).bind_eq ?_
  intro fs fs' hfs
  rw [hfs.mapValuesM_eq Placement.ofTree Placement.ofTree fun _ _ _ h => h]
  refine congrArg _ (funext fun placements => ?_)
  rw [hfs.withValues_eq]

/-- Placements are read alike in either of their spellings. -/
theorem SamePlacements.placementsOf_eq {raw raw' : Tree} (h : SamePlacements raw raw') :
    placementsOf (some raw) = placementsOf (some raw') := by
  rcases h with rfl | ⟨pairs, pairs', rfl, rfl, hpairs⟩
  · rfl
  · refine placementsOf_congr (hpairs.imp ?_)
    rintro e e' ⟨hkey, hsame⟩
    exact ⟨hkey, fun field _ => hsame.ofTree_eq field⟩

/-! ## Fields -/

def SameKind (raw raw' : Tree) : Prop :=
  raw = raw' ∨ ∃ pairs pairs', raw = .map pairs ∧ raw' = .map pairs'

theorem SameMachine.sameKind {raw raw' : Tree} (h : SameMachine raw raw') : SameKind raw raw' :=
  h.imp_right fun ⟨_, _, hraw, hraw', _⟩ => ⟨_, _, hraw, hraw'⟩

theorem SamePlacements.sameKind {raw raw' : Tree} (h : SamePlacements raw raw') :
    SameKind raw raw' :=
  h.imp_right fun ⟨_, _, hraw, hraw', _⟩ => ⟨_, _, hraw, hraw'⟩

/-- Both fields say nothing, or `R` relates what they say, which is something. A mapping says
something, even an empty one. -/
theorem SameField.value?_cases {R : Tree → Tree → Prop} (hkind : ∀ t t', R t t' → SameKind t t')
    {fs fs' : Fields} {name : String}
    (h : SameField R (fs.get? (Text.ofString name)) (fs'.get? (Text.ofString name))) :
    (fs.value? name = none ∧ fs'.value? name = none) ∨
      ∃ t t', fs.value? name = some t ∧ fs'.value? name = some t' ∧ R t t' := by
  simp only [Fields.value?_eq_none_iff, Fields.value?_eq_some_iff]
  rcases h with hnone | ⟨t, t', ht, ht', hr⟩
  · exact .inl hnone
  · rw [ht, ht']
    rcases hkind t t' hr with rfl | ⟨pairs, pairs', rfl, rfl⟩
    · by_cases hblank : Blank (some t)
      · exact .inl ⟨hblank, hblank⟩
      · exact .inr ⟨t, t, ⟨rfl, hblank⟩, ⟨rfl, hblank⟩, hr⟩
    · exact .inr ⟨_, _, ⟨rfl, not_blank_map pairs⟩, ⟨rfl, not_blank_map pairs'⟩, hr⟩

/-- What is read of texts depends on their values only. -/
theorem Metadata.ofFields_congr {fs fs' : Fields}
    (htext : ∀ name ∈ Fields.textNames, fs.value? name = fs'.value? name) :
    Metadata.ofFields fs = Metadata.ofFields fs' := by
  unfold Metadata.ofFields Fields.requiredText Fields.text?
  rw [htext "code" (by decide), htext "title" (by decide), htext "description" (by decide),
    htext "respondent_type" (by decide)]

/-- A document is read from its address, its type and its placements. -/
theorem Document.ofFields_congr {fs fs' : Fields}
    (htext : ∀ name ∈ Fields.textNames, fs.value? name = fs'.value? name)
    (hnone : (fs.value? "document_mappings").isNone = (fs'.value? "document_mappings").isNone)
    (hplacements : placementsOf (fs.value? "document_mappings") =
      placementsOf (fs'.value? "document_mappings")) :
    Document.ofFields fs = Document.ofFields fs' := by
  have hall : (["document_url", "document_type", "document_mappings"].all
        fun k => (fs.value? k).isNone) =
      ["document_url", "document_type", "document_mappings"].all
        fun k => (fs'.value? k).isNone := by
    simp only [List.all_cons, List.all_nil, htext "document_url" (by decide),
      htext "document_type" (by decide), hnone]
  unfold Document.ofFields Fields.text?
  rw [hall, hplacements, htext "document_type" (by decide), htext "document_url" (by decide)]

/-- Two mappings give the same notation, the same fault and the same warnings if their parts are read
alike. -/
theorem Notation.ofTree_congr {fs fs' : Fields}
    (hmetadata : Metadata.ofFields fs = Metadata.ofFields fs')
    (hmachine : ∀ part : Section, (fs.value? part.name = none ∧ fs'.value? part.name = none) ∨
      ∃ raw raw', fs.value? part.name = some raw ∧ fs'.value? part.name = some raw' ∧
        Machine.ofTree part raw = Machine.ofTree part raw')
    (hdocument : Document.ofFields fs = Document.ofFields fs') :
    Notation.ofTree (.map fs.pairs) = Notation.ofTree (.map fs'.pairs) := by
  have hfs : ∀ fs : Fields, Fields.ofPairs "notation" fs.pairs = .ok fs :=
    fun fs => (Fields.ofPairs_eq_ok_iff "notation" fs.pairs fs).mpr rfl
  have hflow := hmachine .flow
  have halignment := hmachine .alignment
  dsimp only [Section.name] at hflow halignment
  rw [ofTree, ofTree, Reading.lift_bind (hfs fs), Reading.lift_bind (hfs fs'), hmetadata]
  refine congrArg _ (funext fun metadata => ?_)
  rcases hflow with ⟨hnone, hnone'⟩ | ⟨raw, raw', hraw, hraw', hsame⟩
  · rw [hnone, hnone']
  · rw [hraw, hraw']
    dsimp only
    rw [hsame, hdocument]
    refine congrArg _ (funext fun flow => ?_)
    rcases halignment with ⟨hnone, hnone'⟩ | ⟨raw, raw', hraw, hraw', hsame⟩
    · rw [hnone, hnone']
    · rw [hraw, hraw']
      dsimp only
      rw [hsame]

namespace Fields.Alike

variable {fs fs' : Fields} (h : fs.Alike fs')
include h

theorem value?_eq (name : String) (hname : name ∈ textNames) :
    fs.value? name = fs'.value? name := by
  rcases (h.text name hname).value?_cases (fun _ _ => .inl) with
    ⟨hnone, hnone'⟩ | ⟨t, _, ht, ht', rfl⟩
  · rw [hnone, hnone']
  · rw [ht, ht']

theorem document_eq : Document.ofFields fs = Document.ofFields fs' := by
  have hplacements : placementsOf (fs.value? "document_mappings") =
        placementsOf (fs'.value? "document_mappings") ∧
      (fs.value? "document_mappings").isNone = (fs'.value? "document_mappings").isNone := by
    rcases h.placements.value?_cases (fun _ _ => SamePlacements.sameKind) with
      ⟨hnone, hnone'⟩ | ⟨t, t', ht, ht', hsame⟩
    · rw [hnone, hnone']
      exact ⟨rfl, rfl⟩
    · rw [ht, ht', hsame.placementsOf_eq]
      exact ⟨rfl, rfl⟩
  exact Document.ofFields_congr h.value?_eq hplacements.2 hplacements.1

/-- A notation is read alike in either of its presentations, warnings included. -/
theorem ofTree_eq : Notation.ofTree (.map fs.pairs) = Notation.ofTree (.map fs'.pairs) := by
  refine Notation.ofTree_congr (Metadata.ofFields_congr h.value?_eq) ?_ h.document_eq
  have hmachine : ∀ part : Section,
      SameField SameMachine (fs.get? (Text.ofString part.name))
        (fs'.get? (Text.ofString part.name)) := by
    intro part
    cases part with
    | flow => exact h.flow
    | alignment => exact h.alignment
  intro part
  refine ((hmachine part).value?_cases fun _ _ => SameMachine.sameKind).imp_right ?_
  rintro ⟨raw, raw', hraw, hraw', hsame⟩
  exact ⟨raw, raw', hraw, hraw', hsame.ofTree_eq part⟩

end Fields.Alike

/-- Of two sources whose mappings are alike the same is read: the same notation or the same fault,
with the same warnings. -/
theorem parse_eq_of_alike (source source' : String) (fs fs' : Fields)
    (h : Yaml.decode source = .ok (.map fs.pairs)) (h' : Yaml.decode source' = .ok (.map fs'.pairs))
    (halike : fs.Alike fs') : Notation.parse source = Notation.parse source' := by
  rw [Notation.parse, Notation.parse, h, h']
  exact halike.ofTree_eq

/-! ## A lease

It is written down twice, the second time less tidily. -/

def tidyLines : List String :=
  ["code: lease\n", "title: Lease\n", "flow:\n", "  BEGIN:\n", "    _: term\n",
    "  term:\n", "    _: close\n", "    none: END\n", "  close:\n",
    "document_mappings:\n", "  tenant:\n", "    page: 2\n"]

def untidyLines : List String :=
  ["draft: [yes, no]\n", "document_mappings:\n", "  tenant:\n", "    hint: {}\n", "    page: 2\n",
    "    upper_left: ''\n", "title: Lease\n", "description: ~\n", "flow:\n", "  END: soon\n",
    "  term:\n", "    _: close\n", "    none: END\n", "  BEGIN:\n", "    first: term\n",
    "  close: {}\n", "code: lease\n"]

def termTree : Tree :=
  -- the transitions of the first state, of which the second is shadowed
  .map [(.text "_", .text "close"), (.text "none", .text "END")]

def tidyStates : Fields where
  entries := [("BEGIN", .map [(.text "_", .text "term")]), ("term", termTree), ("close", .null)]
  nodup := by decide +kernel

def untidyStates : Fields where
  entries := [("END", .text "soon"), ("term", termTree),
    ("BEGIN", .map [(.text "first", .text "term")]), ("close", .map [])]
  nodup := by decide +kernel

def pagePair : Tree × Tree := (.text "page", .text "2")

def tidyFields : Fields where
  entries := [("code", .text "lease"), ("title", .text "Lease"), ("flow", .map tidyStates.pairs),
    ("document_mappings", .map [(.text "tenant", .map [pagePair])])]
  nodup := by decide +kernel

def untidyFields : Fields where
  entries := [("draft", .list [.text "yes", .text "no"]),
    ("document_mappings", .map [(.text "tenant", .map [(.text "hint", .map []), pagePair,
      (.text "upper_left", .text [])])]),
    ("title", .text "Lease"), ("description", .null), ("flow", .map untidyStates.pairs),
    ("code", .text "lease")]
  nodup := by decide +kernel

theorem sameMachine_lease : SameMachine (.map tidyStates.pairs) (.map untidyStates.pairs) := by
  have hown : (ownStates tidyStates).entries = [⟨"term", termTree⟩, ⟨"close", .null⟩] := by
    decide +kernel
  have hown' : (ownStates untidyStates).entries = [⟨"term", termTree⟩, ⟨"close", .map []⟩] := by
    decide +kernel
  have hbegin : tidyStates.get? beginKey = some (.map [(.text "_", .text "term")]) := by
    decide +kernel
  have hbegin' : untidyStates.get? beginKey = some (.map [(.text "first", .text "term")]) := by
    decide +kernel
  refine .inr ⟨tidyStates, untidyStates, rfl, rfl, ?_, .inr (.inr ⟨_, _, _, hbegin, hbegin'⟩)⟩
  rw [Table.Matches, hown, hown']
  exact .cons ⟨rfl, .inl rfl⟩ (.cons ⟨rfl, .inr ⟨.inl (.inr (.inl rfl)), .inr rfl⟩⟩ .nil)

theorem samePlacement_lease : Placement.Same (.map [pagePair])
    (.map [(.text "hint", .map []), pagePair, (.text "upper_left", .text [])]) := by
  have hunread : ∀ name ∈ Placement.fieldNames, Tree.text "hint" ≠ .text (Text.ofString name) := by
    decide +kernel
  have hhint : Placement.Edit [pagePair] [(.text "hint", .map []), pagePair] :=
    .added [] [pagePair] "hint" (.map []) (fun name hname heq => absurd heq (hunread name hname))
      (by decide +kernel)
  have hcorner : Placement.Edit [(.text "hint", .map []), pagePair]
      [(.text "hint", .map []), pagePair, (.text "upper_left", .text [])] :=
    .added [(.text "hint", .map []), pagePair] [] "upper_left" (.text [])
      (fun _ _ _ => .inr (.inr rfl)) (by decide +kernel)
  exact .inr ⟨_, _, .inr rfl, .inr rfl, .trans _ _ _ (.rel _ _ hhint) (.rel _ _ hcorner)⟩

/-- The tidy and the untidy lease are one notation in two presentations. -/
theorem alike_lease : tidyFields.Alike untidyFields := by
  have htext : ∀ name ∈ Fields.textNames,
      tidyFields.get? (Text.ofString name) = untidyFields.get? (Text.ofString name) ∨
      tidyFields.get? (Text.ofString name) = none ∧
        untidyFields.get? (Text.ofString name) = some .null := by
    decide +kernel
  have hflow : tidyFields.get? "flow" = some (.map tidyStates.pairs) ∧
      untidyFields.get? "flow" = some (.map untidyStates.pairs) := by
    decide +kernel
  have hplacements : tidyFields.get? "document_mappings" =
        some (.map [(.text "tenant", .map [pagePair])]) ∧
      untidyFields.get? "document_mappings" = some (.map [(.text "tenant",
        .map [(.text "hint", .map []), pagePair, (.text "upper_left", .text [])])]) := by
    decide +kernel
  have hnone : tidyFields.get? "alignment" = none ∧ untidyFields.get? "alignment" = none := by
    decide +kernel
  refine ⟨?_, .inr ⟨_, _, hflow.1, hflow.2, sameMachine_lease⟩, ?_,
    .inr ⟨_, _, hplacements.1, hplacements.2, .inr ⟨_, _, rfl, rfl, ?_⟩⟩⟩
  · intro name hname
    rcases htext name hname with heq | ⟨hmissing, hnull⟩
    · exact heq ▸ SameField.refl (fun t => rfl) _
    · exact .inl ⟨.inl hmissing, .inr (.inl hnull)⟩
  · exact .inl ⟨.inl hnone.1, .inl hnone.2⟩
  · exact .cons ⟨rfl, samePlacement_lease⟩ .nil

theorem parse_eq_of_alike_lease :
    Yaml.decode (String.join tidyLines) = .ok (.map tidyFields.pairs) ∧
      Yaml.decode (String.join untidyLines) = .ok (.map untidyFields.pairs) ∧
      tidyFields.Alike untidyFields ∧
      Notation.parse (String.join tidyLines) = Notation.parse (String.join untidyLines) := by
  have htidy : Yaml.decode (String.join tidyLines) = .ok (.map tidyFields.pairs) := by
    rw [Yaml.decode_join]
    decide +kernel
  have huntidy : Yaml.decode (String.join untidyLines) = .ok (.map untidyFields.pairs) := by
    rw [Yaml.decode_join]
    decide +kernel
  exact ⟨htidy, huntidy, alike_lease, parse_eq_of_alike _ _ _ _ htidy huntidy alike_lease⟩

end FlowNotation
