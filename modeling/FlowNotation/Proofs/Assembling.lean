import FlowNotation.Yaml.Read
import FlowNotation.Proofs.Readings
import Mathlib.Data.List.TakeWhile

/-! From tokens to a tree, one token after the other. Where neither an anchor nor a tag stands before
a node, a token either starts the node that is due or turns the innermost collection on; nodes that
are not written are put in before that. -/
namespace FlowNotation.Yaml

def Token.isTurn : Token → Bool
  -- tokens that neither start a node nor belong to one
  | flowEntry | flowSequenceEnd | flowMappingEnd | key | value | blockEnd => true
  | _ => false

namespace Assembly

variable (scalar : Text → Bool → Tree) (handles : List String)

structure Unmarked (s : Assembly) : Prop where
  -- no anchor and no tag stands before the node that is due
  anchor_eq : s.anchor = none
  tagged_eq : s.tagged = false
  unchecked_eq : s.unchecked = none

def push (s : Assembly) (f : Frame) : Assembly :=
  { s with stack := (f, none) :: s.stack }

/-- Only a list without indentation ends by the token behind it. -/
theorem endIndentless_push (s : Assembly) (f : Frame) (t : Token)
    (h : ∀ items, f ≠ .indentless items false) :
    (s.push f).endIndentless scalar t = .ok (s.push f) := by
  rw [endIndentless]
  split
  · next items a outer heq => exact absurd (congrArg Prod.fst (List.cons.inj heq).1) (h items)
  · rfl

theorem endKey_push (s : Assembly) (f : Frame) (t : Token)
    (h : t = .value ∨ f.fillValue (absent scalar) = f) : (s.push f).endKey scalar t = s.push f := by
  rw [endKey, push]
  by_cases hv : t = .value
  · simp only [hv, if_true]
  · simp only [hv, if_false, h.resolve_left hv]

/-- A token that turns the collection on starts no node, and neither does a document mark. -/
theorem ite_beginNode_eq_none (s : Assembly) (t : Token)
    (ht : t.isTurn = true ∨ t.isDocumentMark = true) :
    (if s.awaitsNode then s.beginNode scalar handles t else none) = none := by
  split
  · cases t <;> first | rfl | simp [Token.isTurn, Token.isDocumentMark] at ht
  · rfl

theorem turn_push {s : Assembly} {f f' : Frame} {t : Token} (h : f.turn t = some (.inl f')) :
    (s.push f).turn scalar t = .ok (s.push f') := by
  unfold turn
  dsimp only [push]
  rw [h]
  rfl

theorem turn_push_of_complete {s : Assembly} {f : Frame} {t : Token} {n : Tree}
    (h : f.turn t = some (.inr n)) :
    (s.push f).turn scalar t = s.place scalar n none := by
  unfold turn
  dsimp only [push]
  rw [h]

theorem awaitsNode_of_place {s s' : Assembly} {n : Tree}
    (h : s.place scalar n none = .ok s') : s.awaitsNode = true := by
  have haccept : ∀ f f' : Frame, f.accept (absent scalar) n = some f' →
      (f.accept .null .null).isSome = true := by
    intro f f' hf
    unfold Frame.accept at hf ⊢
    split at hf <;> first | rfl | cases hf
  unfold place at h
  dsimp only at h
  split at h
  · next hs =>
    split at h
    · next hroot =>
      rw [awaitsNode, hs]
      exact hroot
    · cases h
  · next f a outer hs =>
    split at h
    · next f' hf =>
      rw [awaitsNode, hs]
      exact haccept f f' hf
    · cases h

/-! ## Runs -/

def Feeds (ts : List Token) (s s' : Assembly) : Prop :=
  ts.foldlM (feed scalar handles) s = .ok s'

theorem feeds_singleton_iff (t : Token) (s s' : Assembly) :
    Feeds scalar handles [t] s s' ↔ s.feed scalar handles t = .ok s' := by
  rw [Feeds, List.foldlM_cons, bind_eq_ok_iff]
  simp [pure, Except.pure]

variable {scalar handles} in
theorem Feeds.trans {ts ts' : List Token} {s s' s'' : Assembly}
    (h : Feeds scalar handles ts s s') (h' : Feeds scalar handles ts' s' s'') :
    Feeds scalar handles (ts ++ ts') s s'' := by
  rw [Feeds, List.foldlM_append, bind_eq_ok_iff]
  exact ⟨s', h, h'⟩

variable {s : Assembly} (h : s.Unmarked)
include h

theorem Unmarked.push (f : Frame) : (s.push f).Unmarked :=
  ⟨h.anchor_eq, h.tagged_eq, h.unchecked_eq⟩

theorem Unmarked.checkHandle_eq : s.checkHandle handles = .ok s := by
  have hall : s.unchecked.all handles.contains = true := by
    rw [h.unchecked_eq]
    rfl
  rw [checkHandle, if_pos hall, ← h.unchecked_eq]
  rfl

theorem Unmarked.takeAnchor_eq : s.takeAnchor = .ok (none, s) := by
  have hs : { s with tagged := false } = s := by rw [← h.tagged_eq]
  unfold takeAnchor
  split
  · rw [hs]
    rfl
  · next a ha => cases ha.symm.trans h.anchor_eq

theorem Unmarked.openFrame_eq (f : Frame) : s.openFrame f = .ok (s.push f) := by
  rw [openFrame, h.takeAnchor_eq]
  rfl

/-- A scalar is placed where a node is due. -/
theorem Unmarked.feeds_scalar (text : Text) (plain : Bool) {s' : Assembly}
    (hplace : s.place scalar (scalar text plain) none = .ok s') :
    Feeds scalar handles [.scalar text plain] s s' := by
  have hawaits := awaitsNode_of_place scalar hplace
  rw [feeds_singleton_iff, feed, h.checkHandle_eq]
  simp only [bind, Except.bind, hawaits, if_true, beginNode, placeLeaf, h.takeAnchor_eq, hplace]

/-- So is a collection opened. -/
theorem Unmarked.feeds_opening {t : Token} {f : Frame} (hawaits : s.awaitsNode = true)
    (hbegin : s.beginNode scalar handles t = some (s.openFrame f)) :
    Feeds scalar handles [t] s (s.push f) := by
  rw [feeds_singleton_iff, feed, h.checkHandle_eq]
  simp only [bind, Except.bind, hawaits, if_true, hbegin, h.openFrame_eq]

/-- Any other token may leave out the node that is due, and then turns the collection on. -/
theorem Unmarked.feed_turn (t : Token) (ht : t.isTurn = true) :
    s.feed scalar handles t = (do
      let s ← s.omitNode scalar t
      let s ← s.endIndentless scalar t
      (s.endKey scalar t).turn scalar t) := by
  have hbegin := ite_beginNode_eq_none scalar handles s t (Or.inl ht)
  rw [feed, h.checkHandle_eq]
  simp only [bind, Except.bind, hbegin]

theorem Unmarked.not_marked : (s.anchor.isSome || s.tagged) = false := by
  rw [h.anchor_eq, h.tagged_eq]
  rfl

theorem Unmarked.omitNode_of_not_mayOmit (f : Frame) (t : Token) (hf : f.mayOmit t = false) :
    (s.push f).omitNode scalar t = .ok (s.push f) := by
  have hhead : ((s.push f).stack.head?.any fun e => e.1.mayOmit t) = false := hf
  rw [omitNode, (h.push f).not_marked, hhead]
  simp
  rfl

/-- Where no node may be left out, the token does what it does to the collection. -/
theorem Unmarked.feed_push (f : Frame) (t : Token) (ht : t.isTurn = true)
    (homit : f.mayOmit t = false) (hblock : ∀ items, f ≠ .indentless items false)
    (hkey : t = .value ∨ f.fillValue (absent scalar) = f) :
    (s.push f).feed scalar handles t = (s.push f).turn scalar t := by
  rw [(h.push f).feed_turn scalar handles t ht, h.omitNode_of_not_mayOmit scalar f t homit]
  simp only [bind, Except.bind, endIndentless_push scalar s f t hblock, endKey_push scalar s f t hkey]

/-- A token between two nodes is taken by the innermost collection. -/
theorem Unmarked.feeds_turn {f f' : Frame} {t : Token} (hturn : f.turn t = some (.inl f'))
    (ht : t.isTurn = true) (homit : f.mayOmit t = false)
    (hblock : ∀ items, f ≠ .indentless items false)
    (hkey : t = .value ∨ f.fillValue (absent scalar) = f) :
    Feeds scalar handles [t] (s.push f) (s.push f') := by
  rw [feeds_singleton_iff, h.feed_push scalar handles f t ht homit hblock hkey]
  exact turn_push scalar hturn

/-- A collection that is complete takes the place that was due. -/
theorem Unmarked.feeds_complete {f : Frame} {t : Token} {n : Tree} {s' : Assembly}
    (hturn : f.turn t = some (.inr n)) (ht : t.isTurn = true) (homit : f.mayOmit t = false)
    (hblock : ∀ items, f ≠ .indentless items false)
    (hkey : t = .value ∨ f.fillValue (absent scalar) = f)
    (hplace : s.place scalar n none = .ok s') :
    Feeds scalar handles [t] (s.push f) s' := by
  rw [feeds_singleton_iff, h.feed_push scalar handles f t ht homit hblock hkey,
    turn_push_of_complete scalar hturn]
  exact hplace

/-- Where the node that is due may be left out, the collection gets an absent one first. -/
theorem Unmarked.feed_push_of_mayOmit {f f' : Frame} {t : Token} (ht : t.isTurn = true)
    (homit : f.mayOmit t = true)
    (haccept : f.accept (absent scalar) (absent scalar) = some f')
    (hblock : ∀ items, f' ≠ .indentless items false)
    (hkey : t = .value ∨ f'.fillValue (absent scalar) = f') :
    (s.push f).feed scalar handles t = (s.push f').turn scalar t := by
  have hplace : (s.push f).place scalar (absent scalar) none = .ok (s.push f') := by
    unfold place
    dsimp only [Assembly.push]
    rw [haccept]
    rfl
  have hawaits := awaitsNode_of_place scalar hplace
  have hplaced : (s.push f).omitNode scalar t = .ok (s.push f') := by
    have hhead : ((s.push f).stack.head?.any fun e => e.1.mayOmit t) = true := homit
    simp only [omitNode, hawaits, (h.push f).not_marked, hhead, placeLeaf, (h.push f).takeAnchor_eq, bind,
      Except.bind, hplace]
    rfl
  rw [(h.push f).feed_turn scalar handles t ht, hplaced]
  simp only [bind, Except.bind, endIndentless_push scalar s f' t hblock,
    endKey_push scalar s f' t hkey]

omit h

/-! ## Documents -/

theorem turn_documentMark (t : Token) (ht : t.isDocumentMark = true) :
    s.turn scalar t = .error .malformed := by
  have hframe : ∀ f : Frame, f.turn t = none := by
    intro f
    fun_cases Frame.turn f t <;> first | rfl | cases ht
  unfold turn
  split
  · rfl
  · rw [hframe]
    rfl

/-- No document mark stands among the tokens of a document. -/
theorem not_isDocumentMark_of_feed {s' : Assembly} {t : Token}
    (hfeed : s.feed scalar handles t = .ok s') : t.isDocumentMark = false := by
  rw [Bool.eq_false_iff]
  intro ht
  obtain ⟨s₁, -, hfeed⟩ := (bind_eq_ok_iff _ _ _).mp hfeed
  rw [ite_beginNode_eq_none scalar handles s₁ t (Or.inr ht)] at hfeed
  obtain ⟨s₂, -, hfeed⟩ := (bind_eq_ok_iff _ _ _).mp hfeed
  obtain ⟨s₃, -, hfeed⟩ := (bind_eq_ok_iff _ _ _).mp hfeed
  rw [turn_documentMark scalar t ht] at hfeed
  cases hfeed

/-- While tokens are put together no document ends. -/
theorem not_isDocumentMark_of_feeds {s s' : Assembly} {ts : List Token}
    (hfeeds : Feeds scalar handles ts s s') : ∀ t ∈ ts, t.isDocumentMark = false := by
  unfold Feeds at hfeeds
  induction ts generalizing s with
  | nil => exact nofun
  | cons t ts ih =>
    rw [List.foldlM_cons] at hfeeds
    obtain ⟨s₁, hfeed, hfeeds⟩ := (bind_eq_ok_iff _ _ _).mp hfeeds
    intro t' ht'
    rcases List.mem_cons.mp ht' with rfl | ht'
    · exact not_isDocumentMark_of_feed scalar handles hfeed
    · exact ih hfeeds t' ht'

end Assembly

/-- Tokens that place one node make a document of it. -/
theorem Tree.ofTokens_of_feeds (scalar : Text → Bool → Tree) (ts : List Token) (n : Tree)
    (hne : ts ≠ [])
    (hfeeds : ∀ handles, Assembly.Feeds scalar handles ts Assembly.start
      { Assembly.start with root := some n }) : Tree.ofTokens scalar ⟨ts, none⟩ = .ok n := by
  obtain ⟨t, ts, rfl⟩ := List.exists_cons_of_ne_nil hne
  have hmarks := Assembly.not_isDocumentMark_of_feeds scalar [] (hfeeds [])
  have hdirectives : takeDirectives (t :: ts) = ([], t :: ts) := by
    have ht := hmarks t List.mem_cons_self
    unfold takeDirectives
    split
    · next heq =>
      rw [(List.cons.inj heq).1] at ht
      cases ht
    · rfl
  have hstart : (t :: ts).head? ≠ some .documentStart := by
    intro heq
    have ht := hmarks t List.mem_cons_self
    rw [Option.some.inj heq] at ht
    cases ht
  have hcontent : (t :: ts).takeWhile (fun t => !t.isDocumentMark) = t :: ts := by
    rw [List.takeWhile_eq_self_iff]
    intro t' ht'
    rw [hmarks t' ht']
    rfl
  have hhandles : handlesOf [] = .ok ["!", "!!"] := by decide
  have hfold : (t :: ts).foldlM (Assembly.feed scalar ["!", "!!"]) Assembly.start =
      .ok { Assembly.start with root := some n } := hfeeds _
  have hfinish : Assembly.finish scalar ["!", "!!"] { Assembly.start with root := some n } =
      .ok n := rfl
  have hend : Tokens.endDocument ⟨t :: ts, none⟩ [] = .ok () := rfl
  simp only [ofTokens, hdirectives, hhandles, hstart, bind, Except.bind, if_false, hcontent,
    List.drop_length, hfold, hfinish, hend, hne, ne_eq, false_and, not_true_eq_false,
    if_true]
  rfl

end FlowNotation.Yaml
