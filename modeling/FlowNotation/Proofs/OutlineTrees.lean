import FlowNotation.Proofs.Assembling
import FlowNotation.Proofs.OutlineTokens

/-! Outlines are read back. An entry with nothing behind its key is completed only at the token after
it, so a mapping may be open in one of two ways between its entries. -/
namespace FlowNotation.Yaml
open Text

namespace Outline

mutual

def toTree : Outline → Tree
  -- The tree of an outline. A key with neither a phrase nor entries has null for its value.
  | phrase words => .text (ofChars ([' '].intercalate words))
  | entries [] => .null
  | entries (e :: es) => .map (pairs (e :: es))

def pairs : List (List Char × Outline) → List (Tree × Tree)
  | [] => []
  | (k, o) :: rest => (.text (ofChars k), o.toTree) :: pairs rest

end

end Outline

inductive Frame.Holds : List (Tree × Tree) → Frame → Prop
  -- the frame is a block mapping with these pairs, if the value of the last one may be absent
  | between (pairs : List (Tree × Tree)) (gap : Gap) :
    Holds pairs (.blockMapping pairs (.between gap))
  | valueless (pairs : List (Tree × Tree)) (k : Tree) :
    Holds ((k, .null) :: pairs) (.blockMapping pairs (.value k))

theorem Tree.ofScalar_of_not_null (s : Text) (h : s ∉ nullWords) : ofScalar s true = .text s := by
  have hcontains : nullWords.contains s = false := by simpa using h
  rw [ofScalar, hcontains]
  rfl

namespace Assembly

variable (handles : List String)

/-- A token between the entries of a block mapping finds the last pair complete. -/
theorem Unmarked.feed_of_holds {s : Assembly} (h : s.Unmarked) {f : Frame}
    {pairs : List (Tree × Tree)} (hf : f.Holds pairs) (t : Token) (ht : t = .key ∨ t = .blockEnd) :
    ∃ gap : Gap, (s.push f).feed Tree.ofScalar handles t =
      (s.push (.blockMapping pairs (.between gap))).turn Tree.ofScalar t := by
  have hturn : t.isTurn = true := by
    rcases ht with rfl | rfl
    · rfl
    · rfl
  cases hf with
  | between pairs gap =>
    exact ⟨gap, h.feed_push _ _ _ t hturn rfl (fun _ hblock => by cases hblock) (Or.inr rfl)⟩
  | valueless pairs k =>
    have homit : (Frame.blockMapping pairs (.value k)).mayOmit t = true := by
      rcases ht with rfl | rfl
      · rfl
      · rfl
    exact ⟨.afterEntry, h.feed_push_of_mayOmit _ _ hturn homit rfl
      (fun _ hblock => by cases hblock) (Or.inr rfl)⟩

theorem Unmarked.feeds_key {s : Assembly} (h : s.Unmarked) {f : Frame}
    {pairs : List (Tree × Tree)} (hf : f.Holds pairs) :
    Feeds Tree.ofScalar handles [.key] (s.push f) (s.push (.blockMapping pairs .key)) := by
  obtain ⟨gap, hfeed⟩ := h.feed_of_holds handles hf .key (Or.inl rfl)
  rw [feeds_singleton_iff, hfeed]
  exact turn_push _ rfl

theorem Unmarked.feeds_blockEnd {s : Assembly} (h : s.Unmarked) {f : Frame}
    {pairs : List (Tree × Tree)} (hf : f.Holds pairs) {s' : Assembly}
    (hplace : s.place Tree.ofScalar (.map pairs.reverse) none = .ok s') :
    Feeds Tree.ofScalar handles [.blockEnd] (s.push f) s' := by
  obtain ⟨gap, hfeed⟩ := h.feed_of_holds handles hf .blockEnd (Or.inr rfl)
  rw [feeds_singleton_iff, hfeed, turn_push_of_complete _ rfl]
  exact hplace

/-- A level of entries, from its first key to the next line further left. -/
theorem Unmarked.feeds_block {s s' : Assembly} (h : s.Unmarked) (hblock : s.inBlock = true)
    {pairs : List (Tree × Tree)} {ts : List Token} {f : Frame} (hf : f.Holds (pairs.reverse ++ []))
    (hentries : Feeds Tree.ofScalar handles ts (s.push (.blockMapping [] (.between .opening)))
      (s.push f))
    (hplace : s.place Tree.ofScalar (.map pairs) none = .ok s') :
    Feeds Tree.ofScalar handles (.blockMappingStart :: ts ++ [.blockEnd]) s s' := by
  have hbegin : s.beginNode Tree.ofScalar handles .blockMappingStart =
      some (s.openFrame (.blockMapping [] (.between .opening))) := by
    rw [beginNode, if_pos hblock]
  have hopen := h.feeds_opening Tree.ofScalar handles (awaitsNode_of_place _ hplace) hbegin
  have hclose : Feeds Tree.ofScalar handles [.blockEnd] (s.push f) s' := by
    refine h.feeds_blockEnd handles hf ?_
    rw [List.append_nil, List.reverse_reverse]
    exact hplace
  exact (hopen.trans hentries).trans hclose

/-- The key of an entry and its colon. -/
theorem Unmarked.feeds_keyTokens {s : Assembly} (h : s.Unmarked) {f : Frame}
    {pairs : List (Tree × Tree)} (hf : f.Holds pairs) {k : List Char} (hk : Outline.IsKey k) :
    Feeds Tree.ofScalar handles (Outline.keyTokens k) (s.push f)
      (s.push (.blockMapping pairs (.value (.text (ofChars k))))) := by
  have hscalar : Feeds Tree.ofScalar handles [.scalar (ofChars k) true]
      (s.push (.blockMapping pairs .key))
      (s.push (.blockMapping pairs (.keyed (.text (ofChars k))))) := by
    apply (h.push _).feeds_scalar
    rw [Tree.ofScalar_of_not_null _ hk.not_null]
    rfl
  have hvalue : Feeds Tree.ofScalar handles [.value]
      (s.push (.blockMapping pairs (.keyed (.text (ofChars k)))))
      (s.push (.blockMapping pairs (.value (.text (ofChars k))))) :=
    h.feeds_turn _ _ rfl rfl rfl (fun _ => nofun) (Or.inl rfl)
  exact ((h.feeds_key handles hf).trans hscalar).trans hvalue

-- Entries leave the frame in one of the ways of `Holds`: the value of the last one may be absent, and
-- only the token behind it tells.
mutual

theorem Unmarked.feeds_entry {s : Assembly} (h : s.Unmarked) {f : Frame}
    {pairs : List (Tree × Tree)} (hf : f.Holds pairs) {k : List Char} (hk : Outline.IsKey k)
    (o : Outline) (ho : o.IsPlain) :
    ∃ f', Frame.Holds ((.text (ofChars k), o.toTree) :: pairs) f' ∧
      Feeds Tree.ofScalar handles (Outline.keyTokens k ++ o.tokens) (s.push f) (s.push f') := by
  have hkey := h.feeds_keyTokens handles hf hk
  cases o with
  | phrase words =>
    refine ⟨_, .between _ .afterEntry, hkey.trans ?_⟩
    apply (h.push _).feeds_scalar
    rw [Tree.ofScalar_of_not_null _ ho.not_null]
    rfl
  | entries es =>
    match es, ho with
    | [], _ =>
      refine ⟨_, .valueless pairs _, ?_⟩
      simpa [Outline.tokens] using hkey
    | (k', o') :: es, ho =>
      have hu := h.push (.blockMapping pairs (.value (.text (ofChars k))))
      obtain ⟨f', hf', hentries⟩ := hu.feeds_entries (.between [] .opening) ((k', o') :: es) ho
      exact ⟨_, .between _ .afterEntry, hkey.trans (hu.feeds_block handles rfl hf' hentries rfl)⟩

theorem Unmarked.feeds_entries {s : Assembly} (h : s.Unmarked) {f : Frame}
    {pairs : List (Tree × Tree)} (hf : f.Holds pairs) (es : List (List Char × Outline))
    (hes : Outline.ArePlain es) :
    ∃ f', Frame.Holds ((Outline.pairs es).reverse ++ pairs) f' ∧
      Feeds Tree.ofScalar handles (Outline.entryTokens es) (s.push f) (s.push f') := by
  match es, hes with
  | [], _ => exact ⟨f, hf, rfl⟩
  | (k, o) :: rest, hes =>
    obtain ⟨f₁, hf₁, hfirst⟩ := h.feeds_entry hf hes.1 o hes.2.1
    obtain ⟨f₂, hf₂, hrest⟩ := h.feeds_entries hf₁ rest hes.2.2
    refine ⟨f₂, ?_, hfirst.trans hrest⟩
    rw [Outline.pairs, List.reverse_cons, List.append_assoc]
    exact hf₂

end

end Assembly

/-- Reading inverts the writing of lines. -/
theorem decode_lines (es : List (List Char × Outline)) (hne : es ≠ [])
    (hes : Outline.ArePlain es) :
    decode (String.ofList (Outline.lines 0 es)) = .ok (.map (Outline.pairs es)) := by
  rw [decode, read, String.toList_ofList, Outline.tokens_lines es hne hes]
  obtain ⟨e, es, rfl⟩ := List.exists_cons_of_ne_nil hne
  apply Tree.ofTokens_of_feeds _ _ _ (by simp [Outline.tokens])
  intro handles
  have hu : Assembly.start.Unmarked := ⟨rfl, rfl, rfl⟩
  obtain ⟨f, hf, hentries⟩ := hu.feeds_entries handles (.between [] .opening) _ hes
  exact hu.feeds_block handles rfl hf hentries rfl

end FlowNotation.Yaml
