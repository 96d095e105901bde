import FlowNotation.Proofs.Assembling
import FlowNotation.Proofs.FlowTokens

/-! Trees written in flow style are read back. Each node's tokens place the node's tree, whatever
collection it belongs to. -/
namespace FlowNotation.Yaml

theorem Frame.turn_flowSequenceEnd (items : List Tree) (gap : Gap) :
    (flowSequence items (.between gap)).turn .flowSequenceEnd =
      some (.inr (.list items.reverse)) := by
  cases gap with
  | opening => rfl
  | afterEntry => rfl
  | afterComma => rfl

theorem Frame.turn_flowMappingEnd (pairs : List (Tree × Tree)) (gap : Gap) :
    (flowMapping pairs (.between gap)).turn .flowMappingEnd =
      some (.inr (.map pairs.reverse)) := by
  cases gap with
  | opening => rfl
  | afterEntry => rfl
  | afterComma => rfl

namespace Assembly

variable (handles : List String)

def PlacesNode (ts : List Token) (n : Tree) : Prop :=
  -- the tokens of a node place its tree wherever a node is due
  ∀ s s' : Assembly, s.Unmarked → s.place Tree.ofScalar n none = .ok s' →
    Feeds Tree.ofScalar handles ts s s'

def PlacesPair (ts : List Token) (p : Tree × Tree) : Prop :=
  -- the tokens of a pair add it to a mapping, behind its bracket or a comma
  ∀ s : Assembly, s.Unmarked → ∀ pairs gap, gap ≠ .afterEntry →
    Feeds Tree.ofScalar handles ts (s.push (.flowMapping pairs (.between gap)))
      (s.push (.flowMapping (p :: pairs) (.between .afterEntry)))

variable {handles}

/-- A key and its value, read one after the other, are one pair of a mapping. -/
theorem PlacesNode.pair {ks vs : List Token} {k v : Tree} (hk : PlacesNode handles ks k)
    (hv : PlacesNode handles vs v) :
    PlacesPair handles ([.key] ++ ks ++ [.value] ++ vs) (k, v) := by
  intro s h pairs gap hgap
  have hturn : (Frame.flowMapping pairs (.between gap)).turn .key =
      some (.inl (.flowMapping pairs .key)) := by
    cases gap with
    | opening => rfl
    | afterEntry => exact absurd rfl hgap
    | afterComma => rfl
  have hkey : Feeds Tree.ofScalar handles [.key] (s.push (.flowMapping pairs (.between gap)))
      (s.push (.flowMapping pairs .key)) :=
    h.feeds_turn _ _ hturn rfl rfl (fun _ => nofun) (Or.inr rfl)
  have hvalue : Feeds Tree.ofScalar handles [.value] (s.push (.flowMapping pairs (.keyed k)))
      (s.push (.flowMapping pairs (.value k))) :=
    h.feeds_turn _ _ rfl rfl rfl (fun _ => nofun) (Or.inl rfl)
  exact ((hkey.trans (hk _ _ (h.push _) rfl)).trans hvalue).trans (hv _ _ (h.push _) rfl)

/-- The entries of a flow collection, one after the other. `frame` is the collection with its entries
so far, and `Places` says what the tokens of an entry do. -/
theorem feeds_entries {α : Type} (s : Assembly) (frame : List α → Gap → Frame)
    (Places : List Token → α → Prop)
    (hplaces : ∀ ts a, Places ts a → ∀ done gap, gap ≠ .afterEntry →
      Feeds Tree.ofScalar handles ts (s.push (frame done gap))
        (s.push (frame (a :: done) .afterEntry)))
    (hcomma : ∀ done, Feeds Tree.ofScalar handles [.flowEntry] (s.push (frame done .afterEntry))
      (s.push (frame done .afterComma)))
    {tss : List (List Token)} {as : List α} (hentries : List.Forall₂ Places tss as)
    (done : List α) (gap : Gap) (hgap : gap ≠ .afterEntry) :
    ∃ gap', Feeds Tree.ofScalar handles ([.flowEntry].intercalate tss)
      (s.push (frame done gap)) (s.push (frame (as.reverse ++ done) gap')) := by
  induction hentries generalizing done gap with
  | nil => exact ⟨gap, rfl⟩
  | @cons ts a tss as hentry hentries ih =>
    have hfirst := hplaces ts a hentry done gap hgap
    cases hentries with
    | nil =>
      refine ⟨.afterEntry, ?_⟩
      rw [List.intercalate_singleton]
      exact hfirst
    | @cons ts' a' tss as hentry' hentries =>
      obtain ⟨gap', hrest⟩ := ih (a :: done) .afterComma nofun
      have hall := (hfirst.trans (hcomma _)).trans hrest
      refine ⟨gap', ?_⟩
      rw [List.intercalate_cons_cons, List.reverse_cons, List.append_assoc (_ :: _).reverse]
      exact hall

/-- The items of a list are put together, whatever they are. -/
theorem PlacesNode.list {tss : List (List Token)} {items : List Tree}
    (hitems : List.Forall₂ (PlacesNode handles) tss items) :
    PlacesNode handles
      (.flowSequenceStart :: [.flowEntry].intercalate tss ++ [.flowSequenceEnd]) (.list items) := by
  intro s s' h hplace
  have hopen := h.feeds_opening Tree.ofScalar handles (t := .flowSequenceStart)
    (awaitsNode_of_place _ hplace) rfl
  have hitem : ∀ ts n, PlacesNode handles ts n → ∀ done gap, gap ≠ .afterEntry →
      Feeds Tree.ofScalar handles ts (s.push (.flowSequence done (.between gap)))
        (s.push (.flowSequence (n :: done) (.between .afterEntry))) := by
    intro ts n hnode done gap hgap
    apply hnode _ _ (h.push _)
    cases gap with
    | opening => rfl
    | afterEntry => exact absurd rfl hgap
    | afterComma => rfl
  have hcomma : ∀ done, Feeds Tree.ofScalar handles [.flowEntry]
      (s.push (.flowSequence done (.between .afterEntry)))
      (s.push (.flowSequence done (.between .afterComma))) :=
    fun done => h.feeds_turn _ _ rfl rfl rfl (fun _ => nofun) (Or.inr rfl)
  obtain ⟨gap, hrest⟩ := feeds_entries s (fun done gap => .flowSequence done (.between gap)) _
    hitem hcomma hitems [] .opening nofun
  have hturn := Frame.turn_flowSequenceEnd (items.reverse ++ []) gap
  rw [List.append_nil, List.reverse_reverse] at hturn
  rw [List.append_nil] at hrest
  exact (hopen.trans hrest).trans
    (h.feeds_complete _ _ hturn rfl rfl (fun _ => nofun) (Or.inr rfl) hplace)

/-- The pairs of a mapping are put together, whatever they are. -/
theorem PlacesNode.map {tss : List (List Token)} {pairs : List (Tree × Tree)}
    (hpairs : List.Forall₂ (PlacesPair handles) tss pairs) :
    PlacesNode handles
      (.flowMappingStart :: [.flowEntry].intercalate tss ++ [.flowMappingEnd]) (.map pairs) := by
  intro s s' h hplace
  have hopen := h.feeds_opening Tree.ofScalar handles (t := .flowMappingStart)
    (awaitsNode_of_place _ hplace) rfl
  have hcomma : ∀ done, Feeds Tree.ofScalar handles [.flowEntry]
      (s.push (.flowMapping done (.between .afterEntry)))
      (s.push (.flowMapping done (.between .afterComma))) :=
    fun done => h.feeds_turn _ _ rfl rfl rfl (fun _ => nofun) (Or.inr rfl)
  obtain ⟨gap, hrest⟩ := feeds_entries s (fun done gap => .flowMapping done (.between gap)) _
    (fun ts p hpair => hpair s h) hcomma hpairs [] .opening nofun
  have hturn := Frame.turn_flowMappingEnd (pairs.reverse ++ []) gap
  rw [List.append_nil, List.reverse_reverse] at hturn
  rw [List.append_nil] at hrest
  exact (hopen.trans hrest).trans
    (h.feeds_complete _ _ hturn rfl rfl (fun _ => nofun) (Or.inr rfl) hplace)

mutual

theorem placesNode_flowTokens (t : Tree) : PlacesNode handles t.flowTokens t := by
  cases t with
  | null => exact fun s s' h hplace => h.feeds_scalar _ _ _ _ hplace
  | text w => exact fun s s' h hplace => h.feeds_scalar _ _ w false hplace
  | list items => exact .list (placesNode_flowItemTokens items)
  | map pairs => exact .map (placesPair_flowPairTokens pairs)

theorem placesNode_flowItemTokens (items : List Tree) :
    List.Forall₂ (PlacesNode handles) (Tree.flowItemTokens items) items := by
  cases items with
  | nil => exact .nil
  | cons t rest => exact .cons (placesNode_flowTokens t) (placesNode_flowItemTokens rest)

theorem placesPair_flowPairTokens (pairs : List (Tree × Tree)) :
    List.Forall₂ (PlacesPair handles) (Tree.flowPairTokens pairs) pairs := by
  match pairs with
  | [] => exact .nil
  | (k, v) :: rest =>
    exact .cons ((placesNode_flowTokens k).pair (placesNode_flowTokens v))
      (placesPair_flowPairTokens rest)

end

end Assembly

/-- Reading inverts writing: of no tree is anything lost, merged, moved or taken for something else,
however deep it stands and whichever case the digits of its escapes have. -/
theorem decode_flow (upper : Bool) (t : Tree) :
    decode (String.ofList (t.flow upper)) = .ok t := by
  have hne : t.flowTokens ≠ [] := by
    cases t with
    | null => exact nofun
    | text s => exact nofun
    | list items => exact nofun
    | map pairs => exact nofun
  rw [decode, read, String.toList_ofList, tokens_flow]
  apply Tree.ofTokens_of_feeds _ _ _ hne
  intro handles
  exact Assembly.placesNode_flowTokens t Assembly.start _ ⟨rfl, rfl, rfl⟩ rfl

end FlowNotation.Yaml
