import FlowNotation.Yaml.Fault
import FlowNotation.Yaml.Token
import FlowNotation.Yaml.Tree

/-! From tokens to a tree. The open collections form a stack, and each token closes, opens or fills
one of them. Nodes that are not written are empty scalars. -/
namespace FlowNotation.Yaml

/-- Between the entries of a flow collection: behind the bracket, behind an entry, behind a comma.
-/
inductive Gap
  | opening
  | afterEntry
  | afterComma
  deriving DecidableEq, Repr

/-- How far a pair has been read. -/
inductive Stage
  | between (gap : Gap)
  -- the key indicator was read
  | key
  -- the key was read
  | keyed (k : Tree)
  -- the value indicator was read
  | value (k : Tree)

/-- An open collection with its entries so far, the last one first. -/
inductive Frame
  -- `due` says that an entry's dash was read and its node was not
  | blockSequence (items : List Tree) (due : Bool)
  -- a sequence that is a mapping's key or value and not indented further than the mapping
  | indentless (items : List Tree) (due : Bool)
  | blockMapping (pairs : List (Tree × Tree)) (stage : Stage)
  -- an entry may be a single pair
  | flowSequence (items : List Tree) (stage : Stage)
  | flowMapping (pairs : List (Tree × Tree)) (stage : Stage)

namespace Frame

/-- Gives a node or an absent node its place; `none` where no node is due. A node without key
indicator in a flow mapping is a key with an empty value. -/
def accept (empty n : Tree) : Frame → Option Frame
  | blockSequence items true => some (blockSequence (n :: items) false)
  | indentless items true => some (indentless (n :: items) false)
  | blockMapping pairs .key => some (blockMapping pairs (.keyed n))
  | blockMapping pairs (.value k) => some (blockMapping ((k, n) :: pairs) (.between .afterEntry))
  | flowSequence items .key => some (flowSequence items (.keyed n))
  | flowSequence items (.value k) =>
    some (flowSequence (.map [(k, n)] :: items) (.between .afterEntry))
  | flowSequence items (.between .opening) =>
    some (flowSequence (n :: items) (.between .afterEntry))
  | flowSequence items (.between .afterComma) =>
    some (flowSequence (n :: items) (.between .afterEntry))
  | flowMapping pairs .key => some (flowMapping pairs (.keyed n))
  | flowMapping pairs (.value k) => some (flowMapping ((k, n) :: pairs) (.between .afterEntry))
  | flowMapping pairs (.between .opening) =>
    some (flowMapping ((n, empty) :: pairs) (.between .afterEntry))
  | flowMapping pairs (.between .afterComma) =>
    some (flowMapping ((n, empty) :: pairs) (.between .afterEntry))
  | _ => none

/-- A token before which the due node may be left out. -/
def mayOmit : Frame → Token → Bool
  | blockSequence _ true, t => t = .blockEntry || t = .blockEnd
  | indentless _ true, t => t = .blockEntry || t = .key || t = .value || t = .blockEnd
  | blockMapping _ .key, t => t = .key || t = .value || t = .blockEnd
  | blockMapping _ (.value _), t => t = .key || t = .value || t = .blockEnd
  | flowSequence _ .key, t => t = .value || t = .flowEntry || t = .flowSequenceEnd
  | flowSequence _ (.value _), t => t = .flowEntry || t = .flowSequenceEnd
  | flowMapping _ .key, t => t = .value || t = .flowEntry || t = .flowMappingEnd
  | flowMapping _ (.value _), t => t = .flowEntry || t = .flowMappingEnd
  | _, _ => false

/-- Block collections may start here. -/
def isBlock : Frame → Bool
  | flowSequence .. | flowMapping .. => false
  | _ => true

/-- A dash starts a sequence without indentation of its own here. -/
def allowsIndentless : Frame → Bool
  | blockMapping _ .key | blockMapping _ (.value _) => true
  | _ => false

/-- A pair with a key and no value indicator gets the empty value. -/
def fillValue (empty : Tree) : Frame → Frame
  | blockMapping pairs (.keyed k) => blockMapping ((k, empty) :: pairs) (.between .afterEntry)
  | flowSequence items (.keyed k) =>
    flowSequence (.map [(k, empty)] :: items) (.between .afterEntry)
  | flowMapping pairs (.keyed k) => flowMapping ((k, empty) :: pairs) (.between .afterEntry)
  | f => f

/-- What a token without node makes of the frame: it goes on, or it is complete. -/
def turn : Frame → Token → Option (Frame ⊕ Tree)
  | blockSequence items false, .blockEntry => some (.inl (blockSequence items true))
  | blockSequence items false, .blockEnd => some (.inr (.list items.reverse))
  | indentless items false, .blockEntry => some (.inl (indentless items true))
  | blockMapping pairs (.between _), .key => some (.inl (blockMapping pairs .key))
  | blockMapping pairs (.between _), .blockEnd => some (.inr (.map pairs.reverse))
  | blockMapping pairs (.keyed k), .value => some (.inl (blockMapping pairs (.value k)))
  | flowSequence items (.between .afterEntry), .flowEntry =>
    some (.inl (flowSequence items (.between .afterComma)))
  | flowSequence items (.between _), .flowSequenceEnd => some (.inr (.list items.reverse))
  | flowSequence items (.between .opening), .key => some (.inl (flowSequence items .key))
  | flowSequence items (.between .afterComma), .key => some (.inl (flowSequence items .key))
  | flowSequence items (.keyed k), .value => some (.inl (flowSequence items (.value k)))
  | flowMapping pairs (.between .afterEntry), .flowEntry =>
    some (.inl (flowMapping pairs (.between .afterComma)))
  | flowMapping pairs (.between _), .flowMappingEnd => some (.inr (.map pairs.reverse))
  | flowMapping pairs (.between .opening), .key => some (.inl (flowMapping pairs .key))
  | flowMapping pairs (.between .afterComma), .key => some (.inl (flowMapping pairs .key))
  | flowMapping pairs (.keyed k), .value => some (.inl (flowMapping pairs (.value k)))
  | _, _ => none

end Frame

/-- A document read up to some token. -/
structure Assembly where
  -- the open collections with their anchors, the innermost first
  stack : List (Frame × Option String)
  -- the finished document
  root : Option Tree
  -- the anchor read for the node that is due
  anchor : Option String
  -- a tag was read for the node that is due
  tagged : Bool
  -- the handle of that tag, if it is still to be checked
  unchecked : Option String
  -- the anchors of all nodes that were started
  anchors : List String
  -- the finished nodes with anchors
  anchored : List (String × Tree)
  -- an alias stands within the node that it names
  recursive : Bool

namespace Assembly

def start : Assembly := ⟨[], none, none, false, none, [], [], false⟩

variable (scalar : Text → Bool → Tree) (handles : List String)

/-- The node that stands where none is written. -/
def absent : Tree := scalar [] true

def awaitsNode (s : Assembly) : Bool :=
  match s.stack with
  | [] => s.root.isNone
  | (f, _) :: _ => (f.accept .null .null).isSome

/-- Takes over the anchor and the tag read before a node. No two nodes have the same anchor. -/
def takeAnchor (s : Assembly) : Except Fault (Option String × Assembly) :=
  match s.anchor with
  | none => pure (none, { s with tagged := false })
  | some a =>
    if s.anchors.contains a then throw .malformed
    else pure (some a, { s with anchor := none, tagged := false, anchors := a :: s.anchors })

/-- Gives a finished node its place. -/
def place (n : Tree) (anchor : Option String) (s : Assembly) : Except Fault Assembly :=
  let s := match anchor with
    | none => s
    | some a => { s with anchored := (a, n) :: s.anchored }
  match s.stack with
  | [] => if s.root.isNone then pure { s with root := some n } else throw .malformed
  | (f, a) :: outer =>
    match f.accept (absent scalar) n with
    | some f => pure { s with stack := (f, a) :: outer }
    | none => throw .malformed

/-- Places a leaf under the anchor read before it. -/
def placeLeaf (n : Tree) (s : Assembly) : Except Fault Assembly := do
  let (a, s) ← s.takeAnchor
  s.place scalar n a

def openFrame (f : Frame) (s : Assembly) : Except Fault Assembly := do
  let (a, s) ← s.takeAnchor
  return { s with stack := (f, a) :: s.stack }

/-- Block collections may start at the node that is due. -/
def inBlock (s : Assembly) : Bool := s.stack.head?.all fun e => e.1.isBlock

/-- Checks that the handle of a tag is one that the document may use. -/
def checkHandle (s : Assembly) : Except Fault Assembly :=
  if s.unchecked.all handles.contains then pure { s with unchecked := none } else throw .malformed

/-- The effect of a token that belongs to the due node; `none` if it does not. The handle of a tag
is checked when no anchor can follow: at once behind an anchor, else at the next token. -/
def beginNode (s : Assembly) : Token → Option (Except Fault Assembly)
  | .alias name =>
    if s.anchor.isSome || s.tagged then none
    else some <| match s.anchored.find? fun e => e.1 = name with
      | some (_, n) => s.place scalar n none
      | none =>
        if s.anchors.contains name then { s with recursive := true }.place scalar .null none
        else throw .malformed
  | .anchor name => if s.anchor.isSome then none else some (pure { s with anchor := some name })
  | .tag handle =>
    if s.tagged then none
    else
      let s := { s with tagged := true, unchecked := handle }
      some (if s.anchor.isSome then s.checkHandle handles else pure s)
  | .scalar text plain => some (s.placeLeaf scalar (scalar text plain))
  | .flowSequenceStart => some (s.openFrame (.flowSequence [] (.between .opening)))
  | .flowMappingStart => some (s.openFrame (.flowMapping [] (.between .opening)))
  | .blockSequenceStart => if s.inBlock then some (s.openFrame (.blockSequence [] false)) else none
  | .blockMappingStart =>
    if s.inBlock then some (s.openFrame (.blockMapping [] (.between .opening))) else none
  | .blockEntry =>
    if s.stack.head?.any fun e => e.1.allowsIndentless then some (s.openFrame (.indentless [] true))
    else none
  | _ => none

/-- Leaves out the due node before token `t`. A node with an anchor or a tag may be left out
anywhere, others only where the collection allows it. -/
def omitNode (t : Token) (s : Assembly) : Except Fault Assembly :=
  if s.awaitsNode = false then pure s
  else if s.anchor.isSome || s.tagged then s.placeLeaf scalar (absent scalar)
  else if s.stack.head?.any fun e => e.1.mayOmit t then s.placeLeaf scalar (absent scalar)
  else pure s

/-- A sequence without indentation ends before any token but a dash. -/
def endIndentless (t : Token) (s : Assembly) : Except Fault Assembly :=
  match s.stack with
  | (.indentless items false, a) :: outer =>
    if t = .blockEntry then pure s
    else { s with stack := outer }.place scalar (.list items.reverse) a
  | _ => pure s

/-- A key without value indicator gets the empty value. -/
def endKey (t : Token) (s : Assembly) : Assembly :=
  match s.stack with
  | (f, a) :: outer =>
    if t = .value then s else { s with stack := (f.fillValue (absent scalar), a) :: outer }
  | [] => s

/-- Turns the innermost collection on with a token that belongs to it. -/
def turn (t : Token) (s : Assembly) : Except Fault Assembly :=
  match s.stack with
  | [] => throw .malformed
  | (f, a) :: outer =>
    match f.turn t with
    | some (.inl f) => pure { s with stack := (f, a) :: outer }
    | some (.inr n) => { s with stack := outer }.place scalar n a
    | none => throw .malformed

def feed (s : Assembly) (t : Token) : Except Fault Assembly := do
  let s ← s.checkHandle handles
  match if s.awaitsNode then s.beginNode scalar handles t else none with
  | some r => r
  | none => do
    let s ← s.omitNode scalar t
    let s ← s.endIndentless scalar t
    (s.endKey scalar t).turn scalar t

/-- The document's tree once all its tokens are read. Its root may be left out behind an anchor or a
tag. -/
def finish (s : Assembly) : Except Fault Tree := do
  let s ← s.checkHandle handles
  let s ←
    if s.stack.isEmpty && (s.anchor.isSome || s.tagged) then s.placeLeaf scalar (absent scalar)
    else pure s
  match s.stack, s.root with
  | [], some n => return n
  | _, _ => throw .malformed

end Assembly

/-- The handles that a document may use: the two that every document has, and those that its
directives name. A handle or a version may be given once, and the version has to be of the first
generation. -/
def handlesOf (ds : List Directive) : Except Fault (List String) := do
  let versions := ds.filterMap fun | .version n => some n | _ => none
  let handles := ds.filterMap fun | .tagHandle h => some h | _ => none
  if versions.length ≤ 1 ∧ versions.all (· = 1) ∧ handles.Nodup then return "!" :: "!!" :: handles
  else throw .malformed

def takeDirectives : List Token → List Directive × List Token
  | .directive d :: rest => let (ds, rest) := takeDirectives rest; (d :: ds, rest)
  | rest => ([], rest)

/-- Reads what stands behind a document: end marks, and no second document. The directives of a
second one are read before it is refused. -/
def Tokens.endDocument (ts : Tokens) (rest : List Token) : Except Fault Unit := do
  match rest.dropWhile (· = .documentEnd) with
  | [] => ts.readOn
  | rest =>
    let (directives, rest) := takeDirectives rest
    let _ ← handlesOf directives
    if rest = [] then ts.readOn
    throw .malformed

/-- The tree of a document. A text without any token is null; directives have to be followed by a
start mark, and behind that mark the document may be empty. A fault of the text counts where the
tokens before it are used up, and an alias within the node that it names only at the end. -/
def Tree.ofTokens (scalar : Text → Bool → Tree) (ts : Tokens) : Except Fault Tree := do
  let (directives, body) := takeDirectives ts.known
  let handles ← handlesOf directives
  if body = [] then ts.readOn
  if body = [] ∧ directives = [] then return .null
  let explicit := body.head? = some .documentStart
  if directives ≠ [] ∧ !explicit then throw .malformed
  let body := if explicit then body.tail else body
  let content := body.takeWhile fun t => !t.isDocumentMark
  let rest := body.drop content.length
  let s ← content.foldlM (Assembly.feed scalar handles) Assembly.start
  if rest = [] then ts.readOn
  let n ← if explicit ∧ content = [] then pure (Assembly.absent scalar)
    else s.finish scalar handles
  ts.endDocument rest
  if s.recursive then throw .malformed else return n

end FlowNotation.Yaml
