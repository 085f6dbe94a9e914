import RenderPlan.Document.Token
/-!
Nodes of a YAML document. A scalar is its text whatever it looks like, and a missing one is the
empty text; a list or a map below the root is not looked into, but it has to be well formed. An
alias stands for the last node with its anchor.
-/
namespace RenderPlan.Document

/-- What a node is worth as part of another: the text of a scalar, or a list or map. -/
inductive Value where
  | scalar (text : List Char)
  | collection
  deriving DecidableEq, Repr

abbrev Entry := Value × Value

inductive Node where
  | absent
  | scalar (text : List Char)
  | list
  | map (entries : List Entry)
  deriving DecidableEq, Repr

def Node.value : Node → Value
  | .absent => .scalar []
  | .scalar text => .scalar text
  | .list => .collection
  | .map _ => .collection

/-- Where a node stands: inside brackets, in a block, or as a key or value in a block, where the
items of a list need no deeper indentation. -/
inductive Context where
  | flow
  | block
  | entry
  deriving DecidableEq, Repr

/-- The tokens that are left and the values of the anchors so far, the last one first. -/
structure Rest where
  tokens : List Token
  anchors : List (List Char × Value) := []
  deriving DecidableEq, Repr

namespace Rest

def drop (n : Nat) (s : Rest) : Rest := { s with tokens := s.tokens.drop n }

/-- Whether one of some tokens is next. -/
def isAt (ts : List Token) (s : Rest) : Bool := s.tokens.head?.any ts.contains

def define (name : Option (List Char)) (v : Value) (s : Rest) : Rest :=
  match name with
  | none => s
  | some n => { s with anchors := (n, v) :: s.anchors }

end Rest

/-- The anchor and the tag before a node, in either order, and what follows them. -/
structure Properties where
  anchor : Option (List Char) := none
  tagged : Bool := false
  rest : List Token
  deriving DecidableEq, Repr

def Properties.take : List Token → Properties
  | .anchor n :: .tag _ :: ts => ⟨some n, true, ts⟩
  | .tag _ :: .anchor n :: ts => ⟨some n, true, ts⟩
  | .anchor n :: ts => ⟨some n, false, ts⟩
  | .tag _ :: ts => ⟨none, true, ts⟩
  | ts => ⟨none, false, ts⟩

mutual

/-- A node, which has to be there unless an anchor or a tag says that it is empty. -/
def readNode : Nat → Context → Rest → Option (Node × Rest)
  | 0, _, _ => none
  | fuel + 1, ctx, s =>
    match s.tokens with
    | .alias n :: ts => (s.anchors.lookup n).map fun v =>
      (match v with
        | .scalar t => .scalar t
        | .collection => .list, { s with tokens := ts })
    | _ =>
      let p := Properties.take s.tokens
      let scalar (t : List Char) (n : Nat) : Rest :=
        ({ s with tokens := p.rest }.define p.anchor (.scalar t)).drop n
      let inside (n : Nat) : Rest :=
        ({ s with tokens := p.rest }.define p.anchor .collection).drop n
      match p.rest, ctx with
      | .scalar t :: _, _ => some (.scalar t, scalar t 1)
      | .openList :: _, _ => (readFlowList fuel (inside 1)).map fun r => (.list, r)
      | .openMap :: _, _ => (readFlowMap fuel (inside 1)).map fun (es, r) => (.map es, r)
      | .item :: _, .entry => (readItems fuel false (inside 0)).map fun r => (.list, r)
      | .blockList :: _, .block => (readItems fuel true (inside 1)).map fun r => (.list, r)
      | .blockList :: _, .entry => (readItems fuel true (inside 1)).map fun r => (.list, r)
      | .blockMap :: _, .block => (readBlockMap fuel (inside 1)).map fun (es, r) => (.map es, r)
      | .blockMap :: _, .entry => (readBlockMap fuel (inside 1)).map fun (es, r) => (.map es, r)
      | _, _ =>
        if p.anchor.isSome || p.tagged then some (.absent, scalar [] 0) else none

/-- A node, or nothing before one of the tokens `ends`. -/
def readNodeBefore (fuel : Nat) (ends : List Token) (ctx : Context) (s : Rest) :
    Option (Value × Rest) :=
  match fuel with
  | 0 => none
  | fuel + 1 =>
    if s.isAt ends then some (.scalar [], s)
    else (readNode fuel ctx s).map fun (n, r) => (n.value, r)

/-- What follows a key: a value mark and its node, or nothing. -/
def readValueBefore (fuel : Nat) (ends : List Token) (ctx : Context) (s : Rest) :
    Option (Value × Rest) :=
  match fuel with
  | 0 => none
  | fuel + 1 =>
    if s.isAt [.value] then readNodeBefore fuel ends ctx (s.drop 1) else some (.scalar [], s)

/-- The items of a list in a block; one that is indented has an end. -/
def readItems (fuel : Nat) (indented : Bool) (s : Rest) : Option Rest :=
  match fuel with
  | 0 => none
  | fuel + 1 =>
    if s.isAt [.item] then do
      let (_, r) ← readNodeBefore fuel [.item, .key, .value, .blockEnd] .block (s.drop 1)
      readItems fuel indented r
    else if !indented then some s
    else if s.isAt [.blockEnd] then some (s.drop 1)
    else none

/-- The entries of a map in a block, up to its end. -/
def readBlockMap (fuel : Nat) (s : Rest) : Option (List Entry × Rest) :=
  match fuel with
  | 0 => none
  | fuel + 1 =>
    let ends := [.key, .value, .blockEnd]
    if s.isAt [.key] then do
      let (k, r) ← readNodeBefore fuel ends .entry (s.drop 1)
      let (v, r) ← readValueBefore fuel ends .entry r
      let (es, r) ← readBlockMap fuel r
      some ((k, v) :: es, r)
    else if s.isAt [.blockEnd] then some ([], s.drop 1)
    else none

/-- The entries of a map between brackets, up to the closing one. A node that is not marked as a key
is a key without a value. -/
def readFlowMap (fuel : Nat) (s : Rest) : Option (List Entry × Rest) :=
  match fuel with
  | 0 => none
  | fuel + 1 =>
    let ends := [.comma, .closeMap]
    if s.isAt [.closeMap] then some ([], s.drop 1)
    else do
      let (e, r) ←
        if s.isAt [.key] then do
          let (k, r) ← readNodeBefore fuel (.value :: ends) .flow (s.drop 1)
          let (v, r) ← readValueBefore fuel ends .flow r
          some ((k, v), r)
        else (readNode fuel .flow s).map fun (n, r) => ((n.value, .scalar []), r)
      if r.isAt [.comma] then
        let (es, r) ← readFlowMap fuel (r.drop 1)
        some (e :: es, r)
      else if r.isAt [.closeMap] then some ([e], r.drop 1)
      else none

/-- The items of a list between brackets, up to the closing one. A key mark makes an item a map of
one entry; the mark that ends an empty key is passed over with it. -/
def readFlowList (fuel : Nat) (s : Rest) : Option Rest :=
  match fuel with
  | 0 => none
  | fuel + 1 =>
    let ends := [.comma, .closeList]
    if s.isAt [.closeList] then some (s.drop 1)
    else do
      let r ←
        if s.isAt [.key] then do
          let isEmpty := (s.drop 1).isAt (.value :: ends)
          let (_, r) ← readNodeBefore fuel (.value :: ends) .flow (s.drop 1)
          let (_, r) ← readValueBefore fuel ends .flow (if isEmpty then r.drop 1 else r)
          some r
        else (readNode fuel .flow s).map fun (_, r) => r
      if r.isAt [.comma] then readFlowList fuel (r.drop 1)
      else if r.isAt [.closeList] then some (r.drop 1)
      else none

end

def Token.directive? : Token → Option Directive
  | .directive d => some d
  | _ => none

/-- Whether a token is no tag, or one whose handle needs no directive or has one. -/
def isDeclared (ds : List Directive) : Token → Bool
  | .tag handle => [['!'], ['!', '!']].contains handle || ds.contains (.handle handle)
  | _ => true

/-- The root of the only document, which marks may enclose. No directive is given twice. -/
def Node.read? (tokens : List Token) : Option Node := do
  let fuel := 4 * tokens.length + 4
  let content := tokens.dropWhile (·.directive?.isSome)
  let directives := (tokens.takeWhile (·.directive?.isSome)).filterMap Token.directive?
  let (root, s) ←
    match content with
    | [] => if directives.isEmpty then some (.absent, ⟨[], []⟩) else none
    | .documentStart :: ts =>
      match ts with
      | [] => some (.absent, ⟨[], []⟩)
      | .documentEnd :: _ => some (.absent, ⟨ts, []⟩)
      | _ => readNode fuel .block ⟨ts, []⟩
    | _ => if directives.isEmpty then readNode fuel .block ⟨content, []⟩ else none
  if directives.Nodup ∧ tokens.all (isDeclared directives) ∧ s.tokens.all (· == .documentEnd) then
    some root
  else none

end RenderPlan.Document
