import CalcLang.Token.Basic

/-!
# Trees

A program is read into a tree.  A node is tagged with the token it was built from; nodes that stand
for a phrase carry a token of the phrase's kind.

* `Node.size`: the number of nodes.
* `Node.walk`: the nodes from the root down, each with its depth.
* `Node.listing`: the tree as indented text, one line per node.
-/

namespace CalcLang

/-- A tree with a token at every node. -/
structure Node where
  /-- The token the node was built from. -/
  token : Token
  /-- A name that stands for the token in listings. -/
  name : Option String
  /-- The subtrees, from left to right. -/
  children : List Node
  deriving Repr

namespace Node

/-! ### Building -/

/-- A node over given subtrees. -/
def branch (token : Token) (children : List Node) : Node := ⟨token, none, children⟩

/-- A node without subtrees. -/
def leaf (token : Token) : Node := branch token []

/-- The node of a phrase. -/
def phrase (phrase : Phrase) (line : Nat) (children : List Node) : Node :=
  branch (Token.plain (.phrase phrase) line) children

/-- The same node under a name. -/
def named (node : Node) (name : String) : Node := { node with name := some name }

/-! ### Reading -/

/-- The kind of a node's token. -/
def kind (node : Node) : Kind := node.token.kind

/-- The text of a node's token. -/
def value (node : Node) : Option String := node.token.value

/-- The line of a node's token. -/
def line (node : Node) : Nat := node.token.line

/-- A node without subtrees. -/
def isLeaf (node : Node) : Bool := node.children.isEmpty

/-- What stands for a node in listings: its name, or else its token. -/
def label (node : Node) : String := node.name.getD node.token.display

/-! ### Equality -/

mutual

/-- Nodes are equal if their tokens, names and subtrees are. -/
def decEq : (a b : Node) → Decidable (a = b)
  | ⟨s, m, cs⟩, ⟨t, n, ds⟩ =>
    if hToken : s = t then
      if hName : m = n then
        match decEqList cs ds with
        | isTrue h => isTrue (by rw [hToken, hName, h])
        | isFalse h => isFalse fun same => h (by injection same)
      else isFalse fun same => hName (by injection same)
    else isFalse fun same => hToken (by injection same)

/-- Lists of nodes are compared node by node. -/
def decEqList : (as bs : List Node) → Decidable (as = bs)
  | [], [] => isTrue rfl
  | [], _ :: _ => isFalse nofun
  | _ :: _, [] => isFalse nofun
  | a :: as, b :: bs =>
    match decEq a b, decEqList as bs with
    | isTrue h, isTrue hs => isTrue (by rw [h, hs])
    | isFalse h, _ => isFalse fun same => h (by injection same)
    | _, isFalse hs => isFalse fun same => hs (by injection same)

end

instance : DecidableEq Node := decEq

/-! ### Size -/

mutual

/-- The number of nodes of a tree. -/
def size : Node → Nat
  | ⟨_, _, children⟩ => 1 + sizeList children

/-- The number of nodes of a row of trees. -/
def sizeList : List Node → Nat
  | [] => 0
  | node :: rest => node.size + sizeList rest

end

/-! ### Walk -/

mutual

/-- The nodes of a tree that stands at a given depth, from the root down and from left to right,
    each with its depth. -/
def walkFrom (depth : Nat) : Node → List (Nat × Node)
  | ⟨token, name, children⟩ => (depth, ⟨token, name, children⟩) :: walkList (depth + 1) children

/-- The nodes of a row of trees that stand at a given depth. -/
def walkList (depth : Nat) : List Node → List (Nat × Node)
  | [] => []
  | node :: rest => walkFrom depth node ++ walkList depth rest

end

/-- The nodes of a tree, from the root down, each with its depth. -/
def walk (node : Node) : List (Nat × Node) := walkFrom 0 node

/-! ### Listing -/

/-- The blanks that stand before a label in listings: two for each level. -/
def indent (depth : Nat) : String := String.ofList (List.replicate (2 * depth) ' ')

/-- One line of a listing. -/
def listingLine (depth : Nat) (node : Node) : String := indent depth ++ node.label

/-- A tree as indented text. -/
def listing (node : Node) : String :=
  "\n".intercalate (node.walk.map fun (depth, inner) => listingLine depth inner)

end Node

end CalcLang
