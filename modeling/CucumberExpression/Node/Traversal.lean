import CucumberExpression.Node.Basic
import CucumberExpression.Token.Basic

namespace CucumberExpression.Node

/-! # Walking a tree

`dfs` lists what lies below a node, each node before its children and children from left to right.
It keeps the forest that is still to be listed, so the depth of the tree does not matter to it. -/

mutual

def size : Node → Nat
  | .leaf .. => 1
  | .branch _ _ _ children => 1 + forestSize children

def forestSize : List Node → Nat
  | [] => 0
  | node :: rest => node.size + forestSize rest

end

theorem forestSize_append (left right : List Node) :
    forestSize (left ++ right) = forestSize left + forestSize right := by
  induction left with
  | nil => simp [forestSize]
  | cons node rest ih => simp [forestSize, ih, Nat.add_assoc]

theorem size_eq (node : Node) : node.size = 1 + forestSize node.children := by
  cases node <;> rfl

def walk : List Node → List Node
  | [] => []
  | node :: pending => node :: walk (node.children ++ pending)
termination_by forest => forestSize forest
decreasing_by
  rw [forestSize_append, forestSize, size_eq]
  omega

def dfs (node : Node) : List Node :=
  walk node.children

theorem walk_append (left right : List Node) : walk (left ++ right) = walk left ++ walk right := by
  induction left using walk.induct with
  | case1 => rw [walk, List.nil_append, List.nil_append]
  | case2 node pending ih =>
      rw [List.cons_append, walk, walk, ← List.append_assoc, ih, List.cons_append]

theorem walk_cons (node : Node) (rest : List Node) :
    walk (node :: rest) = node :: node.dfs ++ walk rest := by
  rw [walk, walk_append, List.cons_append, dfs]

/-- The node at the end of a path of child positions. -/
def descendant? (node : Node) : List Nat → Option Node
  | [] => some node
  | index :: rest => node.children[index]?.bind (·.descendant? rest)

mutual

/-- The text that a tree stands for: the tokens of its leaves. -/
def text : Node → Text
  | .leaf _ _ token => token
  | .branch _ _ _ children => textOfAll children

def textOfAll : List Node → Text
  | [] => []
  | node :: rest => node.text ++ textOfAll rest

end

/-! ## From trees back to expressions

The source of a tree is put together from its shape and the tokens of its leaves. A leaf whose span
is as long as its token was written as it is; a longer one had its reserved code points escaped. -/

mutual

def source : Node → Text
  | .leaf start stop token =>
      if stop - start = token.length then token else Token.escape token
  | .branch .optional _ _ children => .char '(' :: sourceOfAll children ++ [.char ')']
  | .branch .parameter _ _ children => .char '{' :: sourceOfAll children ++ [.char '}']
  | .branch .alternation _ _ children => sourceOfAlternatives children
  | .branch .alternative _ _ children => sourceOfAll children
  | .branch .expression _ _ children => sourceOfAll children

def sourceOfAll : List Node → Text
  | [] => []
  | node :: rest => node.source ++ sourceOfAll rest

/-- The sources of alternatives, separators between them. -/
def sourceOfAlternatives : List Node → Text
  | [] => []
  | [last] => last.source
  | node :: rest => node.source ++ .char '/' :: sourceOfAlternatives rest

end

end CucumberExpression.Node
