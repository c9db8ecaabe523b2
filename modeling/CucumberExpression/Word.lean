import CucumberExpression.Item

namespace CucumberExpression

/-! # Words

White space parts the items into words. A word with a separator in it is an alternation, whose
alternatives are what stands between the separators and may be empty. -/

namespace Part

def start : Part → Int
  | .node child => child.start
  | .separator token => token.start

def stop : Part → Int
  | .node child => child.stop
  | .separator token => token.stop

def isSeparator : Part → Bool
  | .node _ => false
  | .separator _ => true

end Part

namespace Node

/-- The alternatives of the rest of a word that stops at `wordStop`. The alternative under way
starts at `start` and holds `nodes` so far. -/
def alternatives (wordStop start : Int) (nodes : List Node) : List Part → Except Error (List Node)
  | [] => do
      let last ← Error.orInvalid (newBranch (.branch .alternative) start wordStop nodes)
      return [last]
  | .separator token :: rest => do
      let node ← Error.orInvalid (newBranch (.branch .alternative) start token.start nodes)
      let others ← alternatives wordStop token.stop [] rest
      return node :: others
  | .node node :: rest => alternatives wordStop start (nodes ++ [node]) rest

def alternation (first : Part) (rest : List Part) : Except Error Node := do
  let start := first.start
  let stop := (rest.getLastD first).stop
  let children ← alternatives stop start [] (first :: rest)
  Error.orInvalid (newBranch (.branch .alternation) start stop children)

def ofWord : List Part → Except Error (List Node)
  | [] => .ok []
  | first :: rest =>
      if (first :: rest).any Part.isSeparator then do
        let node ← alternation first rest
        return [node]
      else
        .ok ((first :: rest).filterMap fun
          | .node node => some node
          | .separator _ => none)

/-- The nodes of items that follow on the word under way. -/
def ofItems (word : List Part) : List Item → Except Error (List Node)
  | [] => ofWord word
  | .space token :: rest => do
      let nodes ← ofWord word
      let space ← Node.ofToken token
      let others ← ofItems [] rest
      return nodes ++ space :: others
  | .part part :: rest => ofItems (word ++ [part]) rest

end Node

end CucumberExpression
