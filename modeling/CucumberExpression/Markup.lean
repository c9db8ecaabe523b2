namespace CucumberExpression.Markup

/-! # Markup

A tag is a bracket, a small letter or one of the signs #, / and @, and all up to the next closing
bracket, with no opening bracket before that. A backslash before a tag makes it text, and each pair
of backslashes there is one backslash. Before a bracket that opens no tag a single backslash is
dropped. `escape` puts backslashes before the tags of a text, `plain` takes the tags of a markup
away. -/

def opensTagName (c : Char) : Bool :=
  c.isLower || c == '#' || c == '/' || c == '@'

/-- Whether a closing bracket comes before any opening one. -/
def closes : List Char → Bool
  | [] => false
  | c :: rest => if c = ']' then true else if c = '[' then false else closes rest

/-- Whether a bracket before these characters opens a tag. -/
def opensTag : List Char → Bool
  | [] => false
  | c :: rest => opensTagName c && closes rest

def backslashes (count : Nat) : List Char :=
  List.replicate count '\\'

/-- The escaped form of characters that follow on some backslashes. -/
def escapeFrom (pending : Nat) : List Char → List Char
  | [] => backslashes pending
  | c :: rest =>
      if c = '\\' then escapeFrom (pending + 1) rest
      else if c = '[' && opensTag rest then
        backslashes (2 * pending + 1) ++ '[' :: escapeFrom 0 rest
      else
        backslashes pending ++ c :: escapeFrom 0 rest

/-- Whether a text ends in one backslash and no more. -/
def endsInSingleBackslash (cs : List Char) : Bool :=
  match cs.reverse with
  | '\\' :: '\\' :: _ => false
  | '\\' :: _ => true
  | _ => false

def escapeChars (cs : List Char) : List Char :=
  let escaped := escapeFrom 0 cs
  if endsInSingleBackslash escaped then escaped ++ ['\\'] else escaped

def escape (text : String) : String :=
  String.ofList (escapeChars text.toList)

mutual

/-- The text of markup that follows on some backslashes. -/
def plainFrom (pending : Nat) : List Char → List Char
  | [] => backslashes pending
  | c :: rest =>
      if c = '\\' then plainFrom (pending + 1) rest
      else if c = '[' then
        if opensTag rest then
          backslashes (pending / 2) ++
            (if pending % 2 = 1 then '[' :: plainFrom 0 rest else skipTag rest)
        else
          backslashes (pending - 1) ++ '[' :: plainFrom 0 rest
      else
        backslashes pending ++ c :: plainFrom 0 rest

/-- The text of markup after the tag that it begins in. -/
def skipTag : List Char → List Char
  | [] => []
  | c :: rest => if c = ']' then plainFrom 0 rest else skipTag rest

end

def plain (markup : String) : String :=
  String.ofList (plainFrom 0 markup.toList)

def styled (style markup : String) : String :=
  s!"[{style}]{markup}[/{style}]"

end CucumberExpression.Markup
