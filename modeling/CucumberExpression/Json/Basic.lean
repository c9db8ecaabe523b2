import CucumberExpression.Number.Shortest
import CucumberExpression.Text.Quoted

namespace CucumberExpression

/-! # JSON values

Integers and reals are told apart, and the members of a record keep their order. -/

inductive Json where
  | null
  | boolean (value : Bool)
  | integer (value : Int)
  | real (value : Binary64)
  | text (value : Text)
  | list (items : List Json)
  | record (members : List (Text × Json))
deriving Inhabited

namespace Json

/-- What a value is, its content aside. -/
inductive Shape where
  | null
  | boolean
  | integer
  | real
  | text
  | list
  | record
deriving DecidableEq, Repr

def Shape.name : Shape → String
  | null => "NoneType"
  | boolean => "bool"
  | integer => "int"
  | real => "float"
  | text => "str"
  | list => "list"
  | record => "dict"

def shape : Json → Shape
  | .null => .null
  | .boolean _ => .boolean
  | .integer _ => .integer
  | .real _ => .real
  | .text _ => .text
  | .list _ => .list
  | .record _ => .record

/-- The member of a name; the first one counts. -/
def member? (name : Text) : List (Text × Json) → Option Json
  | [] => none
  | (key, value) :: rest => if key = name then some value else member? name rest

/-- A member set to a value. A name that is there keeps its place. -/
def setMember (name : Text) (value : Json) : List (Text × Json) → List (Text × Json)
  | [] => [(name, value)]
  | (key, old) :: rest =>
      if key = name then (key, value) :: rest else (key, old) :: setMember name value rest

/-- Members in the order of their first occurrence, each with its last value. -/
def distinctMembers (members : List (Text × Json)) : List (Text × Json) :=
  members.foldl (fun known member => setMember member.1 member.2 known) []

theorem member?_setMember (name : Text) (value : Json) (members : List (Text × Json)) :
    member? name (setMember name value members) = some value := by
  induction members with
  | nil => simp [setMember, member?]
  | cons member rest ih =>
      obtain ⟨key, old⟩ := member
      by_cases same : key = name <;> simp [setMember, member?, same, ih]

theorem member?_setMember_of_ne {name other : Text} (different : other ≠ name) (value : Json)
    (members : List (Text × Json)) :
    member? other (setMember name value members) = member? other members := by
  induction members with
  | nil => simp [setMember, member?, different.symm]
  | cons member rest ih =>
      obtain ⟨key, old⟩ := member
      by_cases same : key = name
      · simp [setMember, member?, same, different.symm]
      · simp [setMember, member?, same, ih]

mutual

/-- A value for display, texts in quotation marks, integers of any length. -/
def display : Json → String
  | .null => "None"
  | .boolean value => if value then "True" else "False"
  | .integer value => toString value
  | .real value => value.text
  | .text value => Text.quoted value
  | .list items => "[" ++ ", ".intercalate (displayItems items) ++ "]"
  | .record members => "\x7b" ++ ", ".intercalate (displayMembers members) ++ "\x7d"

def displayItems : List Json → List String
  | [] => []
  | item :: rest => display item :: displayItems rest

def displayMembers : List (Text × Json) → List String
  | [] => []
  | (key, value) :: rest => (Text.quoted key ++ ": " ++ display value) :: displayMembers rest

end

/-- A value as text: a text is itself, all else its display. -/
def asText : Json → Text
  | .text value => value
  | value => display value

mutual

def depth : Json → Nat
  | .list items => depthOfItems items + 1
  | .record members => depthOfMembers members + 1
  | _ => 0

def depthOfItems : List Json → Nat
  | [] => 0
  | item :: rest => max (depth item) (depthOfItems rest)

def depthOfMembers : List (Text × Json) → Nat
  | [] => 0
  | (_, value) :: rest => max (depth value) (depthOfMembers rest)

end

/-- Lists and records that nest deeper than this are neither displayed nor read from lenient text. -/
def depthLimit : Nat := 990

mutual

/-- Equality of values. Numbers are compared by value whatever their form, with true as one and
false as zero, and the order of members does not matter. -/
def same : Json → Json → Bool
  | .null, .null => true
  | .text left, .text right => left == right
  | .list left, .list right => sameItems left right
  | .record left, .record right => left.length == right.length && sameMembers left right
  | .real left, .real right => left.sameValue right
  | .real left, .integer right => left.sameAsInt right
  | .integer left, .real right => right.sameAsInt left
  | .real left, .boolean right => left.sameAsInt right.toInt
  | .boolean left, .real right => right.sameAsInt left.toInt
  | .integer left, .integer right => left == right
  | .integer left, .boolean right => left == right.toInt
  | .boolean left, .integer right => left.toInt == right
  | .boolean left, .boolean right => left == right
  | _, _ => false

def sameItems : List Json → List Json → Bool
  | [], [] => true
  | left :: lefts, right :: rights => same left right && sameItems lefts rights
  | _, _ => false

def sameMembers : List (Text × Json) → List (Text × Json) → Bool
  | [], _ => true
  | (key, left) :: lefts, rights =>
      (match member? key rights with
        | some right => same left right
        | none => false) && sameMembers lefts rights

end

/-! ## Dialects

The strict dialect holds to the standard, to machine integers and to characters. The lenient one has
integers of any size, names for the numbers that are not finite, and surrogates. -/

inductive Dialect where
  | strict
  | lenient
deriving DecidableEq, Repr

/-- The integers of the strict dialect: signed or unsigned in 64 bits. -/
def inMachineRange (value : Int) : Bool :=
  -(1 <<< 63) ≤ value && value < 1 <<< 64

/-- How deep lists and records may nest in a text that is read. -/
def Dialect.readingDepth : Dialect → Nat
  | strict => 1024
  | lenient => depthLimit

/-- How deep they may nest in a value that is written in the strict dialect. -/
def writingDepth : Nat := 254

end Json

end CucumberExpression
