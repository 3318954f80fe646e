import PluginAtlas.Syntax.Tree

/-!
# Grammar rules

A small kit for grammars that read a source text into a syntax tree. A rule reads
trees from a position and gives the position after them, or fails. Blanks and comments
between two parts of a node are skipped, and the comments become children of the node
that has parts both before and after them: a node never takes in what follows its last
part. Repetitions stop when nothing more is read, so every rule is total; the depth of
a grammar's own recursion is bounded by `Rule.fix`.

## Main definitions

* `Lexicon`, `Input`: a source text with the conventions of its language.
* `Rule` and its combinators `Rule.seq`, `Rule.node`, `Rule.alt`, `Rule.many`, ….
* `Rule.fix`: a grammar whose rules refer to each other.
-/

namespace PluginAtlas

/-- A source text that is being read. Positions count characters. -/
structure Source where
  chars : Array Char
  /-- The byte offset of every position. -/
  offsets : Array Nat

namespace Source

/-- The source of a text. -/
def ofText (s : String) : Source :=
  let chars := s.toList.toArray
  { chars
    offsets := chars.foldl (fun offsets c => offsets.push (offsets.back?.getD 0 + c.utf8Size)) #[0] }

/-- The number of characters. -/
def size (s : Source) : Nat := s.chars.size

/-- The byte offset of a position. -/
def offset (s : Source) (p : Nat) : Nat := s.offsets.getD p (s.offsets.back?.getD 0)

/-- The character at a position; NUL behind the end. -/
def charAt (s : Source) (p : Nat) : Char := s.chars.getD p (Char.ofNat 0)

/-- Whether a position is behind the last character. -/
def atEnd (s : Source) (p : Nat) : Bool := s.size ≤ p

/-- Whether characters stand at a position. -/
def holds (s : Source) (p : Nat) : List Char → Bool
  | [] => true
  | c :: rest => s.chars[p]? == some c && s.holds (p + 1) rest

/-- Whether a text stands at a position. -/
def holdsText (s : Source) (p : Nat) (text : String) : Bool := s.holds p text.toList

/-- The first position from a given one on whose character is not in a class. -/
def skipWhile (s : Source) (inClass : Char → Bool) (p : Nat) : Nat :=
  if h : p < s.chars.size then
    if inClass s.chars[p] then s.skipWhile inClass (p + 1) else p
  else p
termination_by s.chars.size - p

/-- The first position from a given one on that a test accepts, or the end. -/
def skipUntil (s : Source) (accepts : Nat → Bool) (p : Nat) : Nat :=
  if p < s.chars.size then
    if accepts p then p else s.skipUntil accepts (p + 1)
  else p
termination_by s.chars.size - p

/-- The text between two positions. -/
def slice (s : Source) (start stop : Nat) : String :=
  String.ofList (s.chars.extract start stop).toList

/-- A leaf of the tree between two positions. -/
def leaf (s : Source) (kind : String) (named : Bool) (start stop : Nat) : Tree :=
  .node kind named (s.offset start) (s.offset stop) none []

end Source

/-- The lexical conventions of a language. -/
structure Lexicon where
  /-- A character of a word. -/
  isWordChar : Char → Bool
  /-- Whether the words of the language are read in any letter case. -/
  anyCase : Bool
  /-- What may stand between two parts: the trees to keep, and the position after. -/
  trivia : Source → Nat → List Tree × Nat

/-- A source text with the conventions of its language. -/
structure Input extends Source where
  lexicon : Lexicon

namespace Input

/-- What stands between a position and the next part. -/
def trivia (input : Input) (p : Nat) : List Tree × Nat := input.lexicon.trivia input.toSource p

/-- The position of the next part. -/
def next (input : Input) (p : Nat) : Nat := (input.trivia p).2

/-- The character with which the next part begins. -/
def nextChar (input : Input) (p : Nat) : Char := input.charAt (input.next p)

/-- The end of the word at a position. -/
def wordEnd (input : Input) (p : Nat) : Nat := input.skipWhile input.lexicon.isWordChar p

/-- The word at a position, in lower case where case does not matter; empty if none. -/
def wordAt (input : Input) (p : Nat) : String :=
  let word := input.slice p (input.wordEnd p)
  if input.lexicon.anyCase then word.map Char.toLower else word

end Input

/-- A grammar rule: the trees read from a position, and the position after them. -/
abbrev Rule := Input → Nat → Option (List Tree × Nat)

namespace Rule

/-- Reads nothing. -/
def empty : Rule := fun _ p => some ([], p)

/-- Never reads anything. -/
def fail : Rule := fun _ _ => none

/-- Reads a fixed mark. -/
def mark (text : String) : Rule := fun input p =>
  if input.holdsText p text then
    some ([input.leaf text false p (p + text.length)], p + text.length)
  else none

/-- Reads a fixed word. -/
def word (text : String) : Rule := fun input p =>
  if input.wordAt p = text then some ([input.leaf text false p (input.wordEnd p)], input.wordEnd p)
  else none

/-- Reads what a scan accepts as a leaf of a kind. -/
def leaf (kind : String) (scan : Input → Nat → Option Nat) : Rule := fun input p =>
  (scan input p).map fun q => ([input.leaf kind true p q], q)

/-- Reads rules one after the other, with what may stand between them. A rule that
reads nothing takes no part. -/
def seq : List Rule → Rule
  | [], _, p => some ([], p)
  | rule :: rest, input, p => do
    let (between, start) := input.trivia p
    let (trees, q) ← rule input start
    if q = start then
      let (more, stop) ← seq rest input p
      return (trees ++ more, stop)
    else
      let (more, stop) ← seq rest input q
      return (between ++ (trees ++ more), stop)

/-- The first of several rules that succeeds. -/
def alt : List Rule → Rule
  | [], _, _ => none
  | rule :: rest, input, p => rule input p <|> alt rest input p

/-- A rule, or nothing. -/
def opt (rule : Rule) : Rule := alt [rule, empty]

/-- Reads a rule as often as it succeeds and reads something. -/
def manyFrom (rule : Rule) (input : Input) : Nat → List Tree → Nat → List Tree × Nat
  | 0, done, p => (done, p)
  | fuel + 1, done, p =>
    let (between, start) := input.trivia p
    match rule input start with
    | none => (done, p)
    | some (trees, q) =>
      if q ≤ start then (done, p)
      else manyFrom rule input fuel (trees.reverse ++ (between.reverse ++ done)) q

/-- Reads a rule any number of times. -/
def many (rule : Rule) : Rule := fun input p =>
  let (done, q) := manyFrom rule input (input.size + 1 - p) [] p
  some (done.reverse, q)

/-- Reads a rule at least once. -/
def many1 (rule : Rule) : Rule := seq [rule, many rule]

/-- Reads a rule at least once, with a separator between. -/
def sepBy1 (separator rule : Rule) : Rule := seq [rule, many (seq [separator, rule])]

/-- Reads a rule at least once, with a separator between and possibly at the end. -/
def sepEndBy1 (separator rule : Rule) : Rule := seq [sepBy1 separator rule, opt separator]

/-- Reads a rule any number of times, with a separator between and possibly at the end. -/
def sepEndBy (separator rule : Rule) : Rule := opt (sepEndBy1 separator rule)

/-- Reads the parts of a node. -/
def node (kind : String) (parts : List Rule) : Rule := fun input p =>
  (seq parts input p).map fun (children, q) =>
    ([.node kind true (input.offset p) (input.offset q) none children], q)

/-- Reads further parts of a node that begins with trees already read. -/
def extend (kind : String) (first : List Tree) (parts : List Rule) : Rule := fun input p =>
  (seq parts input p).map fun (children, q) =>
    let start := (first.head?.map Tree.start).getD (input.offset p)
    ([.node kind true start (input.offset q) none (first ++ children)], q)

/-- Lets a tree fill a field, unless it fills one or is a comment. -/
def intoField (name : String) : Tree → Tree
  | .node kind named start stop none children =>
    .node kind named start stop (if kind = "comment" then none else some name) children
  | t => t

/-- Lets what a rule reads fill a field. -/
def field (name : String) (rule : Rule) : Rule := fun input p =>
  (rule input p).map fun (trees, q) => (trees.map (intoField name), q)

/-- Reads a rule if a test holds at its position. -/
def when (test : Input → Nat → Bool) (rule : Rule) : Rule := fun input p =>
  if test input p then rule input p else none

/-- Succeeds without reading if a test holds. -/
def check (test : Input → Nat → Bool) : Rule := when test empty

/-- Reads rules and then one that looks at what directly follows them. -/
def endingIn (last : Rule) (parts : List Rule) : Rule := fun input p => do
  let (trees, q) ← seq parts input p
  let (more, stop) ← last input q
  return (trees ++ more, stop)

/-- A node that ends in a rule that looks at what directly follows its parts. -/
def nodeEndingIn (last : Rule) (kind : String) (parts : List Rule) : Rule := fun input p =>
  (endingIn last parts input p).map fun (children, q) =>
    ([.node kind true (input.offset p) (input.offset q) none children], q)

/-- Reads the trees of a rule without keeping them, as a leaf of a kind. -/
def flatLeaf (kind : String) (rule : Rule) : Rule := fun input p =>
  (rule input p).map fun (_, q) => ([input.leaf kind true p q], q)

/-- A grammar whose rules, named by goals, refer to each other, up to a depth. -/
def fix {Goal : Type} (grammar : (Goal → Rule) → Goal → Rule) : Nat → Goal → Rule
  | 0, _ => fail
  | depth + 1, goal => grammar (fix grammar depth) goal

end Rule

end PluginAtlas
