import PluginAtlas.Text.Blank
import PluginAtlas.Text.Quoted

/-!
# Ignore patterns

Patterns that keep files and folders out of an analysis, as ignore files of version
control write them. A pattern is a path whose segments may hold wildcards; `**` stands
for any number of folders, a leading `!` takes back what earlier patterns keep out, and
of all patterns that match a path the last one decides.

## Main definitions

* `Glob`: the wildcards inside a segment.
* `Piece`, `Piece.rests`: what a pattern demands of a path, part by part.
* `IgnorePattern.parse`: reads a pattern.
* `Coverage.has`, `excludes`: whether paths are kept out.
* `PatternError`: patterns that cannot be read.
* `Exclusion`, `IgnorePattern.exclusion`: what patterns keep out.
-/

namespace PluginAtlas

/-- A part of the name of a file or folder. -/
inductive Glob where
  | char (c : Char)
  /-- Any one character but a slash. -/
  | anyChar
  /-- Any run of characters without a slash. -/
  | anyRun
  /-- One character that lies in one of the ranges, or in none of them. -/
  | oneOf (inside : Bool) (ranges : List (Char × Char))
deriving DecidableEq, Repr

/-- A part of a pattern. -/
inductive Piece where
  /-- Any folders at the front of a path. -/
  | leadingFolders
  /-- Any folders inside a path, each after its slash. -/
  | innerFolders
  | slash
  /-- Any whole name. -/
  | anyName
  | glob (g : Glob)
  /-- The end of a name: a slash or the end of the path. -/
  | nameEnd
deriving DecidableEq, Repr

/-- A pattern that cannot be read. -/
inductive PatternError where
  /-- Nothing is left of the pattern, or its last character escapes nothing. -/
  | invalid (pattern : String)
  /-- A range of characters whose ends are the wrong way round, and its place. -/
  | badRange (low high : Char) (position : Nat)
deriving DecidableEq, Repr

/-- A character as a set of characters writes it. -/
def setCharText (c : Char) : String := if c = '\\' then "\\\\" else String.singleton c

/-- The wording of an error. -/
def PatternError.message : PatternError → String
  | invalid pattern => "Invalid git pattern: " ++ Text.quoted pattern
  | badRange low high position =>
    "bad character range " ++ setCharText low ++ "-" ++ setCharText high ++ " at position " ++
      Text.ofNat position

/-! ### Matching -/

/-- What may remain after one or more characters of a name. -/
def restsOfName : List Char → List (List Char)
  | [] => []
  | c :: cs => if c == '/' then [] else cs :: restsOfName cs

/-- What may remain after one or more characters of a line. -/
def restsOfLine : List Char → List (List Char)
  | [] => []
  | c :: cs => if c == '\n' then [] else cs :: restsOfLine cs

/-- What may remain after a nonempty run of characters and a slash. -/
def restsOfFolders (isLater : Bool) : List Char → List (List Char)
  | [] => []
  | c :: cs =>
    if c == '\n' then []
    else if c == '/' && isLater then cs :: restsOfFolders true cs
    else restsOfFolders true cs

/-- What may remain of a text after a part of a name. -/
def Glob.rests : Glob → List Char → List (List Char)
  | char c, d :: cs => if c = d then [cs] else []
  | anyChar, d :: cs => if d = '/' then [] else [cs]
  | oneOf inside ranges, d :: cs =>
    if (ranges.any fun (low, high) => low ≤ d && d ≤ high) = inside then [cs] else []
  | anyRun, cs => cs :: restsOfName cs
  | _, [] => []

/-- What may remain of a text after a part of a pattern. -/
def Piece.rests : Piece → List Char → List (List Char)
  | leadingFolders, cs => cs :: restsOfFolders false cs
  | innerFolders, '/' :: cs => ('/' :: cs) :: restsOfLine cs
  | innerFolders, cs => [cs]
  | slash, '/' :: cs => [cs]
  | slash, _ => []
  | anyName, cs => restsOfName cs
  | glob g, cs => g.rests cs
  | nameEnd, '/' :: cs => [cs]
  | nameEnd, [] => [[]]
  | nameEnd, ['\n'] => [['\n']]
  | nameEnd, _ => []

/-- Whether some front part of a text fits a sequence of pieces. -/
def matchesFront : List Piece → List Char → Bool
  | [], _ => true
  | piece :: pieces, cs => (piece.rests cs).any (matchesFront pieces)

/-- The paths that a pattern speaks of. -/
inductive Coverage where
  | everything
  /-- All that lies in some folder. -/
  | belowFolders
  | shaped (pieces : List Piece)
deriving DecidableEq, Repr

/-- Whether a path is covered; a folder is written with a slash at its end. -/
def Coverage.has : Coverage → String → Bool
  | everything, _ => true
  | belowFolders, path => path.toList.contains '/'
  | shaped pieces, path => matchesFront pieces path.toList

/-- A pattern: the paths it speaks of, and whether it takes them back. -/
structure IgnorePattern where
  coverage : Coverage
  takesBack : Bool
deriving DecidableEq, Repr

/-- Whether a list of patterns keeps a path out: the last pattern that speaks of the
path decides. -/
def excludes (patterns : List IgnorePattern) (path : String) : Bool :=
  patterns.foldl (fun out p => if p.coverage.has path then !p.takesBack else out) false

/-! ### Reading -/

/-- The ranges of a set of characters; a hyphen between two characters makes a range. -/
def rangesOf : List Char → List (Char × Char)
  | low :: '-' :: high :: rest => (low, high) :: rangesOf rest
  | c :: rest => (c, c) :: rangesOf rest
  | [] => []

/-- The set of characters that starts after an opening bracket, and its length up to
and with the closing bracket. A closing bracket that comes first is a member. -/
def bracket? (cs : List Char) : Option (Glob × Nat) :=
  let negated := cs.head? == some '!' || cs.head? == some '^'
  let body := if negated then cs.drop 1 else cs
  let first := if body.head? == some ']' then [']'] else []
  let members := first ++ (body.drop first.length).takeWhile (· != ']')
  if members.length < body.length then
    some (.oneOf (!negated) (rangesOf members),
      (if negated then 1 else 0) + members.length + 1)
  else none

/-- Why a segment has no meaning. -/
inductive SegmentFault where
  /-- A set of characters without its end. -/
  | openSet
  /-- An escape at the very end. -/
  | bareEscape
deriving DecidableEq, Repr

/-- Reads the wildcards of a segment, after skipping some characters. -/
def readGlobs : Nat → List Char → Except SegmentFault (List Glob)
  | _, [] => .ok []
  | n + 1, _ :: cs => readGlobs n cs
  | 0, '\\' :: cs =>
    match cs with
    | [] => .error .bareEscape
    | c :: _ => (readGlobs 1 cs).map (.char c :: ·)
  | 0, '*' :: cs => (readGlobs 0 cs).map (.anyRun :: ·)
  | 0, '?' :: cs => (readGlobs 0 cs).map (.anyChar :: ·)
  | 0, '[' :: cs =>
    match bracket? cs with
    | some (set, length) => (readGlobs length cs).map (set :: ·)
    | none => .error .openSet
  | 0, c :: cs => (readGlobs 0 cs).map (.char c :: ·)

/-- The pieces of a segment that stands after others or first. -/
def namePieces (needsSlash isLast : Bool) (segment : String) : Except SegmentFault (List Piece) := do
  let body ← if segment = "*" then .ok [Piece.anyName]
    else (readGlobs 0 segment.toList).map (·.map .glob)
  .ok ((if needsSlash then [.slash] else []) ++ body ++ (if isLast then [.nameEnd] else []))

/-- The pieces of the segments of a pattern. -/
def segmentPieces (isFirst needsSlash : Bool) : List String → Except SegmentFault (List Piece)
  | [] => .ok []
  | segment :: rest => do
    let front ←
      if segment = "**" then
        .ok [if isFirst then Piece.leadingFolders else if rest.isEmpty then .slash else .innerFolders]
      else namePieces needsSlash rest.isEmpty segment
    let others ← segmentPieces false (needsSlash || !(isFirst && segment = "**")) rest
    .ok (front ++ others)

/-- The segments with each run of `**` as a single one. -/
def collapseDepths : List String → List String
  | "**" :: "**" :: rest => collapseDepths ("**" :: rest)
  | segment :: rest => segment :: collapseDepths rest
  | [] => []

/-- The segments of a pattern in full: a pattern of one segment matches at any depth,
and one that ends in a slash matches what lies below. -/
def fullSegments (segments : List String) : List String :=
  let anchored := match segments with
    | "" :: rest => rest
    | ["**"] | ["**", ""] => segments
    | [_] | [_, ""] => "**" :: segments
    | _ => segments
  let ended := if anchored.getLast? == some "" then anchored.dropLast ++ ["**"] else anchored
  collapseDepths ended

/-- Characters that are written with an escape in a regular expression. -/
def isEscaped (c : Char) : Bool :=
  ("()[]\x7b\x7d?*+-|^$\\.&~# \t\n\r".toList ++ [Char.ofNat 11, Char.ofNat 12]).contains c

/-- The length of the ranges of a set, written out. -/
def rangesLength : List (Char × Char) → Nat
  | [] => 0
  | (low, high) :: rest =>
    (setCharText low).length + (if low = high then 0 else 1 + (setCharText high).length)
      + rangesLength rest

/-- The length of a piece, written as a regular expression. -/
def Piece.writtenLength : Piece → Nat
  | leadingFolders => 8
  | innerFolders => 8
  | slash => 1
  | anyName => 5
  | glob (.char c) => if isEscaped c then 2 else 1
  | glob .anyChar => 4
  | glob .anyRun => 5
  | glob (.oneOf inside ranges) => rangesLength ranges + if inside then 2 else 3
  | nameEnd => 7

/-- The first range whose ends are the wrong way round, with its place in a set. -/
def badRangeIn (position : Nat) : List (Char × Char) → Option PatternError
  | [] => none
  | (low, high) :: rest =>
    if high < low then some (.badRange low high position)
    else badRangeIn (position + rangesLength [(low, high)]) rest

/-- The first bad range of a pattern, with its place in the pattern written as a
regular expression. -/
def badRange? (position : Nat) : List Piece → Option PatternError
  | [] => none
  | piece :: rest =>
    match piece with
    | .glob (.oneOf inside ranges) =>
      (badRangeIn (position + if inside then 1 else 2) ranges).orElse fun _ =>
        badRange? (position + piece.writtenLength) rest
    | _ => badRange? (position + piece.writtenLength) rest

namespace IgnorePattern

/-- The paths of a pattern, from its text without the leading mark; `none` for a
pattern that speaks of nothing. -/
def coverageOf (pattern body : String) : Except PatternError (Option Coverage) :=
  let segments := Text.split '/' body
  match fullSegments segments with
  | [] => .error (.invalid pattern)
  | ["**"] =>
    .ok (some (if segments.getLast? == some "" then .belowFolders else .everything))
  | ["**", "*"] => .ok (some .everything)
  | ["**", "*", "**"] => .ok (some .belowFolders)
  | full =>
    match segmentPieces true false full with
    | .error .openSet => .ok none
    | .error .bareEscape => .error (.invalid pattern)
    | .ok pieces =>
      match badRange? 1 pieces with
      | some error => .error error
      | none => .ok (some (.shaped pieces))

/-- The text of a pattern without white space at its end; an escaped space stays. -/
def trimmed (pattern : String) : String :=
  if Text.endsWith "\\ " pattern then pattern else Text.trimEnd Text.isBlank pattern

/-- Reads a pattern; empty patterns, comments and a single slash say nothing. -/
def parse (pattern : String) : Except PatternError (Option IgnorePattern) := do
  let text := trimmed pattern
  if text = "" || Text.startsWith "#" text || text = "/" then return none
  let takesBack := Text.startsWith "!" text
  let coverage ← coverageOf pattern (if takesBack then Text.drop 1 text else text)
  return coverage.map fun coverage => { coverage, takesBack }

/-- Reads patterns, up to the first that cannot be read. -/
def parseAll : List String → Except PatternError (List IgnorePattern)
  | [] => .ok []
  | pattern :: rest => do
    let first ← parse pattern
    let others ← parseAll rest
    return first.toList ++ others

end IgnorePattern

/-- A way to read patterns: which paths they keep out, if all can be read. -/
abbrev Exclusion := List String → Except PatternError (String → Bool)

/-- What patterns keep out by the rules above. -/
def IgnorePattern.exclusion : Exclusion := fun patterns => (parseAll patterns).map excludes

end PluginAtlas
