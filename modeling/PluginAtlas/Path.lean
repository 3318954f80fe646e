import PluginAtlas.Text.Basic

/-!
# POSIX paths

Paths as they are written, without a look at any file system. A path is its anchor
and its components; empty components and single dots are dropped when a path is read,
and `..` is kept. Exactly two leading slashes form an anchor of their own, which
POSIX leaves to the system; three or more count as one.

## Main definitions

* `Path`, `Path.parse`, `Path.render`: a path, read from and written as text.
* `Path.name`, `Path.suffix`, `Path.parent`, `Path.withoutSuffix?`.
* `Path.normalize`: the path with `..` resolved by removing the component before it.
* `Path.canonical`: the path from the root of the disk, as it is followed.
* `joinPaths`: a reference seen from a directory.
* `relativeTo`: the path below a root.
-/

namespace PluginAtlas

/-- Where a path starts. -/
inductive Anchor where
  | here
  | root
  | doubled
deriving DecidableEq, Repr, Inhabited

/-- The slashes that an anchor is written with. -/
def Anchor.text : Anchor → String
  | .here => ""
  | .root => "/"
  | .doubled => "//"

/-- The anchor that a text begins with. -/
def Anchor.of (s : String) : Anchor :=
  match s.toList with
  | '/' :: '/' :: '/' :: _ => .root
  | '/' :: '/' :: _ => .doubled
  | '/' :: _ => .root
  | _ => .here

/-- A path: its anchor and its components. -/
structure Path where
  anchor : Anchor
  parts : List String
deriving DecidableEq, Repr, Inhabited

namespace Path

/-- Reads a path; empty components and single dots say nothing. -/
def parse (s : String) : Path :=
  ⟨Anchor.of s, (Text.split '/' s).filter fun part => part != "" && part != "."⟩

/-- The text of a path; the path without anchor and components is a single dot. -/
def render (p : Path) : String :=
  if p.anchor = .here && p.parts.isEmpty then "."
  else p.anchor.text ++ Text.join "/" p.parts

/-- The last component, empty if there is none. -/
def name (p : Path) : String := p.parts.getLastD ""

/-- The part of a file name from its last dot on, unless that dot is the first or the
last character. -/
def suffixOf (name : String) : String :=
  let tail := name.toList.reverse.takeWhile (· != '.')
  if tail.isEmpty || name.length ≤ tail.length + 1 then ""
  else String.ofList ('.' :: tail.reverse)

/-- The suffix of the last component. -/
def suffix (p : Path) : String := suffixOf p.name

/-- The path without its last component. -/
def parent (p : Path) : Path := { p with parts := p.parts.dropLast }

/-- The path followed by one more component. -/
def child (p : Path) (name : String) : Path := { p with parts := p.parts ++ [name] }

/-- The path with the suffix of its last component removed; `none` if it has no last
component. -/
def withoutSuffix? (p : Path) : Option Path :=
  if p.name = "" then none
  else
    let stem := Text.take (p.name.length - p.suffix.length) p.name
    some { p with parts := p.parts.dropLast ++ [stem] }

/-- One component after the components `done`, of which the last comes first: `..`
removes a named component, is kept where nothing is left to remove, and says nothing
at an anchor. -/
def normalizeStep (anchor : Anchor) (done : List String) (part : String) : List String :=
  if part != ".." then part :: done
  else
    match done with
    | [] => if anchor = .here then [".."] else []
    | last :: before => if last = ".." then ".." :: done else before

/-- The path with every `..` resolved as far as the components before it allow. -/
def normalize (p : Path) : Path :=
  { p with parts := (p.parts.foldl (normalizeStep p.anchor) []).reverse }

/-- The path that leads from the root of the disk to the same place, on a disk without
links: it has a single leading slash and is followed component by component, where `..`
leads back to the folder before. -/
def canonical (p : Path) : Path :=
  ⟨.root, (p.parts.foldl (normalizeStep .root) []).reverse⟩

end Path

/-- A reference seen from a directory; a reference that starts with a slash stands for
itself. -/
def joinPaths (directory reference : String) : String :=
  if Text.startsWith "/" reference then reference
  else if directory = "" || Text.endsWith "/" directory then directory ++ reference
  else directory ++ "/" ++ reference

/-- A reference resolved against a directory by its components alone. -/
def resolveLexically (directory reference : String) : Path :=
  (Path.parse (joinPaths directory reference)).normalize

/-- The path below a root, with slashes; the whole path when there is no root or the
path does not lie below it. -/
def relativeTo (path : String) (root : Option String) : String :=
  let posix := (Path.parse path).render
  match root with
  | none | some "" => posix
  | some root =>
    let base := Text.trimEnd (· == '/') (Path.parse root).render
    if posix = base then ""
    else (Text.dropStart? (base ++ "/") posix).getD posix

end PluginAtlas
