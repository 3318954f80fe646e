import PluginAtlas.Text.Basic

/-!
# Command lines

A command line is split into words as a POSIX shell splits it, without expansions:
words are divided by blanks, quotes hold blanks together, and a backslash takes the
next character as it is. Within double quotes it does so only for a quote and for
itself; within single quotes it means nothing.

## Main definitions

* `CommandError`: why a command line cannot be split.
* `commandWords`: the words of a command line.
-/

namespace PluginAtlas.Script

/-- Why a command line cannot be split. -/
inductive CommandError where
  | openQuote
  | bareEscape
deriving DecidableEq, Repr

/-- The wording of an error. -/
def CommandError.message : CommandError → String
  | openQuote => "No closing quotation"
  | bareEscape => "No escaped character"

/-- The quotes that a character stands in. -/
inductive Quoting where
  | unquoted
  | single
  | double
deriving DecidableEq, Repr

/-- A blank between words. -/
def isWordBreak (c : Char) : Bool := c == ' ' || c == '\t' || c == '\r' || c == '\n'

/-- The single quote. -/
def singleQuote : Char := '\x27'

/-- The words of the rest of a command line, with the characters of the word that has
begun, last first. Quotes begin a word even if they hold nothing. -/
def wordsFrom : Quoting → Option (List Char) → List Char → Except CommandError (List String)
  | .unquoted, word, [] => .ok (word.toList.map fun cs => String.ofList cs.reverse)
  | .single, _, [] | .double, _, [] => .error .openQuote
  | .single, word, c :: rest =>
    if c = singleQuote then wordsFrom .unquoted word rest
    else wordsFrom .single (some (c :: word.getD [])) rest
  | .double, word, '\\' :: rest =>
    match rest with
    | [] => .error .bareEscape
    | c :: rest =>
      if c = '"' || c = '\\' then wordsFrom .double (some (c :: word.getD [])) rest
      else wordsFrom .double (some (c :: '\\' :: word.getD [])) rest
  | .double, word, c :: rest =>
    if c = '"' then wordsFrom .unquoted word rest
    else wordsFrom .double (some (c :: word.getD [])) rest
  | .unquoted, word, '\\' :: rest =>
    match rest with
    | [] => .error .bareEscape
    | c :: rest => wordsFrom .unquoted (some (c :: word.getD [])) rest
  | .unquoted, word, c :: rest =>
    if isWordBreak c then
      (wordsFrom .unquoted none rest).map
        ((word.toList.map fun cs => String.ofList cs.reverse) ++ ·)
    else if c = singleQuote then wordsFrom .single (some (word.getD [])) rest
    else if c = '"' then wordsFrom .double (some (word.getD [])) rest
    else wordsFrom .unquoted (some (c :: word.getD [])) rest

/-- The words of a command line. -/
def commandWords (line : String) : Except CommandError (List String) :=
  wordsFrom .unquoted none line.toList

end PluginAtlas.Script
