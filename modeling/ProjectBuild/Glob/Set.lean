import ProjectBuild.Glob.Pattern
import ProjectBuild.Path.Basic

/-!
# Pattern sets

A set of patterns matched against paths relative to a directory. A pattern that looks like the
name of a directory also matches everything below it.
-/

namespace ProjectBuild

namespace Glob

/-- A text without any `./` in front. -/
def dropCurrent : List Char → List Char
  | '.' :: '/' :: rest => dropCurrent rest
  | text => text

/-- A text without the slashes at its end. -/
def dropSlashEnd (text : List Char) : List Char :=
  (text.reverse.dropWhile (· == '/')).reverse

/-- Whether the last segment has neither a star nor a dot, so that it may name a directory. -/
def looksLikeDirectory (text : List Char) : Bool :=
  let last := (dropSlashEnd text).reverse.takeWhile (· != '/')
  !last.contains '*' && !last.contains '.'

/-- The texts that a pattern of a set stands for. -/
def spellings (pattern : String) : List (List Char) :=
  let text := dropCurrent pattern.toList
  if looksLikeDirectory text then [text, dropSlashEnd text ++ "/**/*".toList] else [text]

end Glob

/-- A set of compiled patterns. -/
structure GlobSet where
  patterns : List (List Glob.Token) := []
  deriving Inhabited

namespace GlobSet

/-- Compiles the patterns in order; the first that is malformed decides the error. -/
def ofPatterns (patterns : List String) : Except Glob.PatternError GlobSet := do
  let compiled ← (patterns.flatMap Glob.spellings).mapM Glob.parse
  return ⟨compiled⟩

/-- Whether some pattern matches the path as it is spelled. -/
def accepts (s : GlobSet) (relative : Path) : Bool :=
  s.patterns.any (Glob.Matches · relative.text.toList)

def isEmpty (s : GlobSet) : Bool :=
  s.patterns.isEmpty

end GlobSet

end ProjectBuild
