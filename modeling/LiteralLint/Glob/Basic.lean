/-! # Glob patterns

A pattern is a list of tokens. Folders are told apart by slashes, but only the tokens that are
written with two stars know about them: every other wildcard runs across slashes too. -/

set_option autoImplicit false

namespace LiteralLint.Glob

/-- `?` is written for any byte and `*` for anything. Two stars stand for folders: leading ones in
front of a slash at the beginning, inner ones between slashes, and trailing ones behind a slash at
the end. A choice without any branch stands for nothing at all. -/
inductive Token where
  | literal (c : Char)
  | anyByte
  | anything
  | leadingFolders
  | innerFolders
  | trailingFolders
  | oneOf (negated : Bool) (ranges : List (Char × Char))
  | either (branches : List (List Token))
deriving Repr, Inhabited

inductive Fault where
  | unclosedClass
  | invalidRange (first last : Char)
  | unopenedAlternates
  | unclosedAlternates
  | danglingEscape
deriving DecidableEq, Repr

def Fault.describe : Fault → String
  | unclosedClass => "unclosed character class; missing ']'"
  | invalidRange first last => s!"invalid range; '{first}' > '{last}'"
  | unopenedAlternates =>
    "unopened alternate group; missing '\x7b' (maybe escape '\x7d' with '[\x7d]'?)"
  | unclosedAlternates =>
    "unclosed alternate group; missing '\x7d' (maybe escape '\x7b' with '[\x7b]'?)"
  | danglingEscape => "dangling '\\'"

end LiteralLint.Glob
