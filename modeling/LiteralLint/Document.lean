/-! # Documents

Immutable snapshots of a document's text. Each edit makes a new snapshot with the next version
number; the numbers stop at the largest one a signed 32-bit integer holds. -/

set_option autoImplicit false

namespace LiteralLint

structure Document where
  uri : String
  languageId : String
  version : Int32
  text : String
deriving DecidableEq, Repr, Inhabited

namespace Document

def nextVersion (version : Int32) : Int32 :=
  if version = Int32.maxValue then version else version + 1

def withText (document : Document) (text : String) : Document :=
  { document with version := nextVersion document.version, text }

end Document

/-- The language of a file by its extension, case-sensitively. -/
def languageOfExtension : Option String → String
  | some "ts" | some "mts" | some "cts" => "typescript"
  | some "tsx" => "typescriptreact"
  | some "js" | some "mjs" | some "cjs" => "javascript"
  | some "jsx" => "javascriptreact"
  | some "json" => "json"
  | some "yaml" | some "yml" => "yaml"
  | some "toml" => "toml"
  | some "md" => "markdown"
  | _ => "plaintext"

end LiteralLint
