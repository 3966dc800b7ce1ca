import LiteralLint.Text.Classes

/-! # Format literals

A format literal is the key `format`, a colon and a quoted value, with blanks allowed around the
colon. Quotes are not matched by kind and escapes are not interpreted: the value runs to the first
quote character of either kind. -/

set_option autoImplicit false

namespace LiteralLint

def isQuote (c : Char) : Bool := c == '\'' || c == '"'

/-- A literal found in a text. `start` and `stop` count characters from the beginning of the text;
`stop` is one past the closing quote. -/
structure Literal where
  value : String
  start : Nat
  stop : Nat
deriving DecidableEq, Repr, Inhabited

structure Occurrence where
  span : List Char
  value : List Char
  rest : List Char
deriving DecidableEq, Repr

namespace Occurrence

def key : List Char := ['f', 'o', 'r', 'm', 'a', 't']

def read? : List Char → Option Occurrence
  | 'f' :: 'o' :: 'r' :: 'm' :: 'a' :: 't' :: afterKey =>
    match afterKey.dropWhile isBlank with
    | ':' :: afterColon =>
      match afterColon.dropWhile isBlank with
      | opening :: body =>
        match isQuote opening, body.dropWhile (!isQuote ·) with
        | true, closing :: rest =>
          let value := body.takeWhile (!isQuote ·)
          some
            { span := key ++ afterKey.takeWhile isBlank ++ ':' :: afterColon.takeWhile isBlank
                ++ opening :: value ++ [closing]
              value
              rest }
        | _, _ => none
      | [] => none
    | _ => none
  | _ => none

theorem span_append_rest {cs : List Char} {o : Occurrence} (h : read? cs = some o) :
    o.span ++ o.rest = cs := by
  unfold read? at h
  split at h <;> try contradiction
  rename_i afterKey
  split at h <;> try contradiction
  rename_i afterColon hColon
  split at h <;> try contradiction
  rename_i opening body hBody
  split at h <;> try contradiction
  rename_i closing rest _ hRest
  obtain rfl := Option.some.inj h
  have hKey := List.takeWhile_append_dropWhile (p := isBlank) (l := afterKey)
  have hGap := List.takeWhile_append_dropWhile (p := isBlank) (l := afterColon)
  have hValue := List.takeWhile_append_dropWhile (p := (!isQuote ·)) (l := body)
  rw [hColon] at hKey
  rw [hBody] at hGap
  rw [hRest] at hValue
  simp only [key, List.append_assoc, List.cons_append, List.nil_append]
  rw [hValue, hGap, hKey]

theorem span_ne_nil {cs : List Char} {o : Occurrence} (h : read? cs = some o) : o.span ≠ [] := by
  unfold read? at h
  split at h <;> try contradiction
  split at h <;> try contradiction
  split at h <;> try contradiction
  split at h <;> try contradiction
  obtain rfl := Option.some.inj h
  simp [key]

theorem rest_length_lt {cs : List Char} {o : Occurrence} (h : read? cs = some o) :
    o.rest.length < cs.length := by
  have hSpan := List.length_pos_iff.2 (span_ne_nil h)
  rw [← span_append_rest h, List.length_append]
  omega

end Occurrence

end LiteralLint
