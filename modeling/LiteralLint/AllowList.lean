/-! # Allow-lists

The values a format literal may have, each held once and in the order in which it was first
given. -/

set_option autoImplicit false

namespace LiteralLint

structure AllowList where
  values : List String
  nodup : values.Nodup
deriving DecidableEq

namespace AllowList

def empty : AllowList := ⟨[], List.nodup_nil⟩

/-- Adds a value behind the others, unless it is there already. -/
def insert (allow : AllowList) (value : String) : AllowList :=
  if h : value ∈ allow.values then allow
  else
    { values := allow.values ++ [value]
      nodup := by
        rw [List.nodup_append]
        refine ⟨allow.nodup, by simp, fun a ha b hb hab => ?_⟩
        rw [List.mem_singleton] at hb
        exact h (hb ▸ hab ▸ ha) }

def ofList (values : List String) : AllowList := values.foldl insert empty

/-- Membership is exact: case matters and nothing is trimmed. -/
def contains (allow : AllowList) (value : String) : Bool := allow.values.contains value

def size (allow : AllowList) : Nat := allow.values.length

def isEmpty (allow : AllowList) : Bool := allow.values.isEmpty

def standardValues : List String := ["png", "jpeg", "webp"]

def standard : AllowList := ofList standardValues

def describe (allow : AllowList) : String :=
  if allow.isEmpty then "(none)" else ", ".intercalate allow.values

instance : Inhabited AllowList := ⟨empty⟩

end AllowList

end LiteralLint
