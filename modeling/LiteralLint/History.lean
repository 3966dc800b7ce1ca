import LiteralLint.Report

/-! # Histories of a document

Snapshots are numbered in the order in which they are made. Number zero is there from the start;
every other one comes from an edit of an earlier one, which need not be the newest. A check uses the
allow-list that is in force when it is made. -/

set_option autoImplicit false

namespace LiteralLint

structure History where
  snapshots : List Document
  allow : AllowList
deriving DecidableEq

namespace History

/-- What can be done with a snapshot, which is named by its number, or to the allow-list. -/
inductive Operation where
  | edit (number : Nat) (text : String)
  | check (number : Nat)
  | permit (allow : AllowList)
deriving DecidableEq

inductive Answer where
  | made (number : Nat)
  | report (found : Report)
  | failed (fault : OffsetOutOfBounds)
  | permitted
deriving DecidableEq

def start (root : Document) (allow : AllowList) : History := ⟨[root], allow⟩

def add (h : History) (snapshot : Document) : History :=
  { h with snapshots := h.snapshots ++ [snapshot] }

/-- One operation; `none` where no snapshot has the number. -/
def perform (h : History) : Operation → Option (Answer × History)
  | .edit number text =>
    h.snapshots[number]?.map fun d => (.made h.snapshots.length, h.add (d.withText text))
  | .check number =>
    h.snapshots[number]?.map fun d =>
      match d.check h.allow with
      | .ok found => (.report found, h)
      | .error fault => (.failed fault, h)
  | .permit allow => some (.permitted, { h with allow })

def run (h : History) : List Operation → Option (List Answer × History)
  | [] => some ([], h)
  | op :: ops => do
    let (answer, h) ← h.perform op
    let (answers, h) ← h.run ops
    return (answer :: answers, h)

end History

end LiteralLint
