import LiteralLint.Cursors
import LiteralLint.Proofs.Cursor.Stepping

/-! # Cursors as indices into one list

Several cursors over a text are told apart from indices into the list of its literals by nothing
that can be done with them. Each operation on the cursors is the same operation on the indices, and
it moves no other cursor than the one it is called on. -/

set_option autoImplicit false

namespace LiteralLint

namespace Cursor

theorem exhausted_of_next?_none {c : Cursor} (h : c.next? = none) : c.exhausted = c := by
  rw [exhausted]
  split
  · rfl
  · simp_all

theorem exhausted_of_next?_some {c next : Cursor} {l : Literal} (h : c.next? = some (l, next)) :
    c.exhausted = next.exhausted := by
  rw [exhausted]
  split <;> simp_all

theorem exhausted_advance (c : Cursor) : c.advance.exhausted = c.exhausted := by
  cases hNext : c.next? with
  | none => rw [advance_of_none hNext]
  | some found => rw [advance_of_some hNext, exhausted_of_next?_some hNext]

theorem exhausted_after (text : String) (n : Nat) :
    (after text n).exhausted = after text (LiteralLint.literals text).length := by
  have hStart : ∀ m, (after text m).exhausted = (ofText text).exhausted := by
    intro m
    induction m with
    | zero => rfl
    | succ m ih => rw [after, exhausted_advance, ih]
  have hEnd := (next?_after_eq_none_iff text _).mpr (Nat.le_refl _)
  rw [hStart, ← hStart (LiteralLint.literals text).length, exhausted_of_next?_none hEnd]

end Cursor

namespace Cursors

variable {text : String} {found : List Literal} {places moved : List Nat}

/-- The cursors on a text that stand at the given indices into its literals. -/
def standing (text : String) (places : List Nat) : Cursors :=
  ⟨text, places.map (Cursor.after text)⟩

/-- What an operation is on indices into a list. -/
def move (found : List Literal) (places : List Nat) : Operation → Option (Answer × List Nat)
  | .next number =>
    places[number]?.map fun k =>
      (.literal found[k]?, if k < found.length then places.set number (k + 1) else places)
  | .rest number =>
    places[number]?.map fun k => (.literals (found.drop k), places.set number found.length)
  | .count number => places[number]?.map fun k => (.count (found.length - k), places)
  | .clone number => places[number]?.map fun k => (.made places.length, places ++ [k])
  | .rescan => some (.made places.length, places ++ [0])

def moves (found : List Literal) (places : List Nat) :
    List Operation → Option (List Answer × List Nat)
  | [] => some ([], places)
  | op :: ops => do
    let (answer, places) ← move found places op
    let (answers, places) ← moves found places ops
    return (answer :: answers, places)

def Operation.called? : Operation → Option Nat
  | .next number => some number
  | .rest number => some number
  | .count number => some number
  | .clone number => some number
  | .rescan => none

def Operation.moved? : Operation → Option Nat
  | .next number => some number
  | .rest number => some number
  | _ => none

theorem start_eq_standing (text : String) : start text = standing text [0] := rfl

theorem put_standing (text : String) (places : List Nat) (number k : Nat) :
    (standing text places).put number (Cursor.after text k) =
      standing text (places.set number k) := by
  simp [standing, put, List.map_set]

theorem add_standing (text : String) (places : List Nat) (k : Nat) :
    (standing text places).add (Cursor.after text k) = standing text (places ++ [k]) := by
  simp [standing, add]

theorem map_cursor_standing (number : Nat) {f : Cursor → Answer × Cursors}
    {g : Nat → Answer × List Nat}
    (h : ∀ k, f (Cursor.after text k) = Prod.map id (standing text) (g k)) :
    (standing text places).cursors[number]?.map f =
      (places[number]?.map g).map (Prod.map id (standing text)) := by
  rw [standing, List.getElem?_map, Option.map_map, Option.map_map]
  exact Option.map_congr fun k _ => h k

theorem perform_standing (text : String) (places : List Nat) (op : Operation) :
    (standing text places).perform op =
      (move (literals text) places op).map (Prod.map id (standing text)) := by
  have hMade : (standing text places).cursors.length = places.length := List.length_map ..
  cases op with
  | next number =>
    refine map_cursor_standing number ?_
    intro k
    cases hNext : (Cursor.after text k).next? with
    | none =>
      have hLast := (Cursor.next?_after_eq_none_iff text k).mp hNext
      rw [List.getElem?_eq_none hLast, if_neg (Nat.not_lt.mpr hLast)]
      rfl
    | some next =>
      have hFound := Cursor.getElem?_of_next?_after hNext
      obtain ⟨hLess, -⟩ := List.getElem?_eq_some_iff.mp hFound
      have hPut := put_standing text places number (k + 1)
      rw [Cursor.after, Cursor.advance_of_some hNext] at hPut
      rw [hFound, if_pos hLess, Prod.map, ← hPut]
      rfl
  | rest number =>
    refine map_cursor_standing number ?_
    intro k
    rw [Cursor.literals_after, Cursor.exhausted_after, put_standing]
    rfl
  | count number =>
    refine map_cursor_standing number ?_
    intro k
    rw [Cursor.count, Cursor.literals_after, List.length_drop]
    rfl
  | clone number =>
    refine map_cursor_standing number ?_
    intro k
    rw [hMade, add_standing]
    rfl
  | rescan =>
    have hNew := add_standing text places 0
    rw [perform, move, hMade]
    change some (_, (standing text places).add (Cursor.after text 0)) = _
    rw [hNew]
    rfl

theorem run_standing (text : String) (places : List Nat) (ops : List Operation) :
    (standing text places).run ops =
      (moves (literals text) places ops).map (Prod.map id (standing text)) := by
  induction ops generalizing places with
  | nil => rfl
  | cons op ops ih =>
    rw [run, moves, perform_standing]
    cases move (literals text) places op with
    | none => rfl
    | some step =>
      change ((standing text step.2).run ops).bind _ = _
      rw [ih]
      cases hRest : moves (literals text) step.2 ops with
      | none => simp [hRest]
      | some rest => simp [hRest]

theorem le_of_move {op : Operation} {answer : Answer}
    (h : move found places op = some (answer, moved)) (hPlaces : ∀ k ∈ places, k ≤ found.length) :
    ∀ k ∈ moved, k ≤ found.length := by
  have hSet (number k : Nat) (hk : k ≤ found.length) :
      ∀ m ∈ places.set number k, m ≤ found.length := by
    intro m hm
    rcases List.mem_or_eq_of_mem_set hm with hm | rfl
    · exact hPlaces m hm
    · exact hk
  have hAdd (k : Nat) (hk : k ≤ found.length) : ∀ m ∈ places ++ [k], m ≤ found.length := by
    intro m hm
    rcases List.mem_append.mp hm with hm | hm
    · exact hPlaces m hm
    · rwa [List.mem_singleton.mp hm]
  cases op with
  | next number =>
    obtain ⟨k, -, hStep⟩ := Option.map_eq_some_iff.mp h
    obtain ⟨-, rfl⟩ := Prod.mk.inj hStep
    split
    · exact hSet number (k + 1) (by omega)
    · exact hPlaces
  | rest number =>
    obtain ⟨k, -, hStep⟩ := Option.map_eq_some_iff.mp h
    obtain ⟨-, rfl⟩ := Prod.mk.inj hStep
    exact hSet number _ (Nat.le_refl _)
  | count number =>
    obtain ⟨k, -, hStep⟩ := Option.map_eq_some_iff.mp h
    obtain ⟨-, rfl⟩ := Prod.mk.inj hStep
    exact hPlaces
  | clone number =>
    obtain ⟨k, hk, hStep⟩ := Option.map_eq_some_iff.mp h
    obtain ⟨-, rfl⟩ := Prod.mk.inj hStep
    exact hAdd k (hPlaces k (List.mem_of_getElem? hk))
  | rescan =>
    obtain ⟨-, rfl⟩ := Prod.mk.inj (Option.some.inj h)
    exact hAdd 0 (Nat.zero_le _)

theorem le_of_moves {ops : List Operation} {answers : List Answer}
    (h : moves found places ops = some (answers, moved))
    (hPlaces : ∀ k ∈ places, k ≤ found.length) : ∀ k ∈ moved, k ≤ found.length := by
  induction ops generalizing places answers with
  | nil =>
    obtain ⟨-, rfl⟩ := Prod.mk.inj (Option.some.inj h)
    exact hPlaces
  | cons op ops ih =>
    obtain ⟨step, hStep, h⟩ := Option.bind_eq_some_iff.mp h
    obtain ⟨rest, hRest, h⟩ := Option.bind_eq_some_iff.mp h
    obtain ⟨-, rfl⟩ := Prod.mk.inj (Option.some.inj h)
    exact ih hRest (le_of_move hStep hPlaces)

theorem perform_eq_none_iff (cs : Cursors) (op : Operation) :
    cs.perform op = none ↔ ∃ number, op.called? = some number ∧ cs.cursors.length ≤ number := by
  cases op <;> simp [perform, Operation.called?]

theorem cursors_of_perform {cs next : Cursors} {op : Operation} {answer : Answer}
    (h : cs.perform op = some (answer, next)) {other : Nat} (hOther : other < cs.cursors.length)
    (hMoved : op.moved? ≠ some other) : next.cursors[other]? = cs.cursors[other]? := by
  have hSet (number : Nat) (c : Cursor) (hNe : number ≠ other) :
      (cs.put number c).cursors[other]? = cs.cursors[other]? := List.getElem?_set_ne hNe
  have hAdd (c : Cursor) : (cs.add c).cursors[other]? = cs.cursors[other]? :=
    List.getElem?_append_left hOther
  cases op with
  | next number =>
    have hNe : number ≠ other := fun hEq => hMoved (congrArg some hEq)
    obtain ⟨c, -, hStep⟩ := Option.map_eq_some_iff.mp h
    split at hStep
    · obtain ⟨-, rfl⟩ := Prod.mk.inj hStep
      exact hSet number _ hNe
    · obtain ⟨-, rfl⟩ := Prod.mk.inj hStep
      rfl
  | rest number =>
    have hNe : number ≠ other := fun hEq => hMoved (congrArg some hEq)
    obtain ⟨c, -, hStep⟩ := Option.map_eq_some_iff.mp h
    obtain ⟨-, rfl⟩ := Prod.mk.inj hStep
    exact hSet number _ hNe
  | count number =>
    obtain ⟨c, -, hStep⟩ := Option.map_eq_some_iff.mp h
    obtain ⟨-, rfl⟩ := Prod.mk.inj hStep
    rfl
  | clone number =>
    obtain ⟨c, -, hStep⟩ := Option.map_eq_some_iff.mp h
    obtain ⟨-, rfl⟩ := Prod.mk.inj hStep
    exact hAdd c
  | rescan =>
    obtain ⟨-, rfl⟩ := Prod.mk.inj (Option.some.inj h)
    exact hAdd _

/-- After any operations, with all their answers, the cursors stand at indices into the list of the
text's literals; the next operation fails only on a cursor that is not there, and moves no other. -/
theorem run_start_exact (text : String) (ops : List Operation) :
    (start text).run ops = (moves (literals text) [0] ops).map (Prod.map id (standing text)) ∧
    ∀ answers cs, (start text).run ops = some (answers, cs) →
      (∃ places, cs = standing text places ∧ ∀ k ∈ places, k ≤ (literals text).length) ∧
      ∀ op, (cs.perform op = none ↔
          ∃ number, op.called? = some number ∧ cs.cursors.length ≤ number) ∧
        ∀ answer next, cs.perform op = some (answer, next) →
          ∀ other < cs.cursors.length, op.moved? ≠ some other →
            next.cursors[other]? = cs.cursors[other]? := by
  rw [start_eq_standing]
  have hRun := run_standing text [0] ops
  refine ⟨hRun, ?_⟩
  intro answers cs h
  constructor
  · rw [hRun] at h
    obtain ⟨result, hMoves, hResult⟩ := Option.map_eq_some_iff.mp h
    obtain ⟨-, rfl⟩ := Prod.mk.inj hResult
    refine ⟨result.2, rfl, le_of_moves hMoves ?_⟩
    simp
  · intro op
    refine ⟨perform_eq_none_iff cs op, ?_⟩
    intro answer next hPerform other hOther hMoved
    exact cursors_of_perform hPerform hOther hMoved

def forked : Cursors :=
  ⟨"format:'a' format:'b'", [⟨10, 10, " format:'b'".toList⟩, ⟨21, 21, []⟩]⟩

theorem run_start_exact_forked :
    (start forked.text).run [.next 0, .clone 0, .next 1] =
      some ([.literal (some ⟨"a", 0, 10⟩), .made 1, .literal (some ⟨"b", 11, 21⟩)], forked) ∧
    (∃ places, forked = standing forked.text places ∧
      ∀ k ∈ places, k ≤ (literals forked.text).length) ∧
    forked.perform (.next 0) =
      some (.literal (some ⟨"b", 11, 21⟩), forked.put 0 ⟨21, 21, []⟩) ∧
    (forked.put 0 ⟨21, 21, []⟩).cursors[1]? = forked.cursors[1]? := by
  have hRun : (start forked.text).run [.next 0, .clone 0, .next 1] =
      some ([.literal (some ⟨"a", 0, 10⟩), .made 1, .literal (some ⟨"b", 11, 21⟩)], forked) := by
    decide
  have hNext : forked.perform (.next 0) =
      some (.literal (some ⟨"b", 11, 21⟩), forked.put 0 ⟨21, 21, []⟩) := by decide
  obtain ⟨-, hReached⟩ := run_start_exact forked.text [.next 0, .clone 0, .next 1]
  obtain ⟨hStands, hNever⟩ := hReached _ _ hRun
  obtain ⟨-, hOthers⟩ := hNever (.next 0)
  exact ⟨hRun, hStands, hNext, hOthers _ _ hNext 1 (by decide) (by decide)⟩

end Cursors

end LiteralLint
