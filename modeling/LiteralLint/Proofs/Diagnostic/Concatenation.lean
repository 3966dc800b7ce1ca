import LiteralLint.Proofs.Diagnostic.Exactness
import LiteralLint.Proofs.Literal.Concatenation

/-! # Diagnostics of joined texts

Text that is put behind another one changes none of its diagnostics. Those of the text behind move
with it: down by the lines in front, and to the right on the line that holds the seam. -/

set_option autoImplicit false

namespace LiteralLint

def Range.relocate (r : Range) (origin : Position) : Range :=
  ⟨r.start.relocate origin, r.stop.relocate origin⟩

def Diagnostic.relocate (d : Diagnostic) (origin : Position) : Diagnostic :=
  { d with range := d.range.relocate origin }

namespace Literal

variable {l : Literal} {cs : List Char}

theorem WrittenIn.rangeIn_append (h : l.WrittenIn cs) (ds : List Char) :
    l.rangeIn (cs ++ ds) = l.rangeIn cs := by
  rw [rangeIn, List.take_append_of_le_length h.start_le_length,
    List.take_append_of_le_length h.stop_le_length, rangeIn]

theorem rangeIn_shift (l : Literal) (cs ds : List Char) :
    (l.shift cs.length).rangeIn (cs ++ ds) = (l.rangeIn ds).relocate (Position.behind cs) := by
  have hTake (n : Nat) : (cs ++ ds).take (n + cs.length) = cs ++ ds.take n := by
    rw [Nat.add_comm, List.take_length_add_append]
  simp only [rangeIn, shift_start, shift_stop, hTake, Position.behind_append, Range.relocate]

end Literal

theorem refused_prefix_append (a b : String) (allow : AllowList) :
    ∃ ms, refused (a ++ b) allow = refused a allow ++ ms := by
  obtain ⟨ms, hAll, _⟩ := literals_prefix_append a b
  exact ⟨_, by rw [refused, hAll, List.filter_append, refused]⟩

theorem refused_append {a b : String} (allow : AllowList)
    (h : ∀ l ∈ literals (a ++ b), ¬ l.Straddles a.length) :
    refused (a ++ b) allow =
      refused a allow ++ (refused b allow).map (Literal.shift a.length) := by
  rw [refused, literals_append h, List.filter_append, List.filter_map]
  rfl

theorem map_refused_append (a b : String) (allow : AllowList) :
    (refused a allow).map (fun l =>
        Diagnostic.invalidFormat l.value (l.rangeIn (a ++ b).toList) allow) =
      (refused a allow).map fun l =>
        Diagnostic.invalidFormat l.value (l.rangeIn a.toList) allow := by
  refine List.map_congr_left fun l hl => ?_
  rw [String.toList_append, (written_of_mem_refused hl).rangeIn_append]

theorem map_refused_shift (a b : String) (allow : AllowList) :
    ((refused b allow).map (Literal.shift a.length)).map (fun l =>
        Diagnostic.invalidFormat l.value (l.rangeIn (a ++ b).toList) allow) =
      ((refused b allow).map fun l =>
        Diagnostic.invalidFormat l.value (l.rangeIn b.toList) allow).map fun d =>
          d.relocate (Position.behind a.toList) := by
  rw [List.map_map, List.map_map]
  refine List.map_congr_left fun l _ => ?_
  rw [Function.comp_apply, String.toList_append, ← String.length_toList, Literal.rangeIn_shift]
  rfl

/-- What is appended to a text disturbs neither its literals nor its diagnostics. -/
theorem checkText_stable_under_append (text more : String) (allow : AllowList) :
    literals text <+: literals (text ++ more) ∧
    ∃ ds es, checkText text allow = .ok ds ∧ checkText (text ++ more) allow = .ok (ds ++ es) := by
  constructor
  · obtain ⟨ms, hAll, _⟩ := literals_prefix_append text more
    exact ⟨ms, hAll.symm⟩
  · obtain ⟨ms, hAll⟩ := refused_prefix_append text more allow
    refine ⟨_, ms.map fun l => Diagnostic.invalidFormat l.value
      (l.rangeIn (text ++ more).toList) allow, checkText_eq_map_refused text allow, ?_⟩
    rw [checkText_eq_map_refused, hAll, List.map_append, map_refused_append]

/-- Where no literal reaches over the seam, the diagnostics of a joined text are those of the first
part and behind them those of the second, moved to where that part now stands. -/
theorem checkText_append (a b : String) (allow : AllowList)
    (h : ∀ l ∈ literals (a ++ b), ¬ (l.start < a.length ∧ a.length < l.stop)) :
    ∃ ds es, checkText a allow = .ok ds ∧ checkText b allow = .ok es ∧
      checkText (a ++ b) allow =
        .ok (ds ++ es.map fun d => d.relocate (Position.behind a.toList)) := by
  refine ⟨_, _, checkText_eq_map_refused a allow, checkText_eq_map_refused b allow, ?_⟩
  rw [checkText_eq_map_refused, refused_append allow h, List.map_append, map_refused_append,
    map_refused_shift]

/-- The seam follows a key without a value, and the range of the literal behind it begins on the
line that moves to the right and ends on one that does not. -/
theorem checkText_append_unfinished_key :
    (∀ l ∈ literals ("a\nformat: 'b' format:" ++ " format:\n'c'"),
      ¬ (l.start < "a\nformat: 'b' format:".length ∧
        "a\nformat: 'b' format:".length < l.stop)) ∧
    ∃ ds es, checkText "a\nformat: 'b' format:" .standard = .ok ds ∧
      checkText " format:\n'c'" .standard = .ok es ∧
      checkText ("a\nformat: 'b' format:" ++ " format:\n'c'") .standard =
        .ok (ds ++ es.map fun d =>
          d.relocate (Position.behind "a\nformat: 'b' format:".toList)) := by
  have hLiterals : literals ("a\nformat: 'b' format:" ++ " format:\n'c'") =
      [⟨"b", 2, 13⟩, ⟨"c", 22, 33⟩] := by
    have hFirst : (Cursor.ofText ("a\nformat: 'b' format:" ++ " format:\n'c'")).next? =
        some (⟨"b", 2, 13⟩, ⟨13, 13, " format: format:\n'c'".toList⟩) := by decide
    have hSecond : (Cursor.mk 13 13 " format: format:\n'c'".toList).next? =
        some (⟨"c", 22, 33⟩, ⟨33, 33, []⟩) := by decide
    rw [literals, Cursor.literals_of_next?_some hFirst, Cursor.literals_of_next?_some hSecond,
      Cursor.literals_of_next?_none rfl]
  have hClear : ∀ l ∈ literals ("a\nformat: 'b' format:" ++ " format:\n'c'"),
      ¬ (l.start < "a\nformat: 'b' format:".length ∧
        "a\nformat: 'b' format:".length < l.stop) := by
    rw [hLiterals]
    decide
  exact ⟨hClear, checkText_append _ _ _ hClear⟩

end LiteralLint
