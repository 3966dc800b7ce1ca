import LiteralLint.Proofs.CommandLine.Grammar

/-! # Which command lines are accepted

A command line is accepted exactly if its words spell entries that fit, in front of the name of a
command and behind it. What it says is then read off these entries. -/

set_option autoImplicit false

namespace LiteralLint.CommandLine

section

variable {name command : CommandName} {word : String} {words behind : List String}
  {q q₁ next : Reading} {t : Settings} {i : Invocation}

theorem ofText?_eq_some_iff :
    CommandName.ofText? word = some command ↔ word = command.form.name := by
  constructor
  · intro h
    have hName : (command.form.name == word) = true :=
      List.find?_some (p := fun c : CommandName => c.form.name == word) h
    exact (beq_iff_eq.mp hName).symm
  · rintro rfl
    cases command <;> rfl

theorem isCommandWord_of_readWord (h : q.readWord rootForm rootOptions word = .ok next)
    (hClosed : (q.trailing || q.awaitsValue) = false) : isCommandWord word = false := by
  rw [Bool.or_eq_false_iff] at hClosed
  refine Bool.eq_false_iff.mpr fun hCommand => ?_
  have hPlain : IsPlain word := Or.inr fun hDash => by
    rw [isCommandWord_eq_false hDash] at hCommand
    cases hCommand
  rw [Reading.readWord_of_plain hClosed.1 hPlain, hClosed.2, if_neg Bool.false_ne_true] at h
  obtain ⟨-, a, hPositional⟩ := Reading.positional_of_readStray h
  cases hPositional

theorem readsTo_none_iff :
    ReadsTo q words q₁ none ↔ words.foldlM (Reading.readWord rootForm rootOptions) q = .ok q₁ := by
  constructor
  · intro h
    generalize hRest : none = rest at h
    induction h with
    | all q => rfl
    | command _ _ _ => cases hRest
    | word _ hWord _ ih =>
      rw [List.foldlM_cons]
      exact (bind_of_ok hWord).trans (ih hRest)
  · intro h
    induction words generalizing q with
    | nil =>
      obtain rfl := Except.ok.inj h
      exact .all q
    | cons word words ih =>
      rw [List.foldlM_cons] at h
      obtain ⟨next, hWord, hWords⟩ := bind_eq_ok h
      refine .word ?_ hWord (ih hWords)
      cases hClosed : (q.trailing || q.awaitsValue) with
      | true => exact Or.inl rfl
      | false => exact Or.inr (isCommandWord_of_readWord hWord hClosed)

theorem readsTo_some_iff :
    ReadsTo q words q₁ (some (command, behind)) ↔
      ∃ front, words = front ++ command.form.name :: behind ∧ ReadsTo q front q₁ none ∧
        (q₁.trailing || q₁.awaitsValue) = false := by
  constructor
  · intro h
    generalize hRest : some (command, behind) = rest at h
    induction h with
    | all q => cases hRest
    | @command q word words _ hOwn _ hName =>
      cases hRest
      obtain rfl := ofText?_eq_some_iff.mp hName
      exact ⟨[], rfl, .all q, hOwn⟩
    | @word q next last word words rest hOwn hWord _ ih =>
      obtain ⟨front, rfl, hFront, hClosed⟩ := ih hRest
      exact ⟨word :: front, rfl, .word hOwn hWord hFront, hClosed⟩
  · rintro ⟨front, rfl, hFront, hClosed⟩
    generalize hRest : none = rest at hFront
    induction hFront with
    | all q =>
      have hHelp : command.form.name ≠ helpWord := by cases command <;> decide
      exact .command hClosed hHelp (ofText?_eq_some_iff.mpr rfl)
    | command _ _ _ => cases hRest
    | word hOwn hWord _ ih => exact .word hOwn hWord (ih hClosed hRest)

theorem trailing_of_mem (h : words.foldlM (Reading.readWord rootForm rootOptions) q = .ok q₁)
    (hDashes : q.trailing = true ∨ "--" ∈ words) : q₁.trailing = true := by
  induction words generalizing q with
  | nil =>
    obtain rfl := Except.ok.inj h
    exact hDashes.resolve_right (List.not_mem_nil)
  | cons word words ih =>
    rw [List.foldlM_cons] at h
    obtain ⟨next, hWord, hWords⟩ := bind_eq_ok h
    cases hTrailing : q.trailing with
    | true =>
      rw [Reading.readWord_of_trailing hTrailing] at hWord
      obtain ⟨b, q₂, hSettle, hGive⟩ := Reading.readStray_eq_ok hWord
      exact ih hWords (Or.inl ((Reading.closed_of_give hSettle hGive).1.trans hTrailing))
    | false =>
      rcases List.mem_cons.mp (hDashes.resolve_left (Bool.eq_false_iff.mp hTrailing)) with
        hHead | hTail
      · obtain rfl := hHead
        rw [Reading.readWord_of_dashes hTrailing rfl] at hWord
        obtain rfl := Except.ok.inj hWord
        exact ih hWords (Or.inl rfl)
      · exact ih hWords (Or.inr hTail)

theorem readRoot_none_iff :
    (∃ q root, readRoot {} words = .ok (q, none) ∧ q.settle = .ok root ∧ root.settings = t) ↔
      Reading.EndsIn rootForm rootOptions {} words t := by
  simp only [readRoot_eq_ok_iff, readsTo_none_iff]
  rfl

theorem readRoot_some_iff :
    (∃ q root, readRoot {} words = .ok (q, some (name, behind)) ∧ q.settle = .ok root ∧
        root.settings = t) ↔
      ∃ front, words = front ++ name.form.name :: behind ∧ "--" ∉ front ∧
        Reading.EndsIn rootForm rootOptions {} front t := by
  simp only [readRoot_eq_ok_iff, readsTo_some_iff, readsTo_none_iff]
  constructor
  · rintro ⟨q, root, ⟨front, rfl, hFront, hClosed⟩, hSettle, rfl⟩
    refine ⟨front, rfl, fun hDashes => ?_, q, root, hFront, hSettle, rfl⟩
    rw [trailing_of_mem hFront (Or.inr hDashes), Bool.true_or] at hClosed
    cases hClosed
  · rintro ⟨front, rfl, hDashes, q, root, hFront, hSettle, rfl⟩
    refine ⟨q, root, ⟨front, rfl, hFront, ?_⟩, hSettle, rfl⟩
    rw [Reading.trailing_of_readWords hFront rfl hDashes, Reading.awaitsValue_of_settle hSettle]
    rfl

theorem readCommand_eq_ok_iff_endsIn : readCommand name behind = .ok t ↔
    Reading.EndsIn name.form name.options {} behind t ∧
      ∀ b ∈ name.form.arguments, b.isRequired = true → t.has b.key = true := by
  rw [readCommand_eq_ok_iff]
  constructor
  · rintro ⟨q₁, q₂, hWords, hSettle, hGiven, rfl⟩
    exact ⟨⟨q₁, q₂, hWords, hSettle, rfl⟩, hGiven⟩
  · rintro ⟨⟨q₁, q₂, hWords, hSettle, rfl⟩, hGiven⟩
    exact ⟨q₁, q₂, hWords, hSettle, hGiven, rfl⟩

/-- Which command lines are read, and as what. In front of the name of a command there is no lone
pair of dashes: behind one that name would not be looked for. -/
theorem read_eq_ok_iff_says : read words = .ok i ↔
    (∃ es : Entries, Says rootForm rootOptions none words es ∧ es.Fit [] ∧ es ≠ [] ∧
      i = .ofSettings es.settings [] none) ∨
    ∃ (name : CommandName) (front behind : List String) (es fs : Entries),
      words = front ++ name.form.name :: behind ∧ "--" ∉ front ∧
      Says rootForm rootOptions none front es ∧ es.Fit [] ∧
      Says name.form name.options none behind fs ∧ fs.Fit [] ∧
      (∀ b ∈ name.form.arguments, b.isRequired = true → fs.settings.has b.key = true) ∧
      i = .ofSettings es.settings fs.settings (some (.ofSettings name fs.settings)) := by
  have hRoot := vocabulary rootOptions_mem_vocabularies
  have hCommand (name : CommandName) := vocabulary (options_mem_vocabularies name)
  rw [read_eq_ok_iff]
  refine or_congr ⟨?_, ?_⟩ ⟨?_, ?_⟩
  · rintro ⟨q, root, hRead, hSettle, hNonempty, rfl⟩
    obtain ⟨es, hSays, hFit, hSettings⟩ :=
      (Reading.endsIn_iff_says hRoot).mp (readRoot_none_iff.mp ⟨q, root, hRead, hSettle, rfl⟩)
    rw [hSettings] at hNonempty ⊢
    exact ⟨es, hSays, hFit, fun hNil => hNonempty (hNil ▸ rfl), rfl⟩
  · rintro ⟨es, hSays, hFit, hNonempty, rfl⟩
    obtain ⟨q, root, hRead, hSettle, hSettings⟩ :=
      readRoot_none_iff.mpr ((Reading.endsIn_iff_says hRoot).mpr ⟨es, hSays, hFit, rfl⟩)
    rw [← hSettings]
    refine ⟨q, root, hRead, hSettle, fun hNil => hNonempty ?_, rfl⟩
    exact List.map_eq_nil_iff.mp (hSettings.symm.trans hNil)
  · rintro ⟨q, root, name, behind, inner, hRead, hInner, hSettle, rfl⟩
    obtain ⟨front, rfl, hDashes, hFront⟩ :=
      readRoot_some_iff.mp ⟨q, root, hRead, hSettle, rfl⟩
    obtain ⟨es, hSays, hFit, hSettings⟩ := (Reading.endsIn_iff_says hRoot).mp hFront
    obtain ⟨hBehind, hGiven⟩ := readCommand_eq_ok_iff_endsIn.mp hInner
    obtain ⟨fs, hMore, hMoreFit, rfl⟩ := (Reading.endsIn_iff_says (hCommand name)).mp hBehind
    rw [hSettings]
    exact ⟨name, front, behind, es, fs, rfl, hDashes, hSays, hFit, hMore, hMoreFit, hGiven, rfl⟩
  · rintro ⟨name, front, behind, es, fs, rfl, hDashes, hSays, hFit, hMore, hMoreFit, hGiven, rfl⟩
    obtain ⟨q, root, hRead, hSettle, hSettings⟩ := readRoot_some_iff.mpr
      ⟨front, rfl, hDashes, (Reading.endsIn_iff_says hRoot).mpr ⟨es, hSays, hFit, rfl⟩⟩
    have hBehind := (Reading.endsIn_iff_says (hCommand name)).mpr ⟨fs, hMore, hMoreFit, rfl⟩
    rw [← hSettings]
    exact ⟨q, root, name, behind, fs.settings, hRead,
      readCommand_eq_ok_iff_endsIn.mpr ⟨hBehind, hGiven⟩, hSettle, rfl⟩

end

end LiteralLint.CommandLine
