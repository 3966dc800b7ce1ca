import LiteralLint.History
import LiteralLint.Proofs.Diagnostic.Exactness
import Mathlib.Data.List.Forall2

/-! # The course of a history

The operations alone say for each snapshot which edits lead to it, and which allow-list is in force.
A history follows this course: its snapshots differ from the first one by those edits, and stay as
they are when others are made; each check reports on the snapshot that it is called on. -/

set_option autoImplicit false

namespace LiteralLint

namespace Document

/-- What a document has become behind a trail of edits. -/
structure EditedTo (root : Document) (trail : List String) (d : Document) : Prop where
  uri_eq : d.uri = root.uri
  languageId_eq : d.languageId = root.languageId
  version_eq : d.version.toInt = min Int32.maxValue.toInt (root.version.toInt + trail.length)
  text_eq : d.text = trail.getLast?.getD root.text

variable {root d : Document} {trail : List String}

theorem toInt_nextVersion (version : Int32) :
    (nextVersion version).toInt = min Int32.maxValue.toInt (version.toInt + 1) := by
  by_cases hMax : version = Int32.maxValue
  · rw [nextVersion, if_pos hMax, hMax]
    omega
  · have hOne : (1 : Int32).toInt = 1 := rfl
    have hLeast := version.le_toInt
    have hLess : version.toInt < Int32.maxValue.toInt := by
      have hGreatest := version.toInt_le
      have hDiffer := mt Int32.toInt_inj.mp hMax
      omega
    rw [Int32.toInt_maxValue] at hLess ⊢
    rw [nextVersion, if_neg hMax, Int32.toInt_add, hOne, Int.bmod_eq_of_le (by omega) (by omega)]
    omega

theorem le_nextVersion (version : Int32) : version ≤ nextVersion version := by
  have hGreatest := version.toInt_le
  rw [Int32.le_iff_toInt_le, toInt_nextVersion]
  omega

theorem editedTo_nil (root : Document) : root.EditedTo [] root where
  uri_eq := rfl
  languageId_eq := rfl
  version_eq := by
    have hGreatest := root.version.toInt_le
    simp only [List.length_nil]
    omega
  text_eq := rfl

theorem EditedTo.withText (h : root.EditedTo trail d) (text : String) :
    root.EditedTo (trail ++ [text]) (d.withText text) where
  uri_eq := h.uri_eq
  languageId_eq := h.languageId_eq
  version_eq := by
    have hVersion := h.version_eq
    rw [Document.withText, toInt_nextVersion, hVersion, List.length_append, List.length_singleton]
    omega
  text_eq := by rw [List.getLast?_concat]; rfl

end Document

structure Report.IsOn (found : Report) (d : Document) (allow : AllowList) : Prop where
  uri_eq : found.uri = d.uri
  languageId_eq : found.languageId = d.languageId
  version_eq : found.version = d.version
  diagnostics_eq : checkText d.text allow = .ok found.diagnostics
  pass_iff : found.pass = true ↔ found.diagnostics = []

theorem Document.exists_check (d : Document) (allow : AllowList) :
    ∃ found, d.check allow = .ok found ∧ found.IsOn d allow := by
  have hText := checkText_eq_map_refused d.text allow
  rw [Document.check, hText]
  exact ⟨_, rfl, rfl, rfl, rfl, hText, List.isEmpty_iff⟩

namespace History

def Operation.called? : Operation → Option Nat
  | .edit number _ => some number
  | .check number => some number
  | .permit _ => none

/-- What the operations alone say: for each snapshot the texts of the edits that lead to it, and the
allow-list in force. -/
structure Course where
  trails : List (List String)
  allow : AllowList

namespace Course

def start (allow : AllowList) : Course := ⟨[[]], allow⟩

def next (c : Course) : Operation → Course
  | .edit number text =>
    { c with trails := c.trails ++ (c.trails[number]?.map (· ++ [text])).toList }
  | .check _ => c
  | .permit allow => { c with allow }

def after (c : Course) (ops : List Operation) : Course := ops.foldl next c

def isTimely (c : Course) : List Operation → Bool
  | [] => true
  | op :: ops => op.called?.all (· < c.trails.length) && (c.next op).isTimely ops

end Course

structure Follows (h : History) (root : Document) (c : Course) : Prop where
  edited : List.Forall₂ root.EditedTo c.trails h.snapshots
  allow_eq : h.allow = c.allow

/-- The answer to an operation that comes at this point of the course, said by the snapshots that
there are in the end. -/
inductive Answers (snapshots : List Document) (c : Course) : Operation → Answer → Prop
  | made {number : Nat} {text : String} {d edited : Document}
      (called : snapshots[number]? = some d) (new : snapshots[c.trails.length]? = some edited)
      (text_eq : edited.text = text) (version_le : d.version ≤ edited.version) :
      Answers snapshots c (.edit number text) (.made c.trails.length)
  | report {number : Nat} {d : Document} {found : Report} (called : snapshots[number]? = some d)
      (isOn : found.IsOn d c.allow) : Answers snapshots c (.check number) (.report found)
  | permitted {allow : AllowList} : Answers snapshots c (.permit allow) .permitted

inductive Step (h : History) : Operation → Answer → History → Prop
  | edit {number : Nat} {text : String} {d : Document} (called : h.snapshots[number]? = some d) :
      Step h (.edit number text) (.made h.snapshots.length) (h.add (d.withText text))
  | check {number : Nat} {d : Document} {found : Report} (called : h.snapshots[number]? = some d)
      (isOn : found.IsOn d h.allow) : Step h (.check number) (.report found) h
  | permit {allow : AllowList} : Step h (.permit allow) .permitted { h with allow }

variable {h next reached : History} {root d : Document} {c : Course} {op : Operation}
  {answer : Answer} {ops before later : List Operation} {answers : List Answer}
  {early late : List Document} {number : Nat}

theorem step_of_perform (hPerform : h.perform op = some (answer, next)) :
    h.Step op answer next := by
  cases op with
  | edit number text =>
    obtain ⟨d, hCalled, hStep⟩ := Option.map_eq_some_iff.mp hPerform
    obtain ⟨rfl, rfl⟩ := Prod.mk.inj hStep
    exact .edit hCalled
  | check number =>
    obtain ⟨d, hCalled, hStep⟩ := Option.map_eq_some_iff.mp hPerform
    obtain ⟨found, hCheck, hIsOn⟩ := d.exists_check h.allow
    rw [hCheck] at hStep
    obtain ⟨rfl, rfl⟩ := Prod.mk.inj hStep
    exact .check hCalled hIsOn
  | permit allow =>
    obtain ⟨rfl, rfl⟩ := Prod.mk.inj (Option.some.inj hPerform)
    exact .permit

theorem isSome_perform (h : History) (op : Operation) :
    (h.perform op).isSome = op.called?.all (· < h.snapshots.length) := by
  rw [Bool.eq_iff_iff]
  cases op <;> simp [perform, Operation.called?]

theorem Step.snapshots_kept (hStep : h.Step op answer next) : h.snapshots <+: next.snapshots := by
  cases hStep with
  | edit called => exact List.prefix_append _ _
  | check called isOn => exact List.prefix_rfl
  | permit => exact List.prefix_rfl

theorem Follows.length_eq (hFollows : h.Follows root c) : c.trails.length = h.snapshots.length :=
  hFollows.edited.length_eq

theorem Follows.exists_trail (hFollows : h.Follows root c)
    (hCalled : h.snapshots[number]? = some d) :
    ∃ trail, c.trails[number]? = some trail ∧ root.EditedTo trail d := by
  obtain ⟨hLess, rfl⟩ := List.getElem?_eq_some_iff.mp hCalled
  have hTrail : number < c.trails.length := by rwa [hFollows.length_eq]
  exact ⟨_, List.getElem?_eq_getElem hTrail, hFollows.edited.get hTrail hLess⟩

theorem follows_start (root : Document) (allow : AllowList) :
    (start root allow).Follows root (.start allow) where
  edited := .cons root.editedTo_nil .nil
  allow_eq := rfl

theorem Step.follows (hStep : h.Step op answer next) (hFollows : h.Follows root c) :
    next.Follows root (c.next op) := by
  cases hStep with
  | @edit number text d called =>
    obtain ⟨trail, hTrail, hEdited⟩ := hFollows.exists_trail called
    refine ⟨?_, hFollows.allow_eq⟩
    rw [Course.next, hTrail]
    exact List.rel_append hFollows.edited (.cons (hEdited.withText text) .nil)
  | check called isOn => exact hFollows
  | permit => exact ⟨hFollows.edited, rfl⟩

theorem getElem?_of_kept (hKept : early <+: late) (hThere : early[number]? = some d) :
    late[number]? = some d := by
  obtain ⟨hLess, rfl⟩ := List.getElem?_eq_some_iff.mp hThere
  exact List.prefix_iff_getElem?.mp hKept number hLess

theorem Answers.mono (hAnswers : Answers early c op answer) (hKept : early <+: late) :
    Answers late c op answer := by
  cases hAnswers with
  | made called new text_eq version_le =>
    exact .made (getElem?_of_kept hKept called) (getElem?_of_kept hKept new) text_eq
      version_le
  | report called isOn => exact .report (getElem?_of_kept hKept called) isOn
  | permitted => exact .permitted

theorem Step.answered (hStep : h.Step op answer next) (hFollows : h.Follows root c) :
    Answers next.snapshots c op answer := by
  have hKept := hStep.snapshots_kept
  cases hStep with
  | @edit number text d called =>
    have hNew : (h.snapshots ++ [d.withText text])[c.trails.length]? = some (d.withText text) := by
      rw [hFollows.length_eq, List.getElem?_concat_length]
    have hVersion : d.version ≤ (d.withText text).version := Document.le_nextVersion d.version
    rw [← hFollows.length_eq]
    exact .made (getElem?_of_kept hKept called) hNew rfl hVersion
  | check called isOn =>
    rw [hFollows.allow_eq] at isOn
    exact .report called isOn
  | permit => exact .permitted

theorem run_cons_eq_some_iff : h.run (op :: ops) = some (answers, reached) ↔
    ∃ answer next rest, h.perform op = some (answer, next) ∧ next.run ops = some (rest, reached) ∧
      answers = answer :: rest := by
  simp only [run, Option.bind_eq_bind, Option.bind_eq_some_iff, Prod.exists, Option.pure_def,
    Option.some.injEq, Prod.mk.injEq]
  constructor
  · rintro ⟨answer, next, hPerform, rest, _, hRun, rfl, rfl⟩
    exact ⟨answer, next, rest, hPerform, hRun, rfl⟩
  · rintro ⟨answer, next, rest, hPerform, hRun, rfl⟩
    exact ⟨answer, next, hPerform, rest, _, hRun, rfl, rfl⟩

theorem run_append_eq_some (hRun : h.run (before ++ later) = some (answers, reached)) :
    ∃ first middle rest, h.run before = some (first, middle) ∧
      middle.run later = some (rest, reached) ∧ answers = first ++ rest := by
  induction before generalizing h answers with
  | nil => exact ⟨[], h, answers, rfl, hRun, rfl⟩
  | cons op before ih =>
    obtain ⟨answer, next, tail, hPerform, hTail, rfl⟩ := run_cons_eq_some_iff.mp hRun
    obtain ⟨first, middle, rest, hFirst, hRest, rfl⟩ := ih hTail
    have hFront := run_cons_eq_some_iff.mpr ⟨answer, next, first, hPerform, hFirst, rfl⟩
    exact ⟨answer :: first, middle, rest, hFront, hRest, rfl⟩

theorem length_of_run (hRun : h.run ops = some (answers, reached)) :
    answers.length = ops.length := by
  induction ops generalizing h answers with
  | nil =>
    obtain ⟨rfl, -⟩ := Prod.mk.inj (Option.some.inj hRun)
    rfl
  | cons op ops ih =>
    obtain ⟨answer, next, rest, -, hRest, rfl⟩ := run_cons_eq_some_iff.mp hRun
    rw [List.length_cons, List.length_cons, ih hRest]

theorem snapshots_kept_of_run (hRun : h.run ops = some (answers, reached)) :
    h.snapshots <+: reached.snapshots := by
  induction ops generalizing h answers with
  | nil =>
    obtain ⟨-, rfl⟩ := Prod.mk.inj (Option.some.inj hRun)
    exact List.prefix_rfl
  | cons op ops ih =>
    obtain ⟨answer, next, rest, hPerform, hRest, rfl⟩ := run_cons_eq_some_iff.mp hRun
    exact (step_of_perform hPerform).snapshots_kept.trans (ih hRest)

theorem follows_of_run (hFollows : h.Follows root c)
    (hRun : h.run ops = some (answers, reached)) : reached.Follows root (c.after ops) := by
  induction ops generalizing h c answers with
  | nil =>
    obtain ⟨-, rfl⟩ := Prod.mk.inj (Option.some.inj hRun)
    exact hFollows
  | cons op ops ih =>
    obtain ⟨answer, next, rest, hPerform, hRest, rfl⟩ := run_cons_eq_some_iff.mp hRun
    exact ih ((step_of_perform hPerform).follows hFollows) hRest

theorem isSome_run (hFollows : h.Follows root c) (ops : List Operation) :
    (h.run ops).isSome = c.isTimely ops := by
  induction ops generalizing h c with
  | nil => rfl
  | cons op ops ih =>
    rw [Course.isTimely, hFollows.length_eq, ← isSome_perform]
    cases hPerform : h.perform op with
    | none => simp [run, hPerform]
    | some step =>
      have hNext := (step_of_perform hPerform).follows hFollows
      rw [← ih hNext, run, hPerform]
      cases hRest : step.2.run ops <;> simp [hRest]

/-- Operations come to an end exactly if each is called on a snapshot that is there. The history
then follows its course, what was made and answered early is there in the end, and every answer is
about the snapshot that was named, under the allow-list that was in force. -/
theorem run_start_follows (root : Document) (allow : AllowList) (ops : List Operation) :
    ((start root allow).run ops).isSome = (Course.start allow).isTimely ops ∧
    ∀ answers reached, (start root allow).run ops = some (answers, reached) →
      reached.Follows root ((Course.start allow).after ops) ∧
      (∀ before later, ops = before ++ later → ∃ first middle,
        (start root allow).run before = some (first, middle) ∧ first <+: answers ∧
        middle.snapshots <+: reached.snapshots) ∧
      ∀ before op later, ops = before ++ op :: later → ∃ answer,
        answers[before.length]? = some answer ∧
        Answers reached.snapshots ((Course.start allow).after before) op answer := by
  have hStart := follows_start root allow
  refine ⟨isSome_run hStart ops, fun answers reached hRun => ⟨follows_of_run hStart hRun, ?_, ?_⟩⟩
  · rintro before later rfl
    obtain ⟨first, middle, rest, hFirst, hRest, rfl⟩ := run_append_eq_some hRun
    exact ⟨first, middle, hFirst, List.prefix_append _ _, snapshots_kept_of_run hRest⟩
  · rintro before op later rfl
    obtain ⟨first, middle, rest, hFirst, hRest, rfl⟩ := run_append_eq_some hRun
    obtain ⟨answer, next, tail, hPerform, hTail, rfl⟩ := run_cons_eq_some_iff.mp hRest
    have hMiddle := follows_of_run hStart hFirst
    have hAnswered := (step_of_perform hPerform).answered hMiddle
    refine ⟨answer, ?_, hAnswered.mono (snapshots_kept_of_run hTail)⟩
    rw [← length_of_run hFirst, List.getElem?_append_right (Nat.le_refl _), Nat.sub_self]
    rfl

def nearlyLast : Document := ⟨"file:///a.ts", "typescript", 2147483645, "format: 'png'"⟩

def branching : List Operation := [
  .edit 0 "format: 'gif'", .edit 1 "format: 'bmp'", .edit 2 "", .edit 0 "shot", .check 1,
  .permit (.ofList ["gif"]), .check 1]

theorem run_start_follows_branching :
    ∃ answers reached, (start nearlyLast .standard).run branching = some (answers, reached) ∧
      (∃ d, reached.snapshots[3]? = some d ∧ d.text = "" ∧ d.version = Int32.maxValue) ∧
      ∃ d found, reached.snapshots[1]? = some d ∧ answers[6]? = some (.report found) ∧
        found.IsOn d (.ofList ["gif"]) := by
  obtain ⟨hEnds, hReached⟩ := run_start_follows nearlyLast .standard branching
  have hTimely : (Course.start .standard).isTimely branching = true := by decide
  rw [hTimely] at hEnds
  obtain ⟨⟨answers, reached⟩, hRun⟩ := Option.isSome_iff_exists.mp hEnds
  obtain ⟨hFollows, -, hAnswered⟩ := hReached answers reached hRun
  refine ⟨answers, reached, hRun, ?_, ?_⟩
  · obtain ⟨_, -, hEdit⟩ := hAnswered (branching.take 2) (.edit 2 "") (branching.drop 3) rfl
    cases hEdit with
    | @made _ _ _ edited called new text_eq version_le =>
      obtain ⟨trail, hTrail, hEdited⟩ := hFollows.exists_trail new
      obtain rfl : ["format: 'gif'", "format: 'bmp'", ""] = trail := Option.some.inj hTrail
      exact ⟨edited, new, text_eq, Int32.toInt_inj.mp hEdited.version_eq⟩
  · obtain ⟨_, hAnswer, hCheck⟩ := hAnswered (branching.take 6) (.check 1) [] rfl
    cases hCheck with
    | @report _ d found called isOn => exact ⟨d, found, called, hAnswer, isOn⟩

end History

end LiteralLint
