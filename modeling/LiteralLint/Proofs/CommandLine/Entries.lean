import LiteralLint.Proofs.CommandLine.Placement

/-! # What is given on a command line

A reader looks at a value only when the next argument comes. What it comes to is therefore said of
the entries that are still to come: it gives them if they fit behind what was given and what
waits. -/

set_option autoImplicit false

namespace LiteralLint.CommandLine

abbrev Entries := List (Argument × String)

namespace Entries

def settings (es : Entries) : Settings := es.map fun e => (e.1.key, e.2)

structure Fit (es : Entries) (given : Settings) : Prop where
  valid : ∀ e ∈ es, isValidValue e.1.key e.2 = true
  fresh : ∀ e ∈ es, e.1.kind.isRepeatable = true ∨ given.has e.1.key = false
  apart : es.Pairwise fun d e => e.1.kind.isRepeatable = true ∨ d.1.key ≠ e.1.key

variable {es fs : Entries} {given : Settings} {a : Argument} {value : String}

theorem settings_append (es fs : Entries) : settings (es ++ fs) = settings es ++ settings fs :=
  List.map_append

theorem Fit.nil (given : Settings) : Fit [] given :=
  ⟨List.forall_mem_nil _, List.forall_mem_nil _, List.Pairwise.nil⟩

theorem fit_cons_iff : Fit ((a, value) :: es) given ↔
    (a.kind.isRepeatable = true ∨ given.has a.key = false) ∧ isValidValue a.key value = true ∧
      Fit es (given ++ [(a.key, value)]) := by
  have hHas (key : Key) : (given ++ [(a.key, value)]).has key = false ↔
      given.has key = false ∧ a.key ≠ key := by
    rw [Settings.has_append, Bool.or_eq_false_iff]
    simp [Settings.has]
  constructor
  · rintro ⟨hValid, hFresh, hApart⟩
    obtain ⟨hValidHead, hValid⟩ := List.forall_mem_cons.mp hValid
    obtain ⟨hFreshHead, hFresh⟩ := List.forall_mem_cons.mp hFresh
    obtain ⟨hApartHead, hApart⟩ := List.pairwise_cons.mp hApart
    refine ⟨hFreshHead, hValidHead, hValid, fun e hMem => ?_, hApart⟩
    rw [hHas]
    rcases hFresh e hMem with hRepeatable | hLacks
    · exact Or.inl hRepeatable
    · exact (hApartHead e hMem).imp_right fun hNe => ⟨hLacks, hNe⟩
  · rintro ⟨hFreshHead, hValidHead, hValid, hFresh, hApart⟩
    simp only [hHas] at hFresh
    refine ⟨List.forall_mem_cons.mpr ⟨hValidHead, hValid⟩,
      List.forall_mem_cons.mpr ⟨hFreshHead, fun e hMem => (hFresh e hMem).imp_right And.left⟩,
      List.pairwise_cons.mpr ⟨fun e hMem => (hFresh e hMem).imp_right And.right, hApart⟩⟩

theorem fit_append_iff :
    Fit (es ++ fs) given ↔ Fit es given ∧ Fit fs (given ++ settings es) := by
  induction es generalizing given with
  | nil => rw [List.nil_append, and_iff_right (.nil given), settings, List.map_nil, List.append_nil]
  | cons e es ih =>
    obtain ⟨a, value⟩ := e
    have hSettings : given ++ settings ((a, value) :: es) =
        given ++ [(a.key, value)] ++ settings es := by
      rw [List.append_assoc]
      rfl
    rw [List.cons_append, fit_cons_iff, fit_cons_iff, ih, hSettings, and_assoc, and_assoc]

end Entries

open Entries (Fit)

namespace Reading

variable {r q next : Reading} {es fs more given : Entries} {a b : Argument} {value : String}
  {open? : Option Argument} {t : Settings}

def waiting (r : Reading) : Entries :=
  match r.pending with
  | some ⟨a, some value⟩ => [(a, value)]
  | _ => []

def opened? (r : Reading) : Option Argument :=
  match r.pending with
  | some ⟨a, none⟩ => some a
  | _ => none

/-- With these entries still to come, a reading comes to some settings. -/
structure Reaches (r : Reading) (es : Entries) (t : Settings) : Prop where
  fit : Fit (r.waiting ++ es) r.settings
  settings : t = r.settings ++ Entries.settings (r.waiting ++ es)

theorem give_eq_ok_iff_fit : q.give a value = .ok next ↔
    Fit [(a, value)] q.settings ∧ next = { q with settings := q.settings ++ [(a.key, value)] } := by
  rw [give_eq_ok_iff, Entries.fit_cons_iff, and_iff_left (Fit.nil _), and_assoc]

theorem settle_eq_ok_iff_fit : r.settle = .ok q ↔
    r.opened? = none ∧ Fit r.waiting r.settings ∧
      q = ⟨r.settings ++ Entries.settings r.waiting, none, r.trailing⟩ := by
  obtain ⟨settings, _ | ⟨a, _ | value⟩, trailing⟩ := r
  · simp only [settle, opened?, waiting, Entries.settings, List.map_nil, List.append_nil,
      Except.ok.injEq, true_and]
    exact ⟨fun h => ⟨.nil _, h.symm⟩, fun h => h.2.symm⟩
  · simp [settle, opened?]
  · simp only [settle, opened?, waiting, true_and]
    exact give_eq_ok_iff_fit

/-- Between two readings some entries were given, and an argument may have been left open. -/
structure Passes (r : Reading) (es : Entries) (open? : Option Argument) (next : Reading) :
    Prop where
  opened : next.opened? = open?
  trailing : next.trailing = r.trailing
  reaches {more : Entries} {t : Settings} : next.Reaches more t ↔ r.Reaches (es ++ more) t

theorem Passes.trans (h : Passes r es none q) (hNext : Passes q fs open? next) :
    Passes r (es ++ fs) open? next where
  opened := hNext.opened
  trailing := hNext.trailing.trans h.trailing
  reaches {more t} := by rw [hNext.reaches, h.reaches, List.append_assoc]

theorem Passes.of_given (hFit : Fit given r.settings)
    (hEntries : r.waiting ++ es = given ++ next.waiting)
    (hSettings : next.settings = r.settings ++ Entries.settings given)
    (hOpened : next.opened? = open?) (hTrailing : next.trailing = r.trailing) :
    Passes r es open? next where
  opened := hOpened
  trailing := hTrailing
  reaches := by
    intro more t
    have hAll : r.waiting ++ (es ++ more) = given ++ (next.waiting ++ more) := by
      rw [← List.append_assoc, hEntries, List.append_assoc]
    constructor
    · rintro ⟨hRest, rfl⟩
      refine ⟨?_, ?_⟩
      · rw [hAll, Entries.fit_append_iff, ← hSettings]
        exact ⟨hFit, hRest⟩
      · rw [hAll, hSettings, Entries.settings_append given, List.append_assoc]
    · rintro ⟨hRest, rfl⟩
      rw [hAll, Entries.fit_append_iff, ← hSettings] at hRest
      refine ⟨hRest.2, ?_⟩
      rw [hAll, hSettings, Entries.settings_append given, List.append_assoc]

/-- A step gives some entries, and succeeds if they fit. -/
structure Gives (step : Except Refusal Reading) (r : Reading) (es : Entries)
    (open? : Option Argument) : Prop where
  passes {next : Reading} : step = .ok next → Passes r es open? next
  succeeds {more : Entries} {t : Settings} : r.Reaches (es ++ more) t → ∃ next, step = .ok next

theorem Gives.bind {step : Except Refusal Reading} {further : Reading → Except Refusal Reading}
    (h : Gives step r es none) (hFurther : ∀ q, Passes r es none q → Gives (further q) q fs open?) :
    Gives (step >>= further) r (es ++ fs) open? where
  passes hNext := by
    obtain ⟨q, hStep, hNext⟩ := bind_eq_ok hNext
    exact (h.passes hStep).trans ((hFurther q (h.passes hStep)).passes hNext)
  succeeds hReaches := by
    rw [List.append_assoc] at hReaches
    obtain ⟨q, hStep⟩ := h.succeeds hReaches
    obtain ⟨next, hNext⟩ :=
      (hFurther q (h.passes hStep)).succeeds ((h.passes hStep).reaches.mpr hReaches)
    exact ⟨next, (bind_of_ok hStep).trans hNext⟩

theorem Reaches.fit_waiting (h : r.Reaches es t) : Fit r.waiting r.settings :=
  (Entries.fit_append_iff.mp h.fit).1

section

variable (hOpened : r.opened? = none)
include hOpened

theorem gives_settle_give (a : Argument) (value : String) :
    Gives (r.settle >>= fun q => q.give a value) r [(a, value)] none where
  passes hNext := by
    obtain ⟨q, hSettle, hGive⟩ := bind_eq_ok hNext
    obtain ⟨-, hWaiting, rfl⟩ := settle_eq_ok_iff_fit.mp hSettle
    obtain ⟨hEntry, rfl⟩ := give_eq_ok_iff_fit.mp hGive
    have hGiven : Fit (r.waiting ++ [(a, value)]) r.settings :=
      Entries.fit_append_iff.mpr ⟨hWaiting, hEntry⟩
    refine .of_given hGiven (List.append_nil _).symm ?_ rfl rfl
    rw [Entries.settings_append, ← List.append_assoc]
    rfl
  succeeds hReaches := by
    obtain ⟨hWaiting, hRest⟩ := Entries.fit_append_iff.mp hReaches.fit
    obtain ⟨hEntry, -⟩ := Entries.fit_append_iff.mp hRest
    have hSettle := settle_eq_ok_iff_fit.mpr ⟨hOpened, hWaiting, rfl⟩
    exact ⟨_, (bind_of_ok hSettle).trans (give_eq_ok_iff_fit.mpr ⟨hEntry, rfl⟩)⟩

theorem gives_expect_some (a : Argument) (value : String) :
    Gives (r.expect a (some value)) r [(a, value)] none where
  passes hNext := by
    obtain ⟨q, hSettle, rfl⟩ := expect_eq_ok_iff.mp hNext
    obtain ⟨-, hWaiting, rfl⟩ := settle_eq_ok_iff_fit.mp hSettle
    exact .of_given hWaiting rfl rfl rfl rfl
  succeeds hReaches :=
    ⟨_, expect_eq_ok_iff.mpr
      ⟨_, settle_eq_ok_iff_fit.mpr ⟨hOpened, hReaches.fit_waiting, rfl⟩, rfl⟩⟩

theorem gives_expect_none (a : Argument) : Gives (r.expect a none) r [] (some a) where
  passes hNext := by
    obtain ⟨q, hSettle, rfl⟩ := expect_eq_ok_iff.mp hNext
    obtain ⟨-, hWaiting, rfl⟩ := settle_eq_ok_iff_fit.mp hSettle
    exact .of_given hWaiting rfl rfl rfl rfl
  succeeds hReaches :=
    ⟨_, expect_eq_ok_iff.mpr
      ⟨_, settle_eq_ok_iff_fit.mpr ⟨hOpened, hReaches.fit_waiting, rfl⟩, rfl⟩⟩

end

theorem opened?_of_settle (h : r.settle = .ok q) : r.opened? = none :=
  (settle_eq_ok_iff_fit.mp h).1

end Reading

end LiteralLint.CommandLine
