import LiteralLint.Proofs.CommandLine.Placement
import LiteralLint.Proofs.Program.Running

/-! # Starting in another directory

A run whose command line names a directory does the same as a run that is started there. The name
may stand wherever an argument may, in any spelling that is not taken for an option itself. -/

set_option autoImplicit false

namespace LiteralLint

namespace CommandLine

def directoryArgument : Argument where
  key := .chdir
  kind := .single
  short := some 'C'
  long := some "chdir"
  isGlobal := true

theorem directoryArgument_isOffered_root : directoryArgument.IsOffered rootOptions where
  takesValue := rfl
  short := by
    rintro letter ⟨⟩
    exact ⟨by decide, rfl⟩
  long := by decide

theorem directoryArgument_isOffered (command : CommandName) :
    directoryArgument.IsOffered command.options where
  takesValue := rfl
  short := by
    rintro letter ⟨⟩
    exact ⟨by decide, by cases command <;> rfl⟩
  long := by cases command <;> decide

section

variable {root inner gained : Settings} {key other : Key} {value directory : String}
  {command : Option Command} {words more : List String} {i : Invocation}

def chosen (root inner : Settings) (key : Key) : Settings := if inner.has key then inner else root

theorem chosen_values_of_root (h : Settings.Gains key value root gained) (hNe : key ≠ other) :
    (chosen gained inner other).values other = (chosen root inner other).values other := by
  rw [chosen, chosen]
  split
  · rfl
  · exact h.values_of_ne hNe

theorem chosen_values_of_inner (h : Settings.Gains key value inner gained) (hNe : key ≠ other) :
    (chosen root gained other).values other = (chosen root inner other).values other := by
  rw [chosen, chosen, h.has_of_ne hNe]
  split
  · exact h.values_of_ne hNe
  · rfl

theorem Settings.isEmpty_values (s : Settings) (key : Key) :
    (s.values key).isEmpty = !s.has key := by
  rw [Bool.eq_iff_iff, List.isEmpty_iff, Settings.values_eq_nil_iff, Bool.not_eq_true']

theorem ofSettings_eq (root inner : Settings) (command : Option Command) :
    Invocation.ofSettings root inner command =
      let values (key : Key) := (chosen root inner key).values key
      { command
        versionOnly := root.has .versionOnly
        config := (values .config).head?
        chdir := (values .chdir).head?
        quiet := !(values .quiet).isEmpty
        verbose := min greatestCount (values .verbose).length
        json := !(values .json).isEmpty
        color := ((values .color).head?.bind ColorChoice.ofName?).getD .auto } := by
  simp only [Invocation.ofSettings, Settings.count, Settings.isEmpty_values, Bool.not_not, chosen]

theorem ofSettings_gains {gainedRoot gainedInner : Settings}
    (hOther : ∀ other, other ≠ .chdir →
      (chosen gainedRoot gainedInner other).values other = (chosen root inner other).values other)
    (hOwn : (chosen gainedRoot gainedInner .chdir).values .chdir = [directory])
    (hVersion : gainedRoot.has .versionOnly = root.has .versionOnly) :
    Invocation.ofSettings gainedRoot gainedInner command =
      { Invocation.ofSettings root inner command with chdir := some directory } := by
  simp only [ofSettings_eq, hVersion, hOwn, hOther .config (by decide), hOther .quiet (by decide),
    hOther .verbose (by decide), hOther .json (by decide), hOther .color (by decide),
    List.head?_cons]

theorem chdir_ofSettings_eq_none_iff :
    (Invocation.ofSettings root inner command).chdir = none ↔
      root.has .chdir = false ∧ inner.has .chdir = false := by
  simp only [ofSettings_eq, List.head?_eq_none_iff, Settings.values_eq_nil_iff, chosen]
  cases hInner : inner.has .chdir with
  | true => simp [hInner]
  | false => simp

theorem ofSettings_gains_root (h : Settings.Gains .chdir directory root gained)
    (hNone : (Invocation.ofSettings root inner command).chdir = none) :
    Invocation.ofSettings gained inner command =
      { Invocation.ofSettings root inner command with chdir := some directory } := by
  obtain ⟨hRoot, hInner⟩ := chdir_ofSettings_eq_none_iff.mp hNone
  refine ofSettings_gains (fun other hNe => chosen_values_of_root h (Ne.symm hNe)) ?_
    (h.has_of_ne (by decide))
  rw [chosen, hInner, if_neg Bool.false_ne_true]
  exact h.values_self hRoot

theorem ofSettings_gains_inner (h : Settings.Gains .chdir directory inner gained)
    (hNone : (Invocation.ofSettings root inner command).chdir = none) :
    Invocation.ofSettings root gained command =
      { Invocation.ofSettings root inner command with chdir := some directory } := by
  obtain ⟨-, hInner⟩ := chdir_ofSettings_eq_none_iff.mp hNone
  refine ofSettings_gains (fun other hNe => chosen_values_of_inner h (Ne.symm hNe)) ?_ rfl
  rw [chosen, if_pos h.has_self]
  exact h.values_self hInner

theorem Command.ofSettings_gains {name : CommandName}
    (h : Settings.Gains .chdir directory inner gained) :
    Command.ofSettings name gained = Command.ofSettings name inner := by
  cases name with
  | check =>
    rw [ofSettings, ofSettings, h.values_of_ne (by decide), h.values_of_ne (by decide)]
  | info => rfl
  | serve => rfl

theorem read_joins (hJoins : directoryArgument.Joins directory words more) (hName : directory ≠ "")
    (h : read words = .ok i) (hNone : i.chdir = none) :
    read more = .ok { i with chdir := some directory } := by
  obtain ⟨before, given, after, rfl, rfl, hBoundary, hSpelled⟩ := hJoins
  have hValue : isValidValue directoryArgument.key directory = true := by
    simpa [isValidValue, directoryArgument] using hName
  have hRoot := directoryArgument_isOffered_root
  rcases read_eq_ok_iff.mp h with ⟨q, root, hRead, hSettle, hNonempty, rfl⟩ |
    ⟨q, root, name, behind, inner, hRead, hCommand, hSettle, rfl⟩
  all_goals obtain ⟨hLacksRoot, hLacksInner⟩ := chdir_ofSettings_eq_none_iff.mp hNone
  · rcases readRoot_insert hRoot hValue hSpelled hBoundary hRead hSettle hLacksRoot with
      ⟨r, hOther, hGains⟩ | ⟨_, _, _, hRest, _⟩
    · obtain ⟨other, hLast, hBoth⟩ := hGains.settle hValue hSettle hLacksRoot
      refine read_eq_ok_iff.mpr (Or.inl ⟨r, other, hOther, hLast, ?_, ?_⟩)
      · intro hNil
        have hGiven := hBoth.settings.has_self
        rw [hNil] at hGiven
        cases hGiven
      · exact (ofSettings_gains_root hBoth.settings hNone).symm
    · cases hRest
  · rcases readRoot_insert hRoot hValue hSpelled hBoundary hRead hSettle hLacksRoot with
      ⟨r, hOther, hGains⟩ | ⟨_, front, hFront, hRest, hOther⟩
    · obtain ⟨other, hLast, hBoth⟩ := hGains.settle hValue hSettle hLacksRoot
      exact read_eq_ok_iff.mpr (Or.inr ⟨r, other, name, behind, inner, hOther, hCommand, hLast,
        (ofSettings_gains_root hBoth.settings hNone).symm⟩)
    · obtain ⟨rfl, rfl⟩ := Prod.mk.inj (Option.some.inj hRest)
      obtain ⟨gained, hBehind, hGained⟩ := readCommand_insert (directoryArgument_isOffered name)
        hValue hSpelled hFront hCommand hLacksInner
      refine read_eq_ok_iff.mpr (Or.inr ⟨q, root, name, _, gained, hOther, hBehind, hSettle, ?_⟩)
      rw [Command.ofSettings_gains hGained]
      exact (ofSettings_gains_inner hGained hNone).symm

end

end CommandLine

namespace Program

open CommandLine

variable {s : Surroundings} {words more : List String} {invocation : Invocation}
  {directory : String} {there : Location}

theorem ne_empty_of_enter {tree : FileTree} {base : Location}
    (h : tree.enter base directory = .ok there) : directory ≠ "" := by
  rintro rfl
  cases h

theorem enter_of_enter (hThere : s.tree.enter s.directory directory = .ok there) :
    enter s (some directory) = .ok { s with directory := there } := by
  simp only [enter, hThere]

theorem run_jobOf (s : Surroundings) (invocation : Invocation) (command : Command) (config : Config)
    (sources : Sources) (directory : Option String) (input : List String) :
    (jobOf s { invocation with chdir := directory } command config sources).run input =
      (jobOf s invocation command config sources).run input := by
  cases command <;> rfl

/-- A run that is told to work in a directory has the result of one that is started there: the same
exit code, stdout, stderr (without the lines of the log), created files and events for the log. -/
theorem run_entering (hRead : CommandLine.read words = .ok invocation)
    (hStay : invocation.chdir = none)
    (hThere : s.tree.enter s.directory directory = .ok there)
    (hJoins : directoryArgument.Joins directory words more) (input : List String) :
    run s more input = run { s with directory := there } words input := by
  have hMore := read_joins hJoins (ne_empty_of_enter hThere) hRead hStay
  have hEnter := enter_of_enter hThere
  have hHere : enter { s with directory := there } invocation.chdir =
      .ok { s with directory := there } := by rw [hStay]; rfl
  cases hVersion : invocation.versionOnly with
  | true => rw [run_of_versionOnly hMore hVersion, run_of_versionOnly hRead hVersion]
  | false =>
    cases hCommand : invocation.command with
    | none =>
      rw [run_of_no_command hMore hVersion hCommand, run_of_no_command hRead hVersion hCommand]
    | some command =>
      cases hLoad : loadConfig { s with directory := there } invocation with
      | error failure =>
        rw [run_of_failure hMore hVersion hCommand (prepare_of_load_error hEnter hLoad),
          run_of_failure hRead hVersion hCommand (prepare_of_load_error hHere hLoad)]
      | ok loaded =>
        rw [run_of_ready hMore hVersion hCommand (prepare_of_load hEnter hLoad),
          run_of_ready hRead hVersion hCommand (prepare_of_load hHere hLoad)]
        exact run_jobOf _ _ _ _ _ _ _

def twoRooms : Surroundings where
  tree := (FileTree.empty.withFile ["work", "sub", "a.ts"] "format: 'bmp'".toUTF8).withDirectories
    ["work", "-d"]
  directory := ["work"]
  environment := [("HOME", "/home")]
  today := "2026-01-01"

/-- The directory is named behind the file, which is looked for in it. -/
theorem run_entering_twoRooms :
    CommandLine.read ["-qv", "check", "a.ts", "--", "b.ts"] =
      .ok { command := some (.check ⟨["a.ts", "b.ts"], []⟩), quiet := true, verbose := 1 } ∧
    twoRooms.tree.enter twoRooms.directory "sub" = .ok ["work", "sub"] ∧
    run twoRooms ["-qv", "check", "a.ts", "-C", "sub", "--", "b.ts"] [] =
      run { twoRooms with directory := ["work", "sub"] }
        ["-qv", "check", "a.ts", "--", "b.ts"] [] := by
  have hRead : CommandLine.read ["-qv", "check", "a.ts", "--", "b.ts"] =
      .ok { command := some (.check ⟨["a.ts", "b.ts"], []⟩), quiet := true, verbose := 1 } := rfl
  have hThere : twoRooms.tree.enter twoRooms.directory "sub" = .ok ["work", "sub"] := rfl
  refine ⟨hRead, hThere, run_entering hRead rfl hThere ?_ []⟩
  exact ⟨["-qv", "check", "a.ts"], ["-C", "sub"], ["--", "b.ts"], rfl, rfl,
    ⟨by decide, by decide⟩, .apart (.short rfl) (by decide)⟩

/-- A directory whose name begins with a dash is taken for an option where it stands alone. -/
theorem not_run_entering_dashed :
    ¬ ∀ (s : Surroundings) (words : List String) (invocation : Invocation) (directory : String)
      (there : Location), CommandLine.read words = .ok invocation → invocation.chdir = none →
      invocation.command = some .info → s.tree.enter s.directory directory = .ok there →
      (run s ("-C" :: directory :: words) []).exitCode =
        (run { s with directory := there } words []).exitCode := by
  intro h
  have hRead : CommandLine.read ["info"] = .ok { command := some .info } := rfl
  have hThere : twoRooms.tree.enter twoRooms.directory "-d" = .ok ["work", "-d"] := rfl
  have hRefused : (run twoRooms ["-C", "-d", "info"] []).exitCode = 2 := rfl
  have hInformed :
      (run { twoRooms with directory := ["work", "-d"] } ["info"] []).exitCode = 0 := by
    decide +kernel
  have hSame := h twoRooms ["info"] _ "-d" _ hRead rfl rfl hThere
  rw [hRefused, hInformed] at hSame
  cases hSame

end Program

end LiteralLint
