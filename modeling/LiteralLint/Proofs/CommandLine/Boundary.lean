import LiteralLint.Proofs.CommandLine.Insertion

/-! # Between two words

Another argument may begin behind a word that awaits no value, as long as no lone pair of dashes
stood in front of it. What is read by then can be looked at before the next word is. -/

set_option autoImplicit false

namespace LiteralLint.CommandLine

def IsFlagLetter (options : List Argument) (letter : Char) : Prop :=
  ∃ b ∈ options, b.short = some letter ∧ b.kind.takesValue = false

instance (options : List Argument) : DecidablePred (IsFlagLetter options) :=
  fun _ => inferInstanceAs (Decidable (∃ _ ∈ _, _))

def Argument.EndsLetters (b : Argument) (options : List Argument) (letters : List Char) : Prop :=
  ∃ letter ∈ b.short, letters.getLast? = some letter ∧
    ∀ other ∈ letters.dropLast, IsFlagLetter options other

instance (b : Argument) (options : List Argument) : DecidablePred (b.EndsLetters options) :=
  fun letters =>
    have : Decidable (∀ other ∈ letters.dropLast, IsFlagLetter options other) :=
      List.decidableBAll _ _
    Option.decidableExistsMem b.short

/-- A word that names an argument whose value is the next word. -/
def LeavesOpen (options : List Argument) (word : String) : Prop :=
  ∃ b ∈ options, b.kind.takesValue = true ∧
    ((∃ name ∈ b.long, word = "--" ++ name) ∨
      (word.toList.head? = some '-' ∧ b.EndsLetters options word.toList.tail))

instance (options : List Argument) : DecidablePred (LeavesOpen options) :=
  fun _ => inferInstanceAs (Decidable (∃ _ ∈ _, _))

/-- What is understood in front of the name of a command and behind each of them. -/
def vocabularies : List (List Argument) := rootOptions :: CommandName.all.map CommandName.options

/-- Behind these words another argument may begin. -/
structure Boundary (words : List String) : Prop where
  options : "--" ∉ words
  closed : ∀ options ∈ vocabularies, ∀ word ∈ words.getLast?, ¬ LeavesOpen options word

theorem rootOptions_mem_vocabularies : rootOptions ∈ vocabularies := List.mem_cons_self

theorem options_mem_vocabularies (command : CommandName) : command.options ∈ vocabularies := by
  refine List.mem_cons_of_mem _ (List.mem_map_of_mem ?_)
  cases command <;> decide

theorem Boundary.of_suffix {words inner : List String} (h : Boundary words)
    (hSuffix : inner <:+ words) : Boundary inner := by
  refine ⟨fun hMem => h.options (hSuffix.subset hMem), fun options hOptions word hWord => ?_⟩
  obtain ⟨front, rfl⟩ := hSuffix
  refine h.closed options hOptions word ?_
  rw [List.getLast?_append, Option.mem_def.mp hWord, Option.some_or]
  rfl

namespace Reading

variable {a b : Argument} {q q₁ q₂ r : Reading} {v : Option String} {value word : String}
  {form : Form} {options : List Argument} {words given : List String}

theorem expect_eq_ok_iff : q.expect b v = .ok q₁ ↔
    ∃ q₂, q.settle = .ok q₂ ∧ q₁ = { q₂ with pending := some ⟨b, v⟩ } := by
  constructor
  · intro h
    obtain ⟨q₂, hSettle, hEq⟩ := bind_eq_ok h
    exact ⟨q₂, hSettle, (Except.ok.inj hEq).symm⟩
  · rintro ⟨q₂, hSettle, rfl⟩
    exact bind_of_ok hSettle

theorem mention_eq_ok (h : q.mention b = .ok q₁) :
    ∃ q₂, q.settle = .ok q₂ ∧ q₂.give b "" = .ok q₁ := by
  obtain ⟨q₂, hSettle, hGive⟩ := bind_eq_ok h
  refine ⟨q₂, hSettle, ?_⟩
  split at hGive
  · cases hGive
  · cases hGive
  · exact hGive

theorem readStray_eq_ok (h : q.readStray form word = .ok q₁) :
    ∃ b q₂, q.settle = .ok q₂ ∧ q₂.give b word = .ok q₁ := by
  rw [readStray] at h
  split at h
  · obtain ⟨q₂, hSettle, hGive⟩ := bind_eq_ok h
    exact ⟨_, q₂, hSettle, hGive⟩
  · split at h <;> cases h

theorem takeWhile_eq_self {c : Char} {cs : List Char}
    (h : ∀ rest, cs.dropWhile (· ≠ c) = c :: rest → False) : cs.takeWhile (· ≠ c) = cs := by
  induction cs with
  | nil => rfl
  | cons first cs ih =>
    by_cases hFirst : first = c
    · subst hFirst
      exact absurd (List.dropWhile_cons_of_neg (by simp)) (h cs)
    · have hPasses : decide (first ≠ c) = true := decide_eq_true hFirst
      rw [List.dropWhile_cons_of_pos (p := fun x => decide (x ≠ c)) hPasses] at h
      rw [List.takeWhile_cons_of_pos (p := fun x => decide (x ≠ c)) hPasses, ih h]

theorem readLong_eq_ok {body : List Char} (h : q.readLong options body = .ok q₁) :
    ∃ b ∈ options, q.mention b = .ok q₁ ∨
      b.kind.takesValue = true ∧ ∃ v, q.expect b v = .ok q₁ ∧
        (v = none → b.long = some (String.ofList body)) := by
  unfold readLong at h
  dsimp only at h
  split at h
  · cases h
  · rename_i b hFind
    refine ⟨b, List.mem_of_find?_eq_some hFind, ?_⟩
    split at h
    · rename_i hTakes
      refine Or.inr ⟨hTakes, _, h, fun hNone => ?_⟩
      have hName : b.long = some (String.ofList (body.takeWhile (· ≠ '='))) := by
        simpa using List.find?_some hFind
      split at hNone
      · cases hNone
      · rename_i hOther
        rwa [takeWhile_eq_self hOther] at hName
    · split at h
      · cases h
      · exact Or.inl h

theorem readShort_cons_eq_ok {letter : Char} {letters : List Char}
    (h : readShort options q (letter :: letters) = .ok q₁) :
    ∃ b ∈ options, b.short = some letter ∧
      ((b.kind.takesValue = false ∧
          ∃ q₂, q.mention b = .ok q₂ ∧ readShort options q₂ letters = .ok q₁) ∨
        b.kind.takesValue = true ∧ ∃ v, q.expect b v = .ok q₁ ∧ (v = none → letters = [])) := by
  unfold readShort at h
  split at h
  · cases h
  · rename_i b hFind
    refine ⟨b, List.mem_of_find?_eq_some hFind, by simpa using List.find?_some hFind, ?_⟩
    split at h
    · rename_i hTakes
      refine Or.inr ⟨hTakes, _, h, fun hNone => ?_⟩
      split at hNone
      · rfl
      · cases hNone
      · cases hNone
    · rename_i hFlag
      obtain ⟨q₂, hMention, hRest⟩ := bind_eq_ok h
      exact Or.inl ⟨Bool.eq_false_iff.mpr hFlag, q₂, hMention, hRest⟩

/-! ### What is left open behind a word -/

theorem closed_of_give (hSettle : q.settle = .ok q₂) (hGive : q₂.give b word = .ok q₁) :
    q₁.trailing = q.trailing ∧ q₁.awaitsValue = false := by
  obtain ⟨-, hPending, hTrailing⟩ := settings_of_settle hSettle
  obtain ⟨-, -, rfl⟩ := give_eq_ok_iff.mp hGive
  exact ⟨hTrailing, by rw [awaitsValue, hPending]⟩

theorem closed_of_mention (h : q.mention b = .ok q₁) :
    q₁.trailing = q.trailing ∧ q₁.awaitsValue = false := by
  obtain ⟨q₂, hSettle, hGive⟩ := mention_eq_ok h
  exact closed_of_give hSettle hGive

theorem awaitsValue_of_expect (h : q.expect b v = .ok q₁) :
    q₁.trailing = q.trailing ∧ (q₁.awaitsValue = true → v = none) := by
  obtain ⟨q₂, hSettle, rfl⟩ := expect_eq_ok_iff.mp h
  refine ⟨(settings_of_settle hSettle).2.2, fun hAwaits => ?_⟩
  cases v with
  | none => rfl
  | some value => cases hAwaits

theorem closed_of_readLong {body : List Char} (h : q.readLong options body = .ok q₁) :
    q₁.trailing = q.trailing ∧
      (q₁.awaitsValue = true → LeavesOpen options (String.ofList ('-' :: '-' :: body))) := by
  obtain ⟨b, hMem, hMention | ⟨hTakes, v, hExpect, hName⟩⟩ := readLong_eq_ok h
  · obtain ⟨hTrailing, hClosed⟩ := closed_of_mention hMention
    exact ⟨hTrailing, fun hAwaits => absurd hAwaits (hClosed ▸ Bool.false_ne_true)⟩
  · obtain ⟨hTrailing, hNone⟩ := awaitsValue_of_expect hExpect
    refine ⟨hTrailing, fun hAwaits => ⟨b, hMem, hTakes, Or.inl ⟨_, hName (hNone hAwaits), ?_⟩⟩⟩
    exact String.toList_inj.mp (by simp)

theorem closed_of_readShort {letters : List Char} (h : readShort options q letters = .ok q₁) :
    q₁.trailing = q.trailing ∧
      (q₁.awaitsValue = true → (letters = [] ∧ q.awaitsValue = true) ∨
        ∃ b ∈ options, b.kind.takesValue = true ∧ b.EndsLetters options letters) := by
  induction letters generalizing q with
  | nil =>
    obtain rfl := Except.ok.inj h
    exact ⟨rfl, fun hAwaits => Or.inl ⟨rfl, hAwaits⟩⟩
  | cons letter letters ih =>
    obtain ⟨b, hMem, hShort, ⟨hFlag, q₂, hMention, hRest⟩ | ⟨hTakes, v, hExpect, hEnd⟩⟩ :=
      readShort_cons_eq_ok h
    · obtain ⟨hTrailing, hClosed⟩ := closed_of_mention hMention
      obtain ⟨hLast, hOpen⟩ := ih hRest
      refine ⟨hLast.trans hTrailing, fun hAwaits => Or.inr ?_⟩
      rcases hOpen hAwaits with ⟨-, hBefore⟩ | ⟨d, hD, hTakes, last, hName, hEnd, hFlags⟩
      · rw [hClosed] at hBefore
        cases hBefore
      · have hNe : letters ≠ [] := by
          rintro rfl
          cases hEnd
        refine ⟨d, hD, hTakes, last, hName, ?_, ?_⟩
        · rw [List.getLast?_cons_of_ne_nil hNe, hEnd]
        · rw [List.dropLast_cons_of_ne_nil hNe]
          exact List.forall_mem_cons.mpr ⟨⟨b, hMem, hShort, hFlag⟩, hFlags⟩
    · obtain ⟨hTrailing, hNone⟩ := awaitsValue_of_expect hExpect
      refine ⟨hTrailing, fun hAwaits => Or.inr ⟨b, hMem, hTakes, letter, hShort, ?_⟩⟩
      rw [hEnd (hNone hAwaits)]
      exact ⟨rfl, List.forall_mem_nil _⟩

theorem closed_of_readWord (h : q.readWord form options word = .ok q₁)
    (hTrailing : q.trailing = false) (hWord : word ≠ "--") :
    q₁.trailing = false ∧ (q₁.awaitsValue = true → LeavesOpen options word) := by
  cases shape word with
  | dashes hChars => exact absurd (String.toList_inj.mp hChars) hWord
  | long hChars =>
    rw [readWord_of_long hTrailing hChars] at h
    obtain ⟨hSame, hOpen⟩ := closed_of_readLong h
    rw [← hChars, String.ofList_toList] at hOpen
    exact ⟨hSame.trans hTrailing, hOpen⟩
  | short hNoDash hChars =>
    rw [readWord_of_short hTrailing hNoDash hChars] at h
    obtain ⟨hSame, hOpen⟩ := closed_of_readShort h
    refine ⟨hSame.trans hTrailing, fun hAwaits => ?_⟩
    rcases hOpen hAwaits with ⟨hNil, -⟩ | ⟨b, hMem, hTakes, hEnds⟩
    · cases hNil
    · refine ⟨b, hMem, hTakes, Or.inr ?_⟩
      rw [hChars]
      exact ⟨rfl, hEnds⟩
  | plain hPlain =>
    rw [readWord_of_plain hTrailing hPlain] at h
    split at h
    · obtain rfl := Except.ok.inj h
      refine ⟨hTrailing, fun hAwaits => ?_⟩
      cases hPending : q.pending with
      | none => simp [awaitsValue, hPending] at hAwaits
      | some p => simp [awaitsValue, hPending] at hAwaits
    · obtain ⟨b, q₂, hSettle, hGive⟩ := readStray_eq_ok h
      obtain ⟨hSame, hClosed⟩ := closed_of_give hSettle hGive
      exact ⟨hSame.trans hTrailing, fun hAwaits => absurd hAwaits (hClosed ▸ Bool.false_ne_true)⟩

theorem trailing_of_readWords (h : words.foldlM (readWord form options) q = .ok q₁)
    (hTrailing : q.trailing = false) (hOptions : "--" ∉ words) : q₁.trailing = false := by
  induction words generalizing q with
  | nil =>
    obtain rfl := Except.ok.inj h
    exact hTrailing
  | cons word words ih =>
    rw [List.mem_cons, not_or] at hOptions
    rw [List.foldlM_cons] at h
    obtain ⟨q₂, hWord, hWords⟩ := bind_eq_ok h
    exact ih hWords (closed_of_readWord hWord hTrailing (Ne.symm hOptions.1)).1 hOptions.2

theorem closed_of_boundary (h : words.foldlM (readWord form options) {} = .ok q)
    (hBoundary : Boundary words) (hOptions : options ∈ vocabularies) :
    q.trailing = false ∧ q.awaitsValue = false := by
  have hTrailing := trailing_of_readWords h rfl hBoundary.options
  refine ⟨hTrailing, ?_⟩
  rcases List.eq_nil_or_concat' words with rfl | ⟨front, last, rfl⟩
  · obtain rfl := Except.ok.inj h
    rfl
  · have hFront : "--" ∉ front := fun hMem => hBoundary.options (List.mem_append_left _ hMem)
    have hLast : last ≠ "--" := by
      rintro rfl
      exact hBoundary.options (List.mem_append_right _ List.mem_cons_self)
    have hClosed := hBoundary.closed options hOptions last (by simp)
    rw [List.foldlM_append] at h
    obtain ⟨q₂, hBefore, h⟩ := bind_eq_ok h
    rw [List.foldlM_cons] at h
    obtain ⟨q₃, hWord, hEnd⟩ := bind_eq_ok h
    obtain rfl := Except.ok.inj hEnd
    have hOpen := closed_of_readWord hWord (trailing_of_readWords hBefore rfl hFront) hLast
    exact Bool.eq_false_iff.mpr fun hAwaits => hClosed (hOpen.2 hAwaits)

/-! ### What is looked at in front of a word -/

theorem settles_of_expect (h : q.expect b v = .ok q₁) : ∃ q₂, q.settle = .ok q₂ := by
  obtain ⟨q₂, hSettle, -⟩ := expect_eq_ok_iff.mp h
  exact ⟨q₂, hSettle⟩

theorem settles_of_mention (h : q.mention b = .ok q₁) : ∃ q₂, q.settle = .ok q₂ := by
  obtain ⟨q₂, hSettle, -⟩ := mention_eq_ok h
  exact ⟨q₂, hSettle⟩

theorem settles_of_readWord (h : q.readWord form options word = .ok q₁)
    (hClosed : q.awaitsValue = false) :
    q₁ = { q with trailing := true } ∨ ∃ q₂, q.settle = .ok q₂ := by
  have hStray (h : q.readStray form word = .ok q₁) : ∃ q₂, q.settle = .ok q₂ := by
    obtain ⟨b, q₂, hSettle, -⟩ := readStray_eq_ok h
    exact ⟨q₂, hSettle⟩
  cases hTrailing : q.trailing with
  | true =>
    rw [readWord_of_trailing hTrailing] at h
    exact Or.inr (hStray h)
  | false =>
    cases shape word with
    | dashes hChars =>
      rw [readWord_of_dashes hTrailing hChars] at h
      exact Or.inl (Except.ok.inj h).symm
    | long hChars =>
      rw [readWord_of_long hTrailing hChars] at h
      obtain ⟨b, -, hMention | ⟨-, v, hExpect, -⟩⟩ := readLong_eq_ok h
      · exact Or.inr (settles_of_mention hMention)
      · exact Or.inr (settles_of_expect hExpect)
    | short hNoDash hChars =>
      rw [readWord_of_short hTrailing hNoDash hChars] at h
      obtain ⟨b, -, -, ⟨-, q₂, hMention, -⟩ | ⟨-, v, hExpect, -⟩⟩ := readShort_cons_eq_ok h
      · exact Or.inr (settles_of_mention hMention)
      · exact Or.inr (settles_of_expect hExpect)
    | plain hPlain =>
      rw [readWord_of_plain hTrailing hPlain, hClosed] at h
      exact Or.inr (hStray h)

theorem settles_of_trailing (h : settle { q with trailing := true } = .ok q₁) :
    ∃ q₂, q.settle = .ok q₂ := by
  rcases settle_eq_ok_iff.mp h with ⟨hPending, -⟩ | ⟨b, word, hPending, hGive⟩
  · exact ⟨q, settle_eq_ok_iff.mpr (Or.inl ⟨hPending, rfl⟩)⟩
  · obtain ⟨hRoom, hValid, -⟩ := give_eq_ok_iff.mp hGive
    exact ⟨_, settle_eq_ok_iff.mpr
      (Or.inr ⟨b, word, hPending, give_eq_ok_iff.mpr ⟨hRoom, hValid, rfl⟩⟩)⟩

theorem settles_before (h : q.readWord form options word = .ok q₁) (hClosed : q.awaitsValue = false)
    (hSettles : q₁.awaitsValue = false → ∃ q₂, q₁.settle = .ok q₂) :
    ∃ q₂, q.settle = .ok q₂ := by
  rcases settles_of_readWord h hClosed with rfl | hSettle
  · obtain ⟨q₂, hSettle⟩ := hSettles hClosed
    exact settles_of_trailing hSettle
  · exact hSettle

theorem settles_of_readWords (h : words.foldlM (readWord form options) q = .ok q₁)
    (hSettle : q₁.settle = .ok q₂) (hClosed : q.awaitsValue = false) :
    ∃ q₃, q.settle = .ok q₃ := by
  induction words generalizing q with
  | nil =>
    obtain rfl := Except.ok.inj h
    exact ⟨q₂, hSettle⟩
  | cons word words ih =>
    rw [List.foldlM_cons] at h
    obtain ⟨next, hWord, hWords⟩ := bind_eq_ok h
    exact settles_before hWord hClosed (ih hWords)

end Reading

end LiteralLint.CommandLine
