import LiteralLint.Log.Destination
import LiteralLint.Proofs.FileTree.Following
import LiteralLint.Proofs.Traversal

/-! # Growing trees

Opening a log only adds to a tree. What was found in the tree is found as before, and a path that
led to nothing may lead to something now; any other reason why a path cannot be used stays. -/

set_option autoImplicit false

namespace LiteralLint

theorem lookup_filter {α β : Type} [BEq α] [LawfulBEq α] {key : α} {keeps : α × β → Bool}
    {entries : List (α × β)} (h : ∀ entry ∈ entries, keeps entry = false → entry.1 ≠ key) :
    List.lookup key (entries.filter keeps) = List.lookup key entries := by
  induction entries with
  | nil => rfl
  | cons entry entries ih =>
    rw [List.forall_mem_cons] at h
    cases hKeeps : keeps entry with
    | false =>
      rw [List.filter_cons_of_neg (by simp [hKeeps]), ih h.2, List.lookup_cons,
        beq_false_of_ne (Ne.symm (h.1 hKeeps))]
    | true =>
      rw [List.filter_cons_of_pos hKeeps, List.lookup_cons, List.lookup_cons, ih h.2]

namespace FileTree

variable {tree later latest : FileTree} {here base there location other : Location}
  {pieces : List (List Char)} {path name : String} {node : Node} {fault : AccessFault}

def Grows (tree later : FileTree) : Prop :=
  ∀ location node, tree.node? location = some node → later.node? location = some node

theorem Grows.refl (tree : FileTree) : tree.Grows tree := fun _ _ h => h

theorem Grows.trans (h : tree.Grows later) (hNext : later.Grows latest) : tree.Grows latest :=
  fun location node hNode => hNext location node (h location node hNode)

theorem Grows.isSome (h : tree.Grows later) (hThere : (tree.node? location).isSome = true) :
    (later.node? location).isSome = true := by
  obtain ⟨node, hNode⟩ := Option.isSome_iff_exists.mp hThere
  rw [h location node hNode]
  rfl

theorem node?_insert_of_ne (h : other ≠ location) :
    (tree.insert location node).node? other = tree.node? other := by
  cases other with
  | nil => rfl
  | cons first rest =>
    simp only [node?, insert, List.lookup_cons, beq_false_of_ne h]
    refine lookup_filter fun entry _ hDropped => ?_
    rw [of_not_not (of_decide_eq_false hDropped)]
    exact Ne.symm h

theorem ne_nil_of_free (h : tree.node? location = none) : location ≠ [] := by
  rintro rfl
  cases h

theorem grows_insert (h : tree.node? location = none) (node : Node) :
    tree.Grows (tree.insert location node) := by
  intro other old hOld
  rw [node?_insert_of_ne, hOld]
  rintro rfl
  rw [h] at hOld
  cases hOld

/-- Directories and empty files are put, one after the other, where nothing stands. -/
inductive Adds (tree : FileTree) : FileTree → Prop where
  | none : Adds tree tree
  | insert {later : FileTree} {location : Location} {node : Node} (before : Adds tree later)
      (free : later.node? location = .none) (new : node = .directory ∨ node = .file .empty) :
      Adds tree (later.insert location node)

theorem Adds.trans (h : tree.Adds later) (hNext : later.Adds latest) : tree.Adds latest := by
  induction hNext with
  | none => exact h
  | insert _ free new ih => exact ih.insert free new

theorem Adds.grows (h : tree.Adds later) : tree.Grows later := by
  induction h with
  | none => exact .refl tree
  | insert _ free _ ih => exact ih.trans (grows_insert free _)

theorem Adds.file (h : tree.Adds later) {content : ByteArray}
    (hThere : later.node? location = some (.file content)) (hContent : content ≠ .empty) :
    tree.node? location = some (.file content) := by
  induction h with
  | none => exact hThere
  | @insert later place node _ free new ih =>
    by_cases hPlace : location = place
    · subst hPlace
      rw [node?_insert_self later node (ne_nil_of_free free), Option.some.injEq] at hThere
      subst hThere
      rcases new with hNew | hNew
      · cases hNew
      · exact absurd (Node.file.inj hNew) hContent
    · exact ih (node?_insert_of_ne hPlace ▸ hThere)

/-- A directory is only made where nothing stands, so that whatever outlasts that holds after a way
was made if it held before. -/
theorem makeWay_induction {motive : FileTree → Prop}
    (insert : ∀ tree location, motive tree → tree.node? location = none →
      motive (tree.insert location .directory))
    (pieces : List (List Char)) (here : Location) (h : motive tree) :
    motive (tree.makeWay here pieces).1 := by
  induction pieces generalizing tree here with
  | nil =>
    rw [makeWay]
    split <;> exact h
  | cons piece pieces ih =>
    by_cases hHere : tree.node? here = some .directory
    · cases pieceKind piece with
      | void hVoid =>
        rw [makeWay_void hHere hVoid]
        exact ih here h
      | up hUp =>
        subst hUp
        rw [makeWay_up hHere]
        exact ih here.dropLast h
      | long hLong => rwa [makeWay_long hHere hLong]
      | name hName =>
        cases hThere : tree.node? (here ++ [String.ofList piece]) with
        | some node =>
          rw [makeWay_name hHere hName hThere]
          exact ih _ h
        | none =>
          rw [makeWay_missing hHere hName hThere]
          exact ih _ (insert tree _ h hThere)
    · rwa [makeWay_of_not_directory hHere]

theorem adds_makeWay (tree : FileTree) (here : Location) (pieces : List (List Char)) :
    tree.Adds (tree.makeWay here pieces).1 :=
  makeWay_induction (fun _ _ before free => before.insert free (.inl rfl)) pieces here .none

theorem adds_makeDirectories (tree : FileTree) (base : Location) (path : String) :
    tree.Adds (tree.makeDirectories base path).1 := by
  rw [makeDirectories]
  split
  · exact .none
  · exact adds_makeWay tree _ _

theorem adds_openFile (tree : FileTree) (directory : Location) (name : String) :
    tree.Adds (tree.openFile directory name).1 := by
  rw [openFile]
  split
  · exact .none
  · split
    · exact .none
    · exact .none
    · rename_i hNone
      exact Adds.none.insert hNone (.inr rfl)

theorem Grows.follow (h : tree.Grows later) (pieces : List (List Char)) (here : Location)
    (hLeads : tree.follow here pieces ≠ .error .notFound) :
    later.follow here pieces = tree.follow here pieces := by
  induction pieces generalizing here with
  | nil => rfl
  | cons piece pieces ih =>
    cases hNode : tree.node? here with
    | none => exact absurd (follow_absent hNode piece pieces) hLeads
    | some node =>
      have hLater := h here node hNode
      cases node with
      | file content => rw [follow_file hNode, follow_file hLater]
      | directory =>
        cases pieceKind piece with
        | void hVoid =>
          rw [follow_void hNode hVoid] at hLeads ⊢
          rw [follow_void hLater hVoid]
          exact ih here hLeads
        | up hUp =>
          subst hUp
          rw [follow_up hNode] at hLeads ⊢
          rw [follow_up hLater]
          exact ih _ hLeads
        | long hLong => rw [follow_long hNode hLong, follow_long hLater hLong]
        | name hName =>
          cases hThere : tree.node? (here ++ [String.ofList piece]) with
          | none => exact absurd (follow_missing hNode hName hThere) hLeads
          | some next =>
            rw [follow_name hNode hName hThere] at hLeads ⊢
            rw [follow_name hLater hName (h _ _ hThere)]
            exact ih _ hLeads

theorem Grows.locate (h : tree.Grows later) (hLeads : tree.locate base path ≠ .error .notFound) :
    later.locate base path = tree.locate base path := by
  rcases fits_or_locate_eq_error path with ⟨hFits, hSome⟩ | ⟨fault, hFault⟩
  · rw [locate_of_fits hFits hSome] at hLeads ⊢
    rw [locate_of_fits hFits hSome]
    exact h.follow _ _ hLeads
  · rw [hFault, hFault]

theorem Grows.find (h : tree.Grows later) (hFound : tree.find base path ≠ .error .notFound) :
    later.find base path = tree.find base path := by
  cases hLocate : tree.locate base path with
  | error fault =>
    have hLeads : tree.locate base path ≠ .error .notFound := by
      intro hNone
      refine hFound ?_
      rw [FileTree.find, hNone]
      rfl
    rw [FileTree.find, FileTree.find, h.locate hLeads, hLocate]
    rfl
  | ok location =>
    have hLeads : tree.locate base path ≠ .error .notFound := by
      rw [hLocate]
      exact fun hEq => by cases hEq
    have hLater := h.locate hLeads
    rw [FileTree.find, FileTree.find, hLater, hLocate]
    cases hNode : tree.node? location with
    | none =>
      refine absurd ?_ hFound
      rw [FileTree.find, hLocate]
      simp only [bind, Except.bind, hNode]
      rfl
    | some node => simp only [bind, Except.bind, hNode, h location node hNode]

end FileTree

theorem Log.Destination.adds_openIn (s : Surroundings) (destination : Option Log.Destination) :
    s.tree.Adds (openIn s destination).1 := by
  rw [openIn]
  split
  · exact .none
  · rename_i path name _
    have hMade := FileTree.adds_makeDirectories s.tree s.directory path
    split
    · rename_i tree there hMake
      rw [hMake] at hMade
      split
      · exact hMade
      · exact hMade.trans (tree.adds_openFile there name)
    · rename_i tree hMake
      rw [hMake] at hMade
      exact hMade

end LiteralLint
