import HierarchicalTuring.Files.Tree
import HierarchicalTuring.Proofs.Files.Name
import HierarchicalTuring.Proofs.Result
import Mathlib.Order.Defs.LinearOrder

/-! # Writing files of machines

* `openDirectory_eq_ok_iff`: a directory is opened as its `FileTree.listing`.
* `locate_of_kept`: a path leads where it led, as long as no directory on the way is gone.
* `FileName.writeFile_eq_ok`: to write the file of a machine into a directory puts it there under its
  name, and nothing else changes. So the directory has the same other entries
  (`perm_entries_listing_put`, `find?_listing_put`).
-/

set_option autoImplicit false

namespace HierarchicalTuring

/-! ## Looking up in lists -/

/-- A key that gets another value has it, and the others keep theirs. -/
theorem find?_replaced {κ β : Type} [DecidableEq κ] (l : List (κ × β)) (key other : κ) (value : β) :
    ((l.filter (fun entry => entry.1 ≠ key) ++ [(key, value)]).find? fun entry =>
        entry.1 = other).map Prod.snd =
      if other = key then some value
      else (l.find? fun entry => entry.1 = other).map Prod.snd := by
  induction l with
  | nil => by_cases hother : other = key <;> simp [hother, eq_comm]
  | cons first rest ih =>
    by_cases hfirst : first.1 = key
    · rw [List.filter_cons_of_neg (by simpa using hfirst), ih]
      by_cases hother : other = key
      · rw [if_pos hother, if_pos hother]
      · have hne : ¬ first.1 = other := fun heq => hother (heq.symm.trans hfirst)
        rw [if_neg hother, if_neg hother, List.find?_cons_of_neg (by simpa using hne)]
    · rw [List.filter_cons_of_pos (by simpa using hfirst), List.cons_append]
      by_cases hne : first.1 = other
      · have hother : ¬ other = key := fun heq => hfirst (hne.trans heq)
        rw [if_neg hother, List.find?_cons_of_pos (by simpa using hne),
          List.find?_cons_of_pos (by simpa using hne)]
      · rw [List.find?_cons_of_neg (by simpa using hne), ih,
          List.find?_cons_of_neg (by simpa using hne)]

/-- Items that are all equal in the order keep their order, so the first of them stays the first. -/
theorem find?_mergeSort {α : Type} {le : α → α → Bool}
    (htrans : ∀ a b c, le a b = true → le b c = true → le a c = true)
    (htotal : ∀ a b, (le a b || le b a) = true) {p : α → Bool} {l : List α}
    (hequal : ∀ a b, p a = true → p b = true → le a b = true) :
    (l.mergeSort le).find? p = l.find? p := by
  have hpairwise : (l.filter p).Pairwise fun a b => le a b = true := by
    refine List.pairwise_of_forall_mem_list fun a ha b hb => ?_
    exact hequal a b (List.mem_filter.mp ha).2 (List.mem_filter.mp hb).2
  have hsublist := (List.sublist_mergeSort htrans htotal hpairwise List.filter_sublist).filter p
  rw [List.filter_filter] at hsublist
  simp only [Bool.and_self] at hsublist
  have hfilter : l.filter p = (l.mergeSort le).filter p :=
    hsublist.eq_of_length ((l.mergeSort_perm le).filter p).length_eq.symm
  rw [← List.head?_filter, ← List.head?_filter, hfilter]

namespace FileTree

variable {tree tree' : FileTree} {location : Location} {path : Bytes}

/-! ## Opening directories -/

/-- The entries directly in a directory, in the order of their names. -/
def listing (tree : FileTree) (location : Location) : Directory :=
  ⟨(tree.entries.filterMap (nameIn? location)).mergeSort fun a b => (compare a.1 b.1).isLE⟩

theorem requireDirectory_eq_ok_iff :
    tree.requireDirectory location = .ok () ↔ tree.find? location = some .directory := by
  unfold requireDirectory
  split <;> simp_all

theorem openDirectory_eq_ok_iff {d : Directory} : tree.openDirectory path = .ok d ↔
    ∃ location, tree.locate path = .ok location ∧ tree.find? location = some .directory ∧
      tree.listing location = d := by
  unfold openDirectory
  rw [bind_eq_ok_iff]
  refine exists_congr fun location => and_congr_right fun _ => ?_
  rw [bind_eq_ok_iff, ← requireDirectory_eq_ok_iff]
  constructor
  · rintro ⟨_, hdirectory, h⟩
    cases h
    exact ⟨hdirectory, rfl⟩
  · rintro ⟨hdirectory, rfl⟩
    exact ⟨(), hdirectory, rfl⟩

/-! ## Following paths -/

/-- Where a component leads from a directory, whatever stands in it. -/
def goOn (location : Location) (component : Bytes) : Except Refusal Location :=
  if component = [] ∨ component = bytesOf "." then .ok location
  else if component = bytesOf ".." then .ok location.dropLast
  else if component.contains 0 then .error .nameWithNul
  else if maxNameLength < component.length then .error .nameTooLong
  else .ok (location ++ [component])

theorem follow_eq_ok_iff {component : Bytes} {next : Location} :
    tree.follow location component = .ok next ↔
      tree.find? location = some .directory ∧ goOn location component = .ok next := by
  have hfollow : tree.follow location component =
      tree.requireDirectory location >>= fun _ => goOn location component := rfl
  rw [hfollow, bind_eq_ok_iff, ← requireDirectory_eq_ok_iff]
  exact ⟨fun ⟨_, hdirectory, h⟩ => ⟨hdirectory, h⟩, fun ⟨hdirectory, h⟩ => ⟨(), hdirectory, h⟩⟩

theorem foldlM_follow_of_kept
    (hkept : ∀ other, tree.find? other = some .directory → tree'.find? other = some .directory)
    {parts : List Bytes} {before : Location} (h : parts.foldlM tree.follow before = .ok location) :
    parts.foldlM tree'.follow before = .ok location := by
  induction parts generalizing before with
  | nil => exact h
  | cons part parts ih =>
    rw [List.foldlM_cons] at h ⊢
    obtain ⟨next, hnext, hrest⟩ := bind_eq_ok_iff.mp h
    obtain ⟨hdirectory, hgo⟩ := follow_eq_ok_iff.mp hnext
    exact bind_eq_ok_iff.mpr ⟨next, follow_eq_ok_iff.mpr ⟨hkept _ hdirectory, hgo⟩, ih hrest⟩

theorem foldlM_follow_concat {parts : List Bytes} {part : Bytes} {before : Location} :
    (parts ++ [part]).foldlM tree.follow before = .ok location ↔
      ∃ last, parts.foldlM tree.follow before = .ok last ∧ tree.find? last = some .directory ∧
        goOn last part = .ok location := by
  rw [List.foldlM_append, bind_eq_ok_iff]
  refine exists_congr fun last => and_congr_right fun _ => ?_
  rw [List.foldlM_cons, bind_eq_ok_iff, ← follow_eq_ok_iff]
  constructor
  · rintro ⟨next, hnext, hend⟩
    cases hend
    exact hnext
  · exact fun h => ⟨location, h, rfl⟩

theorem locate_eq_ok_iff : tree.locate path = .ok location ↔
    path.length ≤ maxPathLength ∧ (components path).foldlM tree.follow [] = .ok location := by
  unfold locate
  split
  · next hlong => exact iff_of_false nofun fun h => absurd h.1 (Nat.not_le_of_lt hlong)
  · next hshort => exact ⟨fun h => ⟨Nat.le_of_not_lt hshort, h⟩, And.right⟩

/-- A path leads to the same place in another tree that has at least the same directories. -/
theorem locate_of_kept
    (hkept : ∀ other, tree.find? other = some .directory → tree'.find? other = some .directory)
    (h : tree.locate path = .ok location) : tree'.locate path = .ok location := by
  obtain ⟨hshort, hfold⟩ := locate_eq_ok_iff.mp h
  exact locate_eq_ok_iff.mpr ⟨hshort, foldlM_follow_of_kept hkept hfold⟩

/-! ## Entries after a change -/

theorem find?_put (hne : location ≠ []) (entry : Entry) (other : Location) :
    (tree.put location entry).find? other =
      if other = location then some entry else tree.find? other := by
  unfold find? put
  rw [find?_replaced]
  by_cases hother : other = location
  · rw [if_pos hother, if_pos hother, if_neg (hother ▸ hne)]
  · rw [if_neg hother, if_neg hother]

theorem nameIn?_eq_some_iff {entry : Location × Entry} {name : Bytes} {found : Entry} :
    nameIn? location entry = some (name, found) ↔ entry = (location ++ [name], found) := by
  obtain ⟨place, kind⟩ := entry
  unfold nameIn?
  rcases List.eq_nil_or_concat' place with rfl | ⟨parent, last, rfl⟩
  · simp
  · simp only [List.getLast?_concat, List.dropLast_concat, Prod.mk.injEq]
    split
    · next hparent =>
      subst hparent
      simp
    · next hparent => 
      simp [hparent]

/-- The directory that a file is put in has it in place of what had its name there. -/
theorem filterMap_nameIn?_put (name : Bytes) (entry : Entry) :
    (tree.put (location ++ [name]) entry).entries.filterMap (nameIn? location) =
      (tree.entries.filterMap (nameIn? location)).filter (fun other => other.1 ≠ name) ++
        [(name, entry)] := by
  have hnew : nameIn? location (location ++ [name], entry) = some (name, entry) :=
    nameIn?_eq_some_iff.mpr rfl
  have hold : ∀ old : Location × Entry,
      (if decide (old.1 ≠ location ++ [name]) = true then nameIn? location old else none) =
        (nameIn? location old).filter fun other => decide (other.1 ≠ name) := by
    intro old
    cases hname : nameIn? location old with
    | none => simp
    | some found => 
      obtain rfl := nameIn?_eq_some_iff.mp hname
      by_cases hfound : found.1 = name <;> simp [hfound, Option.filter]
  unfold put
  rw [List.filterMap_append, List.filterMap_filter, List.filter_filterMap]
  simp only [hold, List.filterMap_cons, List.filterMap_nil, hnew]

theorem isLE_compare_trans (a b c : Bytes × Entry) (hab : (compare a.1 b.1).isLE = true)
    (hbc : (compare b.1 c.1).isLE = true) : (compare a.1 c.1).isLE = true :=
  Std.TransCmp.isLE_trans hab hbc

theorem isLE_compare_total (a b : Bytes × Entry) :
    ((compare a.1 b.1).isLE || (compare b.1 a.1).isLE) = true := by
  have hswap : compare a.1 b.1 = (compare b.1 a.1).swap := Std.OrientedCmp.eq_swap
  rw [hswap]
  cases compare b.1 a.1 <;> rfl

theorem perm_entries_listing_put (name : Bytes) (entry : Entry) :
    ((tree.put (location ++ [name]) entry).listing location).entries.Perm
      ((tree.listing location).entries.filter (fun other => other.1 ≠ name) ++ [(name, entry)]) := by
  refine (List.mergeSort_perm _ _).trans ?_
  rw [filterMap_nameIn?_put]
  exact ((List.mergeSort_perm _ _).symm.filter _).append_right _

theorem find?_listing (other : Bytes) : (tree.listing location).find? other =
    ((tree.entries.filterMap (nameIn? location)).find? fun entry => entry.1 = other).map
      Prod.snd := by
  unfold Directory.find? listing
  rw [find?_mergeSort isLE_compare_trans isLE_compare_total]
  intro a b ha hb
  have hself : compare other other = .eq := Std.ReflCmp.compare_self
  rw [of_decide_eq_true ha, of_decide_eq_true hb, hself]
  rfl

theorem find?_listing_put (tree : FileTree) (location : Location) (name other : Bytes)
    (entry : Entry) :
    ((tree.put (location ++ [name]) entry).listing location).find? other =
      if other = name then some entry else (tree.listing location).find? other := by
  rw [find?_listing, find?_listing, filterMap_nameIn?_put, find?_replaced]

/-! ## Files of machines -/

theorem goOn_nil {next : Location} (h : goOn location [] = .ok next) : next = location := by
  cases h
  rfl

theorem goOn_fileOf {machine : String} {next : Location}
    (h : goOn location (fileOf machine) = .ok next) : next = location ++ [fileOf machine] := by
  have hlength : 5 ≤ (fileOf machine).length := by
    rw [fileOf, bytesOf_append, List.length_append]
    exact Nat.le_add_left 5 _
  have hne : ∀ short : Bytes, short.length < 5 → fileOf machine ≠ short := fun short hshort heq =>
    absurd hshort (Nat.not_lt_of_le (heq ▸ hlength))
  unfold goOn at h
  rw [if_neg (not_or.mpr ⟨hne [] (by decide), hne (bytesOf ".") (by decide)⟩),
    if_neg (hne (bytesOf "..") (by decide))] at h
  split at h
  · cases h
  · split at h
    · cases h
    · cases h
      rfl

/-- The file of a machine stands directly in the directory. -/
theorem locate_machineFile {machine directory : String} (hname : FileName machine)
    {found : Location} (hlocate : tree.locate (bytesOf directory) = .ok location)
    (hfound : tree.locate (bytesOf (machineFile directory machine)) = .ok found) :
    found = location ++ [fileOf machine] := by
  obtain ⟨parts, hfile, hdirectory⟩ := hname.exists_components directory
  have hparts : parts.foldlM tree.follow [] = .ok location := by
    have hfold := (locate_eq_ok_iff.mp hlocate).2
    rcases hdirectory with hsame | hslash
    · rwa [hsame] at hfold
    · -- The path ends in a slash, behind which nothing is followed.
      rw [hslash, foldlM_follow_concat] at hfold
      obtain ⟨last, hlast, -, hstay⟩ := hfold
      exact goOn_nil hstay ▸ hlast
  have hfold := (locate_eq_ok_iff.mp hfound).2
  rw [hfile, foldlM_follow_concat] at hfold
  obtain ⟨last, hlast, -, hgo⟩ := hfold
  rw [hparts] at hlast
  cases hlast
  exact goOn_fileOf hgo

/-- To write the file of a machine into a directory puts it there under its name, and the directory
can still be opened. -/
theorem writeFile_machineFile {machine directory : String} (hname : FileName machine)
    (hlocate : tree.locate (bytesOf directory) = .ok location)
    (hdirectory : tree.find? location = some .directory) {content : Bytes}
    (hwrite : tree.writeFile (bytesOf (machineFile directory machine)) content = .ok tree') :
    (bytesOf (machineFile directory machine)).length ≤ maxPathLength ∧
    tree' = tree.put (location ++ [fileOf machine]) (.file content) ∧
    tree'.locate (bytesOf directory) = .ok location ∧
    tree'.find? location = some .directory := by
  obtain ⟨found, hfound, hrest⟩ := bind_eq_ok_iff.mp hwrite
  obtain rfl := locate_machineFile hname hlocate hfound
  split at hrest
  · cases hrest
  next hfree =>
  cases hrest
  have hkept : ∀ other, tree.find? other = some .directory →
      (tree.put (location ++ [fileOf machine]) (.file content)).find? other = some .directory := by
    intro other hother
    rw [find?_put (by simp), if_neg]
    · exact hother
    · rintro rfl
      exact hfree hother
  exact ⟨(locate_eq_ok_iff.mp hfound).1, rfl, locate_of_kept hkept hlocate, hkept _ hdirectory⟩

end FileTree

end HierarchicalTuring
