import HierarchicalTuring.Files.Project
import HierarchicalTuring.Proofs.Files.Tree

/-! # Directories that machines are saved in

* `Directory.Saved before after texts`: the machines have the given texts in `after`, and every other
  machine file is as it is in `before`.
* One file that is written is saved so (`FileTree.saved_put`), and then all files of a project
  (`FileTree.saved_of_saveDocuments`).
-/

set_option autoImplicit false

namespace HierarchicalTuring

namespace Directory

theorem machineOfEntry?_eq_some_iff {entry : Bytes × Entry} {machine : String} :
    machineOfEntry? entry = some machine ↔
      machine ≠ "" ∧ entry.1 = fileOf machine ∧ ∃ content, entry.2 = .file content := by
  unfold machineOfEntry?
  cases entry.2 with
  | directory => simp
  | file content => simp [machineOfFile?_eq_some_iff, fileOf]

theorem perm_machineNames (d : Directory) :
    d.machineNames.Perm (d.entries.filterMap machineOfEntry?) :=
  List.mergeSort_perm _ _

theorem pairwise_machineNames (d : Directory) : d.machineNames.Pairwise (· ≤ ·) := by
  have hsorted : d.machineNames.Pairwise fun a b => decide (a ≤ b) = true :=
    List.pairwise_mergeSort (fun a b c => by simpa using String.le_trans)
      (fun a b => by simpa using String.le_total a b) _
  exact hsorted.imp of_decide_eq_true

/-- The machines have these texts, and the files of all others are as before. -/
structure Saved (before after : Directory) (texts : List (String × String)) : Prop where
  names : after.machineNames.Perm
    (before.machineNames.filter (· ∉ texts.map Prod.fst) ++ texts.map Prod.fst)
  read : ∀ entry ∈ texts, after.readText (entry.1 ++ machineEnding) = .ok entry.2
  others : ∀ machine, machine ∉ texts.map Prod.fst →
    after.readText (machine ++ machineEnding) = before.readText (machine ++ machineEnding)

namespace Saved

variable {before middle after : Directory} {texts : List (String × String)}

theorem nil (d : Directory) : d.Saved d [] where
  names := by simp
  read := nofun
  others _ _ := rfl

/-- What is saved first stays, unless it is saved again. -/
theorem cons {machine text : String} (hfirst : before.Saved middle [(machine, text)])
    (hrest : middle.Saved after texts) (hnew : machine ∉ texts.map Prod.fst) :
    before.Saved after ((machine, text) :: texts) where
  names := by
    have hkept : (before.machineNames.filter (· ∉ [machine]) ++ [machine]).filter
          (· ∉ texts.map Prod.fst) =
        before.machineNames.filter (· ∉ machine :: texts.map Prod.fst) ++ [machine] := by
      rw [List.filter_append, List.filter_filter,
        List.filter_eq_self.mpr (by simpa using hnew : ∀ name ∈ [machine], _)]
      refine congrArg (· ++ [machine]) (List.filter_congr fun name _ => ?_)
      rw [Bool.eq_iff_iff]
      simp [and_comm]
    refine hrest.names.trans ?_
    have hboth := ((hfirst.names.filter (· ∉ texts.map Prod.fst)).append_right
      (texts.map Prod.fst))
    simp only [List.map_cons, List.map_nil] at hboth ⊢
    rwa [hkept, List.append_assoc] at hboth
  read := by
    refine List.forall_mem_cons.mpr ⟨?_, hrest.read⟩
    rw [hrest.others machine hnew]
    exact hfirst.read _ List.mem_cons_self
  others other hother := by
    rw [List.map_cons, List.mem_cons, not_or] at hother
    rw [hrest.others other hother.2, hfirst.others other (by simpa using hother.1)]

end Saved

end Directory

namespace FileTree

variable {tree tree' : FileTree} {location : Location}

theorem saved_put {machine : String} (hne : machine ≠ "") (text : String) :
    (tree.listing location).Saved
      ((tree.put (location ++ [fileOf machine]) (.file (bytesOf text))).listing location)
      [(machine, text)] where
  names := by
    have hnew : Directory.machineOfEntry? (fileOf machine, .file (bytesOf text)) = some machine :=
      Directory.machineOfEntry?_eq_some_iff.mpr ⟨hne, rfl, _, rfl⟩
    have hold : ∀ entry : Bytes × Entry,
        (if decide (entry.1 ≠ fileOf machine) = true then Directory.machineOfEntry? entry
          else none) =
          (Directory.machineOfEntry? entry).filter fun other =>
            decide (other ∉ [(machine, text)].map Prod.fst) := by
      intro entry
      cases hentry : Directory.machineOfEntry? entry with
      | none => simp
      | some other =>
        obtain ⟨-, hfile, -⟩ := Directory.machineOfEntry?_eq_some_iff.mp hentry
        rw [hfile]
        by_cases hother : other = machine <;> simp [hother, fileOf_inj, Option.filter]
    refine (Directory.perm_machineNames _).trans ?_
    refine ((perm_entries_listing_put _ _).filterMap _).trans ?_
    rw [List.filterMap_append, List.filterMap_filter]
    simp only [hold, List.filterMap_cons, List.filterMap_nil, hnew, ← List.filter_filterMap]
    exact ((Directory.perm_machineNames _).symm.filter _).append_right _
  read := by
    refine List.forall_mem_singleton.mpr ?_
    have hfind := tree.find?_listing_put location (fileOf machine) (fileOf machine)
      (.file (bytesOf text))
    rw [if_pos rfl] at hfind
    unfold Directory.readText
    rw [← fileOf, hfind]
    simp only [textOf?_bytesOf]
  others other hother := by
    have hfind := tree.find?_listing_put location (fileOf machine) (fileOf other)
      (.file (bytesOf text))
    rw [if_neg (by simpa [fileOf_inj] using hother)] at hfind
    unfold Directory.readText
    rw [← fileOf, hfind]

theorem saveDocument_eq_ok_iff {directory machine : String} {document : MachineDocument} :
    tree.saveDocument directory machine document = .ok tree' ↔
      tree.writeFile (bytesOf (machineFile directory machine))
        (bytesOf document.toTree.prettyText) = .ok tree' := by
  simp only [saveDocument]
  split <;> simp_all

theorem perm_machineNames_listing : (tree.listing location).machineNames.Perm
    ((tree.entries.filterMap (nameIn? location)).filterMap Directory.machineOfEntry?) :=
  (Directory.perm_machineNames _).trans ((List.mergeSort_perm _ _).filterMap _)

/-- After a project was saved without a refusal, its machines have their documents in the directory,
in files that are short enough to be read. -/
theorem saved_of_saveDocuments {directory : String} {documents : List (String × MachineDocument)}
    (hnames : ∀ entry ∈ documents, FileName entry.1) (hnodup : (documents.map Prod.fst).Nodup)
    (hlocate : tree.locate (bytesOf directory) = .ok location)
    (hdirectory : tree.find? location = some .directory)
    (hsave : tree.saveDocuments directory documents = (.ok (), tree')) :
    tree'.locate (bytesOf directory) = .ok location ∧ tree'.find? location = some .directory ∧
    (∀ entry ∈ documents, (bytesOf (machineFile directory entry.1)).length ≤ maxPathLength) ∧
    (tree.listing location).Saved (tree'.listing location)
      (documents.map fun entry => (entry.1, entry.2.toTree.prettyText)) := by
  induction documents generalizing tree with
  | nil =>
    cases hsave
    exact ⟨hlocate, hdirectory, nofun, .nil _⟩
  | cons entry documents ih =>
    obtain ⟨machine, document⟩ := entry
    obtain ⟨hname, hnames⟩ := List.forall_mem_cons.mp hnames
    obtain ⟨hnew, hnodup⟩ := List.nodup_cons.mp hnodup
    unfold saveDocuments at hsave
    split at hsave
    · next hwrite =>
      obtain ⟨hshort, rfl, hlocate, hdirectory⟩ :=
        writeFile_machineFile hname hlocate hdirectory (saveDocument_eq_ok_iff.mp hwrite)
      obtain ⟨hlocate, hdirectory, hshorts, hrest⟩ := ih hnames hnodup hlocate hdirectory hsave
      refine ⟨hlocate, hdirectory, List.forall_mem_cons.mpr ⟨hshort, hshorts⟩, ?_⟩
      refine (saved_put hname.ne_empty _).cons hrest ?_
      rwa [List.map_map]
    · cases hsave

end FileTree

end HierarchicalTuring
