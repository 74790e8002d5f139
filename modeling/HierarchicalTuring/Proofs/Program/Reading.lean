import HierarchicalTuring.Program.Basic
import HierarchicalTuring.Program.BuiltIn
import HierarchicalTuring.Proofs.Document.Acceptance
import HierarchicalTuring.Proofs.Document.Json
import HierarchicalTuring.Proofs.Simulation.Table

/-! # Programs that start in a machine with a table

* `ProgramDocument.StartsBy`: the documents of a program are valid, and the one of its first machine
  is a given table. This can be decided for the document that a text is read as.
* Whichever identities are free, a program made from such a document starts in a machine that follows
  the table (`StartsBy.exists_follows`, `Program.exists_read`).
-/

set_option autoImplicit false

namespace HierarchicalTuring

/-! ## Texts made of pieces -/

variable {text : String} {piece rest cs : List Char}

/-- The characters are collected from the last piece on, so that each is there as soon as it is
asked for. -/
theorem toList_of_pieces (h : text.toList ++ [] = cs) : text.toList = cs := by
  rwa [List.append_nil] at h

theorem toList_append_piece (h : text.toList ++ (piece ++ rest) = cs) :
    (text ++ String.ofList piece).toList ++ rest = cs := by
  rw [String.toList_append, String.toList_ofList, List.append_assoc, h]

theorem toList_first_piece : (String.ofList piece).toList ++ rest = piece ++ rest := by
  rw [String.toList_ofList]

/-! ## Documents -/

namespace ProgramDocument

variable {document : ProgramDocument} {table : MachineDocument}

/-- A program of valid documents starts in a machine with a table. Nothing is called there. -/
def StartsBy (document : ProgramDocument) (table : MachineDocument) : Prop :=
  (∀ entry ∈ document.machines.entries, entry.2.faults = []) ∧
  (document.machines.find? document.machine).map
    (fun d => d.normal.states.map StateDocument.unplaced) = some table.states ∧
  ∀ entry ∈ table.states.entries, entry.2.submachine = none

instance : Decidable (document.StartsBy table) :=
  inferInstanceAs (Decidable (_ ∧ _ ∧ _))

theorem StartsBy.follows (h : document.StartsBy table) {q : Project} (hq : q.WellFormed)
    (hclosed : q.Closed)
    (hdocuments : q.toDocuments = document.machines.map MachineDocument.normal) :
    ∃ m, q.machine? document.machine = some m ∧ m.Follows table := by
  obtain ⟨-, htable, hcalls⟩ := h
  obtain ⟨d, hd, hstates⟩ := Option.map_eq_some_iff.mp htable
  have hfind := hq.find?_toDocuments document.machine
  rw [hdocuments, NameMap.find?_map, hd, Option.map_some, eq_comm, Option.map_eq_some_iff] at hfind
  obtain ⟨m, hm, hdocument⟩ := hfind
  have hwf := hq.of_machine? hm
  refine ⟨m, hm, hwf, hclosed m (hq.machine?_eq_some_iff.mp hm).1, fun name => ?_, ?_⟩
  · rw [← hstates, NameMap.find?_map, ← hwf.find?_toDocument, hdocument]
  · intro name s hs
    exact hcalls _ (NameMap.find?_eq_some_iff.mp hs)

theorem StartsBy.exists_follows (h : document.StartsBy table) (next : Identity) :
    ∃ program next' m, Program.ofDocument next document = .ok (program, next') ∧
      program.name = document.name ∧ program.machine = document.machine ∧
      program.project.machine? document.machine = some m ∧ m.Follows table := by
  have hvalid : ∀ entry ∈ document.machines.entries, entry.2.Valid := fun entry hentry =>
    MachineDocument.faults_eq_nil_iff.mp (h.1 entry hentry)
  obtain ⟨q, next', hq, hdocuments⟩ := Project.ofDocuments_of_valid hvalid next
  obtain ⟨hwf, hclosed⟩ := Project.ofDocuments_keeps hq
  obtain ⟨m, hm, hfollows⟩ := h.follows hwf hclosed hdocuments
  refine ⟨⟨document.name, document.description, document.machine, document.input, q⟩, next', m, ?_,
    rfl, rfl, hm, hfollows⟩
  have hbuild : Project.build next document.machines = .ok (q, next') := by
    rw [Project.build, hq]
    rfl
  rw [Program.ofDocument, hbuild]
  rfl

end ProgramDocument

/-- What is shown of the document of a text holds of the program, whichever identities are free. -/
theorem Program.exists_read {text name machine : String} {table : MachineDocument}
    (htext : ∃ document, readDocument ProgramDocument.ofTree text = .ok document ∧
      decide (document.name = name ∧ document.machine = machine ∧ document.StartsBy table) = true)
    (next : Identity) : ∃ program next' m, Program.read next text = .ok (program, next') ∧
      program.name = name ∧ program.machine = machine ∧
      program.project.machine? machine = some m ∧ m.Follows table := by
  obtain ⟨document, hread, hdocument⟩ := htext
  obtain ⟨rfl, rfl, hstarts⟩ := of_decide_eq_true hdocument
  obtain ⟨program, next', m, hprogram⟩ := hstarts.exists_follows next
  refine ⟨program, next', m, ?_⟩
  rw [Program.read, hread]
  exact hprogram

end HierarchicalTuring
