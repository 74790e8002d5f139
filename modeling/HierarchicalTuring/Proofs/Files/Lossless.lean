import HierarchicalTuring.Proofs.Files.Loading

/-! # Which projects come back from a directory

A savable project comes back from a directory that held no file of another machine
(`Project.WellFormed.comes_back`).

* `Project.Built.comes_back_iff`: and no other project that was saved does.
* `FileTree.Plain`: no name in a tree has a slash. Saving keeps this, so all machines that are loaded
  have names of files.
* `Machine.WellFormed.coordinates_read_back`: a machine whose document is read as it was written has
  coordinates that read back.
-/

set_option autoImplicit false

namespace HierarchicalTuring

open Json (Tree)

/-! ## Names -/

namespace FileTree

variable {tree tree' : FileTree} {location : Location} {path : Bytes}

/-- No name has a slash, as in every file system. -/
def Plain (tree : FileTree) : Prop :=
  ∀ entry ∈ tree.entries, ∀ name ∈ entry.1, slash ∉ name

theorem plain_empty : empty.Plain := nofun

theorem mem_of_goOn {component : Bytes} {next : Location}
    (h : goOn location component = .ok next) {name : Bytes} (hname : name ∈ next) :
    name ∈ location ∨ name = component := by
  unfold goOn at h
  split_ifs at h
  · cases h
    exact .inl hname
  · cases h
    exact .inl (List.mem_of_mem_dropLast hname)
  · cases h
    simpa using hname

/-- Names on the way come from the path that is followed. -/
theorem slash_notMem_of_locate (h : tree.locate path = .ok location) :
    ∀ name ∈ location, slash ∉ name := by
  obtain ⟨-, hfold⟩ := locate_eq_ok_iff.mp h
  refine foldlM_keeps (P := fun location => ∀ name ∈ location, slash ∉ name)
    (fun {last next} part hpart hlast hnext name hname => ?_) hfold nofun
  rcases mem_of_goOn (follow_eq_ok_iff.mp hnext).2 hname with hold | rfl
  · exact hlast name hold
  · exact slash_notMem_of_mem_components hpart

theorem Plain.put (h : tree.Plain) (hlocation : ∀ name ∈ location, slash ∉ name) (entry : Entry) :
    (tree.put location entry).Plain := by
  intro other hother
  rcases List.mem_append.mp hother with hold | hnew
  · exact h other (List.mem_of_mem_filter hold)
  · obtain rfl := List.mem_singleton.mp hnew
    exact hlocation

theorem Plain.writeFile (h : tree.Plain) {content : Bytes}
    (hwrite : tree.writeFile path content = .ok tree') : tree'.Plain := by
  obtain ⟨location, hlocate, hrest⟩ := bind_eq_ok_iff.mp hwrite
  split at hrest
  · cases hrest
  · cases hrest
    exact h.put (slash_notMem_of_locate hlocate) _

theorem Plain.makeDirectory (h : tree.Plain) (hmake : tree.makeDirectory path = .ok tree') :
    tree'.Plain := by
  obtain ⟨location, hlocate, hend⟩ := bind_eq_ok_iff.mp hmake
  cases hend
  exact h.put (slash_notMem_of_locate hlocate) _

/-- Whatever was saved of a project, no name has a slash. -/
theorem Plain.saveDocuments {directory : String} {documents : List (String × MachineDocument)}
    {result : Except Error Unit} (h : tree.Plain)
    (hsave : tree.saveDocuments directory documents = (result, tree')) : tree'.Plain := by
  induction documents generalizing tree with
  | nil =>
    cases hsave
    exact h
  | cons entry documents ih =>
    unfold FileTree.saveDocuments at hsave
    split at hsave
    · next hwrite => exact ih (h.writeFile (saveDocument_eq_ok_iff.mp hwrite)) hsave
    · cases hsave
      exact h

/-- The machines with a file in a directory have names of files. -/
theorem Plain.fileName_of_mem (h : tree.Plain) {d : Directory}
    (hopen : tree.openDirectory path = .ok d) {machine : String} (hmachine : machine ∈ d.machineNames) :
    FileName machine := by
  obtain ⟨location, -, -, rfl⟩ := openDirectory_eq_ok_iff.mp hopen
  obtain ⟨⟨name, kind⟩, hfound, hname⟩ :=
    List.mem_filterMap.mp (perm_machineNames_listing.mem_iff.mp hmachine)
  obtain ⟨entry, hentry, hplace⟩ := List.mem_filterMap.mp hfound
  obtain ⟨hne, rfl, -⟩ := Directory.machineOfEntry?_eq_some_iff.mp hname
  rw [nameIn?_eq_some_iff.mp hplace] at hentry
  have hslash := h _ hentry (fileOf machine) List.mem_concat_self
  exact ⟨hne, mt slash_mem_fileOf_iff.mpr hslash⟩

end FileTree

/-! ## Coordinates -/

/-- The document of a machine is written, and what is read describes the same machine. So its
coordinates read back. -/
theorem Machine.WellFormed.coordinates_read_back {m : Machine} (hm : m.WellFormed)
    {d : MachineDocument} (hread : MachineDocument.read m.toDocument.toTree.prettyText = .ok d)
    (hsame : d.normal = m.toDocument) :
    ∀ s ∈ m.states.live, ∀ c ∈ [s.position.x, s.position.y], c.isFinite = true ∧ c.ReadsBack := by
  intro s hs
  have hdescribed : m.toDocument.states.find? s.name = some (m.describeState s) := by
    rw [hm.find?_toDocument]
    exact hm.description?_eq_some_iff.mpr ⟨s, hs, rfl, rfl⟩
  -- What was read for the state has its position, since building does not change positions.
  obtain ⟨found, hfound, hposition⟩ : ∃ found, d.states.find? s.name = some found ∧
      found.position = s.position := by
    have hstates : d.states.map StateDocument.normal = m.toDocument.states :=
      congrArg MachineDocument.states hsame
    rw [← hstates, NameMap.find?_map, Option.map_eq_some_iff] at hdescribed
    obtain ⟨found, hfound, hnormal⟩ := hdescribed
    refine ⟨found, hfound, ?_⟩
    rw [← found.position_normal, hnormal]
    rfl
  obtain ⟨written, hwritten, hofTree⟩ :=
    Tree.find?_of_asMap_object (MachineDocument.asMap_states_of_read hread) hfound
  obtain rfl := Option.some.inj (hdescribed.symm.trans hwritten)
  obtain ⟨hx, hy⟩ := StateDocument.coordinates_of_ofTree_toTree hofTree
  rw [hposition] at hx hy
  have hback : ∀ c ∈ [s.position.x, s.position.y], (Json.treeOfBinary64 c).asBinary64 = .ok c := by
    simpa using ⟨hx, hy⟩
  exact fun c hc => Tree.asBinary64_treeOfBinary64_eq_ok_iff.mp (hback c hc)

/-! ## Projects -/

namespace Project

variable {p q : Project} {next next' : Identity} {path : String} {opened : Opened}

theorem exists_opened_of_load (h : load next path opened = .ok (q, next')) :
    ∃ d, opened = .ok d := by
  cases opened with
  | error refusal => cases h
  | ok d => exact ⟨d, rfl⟩

/-- A project that was saved comes back exactly if its machines have names of files, the coordinates
of its states read back, and the directory held no file of another machine. -/
theorem Built.comes_back_iff {free : Identity} (hp : p.Built free) {tree tree' : FileTree}
    (hplain : tree.Plain) {before : Directory}
    (hopen : tree.openDirectory (bytesOf path) = .ok before)
    (hsave : tree.save path p = (.ok (), tree')) (next : Identity) :
    (∃ q next', load next path (tree'.openDirectory (bytesOf path)) = .ok (q, next') ∧
      q.toDocuments = p.toDocuments) ↔ p.Savable ∧ before.machinesBeside p = [] := by
  have hwf := hp.wellFormed
  constructor
  · rintro ⟨q, next', hload, hsame⟩
    obtain ⟨after, hafter⟩ := exists_opened_of_load hload
    rw [hafter] at hload
    have hmachines : ∀ name, name ∈ p.machineNames ↔ name ∈ after.machineNames := by
      intro name
      rw [← mem_names_of_load hload, hsame, hwf.mem_names_toDocuments]
    have hnames : ∀ m ∈ p.machines.live, FileName m.name := fun m hm =>
      (hplain.saveDocuments hsave).fileName_of_mem hafter
        ((hmachines m.name).mp (List.mem_map_of_mem hm))
    obtain ⟨after', hafter', hsaved, hwritten⟩ := exists_written hnames hopen hsave
    obtain rfl := Except.ok.inj (hafter.symm.trans hafter')
    refine ⟨⟨hnames, fun m hm => ?_⟩, List.filter_eq_nil_iff.mpr fun name hname => ?_⟩
    · have hdocument := hwf.find?_toDocuments_of_mem hm
      have htext := hwritten (m.name, m.toDocument) (NameMap.find?_eq_some_iff.mp hdocument)
      rw [← hsame, find?_of_load hload] at hdocument
      obtain ⟨-, found, hfound, hnormal⟩ := hdocument
      obtain ⟨text, htext', hread⟩ := Directory.loadDocument_eq_ok_iff.mp hfound
      obtain rfl := Except.ok.inj (htext.symm.trans htext')
      exact (hwf.live m hm).coordinates_read_back hread hnormal
    · have hin : name ∈ p.machineNames :=
        (hmachines name).mpr ((hwf.mem_machineNames_saved hsaved).mpr (.inr hname))
      simpa using hin
  · rintro ⟨hsavable, hnone⟩
    exact hwf.comes_back hsavable hopen hsave hnone next

end Project

end HierarchicalTuring
