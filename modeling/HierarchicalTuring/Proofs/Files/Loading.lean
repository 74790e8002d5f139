import HierarchicalTuring.Proofs.Document.Acceptance
import HierarchicalTuring.Proofs.Document.Json
import HierarchicalTuring.Proofs.Files.Saved

/-! # Loading what was saved

* `Directory.Saved.loadDocuments_eq`: from a directory that documents were saved in, these are loaded
  together with the documents of the other machines that had a file there before.
* `Project.Savable`: the machines of a project have names of files, and coordinates that can be
  written and read back.
* `Project.Built.load_after_save`: what is loaded after such a project was saved. Saving removes no
  file, so machines that are not the project's come along.
-/

set_option autoImplicit false

namespace HierarchicalTuring

namespace Directory

variable {before after : Directory} {path machine : String}

theorem loadDocument_congr
    (h : after.readText (machine ++ machineEnding) = before.readText (machine ++ machineEnding)) :
    after.loadDocument path machine = before.loadDocument path machine := by
  simp only [loadDocument, readMachineFile, h]

theorem readMachineFile_of_short
    (hshort : (bytesOf (machineFile path machine)).length ≤ maxPathLength) :
    after.readMachineFile path machine = after.readText (machine ++ machineEnding) :=
  if_neg (Nat.not_lt_of_le hshort)

theorem loadDocument_eq_ok_iff {document : MachineDocument} :
    after.loadDocument path machine = .ok (machine, document) ↔
      ∃ text, after.readMachineFile path machine = .ok text ∧
        MachineDocument.read text = .ok document := by
  simp only [loadDocument]
  cases after.readMachineFile path machine with
  | error refusal => exact ⟨nofun, fun ⟨_, htext, _⟩ => nomatch htext⟩
  | ok text =>
    simp only [Except.ok.injEq, exists_eq_left']
    cases MachineDocument.read text with
    | error fault => exact ⟨nofun, nofun⟩
    | ok document' => simp

theorem fst_of_loadDocument {entry : String × MachineDocument}
    (h : after.loadDocument path machine = .ok entry) : entry.1 = machine := by
  simp only [loadDocument] at h
  split at h
  · cases h
  · split at h
    · cases h
    · cases h
      rfl

theorem mem_loaded_iff {machines : List String} {loaded : List (String × MachineDocument)}
    (h : machines.mapM (after.loadDocument path) = .ok loaded) {entry : String × MachineDocument} :
    entry ∈ loaded ↔ entry.1 ∈ machines ∧ after.loadDocument path entry.1 = .ok entry := by
  rw [mem_iff_of_mapM_eq_ok h]
  constructor
  · rintro ⟨machine, hmachine, hentry⟩
    obtain rfl := fst_of_loadDocument hentry
    exact ⟨hmachine, hentry⟩
  · exact fun ⟨hmachine, hentry⟩ => ⟨entry.1, hmachine, hentry⟩

theorem map_fst_loaded {machines : List String} {loaded : List (String × MachineDocument)}
    (h : machines.mapM (after.loadDocument path) = .ok loaded) :
    loaded.map Prod.fst = machines := by
  induction machines generalizing loaded with
  | nil =>
    cases h
    rfl
  | cons machine machines ih =>
    rw [List.mapM_cons] at h
    obtain ⟨entry, hentry, h⟩ := bind_eq_ok_iff.mp h
    obtain ⟨rest, hrest, h⟩ := bind_eq_ok_iff.mp h
    cases h
    rw [List.map_cons, fst_of_loadDocument hentry, ih hrest]

/-- Entries that are each what is loaded for their name are those of a map of them. -/
theorem find?_ofList_loaded {loaded : List (String × MachineDocument)}
    (h : ∀ entry ∈ loaded, after.loadDocument path entry.1 = .ok entry) {name : String}
    {document : MachineDocument} :
    (NameMap.ofList loaded).find? name = some document ↔ (name, document) ∈ loaded := by
  refine NameMap.find?_ofList_of_unique fun entry hentry other hother hname => ?_
  have hboth := h entry hentry
  rw [hname, h other hother] at hboth
  exact (Except.ok.inj hboth).symm

/-! ## Documents that are known beforehand -/

section Known

variable {documents : ProjectDocument} {machines : List String}
  {loaded others : List (String × MachineDocument)}

/-- The documents that are known, and those that are loaded for the other machines, are all that are
loaded. -/
theorem mem_append_known_iff (hin : ∀ name ∈ documents.names, name ∈ machines)
    (hload : ∀ entry ∈ documents.entries, after.loadDocument path entry.1 = .ok entry)
    (hloaded : machines.mapM (after.loadDocument path) = .ok loaded)
    (hothers : (machines.filter (· ∉ documents.names)).mapM (after.loadDocument path) = .ok others)
    (entry : String × MachineDocument) : entry ∈ others ++ documents.entries ↔ entry ∈ loaded := by
  rw [List.mem_append, mem_loaded_iff hloaded, mem_loaded_iff hothers, List.mem_filter,
    decide_eq_true_eq]
  constructor
  · rintro (⟨⟨hmachine, -⟩, hentry⟩ | hentry)
    · exact ⟨hmachine, hentry⟩
    · exact ⟨hin entry.1 (List.mem_map_of_mem hentry), hload entry hentry⟩
  · rintro ⟨hmachine, hentry⟩
    by_cases hname : entry.1 ∈ documents.names
    · obtain ⟨known, hknown, hfst⟩ := List.mem_map.mp hname
      have hboth := hload known hknown
      rw [hfst, hentry] at hboth
      exact .inr (Except.ok.inj hboth ▸ hknown)
    · exact .inl ⟨⟨hmachine, hname⟩, hentry⟩

theorem agree_loaded_known (hin : ∀ name ∈ documents.names, name ∈ machines)
    (hload : ∀ entry ∈ documents.entries, after.loadDocument path entry.1 = .ok entry) :
    Agree Eq (fun loaded others => NameMap.ofList loaded = .ofList (others ++ documents.entries))
      (machines.mapM (after.loadDocument path))
      ((machines.filter (· ∉ documents.names)).mapM (after.loadDocument path)) := by
  have hknown : ∀ machine ∈ machines, decide (machine ∉ documents.names) = false →
      ∃ entry, after.loadDocument path machine = .ok entry := by
    intro machine _ hname
    obtain ⟨entry, hentry, rfl⟩ := List.mem_map.mp (not_not.mp (of_decide_eq_false hname))
    exact ⟨entry, hload entry hentry⟩
  refine (agree_mapM_filter hknown).imp_of_ok fun loaded others hloaded hothers _ => ?_
  have hentries := mem_append_known_iff hin hload hloaded hothers
  have hself : ∀ entry ∈ loaded, after.loadDocument path entry.1 = .ok entry :=
    fun entry hentry => ((mem_loaded_iff hloaded).mp hentry).2
  refine NameMap.ext_find? fun name => Option.ext fun document => ?_
  rw [find?_ofList_loaded hself, ← hentries, find?_ofList_loaded]
  exact fun entry hentry => hself entry ((hentries entry).mp hentry)

end Known

namespace Saved

variable {texts : List (String × String)}

/-- The machines with a file that were not saved are the same as before, in the same order. -/
theorem filter_machineNames (hsaved : before.Saved after texts) :
    after.machineNames.filter (· ∉ texts.map Prod.fst) =
      before.machineNames.filter (· ∉ texts.map Prod.fst) := by
  have hnone : (texts.map Prod.fst).filter (· ∉ texts.map Prod.fst) = [] :=
    List.filter_eq_nil_iff.mpr fun machine hmachine => by simp [hmachine]
  have hperm := hsaved.names.filter (· ∉ texts.map Prod.fst)
  rw [List.filter_append, List.filter_filter, hnone, List.append_nil] at hperm
  simp only [Bool.and_self] at hperm
  refine hperm.eq_of_pairwise (fun _ _ _ _ => String.le_antisymm) ?_ ?_
  · exact after.pairwise_machineNames.sublist List.filter_sublist
  · exact before.pairwise_machineNames.sublist List.filter_sublist

theorem mem_machineNames_iff (hsaved : before.Saved after texts) :
    machine ∈ after.machineNames ↔
      machine ∈ before.machineNames ∨ machine ∈ texts.map Prod.fst := by
  rw [hsaved.names.mem_iff, List.mem_append, List.mem_filter]
  by_cases hmachine : machine ∈ texts.map Prod.fst
  · simp only [hmachine, or_true]
  · simp only [hmachine, or_false, decide_eq_true_eq, not_false_eq_true, and_true]

/-- Loading gives the documents that were saved, and those of the other machines that had a file. The
first fault is one of theirs. -/
theorem loadDocuments_eq {documents : ProjectDocument} (hfst : texts.map Prod.fst = documents.names)
    (hsaved : before.Saved after texts)
    (hload : ∀ entry ∈ documents.entries, after.loadDocument path entry.1 = .ok entry) :
    after.loadDocuments path =
      ((before.machineNames.filter (· ∉ documents.names)).mapM (before.loadDocument path)).map
        fun others => .ofList (others ++ documents.entries) := by
  have hin : ∀ name ∈ documents.names, name ∈ after.machineNames := fun name hname =>
    hsaved.mem_machineNames_iff.mpr (.inr (hfst ▸ hname))
  have hunchanged : (before.machineNames.filter (· ∉ documents.names)).mapM
      (before.loadDocument path) =
      (after.machineNames.filter (· ∉ documents.names)).mapM (after.loadDocument path) := by
    rw [← hfst, hsaved.filter_machineNames]
    refine mapM_congr_left fun machine hmachine => (loadDocument_congr ?_).symm
    exact hsaved.others machine (of_decide_eq_true (List.mem_filter.mp hmachine).2)
  have hagree := agree_loaded_known hin hload
  rw [hunchanged]
  unfold loadDocuments
  generalize after.machineNames.mapM (after.loadDocument path) = loaded at hagree ⊢
  generalize (after.machineNames.filter _).mapM (after.loadDocument path) = others at hagree ⊢
  cases hagree with
  | error he => rw [he]; rfl
  | ok heq => exact congrArg Except.ok heq

end Saved

end Directory

/-! ## Projects -/

/-- The machines that have a file in a directory and are not in a project. -/
def Directory.machinesBeside (d : Directory) (p : Project) : List String :=
  d.machineNames.filter (· ∉ p.machineNames)

namespace Project

variable {p : Project}

/-- The machines have names of files, and the coordinates of their states are finite and read back. -/
structure Savable (p : Project) : Prop where
  name : ∀ m ∈ p.machines.live, FileName m.name
  position : ∀ m ∈ p.machines.live, ∀ s ∈ m.states.live, ∀ c ∈ [s.position.x, s.position.y],
    c.isFinite = true ∧ c.ReadsBack

theorem mem_toDocuments_entries {entry : String × MachineDocument}
    (h : entry ∈ p.toDocuments.entries) :
    ∃ m ∈ p.machines.live, (m.name, m.toDocument) = entry :=
  List.mem_map.mp (NameMap.mem_of_mem_ofList h)

theorem WellFormed.mem_names_toDocuments (hp : p.WellFormed) {name : String} :
    name ∈ p.toDocuments.names ↔ name ∈ p.machineNames := by
  have hnodup : ((p.machines.live.map fun m => (m.name, m.toDocument)).map Prod.fst).Nodup := by
    rw [List.map_map]
    exact hp.indexed.nodup_names
  have hperm := (NameMap.perm_ofList hnodup).map Prod.fst
  rw [List.map_map] at hperm
  exact hperm.mem_iff

theorem WellFormed.find?_toDocuments_of_mem (hp : p.WellFormed) {m : Machine}
    (hm : m ∈ p.machines.live) : p.toDocuments.find? m.name = some m.toDocument := by
  have hmachine : p.machine? m.name = some m := hp.machine?_eq_some_iff.mpr ⟨hm, rfl⟩
  rw [hp.find?_toDocuments, hmachine]
  rfl

theorem Savable.read_document (h : p.Savable) :
    ∀ entry ∈ p.toDocuments.entries, MachineDocument.read entry.2.toTree.prettyText = .ok entry.2 := by
  intro entry hentry
  obtain ⟨m, hm, rfl⟩ := mem_toDocuments_entries hentry
  have hreadable : m.toDocument.Readable := Machine.readable_toDocument fun s hs =>
    ⟨(h.position m hm s hs _ (by simp)).1, (h.position m hm s hs _ (by simp)).1⟩
  refine (hreadable.read_texts fun x hx _ => ?_).2
  have hdoubles : m.toDocument.doubles = m.toDocument.states.entries.flatMap fun described =>
      [described.2.position.x, described.2.position.y] := List.append_nil _
  rw [hdoubles] at hx
  obtain ⟨described, hdescribed, hx⟩ := List.mem_flatMap.mp hx
  obtain ⟨s, hs, rfl⟩ := List.mem_map.mp (NameMap.mem_of_mem_ofList hdescribed)
  exact (h.position m hm s hs x hx).2

theorem toDocuments_of_build {next next' : Identity} {documents : ProjectDocument} {q : Project}
    (h : build next documents = .ok (q, next')) :
    q.toDocuments = documents.map MachineDocument.normal := by
  by_cases hvalid : ∀ entry ∈ documents.entries, entry.2.Valid
  · obtain ⟨q', i, hbuild, hdocuments⟩ := build_of_valid hvalid next
    rw [hbuild] at h
    cases h
    exact hdocuments
  · obtain ⟨_, _, _, -, -, -, -, hbuild⟩ := build_of_invalid hvalid next
    rw [hbuild] at h
    cases h

theorem WellFormed.build_toDocuments (hp : p.WellFormed) (next : Identity) :
    ∃ q next', build next p.toDocuments = .ok (q, next') ∧ q.toDocuments = p.toDocuments := by
  obtain ⟨q, next', hq, hdocuments⟩ := hp.ofDocuments_toDocuments next
  refine ⟨q, next', ?_, hdocuments⟩
  unfold build
  rw [hq]
  rfl

/-! ### What was loaded -/

section Loaded

variable {next next' : Identity} {path : String} {d : Directory} {q : Project}

theorem exists_loaded (h : load next path (.ok d) = .ok (q, next')) :
    ∃ loaded, d.machineNames.mapM (d.loadDocument path) = .ok loaded ∧
      q.toDocuments = (NameMap.ofList loaded).map MachineDocument.normal := by
  obtain ⟨documents, hdocuments, hbuild⟩ := bind_eq_ok_iff.mp h
  obtain ⟨loaded, hloaded, hend⟩ := bind_eq_ok_iff.mp hdocuments
  cases hend
  exact ⟨loaded, hloaded, toDocuments_of_build hbuild⟩

theorem mem_names_of_load (h : load next path (.ok d) = .ok (q, next')) {name : String} :
    name ∈ q.toDocuments.names ↔ name ∈ d.machineNames := by
  obtain ⟨loaded, hloaded, hdocuments⟩ := exists_loaded h
  rw [← Directory.map_fst_loaded hloaded, ← NameMap.mem_names_ofList, ← not_iff_not,
    ← NameMap.find?_eq_none_iff, ← NameMap.find?_eq_none_iff, hdocuments, NameMap.find?_map,
    Option.map_eq_none_iff]

theorem find?_of_load (h : load next path (.ok d) = .ok (q, next')) {name : String}
    {document : MachineDocument} : q.toDocuments.find? name = some document ↔
      name ∈ d.machineNames ∧
        ∃ found, d.loadDocument path name = .ok (name, found) ∧ found.normal = document := by
  obtain ⟨loaded, hloaded, hdocuments⟩ := exists_loaded h
  have hself : ∀ entry ∈ loaded, d.loadDocument path entry.1 = .ok entry := fun entry hentry =>
    ((Directory.mem_loaded_iff hloaded).mp hentry).2
  rw [hdocuments, NameMap.find?_map, Option.map_eq_some_iff]
  simp only [Directory.find?_ofList_loaded hself, Directory.mem_loaded_iff hloaded, and_assoc,
    exists_and_left]

end Loaded

section Save

variable {tree tree' : FileTree} {path : String} {before : Directory}

/-- A project was saved whose machines have names of files. Then the directory is still there, and
the files of the machines are read as they were written. -/
theorem exists_written (hnames : ∀ m ∈ p.machines.live, FileName m.name)
    (hopen : tree.openDirectory (bytesOf path) = .ok before)
    (hsave : tree.save path p = (.ok (), tree')) :
    ∃ after, tree'.openDirectory (bytesOf path) = .ok after ∧
      before.Saved after
        (p.toDocuments.entries.map fun entry => (entry.1, entry.2.toTree.prettyText)) ∧
      ∀ entry ∈ p.toDocuments.entries,
        after.readMachineFile path entry.1 = .ok entry.2.toTree.prettyText := by
  obtain ⟨location, hlocate, hdirectory, rfl⟩ := FileTree.openDirectory_eq_ok_iff.mp hopen
  have hfiles : ∀ entry ∈ p.toDocuments.entries, FileName entry.1 := by
    intro entry hentry
    obtain ⟨m, hm, rfl⟩ := mem_toDocuments_entries hentry
    exact hnames m hm
  obtain ⟨hlocate', hdirectory', hshort, hsaved⟩ := FileTree.saved_of_saveDocuments hfiles
    p.toDocuments.nodup_names hlocate hdirectory hsave
  refine ⟨tree'.listing location, ?_, hsaved, fun entry hentry => ?_⟩
  · exact FileTree.openDirectory_eq_ok_iff.mpr ⟨location, hlocate', hdirectory', rfl⟩
  · rw [Directory.readMachineFile_of_short (hshort entry hentry)]
    exact hsaved.read _ (List.mem_map_of_mem hentry)

/-- After a project was saved, each of its documents is loaded from the directory. -/
theorem Savable.exists_saved (hsavable : p.Savable)
    (hopen : tree.openDirectory (bytesOf path) = .ok before)
    (hsave : tree.save path p = (.ok (), tree')) :
    ∃ after, tree'.openDirectory (bytesOf path) = .ok after ∧
      before.Saved after
        (p.toDocuments.entries.map fun entry => (entry.1, entry.2.toTree.prettyText)) ∧
      ∀ entry ∈ p.toDocuments.entries, after.loadDocument path entry.1 = .ok entry := by
  obtain ⟨after, hafter, hsaved, hwritten⟩ := exists_written hsavable.name hopen hsave
  exact ⟨after, hafter, hsaved, fun entry hentry => Directory.loadDocument_eq_ok_iff.mpr
    ⟨_, hwritten entry hentry, hsavable.read_document entry hentry⟩⟩

/-- The machines that are in the directory after a project was saved. -/
theorem WellFormed.mem_machineNames_saved (hp : p.WellFormed) {after : Directory}
    (hsaved : before.Saved after
      (p.toDocuments.entries.map fun entry => (entry.1, entry.2.toTree.prettyText)))
    {name : String} :
    name ∈ after.machineNames ↔ name ∈ p.machineNames ∨ name ∈ before.machineNames := by
  rw [hsaved.mem_machineNames_iff, List.map_map, or_comm]
  exact or_congr_left hp.mem_names_toDocuments

/-- What is loaded after a project was saved: its documents, and those of the machines that had a file
and are not in it. -/
theorem WellFormed.load_saved (hp : p.WellFormed) (hsavable : p.Savable)
    (hopen : tree.openDirectory (bytesOf path) = .ok before)
    (hsave : tree.save path p = (.ok (), tree')) (next : Identity) :
    load next path (tree'.openDirectory (bytesOf path)) = (do
      let others ← (before.machinesBeside p).mapM (before.loadDocument path)
      build next (.ofList (others ++ p.toDocuments.entries))) := by
  obtain ⟨after, hopen', hsaved, hload⟩ := hsavable.exists_saved hopen hsave
  have hbeside : before.machineNames.filter (· ∉ p.toDocuments.names) = before.machinesBeside p :=
    List.filter_congr fun name _ => decide_eq_decide.mpr (not_congr hp.mem_names_toDocuments)
  rw [hopen']
  show after.loadDocuments path >>= build next = _
  rw [hsaved.loadDocuments_eq List.map_map hload, hbeside]
  cases (before.machinesBeside p).mapM (before.loadDocument path) <;> rfl

theorem WellFormed.comes_back (hp : p.WellFormed) (hsavable : p.Savable)
    (hopen : tree.openDirectory (bytesOf path) = .ok before)
    (hsave : tree.save path p = (.ok (), tree')) (hnone : before.machinesBeside p = [])
    (next : Identity) :
    ∃ q next', load next path (tree'.openDirectory (bytesOf path)) = .ok (q, next') ∧
      q.toDocuments = p.toDocuments := by
  rw [hp.load_saved hsavable hopen hsave next, hnone]
  show ∃ q next', build next (.ofList p.toDocuments.entries) = .ok (q, next') ∧ _
  rw [NameMap.ofList_entries]
  exact hp.build_toDocuments next

end Save

/-- A project is saved into a directory, and then loaded from it. What comes back is what its
documents and those in the files of other machines there build, the first fault being one of these
files. In it the machines of the project have their documents, and besides there are only machines
that had a file before. If none had, the project comes back. -/
theorem Built.load_after_save {free : Identity} (hp : p.Built free) (hsavable : p.Savable)
    {tree tree' : FileTree} {path : String} {before : Directory}
    (hopen : tree.openDirectory (bytesOf path) = .ok before)
    (hsave : tree.save path p = (.ok (), tree')) (next : Identity) :
    load next path (tree'.openDirectory (bytesOf path)) = (do
      let others ← (before.machinesBeside p).mapM (before.loadDocument path)
      build next (.ofList (others ++ p.toDocuments.entries))) ∧
    (∀ q next', load next path (tree'.openDirectory (bytesOf path)) = .ok (q, next') →
      (∀ name ∈ p.machineNames, q.toDocuments.find? name = p.toDocuments.find? name) ∧
      ∀ name, name ∈ q.toDocuments.names ↔ name ∈ p.machineNames ∨ name ∈ before.machineNames) ∧
    (before.machinesBeside p = [] →
      ∃ q next', load next path (tree'.openDirectory (bytesOf path)) = .ok (q, next') ∧
        q.toDocuments = p.toDocuments) := by
  have hwf := hp.wellFormed
  refine ⟨hwf.load_saved hsavable hopen hsave next, fun q next' hq => ?_, fun hnone => ?_⟩
  · obtain ⟨after, hafter, hsaved, hload⟩ := hsavable.exists_saved hopen hsave
    rw [hafter] at hq
    refine ⟨fun name hname => ?_, fun name => ?_⟩
    · obtain ⟨m, hm, hm'⟩ := List.mem_map.mp hname
      obtain rfl : m.name = name := hm'
      have hdocument := hwf.find?_toDocuments_of_mem hm
      have hloaded := hload (m.name, m.toDocument) (NameMap.find?_eq_some_iff.mp hdocument)
      rw [hdocument, find?_of_load hq]
      exact ⟨(hwf.mem_machineNames_saved hsaved).mpr (.inl hname), m.toDocument, hloaded,
        (hwf.live m hm).normal_toDocument⟩
    · rw [mem_names_of_load hq, hwf.mem_machineNames_saved hsaved]
  · exact hwf.comes_back hsavable hopen hsave hnone next

/-! ## A removed machine -/

/-- A directory with a file of a machine `main`, which describes none, and another file. -/
def rubbish : FileTree :=
  ⟨[([bytesOf "d"], .directory), ([bytesOf "d", bytesOf "notes.txt"], .file []),
    ([bytesOf "d", bytesOf "main.turr"], .file [255])]⟩

theorem savable_sample : sample.1.Savable where
  name := by decide +kernel
  position := by decide +kernel

/-- The sample project comes back from a directory that had another file of one of its machines. -/
theorem sample_loaded_from_rubbish : ∃ before tree' q next',
    rubbish.openDirectory (bytesOf "d") = .ok before ∧
    rubbish.save "d" sample.1 = (.ok (), tree') ∧ before.machinesBeside sample.1 = [] ∧
    load sample.2 "d" (tree'.openDirectory (bytesOf "d")) = .ok (q, next') ∧
    q.toDocuments = sample.1.toDocuments := by
  have hopen : rubbish.openDirectory (bytesOf "d") = .ok (rubbish.listing [bytesOf "d"]) :=
    FileTree.openDirectory_eq_ok_iff.mpr ⟨_, rfl, rfl, rfl⟩
  have hsave : rubbish.save "d" sample.1 = (.ok (), (rubbish.save "d" sample.1).2) :=
    Prod.ext (by decide +kernel) rfl
  have hbeside : (rubbish.listing [bytesOf "d"]).machinesBeside sample.1 = [] := by
    refine List.perm_nil.mp ((FileTree.perm_machineNames_listing.filter _).trans (.of_eq ?_))
    decide +kernel
  obtain ⟨-, -, hback⟩ := built_sample.load_after_save savable_sample hopen hsave sample.2
  obtain ⟨q, next', hload, hdocuments⟩ := hback hbeside
  exact ⟨_, _, q, next', hopen, hsave, hbeside, hload, hdocuments⟩

/-- The sample project after its machine `pair` was removed. -/
def withoutPair : Project × Identity :=
  (Edit.removeMachine "pair").apply (sample.1, sample.2)

theorem built_withoutPair : withoutPair.1.Built withoutPair.2 := by
  unfold withoutPair
  exact built_sample.edited _

/-- A directory without files. -/
def noFiles : FileTree :=
  ⟨[([bytesOf "d"], .directory)]⟩

/-- The directory in which the sample project was saved. -/
def sampleFiles : FileTree :=
  (noFiles.save "d" sample.1).2

theorem savable_withoutPair : withoutPair.1.Savable where
  name := by decide +kernel
  position := by decide +kernel

/-- A machine that is removed between two times of saving comes back: its file is still there, so that
not the project that was saved last is loaded, but the one before. -/
theorem removed_machine_comes_back : ∃ tree' q next',
    withoutPair.1.Built withoutPair.2 ∧ withoutPair.1.Savable ∧
    sampleFiles.save "d" withoutPair.1 = (.ok (), tree') ∧
    load withoutPair.2 "d" (tree'.openDirectory (bytesOf "d")) = .ok (q, next') ∧
    q.toDocuments = sample.1.toDocuments ∧ q.toDocuments ≠ withoutPair.1.toDocuments := by
  -- The first time.
  have hempty : noFiles.openDirectory (bytesOf "d") = .ok (noFiles.listing [bytesOf "d"]) :=
    FileTree.openDirectory_eq_ok_iff.mpr ⟨_, rfl, rfl, rfl⟩
  have hfirst : noFiles.save "d" sample.1 = (.ok (), sampleFiles) :=
    Prod.ext (by decide +kernel) rfl
  obtain ⟨before, hbefore, -, hload⟩ := savable_sample.exists_saved hempty hfirst
  have hopen : sampleFiles.openDirectory (bytesOf "d") =
      .ok (sampleFiles.listing [bytesOf "d"]) :=
    FileTree.openDirectory_eq_ok_iff.mpr ⟨_, rfl, rfl, rfl⟩
  rw [hopen] at hbefore
  cases hbefore
  -- The second time.
  have hsave : sampleFiles.save "d" withoutPair.1 =
      (.ok (), (sampleFiles.save "d" withoutPair.1).2) := Prod.ext (by decide +kernel) rfl
  have hbeside : (sampleFiles.listing [bytesOf "d"]).machinesBeside withoutPair.1 = ["pair"] := by
    refine List.perm_singleton.mp ((FileTree.perm_machineNames_listing.filter _).trans (.of_eq ?_))
    decide +kernel
  have hloaded := built_withoutPair.wellFormed.load_saved savable_withoutPair hopen hsave withoutPair.2
  obtain ⟨pair, hpair⟩ : ∃ pair, sample.1.toDocuments.entries =
      withoutPair.1.toDocuments.entries ++ [("pair", pair)] := ⟨_, rfl⟩
  have hother := hload ("pair", pair) (hpair ▸ List.mem_append_right _ (List.mem_singleton_self _))
  have hall : NameMap.ofList (("pair", pair) :: withoutPair.1.toDocuments.entries) =
      sample.1.toDocuments := by
    rw [← NameMap.ofList_entries sample.1.toDocuments]
    refine NameMap.ofList_of_perm sample.1.toDocuments.nodup_names ?_
    rw [hpair]
    exact (List.perm_append_singleton _ _).symm
  rw [hbeside, List.mapM_cons, hother] at hloaded
  obtain ⟨q, next', hbuild, hdocuments⟩ := built_sample.wellFormed.build_toDocuments withoutPair.2
  refine ⟨_, q, next', built_withoutPair, savable_withoutPair, hsave, hloaded.trans ?_, hdocuments, ?_⟩
  · rw [← hall] at hbuild
    exact hbuild
  · intro heq
    have hnames := congrArg NameMap.names (hdocuments.symm.trans heq)
    revert hnames
    decide +kernel

end Project

end HierarchicalTuring
