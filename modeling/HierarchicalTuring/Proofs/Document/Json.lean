import HierarchicalTuring.Document.Json
import HierarchicalTuring.Proofs.Json.Decode
import HierarchicalTuring.Proofs.Json.Tree
import HierarchicalTuring.Proofs.Project.Built

/-! # Documents are read as they are written

* `MachineDocument.Readable`: the coordinates of a document are finite, and the value it keeps reads
  back. A document that was read is readable (`readable_of_ofTree`), and a readable one is read back
  from its tree if its doubles are (`Readable.ofTree_toTree`).
* `MachineDocument.texts_read_back`: so a document that was read, and one of a project that can be
  made, is read back from both of its texts.
-/

set_option autoImplicit false

namespace HierarchicalTuring

open Json (Tree Fault Record)

/-! ## Parts of documents -/

theorem orNull_asText_treeOfText? (text : Option String) :
    Tree.orNull Tree.asText (treeOfText? text) = .ok text := by
  cases text <;> rfl

theorem TransitionDocument.ofTree_toTree (t : TransitionDocument) : ofTree t.toTree = .ok t := by
  have hrecord := Tree.asRecord_object
    [("destination", .string (some t.destination)), ("inchar", .string (some t.input)),
      ("outchar", treeOfText? t.output), ("move", .string (some t.move))] (by simp)
  rw [ofTree]
  refine bind_eq_ok_iff.mpr ⟨_, hrecord, ?_⟩
  simp [bind, Except.bind, Record.required, Record.optional, Record.field?, Tree.asText,
    Json.Value.textOf, orNull_asText_treeOfText?]
  rfl

namespace StateDocument

theorem asRecord_toTree (s : StateDocument) :
    s.toTree.asRecord ["transitions", "accepting", "submachine", "x", "y"] =
      .ok [("transitions", .array (s.transitions.map TransitionDocument.toTree)),
        ("accepting", .bool s.accepting), ("submachine", treeOfText? s.submachine),
        ("x", Json.treeOfBinary64 s.position.x), ("y", Json.treeOfBinary64 s.position.y)] :=
  Tree.asRecord_object
    [("transitions", .array (s.transitions.map TransitionDocument.toTree)),
      ("accepting", .bool s.accepting), ("submachine", treeOfText? s.submachine),
      ("x", Json.treeOfBinary64 s.position.x), ("y", Json.treeOfBinary64 s.position.y)] (by simp)

theorem ofTree_toTree {s : StateDocument} (hx : s.position.x.isFinite = true)
    (hy : s.position.y.isFinite = true) (hx' : s.position.x.ReadsBack)
    (hy' : s.position.y.ReadsBack) : ofTree s.toTree = .ok s := by
  have htransitions : Tree.asList TransitionDocument.ofTree
      (.array (s.transitions.map TransitionDocument.toTree)) = .ok s.transitions :=
    Tree.asList_map fun t _ => t.ofTree_toTree
  rw [ofTree]
  refine bind_eq_ok_iff.mpr ⟨_, s.asRecord_toTree, ?_⟩
  simp [bind, Except.bind, Record.required, Record.optional, Record.field?, htransitions,
    Tree.asBool, orNull_asText_treeOfText?, Tree.asBinary64_treeOfBinary64 hx hx',
    Tree.asBinary64_treeOfBinary64 hy hy']
  rfl

theorem coordinates_of_ofTree_toTree {s s' : StateDocument}
    (h : ofTree s.toTree = .ok s') :
    (Json.treeOfBinary64 s.position.x).asBinary64 = .ok s'.position.x ∧
      (Json.treeOfBinary64 s.position.y).asBinary64 = .ok s'.position.y := by
  obtain ⟨record, hrecord, h⟩ := bind_eq_ok_iff.mp h
  obtain rfl := Except.ok.inj (s.asRecord_toTree.symm.trans hrecord)
  obtain ⟨transitions, -, h⟩ := bind_eq_ok_iff.mp h
  obtain ⟨accepting, -, h⟩ := bind_eq_ok_iff.mp h
  obtain ⟨submachine, -, h⟩ := bind_eq_ok_iff.mp h
  obtain ⟨x, hx, h⟩ := bind_eq_ok_iff.mp h
  obtain ⟨y, hy, h⟩ := bind_eq_ok_iff.mp h
  cases h
  exact ⟨hx, hy⟩

theorem isFinite_of_ofTree {tree : Tree} {s : StateDocument} (h : ofTree tree = .ok s) :
    s.position.x.isFinite = true ∧ s.position.y.isFinite = true := by
  obtain ⟨record, -, h⟩ := bind_eq_ok_iff.mp h
  obtain ⟨transitions, -, h⟩ := bind_eq_ok_iff.mp h
  obtain ⟨accepting, -, h⟩ := bind_eq_ok_iff.mp h
  obtain ⟨submachine, -, h⟩ := bind_eq_ok_iff.mp h
  obtain ⟨x, hx, h⟩ := bind_eq_ok_iff.mp h
  obtain ⟨y, hy, h⟩ := bind_eq_ok_iff.mp h
  cases h
  obtain ⟨tree, hx⟩ := Record.exists_of_required hx
  obtain ⟨tree', hy⟩ := Record.exists_of_required hy
  exact ⟨Tree.isFinite_of_asBinary64 hx, Tree.isFinite_of_asBinary64 hy⟩

end StateDocument

/-! ## Machine documents -/

namespace MachineDocument

/-- The doubles in a document: the coordinates, and those in the value it keeps. -/
def doubles (d : MachineDocument) : List Binary64 :=
  d.states.entries.flatMap (fun entry => [entry.2.position.x, entry.2.position.y]) ++
    (d.submachines.map Json.Value.doubles).getD []

/-- The coordinates are finite, and the value that is kept stands for itself and reads back. -/
structure Readable (d : MachineDocument) : Prop where
  finite : ∀ entry ∈ d.states.entries,
    entry.2.position.x.isFinite = true ∧ entry.2.position.y.isFinite = true
  kept : ∀ v, d.submachines = some v → v.toTree ≠ .null ∧ v.Stable (Json.depthLimit - 1)

variable {d : MachineDocument}

theorem asRecord_toTree (d : MachineDocument) : d.toTree.asRecord ["states", "submachines"] =
    .ok [("states", treeOfMap StateDocument.toTree d.states),
      ("submachines", (d.submachines.map Json.Value.toTree).getD .null)] :=
  Tree.asRecord_object
    [("states", treeOfMap StateDocument.toTree d.states),
      ("submachines", (d.submachines.map Json.Value.toTree).getD .null)] (by simp)

theorem Readable.ofTree_toTree (h : d.Readable)
    (hdoubles : ∀ x ∈ d.doubles, x.isFinite = true → x.ReadsBack) :
    ofTree 0 d.toTree = .ok d := by
  have hstates : Tree.asMap StateDocument.ofTree (treeOfMap StateDocument.toTree d.states) =
      .ok d.states := by
    refine Tree.asMap_object fun entry hentry => ?_
    obtain ⟨hx, hy⟩ := h.finite entry hentry
    have hmem : ∀ x ∈ [entry.2.position.x, entry.2.position.y], x ∈ d.doubles := fun x hx =>
      List.mem_append_left _ (List.mem_flatMap.mpr ⟨entry, hentry, hx⟩)
    exact StateDocument.ofTree_toTree hx hy (hdoubles _ (hmem _ (by simp)) hx)
      (hdoubles _ (hmem _ (by simp)) hy)
  have hkept : Tree.orNull (Json.Value.ofTree (Json.depthLimit - 0 - 1))
      ((d.submachines.map Json.Value.toTree).getD .null) = .ok d.submachines := by
    cases hsubmachines : d.submachines with
    | none => rfl
    | some v =>
      obtain ⟨hnull, hstable⟩ := h.kept v hsubmachines
      refine Tree.orNull_eq_ok_some_iff.mpr ⟨hnull, hstable fun x hx => hdoubles x ?_⟩
      rw [doubles, hsubmachines]
      exact List.mem_append_right _ hx
  rw [ofTree]
  refine bind_eq_ok_iff.mpr ⟨_, d.asRecord_toTree, ?_⟩
  refine bind_eq_ok_iff.mpr ⟨d.states, ?_, bind_eq_ok_iff.mpr ⟨d.submachines, ?_, rfl⟩⟩
  · simpa [Record.required, Record.field?] using hstates
  · simpa [Record.optional, Record.field?] using hkept

theorem readable_of_ofTree {tree : Tree} (h : ofTree 0 tree = .ok d) : d.Readable := by
  obtain ⟨record, -, h⟩ := bind_eq_ok_iff.mp h
  obtain ⟨states, hstates, h⟩ := bind_eq_ok_iff.mp h
  obtain ⟨submachines, hsubmachines, h⟩ := bind_eq_ok_iff.mp h
  cases h
  refine ⟨fun entry hentry => ?_, fun v hv => ?_⟩
  · obtain ⟨tree, hstates⟩ := Record.exists_of_required hstates
    obtain ⟨tree, hstate⟩ := Tree.exists_of_asMap hstates entry hentry
    exact StateDocument.isFinite_of_ofTree hstate
  · have hsome : submachines = some v := hv
    rw [hsome] at hsubmachines
    obtain hnone | ⟨tree, hkept⟩ := Record.exists_of_optional hsubmachines
    · cases hnone
    · obtain ⟨hnull, hvalue⟩ := Tree.orNull_eq_ok_some_iff.mp hkept
      exact ⟨Json.Value.toTree_ne_null hnull hvalue, Json.Value.stable_of_ofTree tree hvalue⟩

theorem Readable.read_texts (h : d.Readable)
    (hdoubles : ∀ x ∈ d.doubles, x.isFinite = true → x.ReadsBack) :
    read d.toTree.compactText = .ok d ∧ read d.toTree.prettyText = .ok d := by
  have htree := h.ofTree_toTree hdoubles
  unfold read readDocument
  rw [Tree.read?_compactText, Tree.read?_prettyText]
  exact ⟨htree, htree⟩

/-- What is read for the states of a document that was written. -/
theorem asMap_states_of_read {d d' : MachineDocument}
    (h : read d.toTree.prettyText = .ok d') :
    Tree.asMap StateDocument.ofTree (treeOfMap StateDocument.toTree d.states) = .ok d'.states := by
  unfold read readDocument at h
  rw [Tree.read?_prettyText] at h
  obtain ⟨record, hrecord, h⟩ := bind_eq_ok_iff.mp h
  obtain rfl := Except.ok.inj (d.asRecord_toTree.symm.trans hrecord)
  obtain ⟨states, hstates, h⟩ := bind_eq_ok_iff.mp h
  obtain ⟨submachines, -, h⟩ := bind_eq_ok_iff.mp h
  cases h
  exact hstates

theorem readable_of_read {text : String} (h : read text = .ok d) : d.Readable := by
  unfold read readDocument at h
  split at h
  · exact readable_of_ofTree h
  · cases h

end MachineDocument

/-! ## Documents of projects -/

theorem Machine.readable_toDocument {m : Machine}
    (h : ∀ s ∈ m.states.live, s.position.x.isFinite = true ∧ s.position.y.isFinite = true) :
    m.toDocument.Readable := by
  refine ⟨fun entry hentry => ?_, nofun⟩
  obtain ⟨s, hs, rfl⟩ := List.mem_map.mp (NameMap.mem_of_mem_ofList hentry)
  exact h s hs

/-- Documents that were read, and those of a project with finite coordinates, are read back from
both of their texts, as far as the doubles in them are. -/
theorem MachineDocument.texts_read_back :
    (∀ text (d : MachineDocument), MachineDocument.read text = .ok d →
      (∀ x ∈ d.doubles, x.isFinite = true → x.ReadsBack) →
      MachineDocument.read d.toTree.compactText = .ok d ∧
        MachineDocument.read d.toTree.prettyText = .ok d) ∧
    ∀ p : Project,
      (∀ m ∈ p.machines.live, ∀ s ∈ m.states.live,
        s.position.x.isFinite = true ∧ s.position.y.isFinite = true) →
      ∀ entry ∈ p.toDocuments.entries,
        (∀ x ∈ entry.2.doubles, x.isFinite = true → x.ReadsBack) →
        MachineDocument.read entry.2.toTree.compactText = .ok entry.2 ∧
          MachineDocument.read entry.2.toTree.prettyText = .ok entry.2 := by
  refine ⟨fun text d hread hdoubles => (readable_of_read hread).read_texts hdoubles, ?_⟩
  intro p hfinite entry hentry hdoubles
  obtain ⟨m, hm, rfl⟩ := List.mem_map.mp (NameMap.mem_of_mem_ofList hentry)
  exact (Machine.readable_toDocument (hfinite m hm)).read_texts hdoubles

/-! ## Documents with escapes, kept values and fractions -/

/-- A text whose parts are given in any order, some of them left out, and in escapes that are not
written again. -/
def MachineDocument.sampleText : String :=
  "\x7b\"submachines\": [-0, \x7b\"b\": -7, \"a\": null\x7d, \"\\ud83d\\ude00\"], \"states\": \x7b
    \"\\\"q\\\\\": \x7b\"x\": 0.1, \"y\": -2, \"accepting\": true, \"transitions\": [
      \x7b\"destination\": \"\\\"q\\\\\", \"move\": \"L\", \"inchar\": \"\\u0001\\u00e9\"\x7d]\x7d\x7d\x7d"

/-- The sample project with one of its states moved. -/
def Project.movedSample : Project :=
  ((Edit.editMachine "main" (.editState "call" (.setPosition
    ⟨⟨false, 4591870180066957722, by decide⟩, ⟨true, 4611686018427387904, by decide⟩⟩))).apply
      Project.sample).1

/-- A document can be read off the characters of its text, and tested at once. -/
theorem exists_readDocument {α : Type} {ofTree : Tree → Except Fault α} {text : String}
    {cs : List Char} (htext : text.toList = cs) {p : α → Bool}
    (h : ((Json.scan? cs).bind Tree.ofTokens?).any
      (fun tree => (ofTree tree).toOption.any p) = true) :
    ∃ d, readDocument ofTree text = .ok d ∧ p d = true := by
  unfold readDocument Tree.read?
  rw [htext]
  cases htree : (Json.scan? cs).bind Tree.ofTokens? with
  | none =>
    rw [htree] at h
    cases h
  | some tree =>
    rw [htree] at h
    cases hd : ofTree tree with
    | error e =>
      rw [Option.any_some, hd] at h
      cases h
    | ok d =>
      rw [Option.any_some, hd] at h
      exact ⟨d, hd, h⟩

set_option maxRecDepth 2000 in
theorem MachineDocument.exists_read_sampleText : ∃ d, read sampleText = .ok d ∧
    decide (d.states.names = ["\"q\\"] ∧ d.submachines.isSome = true ∧
      ∀ x ∈ d.doubles, x.isFinite = true → x.ReadsBack) = true :=
  exists_readDocument String.toList_ofList (by decide +kernel)

theorem MachineDocument.texts_read_back_of_samples :
    (∃ d, read sampleText = .ok d ∧ d.states.names = ["\"q\\"] ∧ d.submachines.isSome = true ∧
      (∀ x ∈ d.doubles, x.isFinite = true → x.ReadsBack) ∧
      read d.toTree.compactText = .ok d ∧ read d.toTree.prettyText = .ok d) ∧
    (∀ m ∈ Project.movedSample.machines.live, ∀ s ∈ m.states.live,
      s.position.x.isFinite = true ∧ s.position.y.isFinite = true) ∧
    ∀ entry ∈ Project.movedSample.toDocuments.entries,
      (∀ x ∈ entry.2.doubles, x.isFinite = true → x.ReadsBack) ∧
        read entry.2.toTree.compactText = .ok entry.2 ∧
        read entry.2.toTree.prettyText = .ok entry.2 := by
  obtain ⟨d, hread, hd⟩ := exists_read_sampleText
  obtain ⟨hnames, hkept, hdoubles⟩ := of_decide_eq_true hd
  have hfinite : ∀ m ∈ Project.movedSample.machines.live, ∀ s ∈ m.states.live,
      s.position.x.isFinite = true ∧ s.position.y.isFinite = true := by
    decide +kernel
  have hdoubles' : ∀ entry ∈ Project.movedSample.toDocuments.entries, ∀ x ∈ entry.2.doubles,
      x.isFinite = true → x.ReadsBack := by
    decide +kernel
  obtain ⟨hcompact, hpretty⟩ := texts_read_back.1 sampleText d hread hdoubles
  refine ⟨⟨d, hread, hnames, hkept, hdoubles, hcompact, hpretty⟩, hfinite, fun entry hentry => ?_⟩
  obtain ⟨hcompact, hpretty⟩ :=
    texts_read_back.2 Project.movedSample hfinite entry hentry (hdoubles' entry hentry)
  exact ⟨hdoubles' entry hentry, hcompact, hpretty⟩

end HierarchicalTuring
