import HierarchicalTuring.Json.Decode
import HierarchicalTuring.Proofs.Json.Value

/-! # Records, lists and maps are read as they are written

* `Tree.asRecord_object`: a record is read back from the object of its fields.
* `Tree.asList_map` and `Tree.asMap_object`: a list is read back from an array and a map from an
  object, if their items and values are.
* `Tree.exists_of_asMap`, `Record.exists_of_required` and `Record.exists_of_optional`: what was read
  was read from some tree.
-/

set_option autoImplicit false

namespace HierarchicalTuring.Json

namespace Record

theorem field?_eq_none {record : Record} {name : String} (h : name ∉ record.map Prod.fst) :
    record.field? name = none := by
  unfold field?
  rw [Option.map_eq_none_iff, List.find?_eq_none]
  intro field hfield heq
  exact h (List.mem_map.mpr ⟨field, hfield, of_decide_eq_true heq⟩)

theorem foldlM_addMember {names : List String} {done rest : Record}
    (hnames : ∀ field ∈ rest, field.1 ∈ names) (hnodup : ((done ++ rest).map Prod.fst).Nodup) :
    (rest.map fun field => (some field.1, field.2)).foldlM (addMember names) done =
      .ok (done ++ rest) := by
  induction rest generalizing done with
  | nil =>
    rw [List.append_nil]
    rfl
  | cons field rest ih =>
    obtain ⟨hname, hnames⟩ := List.forall_mem_cons.mp hnames
    have hfree : done.field? field.1 = none := by
      refine field?_eq_none fun hold => ?_
      rw [List.map_append, List.nodup_append] at hnodup
      exact hnodup.2.2 _ hold _ List.mem_cons_self rfl
    have hadd : addMember names done (some field.1, field.2) = .ok (done ++ [field]) := by
      show (if field.1 ∈ names then
        if (done.field? field.1).isSome then Except.error (Fault.repeatedField field.1)
        else .ok (done ++ [(field.1, field.2)]) else .ok done) = _
      rw [if_pos hname, hfree]
      rfl
    rw [List.map_cons, List.foldlM_cons, hadd]
    have hnodup' : ((done ++ [field] ++ rest).map Prod.fst).Nodup := by simpa using hnodup
    have hrest := ih hnames hnodup'
    rw [List.append_assoc, List.singleton_append] at hrest
    exact hrest

theorem exists_of_required {α : Type} {record : Record} {name : String}
    {read : Tree → Except Fault α} {a : α} (h : record.required name read = .ok a) :
    ∃ tree, read tree = .ok a := by
  unfold required at h
  split at h
  · exact ⟨_, h⟩
  · cases h

theorem exists_of_optional {α : Type} {record : Record} {name : String} {absent a : α}
    {read : Tree → Except Fault α} (h : record.optional name absent read = .ok a) :
    a = absent ∨ ∃ tree, read tree = .ok a := by
  unfold optional at h
  split at h
  · exact .inr ⟨_, h⟩
  · cases h
    exact .inl rfl

end Record

namespace Tree

theorem asRecord_object (fields : Record) (h : (fields.map Prod.fst).Nodup) :
    asRecord (fields.map Prod.fst) (.object (fields.map fun field => (some field.1, field.2))) =
      .ok fields :=
  Record.foldlM_addMember (fun _ hfield => List.mem_map_of_mem hfield) h

theorem asList_map {α : Type} {read : Tree → Except Fault α} {toTree : α → Tree} {l : List α}
    (h : ∀ a ∈ l, read (toTree a) = .ok a) : asList read (.array (l.map toTree)) = .ok l :=
  mapM_map_eq_ok h

theorem asMap_object {β : Type} {read : Tree → Except Fault β} {toTree : β → Tree}
    {m : NameMap β} (h : ∀ entry ∈ m.entries, read (toTree entry.2) = .ok entry.2) :
    asMap read (.object (m.entries.map fun entry => (some entry.1, toTree entry.2))) = .ok m := by
  unfold asMap
  simp only
  rw [mapM_map_eq_ok]
  · show Except.ok (NameMap.ofList m.entries) = _
    rw [NameMap.ofList_entries]
  · intro entry hentry
    show (read (toTree entry.2)).bind (fun value => .ok (entry.1, value)) = _
    rw [h entry hentry]
    rfl

theorem exists_of_asMap {β : Type} {read : Tree → Except Fault β} {tree : Tree} {m : NameMap β}
    (h : asMap read tree = .ok m) : ∀ entry ∈ m.entries, ∃ tree, read tree = .ok entry.2 := by
  unfold asMap at h
  split at h
  · obtain ⟨entries, hentries, h⟩ := bind_eq_ok_iff.mp h
    cases h
    intro entry hentry
    obtain ⟨member, -, hmember⟩ :=
      exists_of_mapM_eq_ok hentries entry (NameMap.mem_of_mem_ofList hentry)
    obtain ⟨key, -, hmember⟩ := bind_eq_ok_iff.mp hmember
    obtain ⟨value, hvalue, hpair⟩ := bind_eq_ok_iff.mp hmember
    cases hpair
    exact ⟨member.2, hvalue⟩
  · cases h

/-- In a map that is read from what was written of one, each value is read from what was written of
the value with its name. -/
theorem find?_of_asMap_object {β : Type} {read : Tree → Except Fault β}
    {toTree : β → Tree} {m m' : NameMap β} 
    (h : asMap read (.object (m.entries.map fun entry => (some entry.1, toTree entry.2))) = .ok m')
    {name : String} {value' : β} (hname : m'.find? name = some value') :
    ∃ value, m.find? name = some value ∧ read (toTree value) = .ok value' := by
  obtain ⟨entries, hentries, hend⟩ := bind_eq_ok_iff.mp h
  cases hend
  have hmem := NameMap.mem_of_mem_ofList (NameMap.find?_eq_some_iff.mp hname)
  obtain ⟨member, hmember, hread⟩ := exists_of_mapM_eq_ok hentries _ hmem
  obtain ⟨entry, hentry, rfl⟩ := List.mem_map.mp hmember
  obtain ⟨key, hkey, hread⟩ := bind_eq_ok_iff.mp hread
  obtain ⟨value, hvalue, hread⟩ := bind_eq_ok_iff.mp hread
  cases hkey
  cases hread
  exact ⟨entry.2, NameMap.find?_eq_some_iff.mpr hentry, hvalue⟩

theorem orNull_eq_ok_some_iff {α : Type} {read : Tree → Except Fault α} {tree : Tree} {a : α} :
    orNull read tree = .ok (some a) ↔ tree ≠ .null ∧ read tree = .ok a := by
  cases tree with
  | null => exact ⟨nofun, fun h => absurd rfl h.1⟩
  | _ =>
    refine ⟨fun h => ⟨nofun, ?_⟩, fun h => ?_⟩
    · obtain ⟨b, hb, hab⟩ := map_eq_ok_iff.mp h
      cases hab
      exact hb
    · exact map_eq_ok_iff.mpr ⟨a, h.2, rfl⟩

theorem isFinite_of_asBinary64 {tree : Tree} {x : Binary64} (h : tree.asBinary64 = .ok x) :
    x.isFinite = true := by
  unfold asBinary64 at h
  split at h
  · exact Numeral.isFinite_of_toBinary64 h
  · cases h

theorem asBinary64_treeOfBinary64 {x : Binary64} (hfinite : x.isFinite = true) (h : x.ReadsBack) :
    (treeOfBinary64 x).asBinary64 = .ok x := by
  rw [treeOfBinary64_of_isFinite hfinite]
  exact Numeral.toBinary64_ofBinary64 h

/-- The tree of a double is read as the double only if it is finite and reads back. -/
theorem asBinary64_treeOfBinary64_eq_ok_iff {x : Binary64} :
    (treeOfBinary64 x).asBinary64 = .ok x ↔ x.isFinite = true ∧ x.ReadsBack := by
  refine ⟨fun h => ?_, fun ⟨hfinite, hback⟩ => asBinary64_treeOfBinary64 hfinite hback⟩
  have hfinite := isFinite_of_asBinary64 h
  rw [treeOfBinary64_of_isFinite hfinite] at h
  exact ⟨hfinite, Numeral.toBinary64_eq_ok_iff.mp h⟩

end Tree

end HierarchicalTuring.Json
