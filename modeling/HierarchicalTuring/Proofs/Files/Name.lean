import HierarchicalTuring.Files.Name
import HierarchicalTuring.Proofs.Text.ByteOrder

/-! # Names of machine files

* `machineOfFile?_eq_some_iff`: a file belongs to a machine exactly if its name is the machine's, not
  empty, with the extension. So each machine has one file name, and no two share one.
* `FileName name`: the name of a machine names one file in a directory, since it is not empty and has
  no slash.
* `components_machineFile`: the path of such a file leads through the components of the path of the
  directory.
-/

set_option autoImplicit false

namespace HierarchicalTuring

/-! ## Texts and bytes -/

theorem bytesOf_eq_flatMap (text : String) :
    bytesOf text = text.toList.flatMap String.utf8EncodeChar :=
  bytes_eq_flatMap text

theorem bytesOf_append (a b : String) : bytesOf (a ++ b) = bytesOf a ++ bytesOf b := by
  simp only [bytesOf_eq_flatMap, String.toList_append, List.flatMap_append]

theorem bytesOf_inj {a b : String} : bytesOf a = bytesOf b ↔ a = b := by
  refine ⟨fun h => ?_, congrArg bytesOf⟩
  have htext := congrArg textOf? h
  rw [textOf?_bytesOf, textOf?_bytesOf] at htext
  exact Option.some.inj htext

theorem textOf?_eq_some_iff {content : Bytes} {text : String} :
    textOf? content = some text ↔ content = bytesOf text := by
  constructor
  · intro h
    unfold textOf? String.fromUTF8? at h
    split at h
    · cases h
      rfl
    · cases h
  · rintro rfl
    exact textOf?_bytesOf text

/-- The slash is encoded by one byte, which occurs in no encoding of another character: the bytes of
these are 128 and more, unless there is only one of them. -/
theorem eq_slash_of_mem {c : Char} (h : slash ∈ String.utf8EncodeChar c) : c = '/' := by
  have hbyte : ∀ n : Nat, slash = UInt8.ofNat n ↔ n % 256 = 47 := by
    intro n
    rw [← UInt8.toNat_inj, UInt8.toNat_ofNat', eq_comm]
    rfl
  simp only [String.utf8EncodeChar] at h
  split_ifs at h with hsmall <;>
    simp only [List.mem_cons, List.not_mem_nil, or_false, hbyte] at h
  · have hvalue : c.val.toNat = ('/').val.toNat := by
      show c.val.toNat = 47
      omega
    exact Char.ext (UInt32.toNat_inj.mp hvalue)
  all_goals omega

theorem slash_mem_bytesOf_iff {text : String} : slash ∈ bytesOf text ↔ '/' ∈ text.toList := by
  rw [bytesOf_eq_flatMap, List.mem_flatMap]
  constructor
  · rintro ⟨c, hc, hslash⟩
    exact eq_slash_of_mem hslash ▸ hc
  · exact fun hc => ⟨'/', hc, by decide⟩

/-! ## Files of machines -/

theorem before?_eq_some_iff {ending name stem : Bytes} :
    before? ending name = some stem ↔ stem ++ ending = name := by
  simp only [before?]
  constructor
  · intro h
    split at h
    · next heq =>
      cases h
      exact heq
    · cases h
  · rintro rfl
    simp

theorem machineOfFile?_eq_some_iff {name : Bytes} {machine : String} :
    machineOfFile? name = some machine ↔
      machine ≠ "" ∧ name = bytesOf (machine ++ machineEnding) := by
  have hempty : bytesOf "" = [] := rfl
  rw [bytesOf_append]
  unfold machineOfFile?
  split
  · next hnone =>
    refine iff_of_false nofun ?_
    rintro ⟨-, hname⟩
    rw [before?_eq_some_iff.mpr hname.symm] at hnone
    cases hnone
  · next hstem =>
    refine iff_of_false nofun ?_
    rintro ⟨hne, hname⟩
    rw [before?_eq_some_iff.mpr hname.symm, Option.some.injEq, ← hempty, bytesOf_inj] at hstem
    exact hne hstem
  · next stem hnil hstem =>
    rw [textOf?_eq_some_iff]
    have hname := before?_eq_some_iff.mp hstem
    constructor
    · rintro rfl
      refine ⟨?_, hname.symm⟩
      rintro rfl
      exact hnil hempty
    · rintro ⟨-, hname'⟩
      exact List.append_cancel_right (hname.trans hname')

/-- A name of a machine that is the name of one file in every directory. -/
structure FileName (name : String) : Prop where
  ne_empty : name ≠ ""
  no_slash : '/' ∉ name.toList

instance (name : String) : Decidable (FileName name) :=
  decidable_of_iff (name ≠ "" ∧ '/' ∉ name.toList)
    ⟨fun h => ⟨h.1, h.2⟩, fun h => ⟨h.ne_empty, h.no_slash⟩⟩

/-- The name of the file of a machine, as a file system sees it. -/
def fileOf (machine : String) : Bytes :=
  bytesOf (machine ++ machineEnding)

theorem slash_mem_fileOf_iff {machine : String} : slash ∈ fileOf machine ↔ '/' ∈ machine.toList := by
  have hending : slash ∉ bytesOf machineEnding := by decide
  rw [fileOf, bytesOf_append, List.mem_append, or_iff_left hending, slash_mem_bytesOf_iff]

theorem machineOfFile?_fileOf {machine : String} (h : machine ≠ "") :
    machineOfFile? (fileOf machine) = some machine :=
  machineOfFile?_eq_some_iff.mpr ⟨h, rfl⟩

theorem fileOf_inj {a b : String} : fileOf a = fileOf b ↔ a = b := by
  rw [fileOf, fileOf, bytesOf_append, bytesOf_append, List.append_left_inj, bytesOf_inj]

/-! ## Components -/

theorem components_slash (path : Bytes) : components (slash :: path) = [] :: components path := rfl

theorem components_ne_nil (path : Bytes) : components path ≠ [] := by
  cases path with
  | nil => exact List.cons_ne_nil _ _
  | cons byte path =>
    rw [components, List.foldr_cons]
    split
    · exact List.cons_ne_nil _ _
    · split <;> exact List.cons_ne_nil _ _

theorem components_cons {byte : UInt8} (hbyte : byte ≠ slash) {path part : Bytes}
    {parts : List Bytes} (h : components path = part :: parts) :
    components (byte :: path) = (byte :: part) :: parts := by
  rw [components] at h
  rw [components, List.foldr_cons, h, if_neg hbyte]

theorem components_of_no_slash {name : Bytes} (h : slash ∉ name) : components name = [name] := by
  induction name with
  | nil => rfl
  | cons byte name ih =>
    rw [List.mem_cons, not_or] at h
    exact components_cons (Ne.symm h.1) (ih h.2)

/-- No component has a slash. -/
theorem slash_notMem_of_mem_components {path part : Bytes} (h : part ∈ components path) :
    slash ∉ part := by
  induction path generalizing part with
  | nil =>
    obtain rfl := List.mem_singleton.mp h
    exact List.not_mem_nil
  | cons byte path ih =>
    by_cases hbyte : byte = slash
    · rw [hbyte, components_slash] at h
      rcases List.mem_cons.mp h with rfl | hrest
      · exact List.not_mem_nil
      · exact ih hrest
    · obtain ⟨first, rest, hpath⟩ := List.exists_cons_of_ne_nil (components_ne_nil path)
      rw [components_cons hbyte hpath] at h
      rw [hpath] at ih
      rcases List.mem_cons.mp h with rfl | hrest
      · rw [List.mem_cons, not_or]
        exact ⟨Ne.symm hbyte, ih List.mem_cons_self⟩
      · exact ih (List.mem_cons_of_mem _ hrest)

theorem components_append_slash (path : Bytes) {name : Bytes} (h : slash ∉ name) :
    components (path ++ slash :: name) = components path ++ [name] := by
  induction path with
  | nil =>
    rw [List.nil_append, components_slash, components_of_no_slash h]
    rfl
  | cons byte path ih =>
    by_cases hbyte : byte = slash
    · rw [hbyte, List.cons_append, components_slash, components_slash, ih]
      rfl
    · obtain ⟨part, parts, hpath⟩ := List.exists_cons_of_ne_nil (components_ne_nil path)
      rw [hpath] at ih
      rw [components_cons hbyte hpath]
      exact components_cons hbyte ih

theorem FileName.slash_notMem {machine : String} (h : FileName machine) :
    slash ∉ fileOf machine :=
  mt slash_mem_fileOf_iff.mp h.no_slash

theorem FileName.machineFile_eq {machine : String} (h : FileName machine) (directory : String) :
    machineFile directory machine =
      if directory.toList.getLast?.all (· = '/') then directory ++ (machine ++ machineEnding)
      else directory ++ "/" ++ (machine ++ machineEnding) := by
  have hrelative : (machine ++ machineEnding).toList.head? ≠ some '/' := by
    obtain ⟨c, cs, hmachine⟩ : ∃ c cs, machine.toList = c :: cs :=
      List.exists_cons_of_ne_nil (mt String.toList_eq_nil_iff.mp h.ne_empty)
    have hc := h.no_slash
    rw [hmachine, List.mem_cons, not_or] at hc
    rw [String.toList_append, hmachine, List.cons_append, List.head?_cons]
    exact fun heq => hc.1 (Option.some.inj heq).symm
  unfold machineFile joinPath
  rw [if_neg hrelative]

/-- The last component of the path of the file is the name of the file, and those before it lead to
the directory, whether or not its path ends in a slash. -/
theorem FileName.exists_components {machine : String} (h : FileName machine) (directory : String) :
    ∃ parts, components (bytesOf (machineFile directory machine)) = parts ++ [fileOf machine] ∧
      (components (bytesOf directory) = parts ∨ components (bytesOf directory) = parts ++ [[]]) := by
  have hslash : bytesOf "/" = [slash] := rfl
  rw [h.machineFile_eq]
  split
  · next hlast =>
    rcases List.eq_nil_or_concat' directory.toList with hnil | ⟨stem, last, hstem⟩
    · rw [String.toList_eq_nil_iff] at hnil
      rw [hnil, String.empty_append]
      exact ⟨[], components_of_no_slash h.slash_notMem, .inr rfl⟩
    · rw [hstem, List.getLast?_concat, Option.all_some, decide_eq_true_eq] at hlast
      have hdirectory : directory = String.ofList stem ++ "/" := by
        rw [← String.toList_inj, String.toList_append, String.toList_ofList, hstem, hlast]
        rfl
      rw [hdirectory, bytesOf_append, bytesOf_append, hslash, List.append_assoc]
      exact ⟨_, components_append_slash _ h.slash_notMem,
        .inr (components_append_slash _ List.not_mem_nil)⟩
  · rw [bytesOf_append, bytesOf_append, hslash, List.append_assoc]
    exact ⟨_, components_append_slash _ h.slash_notMem, .inl rfl⟩

end HierarchicalTuring
