import HierarchicalTuring.Proofs.Analysis.CallLoops

/-! # The order of reports

* `Issue.Before a b`: of two different issues, the one that is reported first. This is said by the
  bytes of the names, and it is the order that reports are sorted by (`order_eq_lt_iff`).
* `Project.pairwise_analyze`: a report is strictly increasing, so no finding is in it twice.
* `Project.analyze_eq_of_mem_iff`: reports with the same findings are the same.
* `Project.WellFormed.validate_eq_error_iff`: a project fails with the finding before all others.
-/

set_option autoImplicit false

namespace HierarchicalTuring

theorem bytes_injective : Function.Injective bytes := by
  intro a b h
  refine String.le_antisymm (String.not_lt.mp fun hlt => ?_) (String.not_lt.mp fun hlt => ?_)
  · exact List.lt_irrefl _ (h ▸ bytes_lt_bytes_iff.mpr hlt)
  · exact List.lt_irrefl _ (h ▸ bytes_lt_bytes_iff.mpr hlt)

theorem compare_eq_lt_iff {a b : String} : compare a b = .lt ↔ bytes a < bytes b := by
  rw [bytes_lt_bytes_iff]
  exact compare_lt_iff_lt

/-- Lists are compared element by element, so what compares the elements compares the lists. -/
theorem compare_list_eq_lt_iff {α β : Type} [Ord α] [Std.LawfulEqOrd α] [LT β]
    {f : α → β} (hinjective : Function.Injective f) (hlt : ∀ a b, compare a b = .lt ↔ f a < f b)
    (l l' : List α) : compare l l' = .lt ↔ l.map f < l'.map f := by
  induction l generalizing l' with
  | nil =>
    cases l' with
    | nil => simp
    | cons b l' => simp [List.compare_nil_cons]
  | cons a l ih =>
    cases l' with
    | nil => simp [List.compare_cons_nil]
    | cons b l' =>
      rw [List.compare_cons_cons, Ordering.then_eq_lt, hlt, ih, Std.LawfulEqOrd.compare_eq_iff_eq,
        List.map_cons, List.map_cons, List.cons_lt_cons_iff, hinjective.eq_iff]

/-- Increasing lists are determined by what is in them. -/
theorem eq_of_pairwise_of_mem_iff {α : Type} {R : α → α → Prop}
    (hasymm : ∀ {a b : α}, R a b → ¬ R b a) {l l' : List α} (hl : l.Pairwise R)
    (hl' : l'.Pairwise R) (h : ∀ a, a ∈ l ↔ a ∈ l') : l = l' := by
  have hne : ∀ {a b : α}, R a b → a ≠ b := by
    rintro a _ hab rfl
    exact hasymm hab hab
  have hperm : l.Perm l' := (List.perm_ext_iff_of_nodup (hl.imp hne) (hl'.imp hne)).mpr h
  exact hperm.eq_of_pairwise (fun a b _ _ hab hba => absurd hba (hasymm hab)) hl hl'

/-! ## The order of issues -/

namespace Issue

/-- Kinds come first, then the fields one after the other, lists element by element and names by
their bytes. -/
def Before (a b : Issue) : Prop :=
  a.rank < b.rank ∨
    a.rank = b.rank ∧ a.fields.map (List.map bytes) < b.fields.map (List.map bytes)

variable {a b : Issue}

instance : Std.TransCmp order :=
  inferInstanceAs (Std.TransCmp (compareLex (compareOn rank) (compareOn fields)))

theorem order_eq_lt_iff : order a b = .lt ↔ a.Before b := by
  have hnames := compare_list_eq_lt_iff bytes_injective @compare_eq_lt_iff
  have hfields := compare_list_eq_lt_iff bytes_injective.list_map hnames a.fields b.fields
  rw [order, Ordering.then_eq_lt, hfields, Nat.compare_eq_lt, Nat.compare_eq_eq]
  rfl

theorem order_eq_eq_iff : order a b = .eq ↔ a = b := by
  rw [order, Ordering.then_eq_eq, Nat.compare_eq_eq, Std.LawfulEqOrd.compare_eq_iff_eq]
  refine ⟨fun h => eq_of_rank_fields h.1 h.2, ?_⟩
  rintro rfl
  exact ⟨rfl, rfl⟩

theorem le_trans (a b c : Issue) (hab : a.le b = true) (hbc : b.le c = true) : a.le c = true :=
  Std.TransCmp.isLE_trans hab hbc

theorem le_total (a b : Issue) : (a.le b || b.le a) = true := by
  have hswap : order a b = (order b a).swap := Std.OrientedCmp.eq_swap
  rw [le, le, hswap]
  cases order b a <;> rfl

theorem before_of_le (hle : a.le b = true) (hne : a ≠ b) : a.Before b := by
  rw [le] at hle
  rw [← order_eq_lt_iff]
  cases horder : order a b with
  | lt => rfl
  | eq => exact absurd (order_eq_eq_iff.mp horder) hne
  | gt =>
    rw [horder] at hle
    cases hle

theorem Before.asymm (h : a.Before b) : ¬ b.Before a := by
  intro h'
  have hswap : order a b = (order b a).swap := Std.OrientedCmp.eq_swap
  rw [order_eq_lt_iff.mpr h, order_eq_lt_iff.mpr h'] at hswap
  cases hswap

end Issue

namespace Project

variable {p q : Project} {m : Machine} {state : State} {issue : Issue}

/-! ## Findings of one kind -/

theorem unknownCall?_eq_some_iff : p.unknownCall? m state = some issue ↔
    ∃ submachine, state.submachine = some submachine ∧ p.machine? submachine = none ∧
      issue = .unknownSubmachine m.name state.name submachine := by
  simp only [unknownCall?, bind, Option.bind_eq_some_iff]
  refine exists_congr fun submachine => and_congr_right fun _ => ?_
  cases p.machine? submachine with
  | none => simp [eq_comm]
  | some callee => simp

theorem unreachableIssue?_eq_some_iff : unreachableIssue? m = some issue ↔
    ∃ found, m.unreachableStates? = some found ∧ found ≠ [] ∧
      issue = .unreachableStates m.name (found.mergeSort fun a b => decide (a ≤ b)) := by
  simp only [unreachableIssue?, bind, Option.bind_eq_some_iff]
  refine exists_congr fun found => and_congr_right fun _ => ?_
  by_cases hfound : found = []
  · simp [hfound]
  · simp [hfound, eq_comm]

theorem rank_of_mem_missingStartStates (h : issue ∈ p.missingStartStates) : issue.rank = 0 := by
  obtain ⟨m, -, rfl⟩ := List.mem_map.mp h
  rfl

theorem rank_of_mem_unknownSubmachines (h : issue ∈ p.unknownSubmachines) : issue.rank = 1 := by
  obtain ⟨m, -, hm⟩ := List.mem_flatMap.mp h
  obtain ⟨state, -, hstate⟩ := List.mem_filterMap.mp hm
  obtain ⟨submachine, -, -, rfl⟩ := unknownCall?_eq_some_iff.mp hstate
  rfl

theorem rank_of_mem_unreachableStates (h : issue ∈ p.unreachableStates) : issue.rank = 2 := by
  obtain ⟨m, -, hm⟩ := List.mem_filterMap.mp h
  obtain ⟨found, -, -, rfl⟩ := unreachableIssue?_eq_some_iff.mp hm
  rfl

theorem rank_of_mem_submachineCycles (h : issue ∈ p.submachineCycles) : issue.rank = 3 := by
  obtain ⟨loop, -, rfl⟩ := List.mem_map.mp h
  rfl

/-! ## No finding twice -/

theorem WellFormed.pairwise_names (hp : p.WellFormed) :
    p.machines.live.Pairwise fun m m' => m.name ≠ m'.name :=
  List.pairwise_map.mp hp.indexed.nodup_names

theorem WellFormed.machine_eq_of_name_eq (hp : p.WellFormed) {m' : Machine}
    (hm : m ∈ p.machines.live) (hm' : m' ∈ p.machines.live) (hname : m.name = m'.name) :
    m = m' := by
  have hfound := hp.machine?_eq_some_iff.mpr ⟨hm, hname⟩
  rw [hp.machine?_eq_some_iff.mpr ⟨hm', rfl⟩] at hfound
  exact (Option.some.inj hfound).symm

theorem nodup_missingStartStates (hp : p.WellFormed) : p.missingStartStates.Nodup := by
  refine List.pairwise_map.mpr ((hp.pairwise_names.filter _).imp ?_)
  intro m m' hne heq
  exact hne (Issue.missingStartState.inj heq)

theorem nodup_unknownSubmachines (hp : p.WellFormed) : p.unknownSubmachines.Nodup := by
  refine List.pairwise_flatMap.mpr ⟨fun m hm => ?_, hp.pairwise_names.imp ?_⟩
  · have hnames : m.states.live.Pairwise fun s s' => s.name ≠ s'.name :=
      List.pairwise_map.mp (hp.live m hm).indexed.nodup_names
    refine List.pairwise_filterMap.mpr (hnames.imp ?_)
    intro s s' hne issue hissue issue' hissue' heq
    obtain ⟨_, -, -, rfl⟩ := unknownCall?_eq_some_iff.mp hissue
    obtain ⟨_, -, -, rfl⟩ := unknownCall?_eq_some_iff.mp hissue'
    exact hne (Issue.unknownSubmachine.inj heq).2.1
  · intro m m' hne issue hissue issue' hissue' heq
    obtain ⟨_, -, hs⟩ := List.mem_filterMap.mp hissue
    obtain ⟨_, -, hs'⟩ := List.mem_filterMap.mp hissue'
    obtain ⟨_, -, -, rfl⟩ := unknownCall?_eq_some_iff.mp hs
    obtain ⟨_, -, -, rfl⟩ := unknownCall?_eq_some_iff.mp hs'
    exact hne (Issue.unknownSubmachine.inj heq).1

theorem nodup_unreachableStates (hp : p.WellFormed) : p.unreachableStates.Nodup := by
  refine List.pairwise_filterMap.mpr (hp.pairwise_names.imp ?_)
  intro m m' hne issue hissue issue' hissue' heq
  obtain ⟨_, -, -, rfl⟩ := unreachableIssue?_eq_some_iff.mp hissue
  obtain ⟨_, -, -, rfl⟩ := unreachableIssue?_eq_some_iff.mp hissue'
  exact hne (Issue.unreachableStates.inj heq).1

theorem nodup_submachineCycles (p : Project) : p.submachineCycles.Nodup :=
  (nodup_eraseDups _).map fun _ _ heq => Issue.submachineCycle.inj heq

/-- No finding twice, and only findings of the first `k` kinds. -/
def NodupBelow (k : Nat) (l : List Issue) : Prop :=
  l.Nodup ∧ ∀ issue ∈ l, issue.rank < k

/-- Findings of the next kind are none of those before. -/
theorem NodupBelow.append {k : Nat} {l l' : List Issue} (hl : NodupBelow k l) (hl' : l'.Nodup)
    (hrank : ∀ issue ∈ l', issue.rank = k) : NodupBelow (k + 1) (l ++ l') := by
  refine ⟨List.nodup_append.mpr ⟨hl.1, hl', ?_⟩, fun issue hissue => ?_⟩
  · rintro issue hissue _ hissue' rfl
    have hlt := hl.2 issue hissue
    rw [hrank issue hissue'] at hlt
    exact Nat.lt_irrefl k hlt
  · rcases List.mem_append.mp hissue with hold | hnew
    · exact Nat.lt_succ_of_lt (hl.2 issue hold)
    · exact Nat.lt_succ_of_le (Nat.le_of_eq (hrank issue hnew))

theorem nodup_analyze (hp : p.WellFormed) : p.analyze.Nodup := by
  have hmissing : NodupBelow 1 p.missingStartStates := by
    refine ⟨nodup_missingStartStates hp, fun issue hissue => ?_⟩
    rw [rank_of_mem_missingStartStates hissue]
    exact Nat.one_pos
  have hunknown : NodupBelow 2 (p.missingStartStates ++ p.unknownSubmachines) :=
    hmissing.append (nodup_unknownSubmachines hp) fun _ => rank_of_mem_unknownSubmachines
  have hunreachable :
      NodupBelow 3 (p.missingStartStates ++ p.unknownSubmachines ++ p.unreachableStates) :=
    hunknown.append (nodup_unreachableStates hp) fun _ => rank_of_mem_unreachableStates
  have hall := hunreachable.append (nodup_submachineCycles p) fun _ => rank_of_mem_submachineCycles
  exact (List.mergeSort_perm _ _).nodup_iff.mpr hall.1

/-! ## Reports -/

theorem pairwise_analyze (hp : p.WellFormed) : p.analyze.Pairwise Issue.Before := by
  have hsorted : p.analyze.Pairwise fun a b => a.le b = true :=
    List.pairwise_mergeSort Issue.le_trans Issue.le_total _
  exact (hsorted.and (nodup_analyze hp)).imp fun h => Issue.before_of_le h.1 h.2

/-- What a report finds determines the report. -/
theorem analyze_eq_of_mem_iff (hp : p.WellFormed) (hq : q.WellFormed)
    (h : ∀ issue, issue ∈ p.analyze ↔ issue ∈ q.analyze) : p.analyze = q.analyze :=
  eq_of_pairwise_of_mem_iff Issue.Before.asymm (pairwise_analyze hp) (pairwise_analyze hq) h

/-- What a project fails with is the finding that comes before all others. -/
theorem WellFormed.validate_eq_error_iff (hp : p.WellFormed) {e : Error} :
    p.validate = .error e ↔ ∃ issue ∈ p.analyze, e = issue.toError ∧
      ∀ other ∈ p.analyze, other ≠ issue → issue.Before other := by
  rw [Project.validate_eq_error_iff]
  have hsorted := pairwise_analyze hp
  cases hreport : p.analyze with
  | nil => simp
  | cons first rest =>
    rw [hreport] at hsorted
    have hfirst := (List.pairwise_cons.mp hsorted).1
    constructor
    · rintro ⟨issue, hissue, rfl⟩
      cases hissue
      refine ⟨first, List.mem_cons_self, rfl, fun other hother hne => ?_⟩
      exact hfirst other ((List.mem_cons.mp hother).resolve_left hne)
    · rintro ⟨issue, hissue, rfl, hleast⟩
      refine ⟨issue, ?_, rfl⟩
      rcases List.mem_cons.mp hissue with rfl | hrest
      · rfl
      · -- Both would come before the other.
        have hbefore := hfirst issue hrest
        have hne : first ≠ issue := by
          rintro rfl
          exact hbefore.asymm hbefore
        exact absurd hbefore (hleast first List.mem_cons_self hne).asymm

end Project

end HierarchicalTuring
