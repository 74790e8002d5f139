import HierarchicalTuring.Analysis.CallLoop
import HierarchicalTuring.Proofs.Project.WellFormed
import Mathlib.Data.List.Chain
import Mathlib.Data.List.Perm.Subperm
import Mathlib.Data.List.TakeWhile

/-! # Chains of calls between start states

* `Project.Calls p a b`: the start state of the machine named `a` calls the machine named `b`.
* `Project.CallsEnd p m k`: the chain of calls from a machine ends after `k` calls.
  `callsEnd_of_loopFrom?` says that a search without a result means so, and bounds `k` by the number
  of machines.
* `Project.IsLoop p loop`: the machines call one another in a circle, each of them once. A search
  that has a result finds such a loop (`isLoop_of_loopFrom?`), and a loop is never left
  (`IsLoop.exists_next`).
-/

set_option autoImplicit false

namespace HierarchicalTuring

namespace Project

variable {p : Project} {m next : Machine}

theorem next?_eq_some_iff :
    p.next? m = some next ↔ ∃ h state name, m.start? = some (h, state) ∧
      state.submachine = some name ∧ p.machine? name = some next := by
  simp only [next?, bind, Option.bind_eq_some_iff, Prod.exists]
  constructor
  · rintro ⟨h, state, hstart, name, hsub, hname⟩
    exact ⟨h, state, name, hstart, hsub, hname⟩
  · rintro ⟨h, state, name, hstart, hsub, hname⟩
    exact ⟨h, state, hstart, name, hsub, hname⟩

/-- The machine of a call is found by its own name. -/
theorem WellFormed.machine?_next (hp : p.WellFormed) (h : p.next? m = some next) :
    p.machine? next.name = some next := by
  obtain ⟨_, _, name, -, -, hname⟩ := next?_eq_some_iff.mp h
  exact hp.machine?_eq_some_iff.mpr ⟨(hp.machine?_eq_some_iff.mp hname).1, rfl⟩

theorem WellFormed.mem_names_of_machine? (hp : p.WellFormed) {name : String}
    (h : p.machine? name = some m) : name ∈ p.machineNames :=
  List.mem_map.mpr ⟨m, hp.machine?_eq_some_iff.mp h⟩

theorem WellFormed.machineCount_eq (hp : p.WellFormed) : p.machineCount = p.machineNames.length :=
  hp.indexed.size_eq.trans (List.length_map Named.name).symm

/-- Distinct names of machines are no more than there are machines. -/
theorem WellFormed.length_le_machineCount (hp : p.WellFormed) {chain : List String}
    (hnodup : chain.Nodup) (hchain : ∀ name ∈ chain, name ∈ p.machineNames) :
    chain.length ≤ p.machineCount := by
  rw [hp.machineCount_eq]
  exact (hnodup.subperm hchain).length_le

/-! ## Chains that end -/

/-- The chain of calls from the machine ends after `k` calls. -/
inductive CallsEnd (p : Project) : Machine → Nat → Prop
  | last {m : Machine} : p.next? m = none → CallsEnd p m 0
  | call {m next : Machine} {k : Nat} :
      p.next? m = some next → CallsEnd p next k → CallsEnd p m (k + 1)

/-- With enough fuel, a search without a result has come to the end of the chain. -/
theorem callsEnd_of_follow (hp : p.WellFormed) {fuel : Nat} {chain : List String}
    (hnodup : chain.Nodup) (hchain : ∀ name ∈ chain, name ∈ p.machineNames)
    (hfuel : p.machineCount < chain.length + fuel) (h : p.follow chain m fuel = none) :
    ∃ k, p.CallsEnd m k ∧ k + chain.length ≤ p.machineCount := by
  have hlength := hp.length_le_machineCount hnodup hchain
  -- A chain that uses up the fuel would be longer than the number of machines.
  induction fuel generalizing chain m with
  | zero => omega
  | succ fuel ih =>
    unfold follow at h
    split at h
    · next hnone => exact ⟨0, .last hnone, by omega⟩
    next next hnext =>
    split at h
    · cases h
    next hnew =>
    have hnodup' : (chain ++ [next.name]).Nodup :=
      List.nodup_append.mpr ⟨hnodup, List.nodup_singleton _, by
        rintro a ha b hb rfl
        exact hnew (List.mem_singleton.mp hb ▸ ha)⟩
    have hchain' : ∀ name ∈ chain ++ [next.name], name ∈ p.machineNames := by
      intro name hname
      rcases List.mem_append.mp hname with hold | hlast
      · exact hchain name hold
      · rw [List.mem_singleton.mp hlast]
        exact hp.mem_names_of_machine? (hp.machine?_next hnext)
    have hlength' := hp.length_le_machineCount hnodup' hchain'
    rw [List.length_append, List.length_singleton] at hlength'
    obtain ⟨k, hk, hbound⟩ := ih hnodup' hchain' (by simp; omega) h (by simpa using hlength')
    rw [List.length_append, List.length_singleton] at hbound
    exact ⟨k + 1, .call hnext hk, by omega⟩

theorem callsEnd_of_loopFrom? (hp : p.WellFormed) (hm : m ∈ p.machines.live)
    (h : p.loopFrom? m = none) : ∃ k, p.CallsEnd m k ∧ k < p.machineCount := by
  have hname : ∀ name ∈ [m.name], name ∈ p.machineNames := by
    intro name hname
    rw [List.mem_singleton.mp hname]
    exact List.mem_map_of_mem hm
  obtain ⟨k, hk, hbound⟩ :=
    callsEnd_of_follow hp (List.nodup_singleton m.name) hname (by simp; omega) h
  exact ⟨k, hk, hbound⟩

/-! ## Loops -/

/-- The start state of one machine calls the other. -/
def Calls (p : Project) (a b : String) : Prop :=
  ∃ m next, p.machine? a = some m ∧ p.next? m = some next ∧ next.name = b

/-- The machines call one another in a circle, each of them once. -/
structure IsLoop (p : Project) (loop : List String) : Prop where
  nodup : loop.Nodup
  circle : ∃ first rest, loop = first :: rest ∧ (loop ++ [first]).IsChain p.Calls

theorem exists_of_isChain_append {α : Type} {R : α → α → Prop} {l : List α} {last a : α}
    (h : (l ++ [last]).IsChain R) (ha : a ∈ l) : ∃ b ∈ l ++ [last], R a b := by
  obtain ⟨before, after, rfl⟩ := List.append_of_mem ha
  rw [List.append_assoc, List.cons_append] at h
  have hright := h.right_of_append
  cases after with
  | nil =>
    exact ⟨last, by simp, (List.isChain_cons_cons.mp hright).1⟩
  | cons b after =>
    exact ⟨b, by simp, (List.isChain_cons_cons.mp hright).1⟩

/-- Every machine of a loop calls one of the loop. -/
theorem IsLoop.exists_next {loop : List String} (h : p.IsLoop loop) {name : String}
    (hname : name ∈ loop) : ∃ m next, p.machine? name = some m ∧ p.next? m = some next ∧
      next.name ∈ loop := by
  obtain ⟨first, rest, hloop, hcircle⟩ := h.circle
  obtain ⟨b, hb, m, next, hm, hnext, rfl⟩ := exists_of_isChain_append hcircle hname
  refine ⟨m, next, hm, hnext, ?_⟩
  rcases List.mem_append.mp hb with hold | hlast
  · exact hold
  · rw [List.mem_singleton.mp hlast, hloop]
    exact List.mem_cons_self

/-- A search that has a result finds a loop. -/
theorem isLoop_of_follow (hp : p.WellFormed) {fuel : Nat} {chain loop : List String}
    (hnodup : chain.Nodup) (hchain : chain.IsChain p.Calls)
    (hlast : chain.getLast? = some m.name) (hm : p.machine? m.name = some m)
    (h : p.follow chain m fuel = some loop) : p.IsLoop loop := by
  induction fuel generalizing chain m with
  | zero => cases h
  | succ fuel ih =>
    unfold follow at h
    split at h
    · cases h
    next next hnext =>
    have hchain' : (chain ++ [next.name]).IsChain p.Calls := by
      refine List.isChain_append.mpr ⟨hchain, List.IsChain.singleton _, ?_⟩
      intro a ha b hb
      rw [hlast] at ha
      cases ha
      cases hb
      exact ⟨m, next, hm, hnext, rfl⟩
    split at h
    · next hseen =>
      cases h
      obtain ⟨before, after, hsplit, hbefore⟩ := List.eq_append_cons_of_mem hseen
      have hdrop : chain.dropWhile (fun name => name ≠ next.name) = next.name :: after := by
        rw [hsplit, List.dropWhile_append_of_pos (by
          intro name hname
          simpa using fun heq : name = next.name => hbefore (heq ▸ hname))]
        simp
      rw [hdrop]
      refine ⟨(hsplit ▸ hnodup).sublist (List.sublist_append_right _ _), next.name, after, rfl, ?_⟩
      rw [hsplit, List.append_assoc] at hchain'
      exact hchain'.right_of_append
    · next hnew =>
      refine ih ?_ hchain' (by simp) (hp.machine?_next hnext) h
      refine List.nodup_append.mpr ⟨hnodup, List.nodup_singleton _, ?_⟩
      rintro a ha b hb rfl
      exact hnew (List.mem_singleton.mp hb ▸ ha)

theorem isLoop_of_loopFrom? (hp : p.WellFormed) (hm : m ∈ p.machines.live) {loop : List String}
    (h : p.loopFrom? m = some loop) : p.IsLoop loop :=
  isLoop_of_follow hp (List.nodup_singleton _) (List.IsChain.singleton _) rfl
    (hp.machine?_eq_some_iff.mpr ⟨hm, rfl⟩) h

theorem mem_rotateToLeast {names : List String} {name : String} :
    name ∈ rotateToLeast names ↔ name ∈ names := by
  unfold rotateToLeast
  cases least? names with
  | none => rfl
  | some least =>
    rw [List.mem_append, Or.comm, ← List.mem_append, List.takeWhile_append_dropWhile]

theorem mem_callLoops {loop : List String} :
    loop ∈ p.callLoops ↔ ∃ m ∈ p.machines.live, ∃ found, p.loopFrom? m = some found ∧
      rotateToLeast found = loop := by
  simp [callLoops, List.mem_eraseDups]

end Project

end HierarchicalTuring
