import HierarchicalTuring.Proofs.Analysis.CallChain
import HierarchicalTuring.Proofs.Simulation.Frames

/-! # How deep calls go

Following calls stops at a limit, which is the number of machines of the project. The limit decides
nothing: a chain of calls that ends is never cut by it, and one that does not end always runs into
it.

* `Frame.CallsEnd p frame k`: the chain of calls from a frame ends after `k` calls. Each call of it
  enters another machine, so `k` is at most the number of machines (`CallsEnd.le_machineCount`).
* `CallStack.enter_of_callsEnd`: every limit from `k` on leads to the same result, in each project
  that answers the calls alike.
* `CallStack.enter_of_endless`: without such a `k` every limit is run into.
-/

set_option autoImplicit false

namespace HierarchicalTuring

variable {p q : Project}

namespace Frame

/-- The chain of calls from the frame ends after `k` calls, well or with an error. -/
inductive CallsEnd (p : Project) : Frame → Nat → Prop
  | last {frame : Frame} :
      (∀ name callee, frame.callee? p ≠ .ok (some (name, callee))) → CallsEnd p frame 0
  | call {frame callee : Frame} {name : String} {k : Nat} :
      frame.callee? p = .ok (some (name, callee)) → CallsEnd p callee k →
      CallsEnd p frame (k + 1)

namespace CallsEnd

variable {frame : Frame} {k : Nat}

theorem unique {l : Nat} (hk : CallsEnd p frame k) (hl : CallsEnd p frame l) : k = l := by
  induction hk generalizing l with
  | last hnone =>
    cases hl with
    | last _ => rfl
    | call hcallee _ => exact absurd hcallee (hnone _ _)
  | call hcallee _ ih =>
    cases hl with
    | last hnone => exact absurd hcallee (hnone _ _)
    | call hcallee' hrest =>
      rw [hcallee] at hcallee'
      cases hcallee'
      exact congrArg Nat.succ (ih hrest)

/-- The machines that are entered, each with the rest of the chain that its start state has. -/
theorem exists_entered (hp : p.WellFormed) (h : CallsEnd p frame k) :
    ∃ names : List String, names.length = k ∧ names.Nodup ∧
      (∀ name ∈ names, name ∈ p.machineNames) ∧
      ∀ name ∈ names, ∃ m callee l, p.machine? name = some m ∧ start m = .ok callee ∧
        CallsEnd p callee l ∧ l < k := by
  induction h with
  | last _ => exact ⟨[], rfl, List.nodup_nil, by simp, by simp⟩
  | @call frame callee name k hcallee hrest ih =>
    obtain ⟨names, hlength, hnodup, hlive, hentered⟩ := ih
    obtain ⟨-, m, hm, hstart⟩ := callee?_eq_some_iff.mp hcallee
    -- A machine that is entered again would begin the same chain with fewer calls left.
    have hnew : name ∉ names := by
      intro hmem
      obtain ⟨m', callee', l, hm', hstart', hl, hlt⟩ := hentered name hmem
      rw [hm] at hm'
      cases hm'
      rw [hstart] at hstart'
      cases hstart'
      have heq := hrest.unique hl
      omega
    refine ⟨name :: names, by simp [hlength], List.nodup_cons.mpr ⟨hnew, hnodup⟩,
      List.forall_mem_cons.mpr ⟨hp.mem_names_of_machine? hm, hlive⟩,
      List.forall_mem_cons.mpr ⟨⟨m, callee, k, hm, hstart, hrest, Nat.lt_succ_self k⟩, ?_⟩⟩
    intro other hother
    obtain ⟨m', callee', l, hm', hstart', hl, hlt⟩ := hentered other hother
    exact ⟨m', callee', l, hm', hstart', hl, Nat.lt_succ_of_lt hlt⟩

theorem le_machineCount (hp : p.WellFormed) (h : CallsEnd p frame k) : k ≤ p.machineCount := by
  obtain ⟨names, hlength, hnodup, hlive, -⟩ := h.exists_entered hp
  have hcount := hp.length_le_machineCount hnodup hlive
  omega

end CallsEnd

theorem exists_callee_of_endless {frame : Frame} (h : ∀ k, ¬ CallsEnd p frame k) :
    ∃ name callee, frame.callee? p = .ok (some (name, callee)) ∧ ∀ k, ¬ CallsEnd p callee k := by
  by_contra hnone
  refine h 0 (.last fun name callee hcallee => hnone ⟨name, callee, hcallee, fun k hk => ?_⟩)
  exact h (k + 1) (.call hcallee hk)

end Frame

/-- A state that enters no machine ends the entering, well or with an error. -/
theorem CallStack.enter_of_last {c : CallStack}
    (h : ∀ name callee, c.current.callee? p ≠ .ok (some (name, callee))) (remaining : Nat) :
    c.enter p remaining = ((c.current.callee? p).map fun _ => (), c) := by
  rcases hcallee : c.current.callee? p with e | _ | ⟨name, callee⟩
  · cases remaining <;> simp only [enter, hcallee, Except.map]
  · cases remaining <;> simp only [enter, hcallee, Except.map]
  · exact absurd hcallee (h name callee)

/-! ## Two projects that answer calls alike -/

section Alike

-- `P` is what is known of the frames of a chain, so that both projects answer their calls alike.
variable {P : Frame → Prop}
  (hcallee : ∀ {frame : Frame}, P frame → frame.callee? q = frame.callee? p)
  (hpush : ∀ {frame callee : Frame} {name : String}, P frame →
    frame.callee? p = .ok (some (name, callee)) → P callee)

include hcallee hpush

theorem Frame.CallsEnd.of_callee?_eq {frame : Frame} {k : Nat} (h : frame.CallsEnd q k)
    (hframe : P frame) : frame.CallsEnd p k := by
  induction h with
  | last hnone =>
    rw [hcallee hframe] at hnone
    exact .last hnone
  | call hcalls _ ih =>
    rw [hcallee hframe] at hcalls
    exact .call hcalls (ih (hpush hframe hcalls))

namespace CallStack

/-- A chain that ends is followed to its end, whatever else the limit allows. -/
theorem enter_of_callsEnd {frame : Frame} {k : Nat} (hends : frame.CallsEnd p k) {c : CallStack}
    (hc : c.current = frame) (hframe : P frame) {limit limit' : Nat} (hlimit : k ≤ limit)
    (hlimit' : k ≤ limit') : c.enter q limit' = c.enter p limit := by
  induction hends generalizing c limit limit' with
  | @last frame hnone =>
    subst hc
    have hq : c.current.callee? q = c.current.callee? p := hcallee hframe
    rw [enter_of_last (p := q) (hq ▸ hnone), enter_of_last hnone, hq]
  | @call frame callee name k hcalls _ ih =>
    subst hc
    obtain ⟨limit, rfl⟩ : ∃ r, limit = r + 1 := ⟨limit - 1, by omega⟩
    obtain ⟨limit', rfl⟩ : ∃ r, limit' = r + 1 := ⟨limit' - 1, by omega⟩
    have hcalls' : c.current.callee? q = .ok (some (name, callee)) :=
      (hcallee hframe).trans hcalls
    rw [enter_succ_of_callee hcalls, enter_succ_of_callee hcalls']
    exact ih rfl (hpush hframe hcalls) (by omega) (by omega)

end CallStack

end Alike

namespace CallStack

/-- A chain that does not end runs into every limit. -/
theorem enter_of_endless {c : CallStack} (hendless : ∀ k, ¬ c.current.CallsEnd p k) (limit : Nat) :
    ∃ name stack, c.enter p limit =
      (.error (.infiniteSubmachineLoop name (p.machineCount + 1)), stack) := by
  induction limit generalizing c with
  | zero =>
    obtain ⟨name, callee, hcallee, -⟩ := Frame.exists_callee_of_endless hendless
    exact ⟨name, c, by simp only [enter, hcallee]⟩
  | succ limit ih =>
    obtain ⟨name, callee, hcallee, hnext⟩ := Frame.exists_callee_of_endless hendless
    rw [enter_succ_of_callee hcallee]
    exact ih (c := c.push callee) hnext

end CallStack

end HierarchicalTuring
