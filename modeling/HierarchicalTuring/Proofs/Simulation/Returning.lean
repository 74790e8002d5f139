import HierarchicalTuring.Proofs.Simulation.Callers
import HierarchicalTuring.Proofs.Simulation.StepEffect

/-! # Returning pops the accepting top of the stack

* `Simulation.Returns n s t` is the loop that returns from accepting states, one caller after the
  other: it goes from `s` to `t` and pops `n` frames. It always stops, and it stops where
  `returnFromAccepting` does (`Returns.eq_returnFromAccepting`, `exists_returns`).
* `Frame.RestOn` says of some frames that the innermost one does not accept. The frames that are left
  are the longest part of the stack, counted from the outermost frame on, of which this holds
  (`Frame.RestOn.isLongestPrefix`).
* `Simulation.return_pops_accepting_top` puts this together.
-/

set_option autoImplicit false

namespace HierarchicalTuring

/-- The list is the longest prefix of another one that has a property. -/
def IsLongestPrefix {α : Type} (P : List α → Prop) (kept all : List α) : Prop :=
  kept <+: all ∧ P kept ∧ ∀ other, other <+: all → P other → other <+: kept

/-- The innermost of some frames, the outermost first, is in a state that does not accept. -/
def Frame.RestOn (frames : List Frame) : Prop :=
  ∃ innermost, frames.getLast? = some innermost ∧ innermost.state.accepting = false

/-- Accepting frames on top do not count. -/
theorem Frame.RestOn.isLongestPrefix {kept popped : List Frame} (hkept : RestOn kept)
    (hpopped : ∀ frame ∈ popped, frame.state.accepting = true) :
    IsLongestPrefix RestOn kept (kept ++ popped) := by
  refine ⟨List.prefix_append kept popped, hkept, fun other hother hrest => ?_⟩
  rcases List.prefix_or_prefix_of_prefix hother (List.prefix_append kept popped) with hle | hle
  · exact hle
  · obtain ⟨more, rfl⟩ := hle
    have hmore : more <+: popped := (List.prefix_append_right_inj kept).mp hother
    obtain ⟨innermost, hlast, hnot⟩ := hrest
    -- A longer part would end in one of the accepting frames.
    cases hend : more.getLast? with
    | none =>
      cases List.getLast?_eq_none_iff.mp hend
      exact ⟨[], by simp⟩
    | some last =>
      rw [List.getLast?_append, hend, Option.some_or] at hlast
      cases hlast
      rw [hpopped innermost (hmore.subset (List.mem_of_getLast? hend))] at hnot
      cases hnot

namespace Simulation

variable {s t : Simulation} {n : Nat}

/-! ## The loop -/

/-- Returning pops `n` frames. While the current state accepts, the caller takes the place of the
current frame, and the simulation is accepted when there is no caller. -/
inductive Returns : Nat → Simulation → Simulation → Prop
  | rests {s : Simulation} : s.current.state.accepting = false → Returns 0 s s
  | accepts {s : Simulation} : s.current.state.accepting = true → s.stack.callers = [] →
      Returns 0 s { s with status := .accepted }
  | pops {s t : Simulation} {n : Nat} {caller : Frame} {rest : List Frame} :
      s.current.state.accepting = true → s.stack.callers = caller :: rest →
      Returns n { s with stack := ⟨caller, rest⟩ } t → Returns (n + 1) s t

theorem returnFromAccepting_of_not_accepting (h : s.current.state.accepting = false) :
    s.returnFromAccepting = s := by
  have hunwind : s.stack.unwind = s.stack :=
    CallStack.unwindFrom_of_not_accepting h s.stack.callers
  have hcurrent : s.stack.current.state.accepting = false := h
  unfold returnFromAccepting
  simp only [hunwind, hcurrent, Bool.false_eq_true, if_false]

theorem returnFromAccepting_of_outermost (h : s.current.state.accepting = true)
    (hcallers : s.stack.callers = []) :
    s.returnFromAccepting = { s with status := .accepted } := by
  have hunwind : s.stack.unwind = s.stack := CallStack.unwind_of_callers_eq_nil hcallers
  have hcurrent : s.stack.current.state.accepting = true := h
  unfold returnFromAccepting
  simp only [hunwind, hcurrent, if_true]

theorem returnFromAccepting_of_caller (h : s.current.state.accepting = true) {caller : Frame}
    {rest : List Frame} (hcallers : s.stack.callers = caller :: rest) :
    s.returnFromAccepting = { s with stack := ⟨caller, rest⟩ }.returnFromAccepting := by
  have hunwind : s.stack.unwind = CallStack.unwind ⟨caller, rest⟩ := by
    rw [CallStack.unwind, hcallers]
    exact CallStack.unwindFrom_cons_of_accepting h caller rest
  unfold returnFromAccepting
  simp only [hunwind]

/-- The loop stops where the function does, and has popped what is missing there. -/
theorem Returns.eq_returnFromAccepting (h : Returns n s t) :
    t = s.returnFromAccepting ∧ n + t.depth = s.depth := by
  induction h with
  | rests hrest => exact ⟨(returnFromAccepting_of_not_accepting hrest).symm, Nat.zero_add _⟩
  | accepts haccepting hnone =>
    exact ⟨(returnFromAccepting_of_outermost haccepting hnone).symm, Nat.zero_add _⟩
  | @pops s t n caller rest haccepting hcallers _ ih =>
    obtain ⟨rfl, hdepth⟩ := ih
    refine ⟨(returnFromAccepting_of_caller haccepting hcallers).symm, ?_⟩
    have hlength : s.depth = rest.length + 1 + 1 := by
      simp only [depth, CallStack.depth, hcallers, List.length_cons]
    have hpopped : ({ s with stack := ⟨caller, rest⟩ } : Simulation).depth = rest.length + 1 := rfl
    omega

theorem exists_returns (s : Simulation) : ∃ n, Returns n s s.returnFromAccepting := by
  -- Every round takes one caller away.
  generalize hcallers : s.stack.callers = callers
  induction callers generalizing s with
  | nil =>
    cases haccepting : s.current.state.accepting with
    | false =>
      rw [returnFromAccepting_of_not_accepting haccepting]
      exact ⟨0, .rests haccepting⟩
    | true =>
      rw [returnFromAccepting_of_outermost haccepting hcallers]
      exact ⟨0, .accepts haccepting hcallers⟩
  | cons caller rest ih =>
    cases haccepting : s.current.state.accepting with
    | false =>
      rw [returnFromAccepting_of_not_accepting haccepting]
      exact ⟨0, .rests haccepting⟩
    | true =>
      obtain ⟨n, hn⟩ := ih { s with stack := ⟨caller, rest⟩ } rfl
      rw [returnFromAccepting_of_caller haccepting hcallers]
      exact ⟨n + 1, .pops haccepting hcallers hn⟩

/-! ## What is left -/

/-- Either the top of the stack does not accept, or the outermost frame is left and accepts. -/
theorem returnFromAccepting_cases (s : Simulation) :
    (Frame.RestOn s.returnFromAccepting.frames ∧ s.returnFromAccepting.status = s.status) ∨
      (∃ outermost, s.returnFromAccepting.frames = [outermost] ∧
        outermost.state.accepting = true ∧ s.returnFromAccepting.status = .accepted) := by
  have hcurrent : s.returnFromAccepting.stack = s.stack.unwind := rfl
  cases haccepting : s.stack.unwind.current.state.accepting with
  | false =>
    refine .inl ⟨⟨s.stack.unwind.current, ?_, haccepting⟩, ?_⟩
    · rw [frames, hcurrent, CallStack.frames, List.getLast?_concat]
    · unfold returnFromAccepting
      simp only [haccepting, Bool.false_eq_true, if_false]
  | true =>
    have hnone := CallStack.callers_unwindFrom_of_accepting s.stack.current s.stack.callers haccepting
    refine .inr ⟨s.stack.unwind.current, ?_, haccepting, ?_⟩
    · rw [frames, hcurrent, CallStack.frames, CallStack.unwind, hnone]
      rfl
    · unfold returnFromAccepting
      simp only [haccepting, if_true]

/-- Returning pops the frames on top that accept, and nothing else is changed but the status: the
loop stops, with the outermost frame and accepted if every frame accepts, and otherwise still running
with the longest part of the stack whose innermost frame does not accept. -/
theorem return_pops_accepting_top (hs : s.status = .running) :
    (∃ n < s.depth, Returns n s s.returnFromAccepting) ∧
    (∀ n t, Returns n s t → t = s.returnFromAccepting ∧ n + t.depth = s.depth) ∧
    (s.returnFromAccepting.project = s.project ∧ s.returnFromAccepting.head = s.head ∧
      s.returnFromAccepting.stepCount = s.stepCount) ∧
    ((∀ frame ∈ s.frames, frame.state.accepting = true) →
      s.returnFromAccepting.status = .accepted ∧
      ∃ outermost, s.frames.head? = some outermost ∧
        s.returnFromAccepting.frames = [outermost]) ∧
    ((∃ frame ∈ s.frames, frame.state.accepting = false) →
      s.returnFromAccepting.status = .running ∧
      IsLongestPrefix Frame.RestOn s.returnFromAccepting.frames s.frames) := by
  obtain ⟨n, hn⟩ := exists_returns s
  have hdepth := hn.eq_returnFromAccepting.2
  obtain ⟨popped, hframes, hpopped⟩ :=
    CallStack.exists_frames_unwindFrom s.stack.current s.stack.callers
  have hsplit : s.frames = s.returnFromAccepting.frames ++ popped := hframes
  refine ⟨⟨n, ?_, hn⟩, fun n t h => h.eq_returnFromAccepting, ⟨rfl, rfl, rfl⟩, fun hall => ?_,
    fun hwaits => ?_⟩
  · have hpos : 0 < s.returnFromAccepting.depth := Nat.succ_pos _
    omega
  · rcases returnFromAccepting_cases s with
      ⟨⟨innermost, hlast, hnot⟩, -⟩ | ⟨outermost, hleft, -, hstatus⟩
    · have hmem : innermost ∈ s.frames :=
        hsplit ▸ List.mem_append_left popped (List.mem_of_getLast? hlast)
      rw [hall innermost hmem] at hnot
      cases hnot
    · exact ⟨hstatus, outermost, by rw [hsplit, hleft]; rfl, hleft⟩
  · rcases returnFromAccepting_cases s with ⟨hrest, hstatus⟩ | ⟨outermost, hleft, haccepting, -⟩
    · exact ⟨hstatus.trans hs, hsplit ▸ hrest.isLongestPrefix hpopped⟩
    · obtain ⟨frame, hframe, hnot⟩ := hwaits
      rw [hsplit, hleft, List.singleton_append] at hframe
      rcases List.mem_cons.mp hframe with rfl | hmem
      · rw [haccepting] at hnot
        cases hnot
      · rw [hpopped frame hmem] at hnot
        cases hnot

/-- Of three frames the last two accept, so the first one is left. Of two frames that both accept the
first one is left as well, and the simulation is accepted. -/
theorem returns_of_sample : ∃ waiting passing top,
    Frame.named? Project.sample.1 "main" "call" = some waiting ∧
    Frame.named? Project.sample.1 "main" "done" = some passing ∧
    Frame.named? Project.sample.1 "pair" "end" = some top ∧
    ∃ s t, s = runningIn Project.sample.1 (.start (.ofText "" '_')) 3 [waiting, passing] top ∧
      t = runningIn Project.sample.1 (.start (.ofText "" '_')) 3 [passing] top ∧
      s.status = .running ∧ t.status = .running ∧
      s.returnFromAccepting.status = .running ∧
      s.returnFromAccepting.frames = [waiting] ∧
      IsLongestPrefix Frame.RestOn s.returnFromAccepting.frames [waiting, passing, top] ∧
      t.returnFromAccepting.status = .accepted ∧ t.returnFromAccepting.frames = [passing] := by
  let waiting := (Frame.named? Project.sample.1 "main" "call").get rfl
  let passing := (Frame.named? Project.sample.1 "main" "done").get rfl
  let top := (Frame.named? Project.sample.1 "pair" "end").get rfl
  let s := runningIn Project.sample.1 (.start (.ofText "" '_')) 3 [waiting, passing] top
  let t := runningIn Project.sample.1 (.start (.ofText "" '_')) 3 [passing] top
  obtain ⟨-, -, -, -, hwaits⟩ := return_pops_accepting_top (s := s) rfl
  obtain ⟨-, -, -, hall, -⟩ := return_pops_accepting_top (s := t) rfl
  have hwaiting : ∃ frame ∈ s.frames, frame.state.accepting = false :=
    ⟨waiting, List.mem_cons_self, rfl⟩
  have hpassing : ∀ frame ∈ t.frames, frame.state.accepting = true :=
    List.forall_mem_cons.mpr ⟨rfl, List.forall_mem_singleton.mpr rfl⟩
  obtain ⟨hrunning, hlongest⟩ := hwaits hwaiting
  obtain ⟨haccepted, outermost, houtermost, hleft⟩ := hall hpassing
  cases houtermost
  exact ⟨waiting, passing, top, rfl, rfl, rfl, s, t, rfl, rfl, rfl, rfl, hrunning, rfl, hlongest,
    haccepted, hleft⟩

end Simulation

end HierarchicalTuring
